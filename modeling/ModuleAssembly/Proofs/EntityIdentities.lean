import ModuleAssembly.Proofs.ImportBlock
import ModuleAssembly.Proofs.RegistryHistory

/-!
# Identities of entities

An entity is known to other modules by its home and its local name. The home leaves out the file
extension of the schema file, and the local name leaves out the package and writes a dot as an
underscore, so entities of different type names may have one identity. They do exactly if they clash
(`Entity.Clash`), and exactly then a module that refers to both writes one identifier for them
(`Registry.identities`).
-/

set_option autoImplicit false

namespace ModuleAssembly

/-! ## Entities that clash -/

/-- Letters that a local name does not tell apart. -/
def SameLetter (a b : Char) : Prop := a = b ∨ (a ∈ ['.', '_'] ∧ b ∈ ['.', '_'])

instance (a b : Char) : Decidable (SameLetter a b) :=
  inferInstanceAs (Decidable (a = b ∨ (a ∈ ['.', '_'] ∧ b ∈ ['.', '_'])))

theorem SameLetter.eq {a b : Char} (h : SameLetter a b) (ha : a ≠ '_') (hb : b ≠ '_') : a = b := by
  rcases h with h | ⟨hadot, hbdot⟩
  · exact h
  · have hadot' : a = '.' := by simpa [ha] using hadot
    have hbdot' : b = '.' := by simpa [hb] using hbdot
    rw [hadot', hbdot']

theorem eq_of_forall₂_sameLetter {cs cs' : List Char} (h : List.Forall₂ SameLetter cs cs')
    (hcs : '_' ∉ cs) (hcs' : '_' ∉ cs') : cs = cs' := by
  induction h with
  | nil => rfl
  | cons hletter _ ih =>
      rw [List.mem_cons, not_or] at hcs hcs'
      rw [hletter.eq (Ne.symm hcs.1) (Ne.symm hcs'.1), ih hcs.2 hcs'.2]

namespace Entity

/-- The entities are declared in one module under one name. -/
structure Clash (e e' : Entity) : Prop where
  /-- The schema files have one name without the file extension. -/
  file : Naming.stem e.file = Naming.stem e'.file
  /-- The type names without their packages agree letter by letter. -/
  name : List.Forall₂ SameLetter e.unqualified e'.unqualified

/-- What stands in front of the type names of a package. -/
def qualifier (e : Entity) : List Char :=
  match e.package with
  | none => []
  | some package => if package = "" then [] else package.toList ++ ['.']

/-- The type name is one of its package, and has no underscores behind it. -/
structure Plain (e : Entity) : Prop where
  qualified : e.qualifier <+: e.typeName.toList
  no_underscore : '_' ∉ e.unqualified

/-- The letters of a local name. -/
def flat (c : Char) : Char := if c = '.' then '_' else c

theorem flat_eq_iff {a b : Char} : flat a = flat b ↔ SameLetter a b := by
  unfold flat SameLetter
  by_cases ha : a = '.'
  · by_cases hb : b = '.'
    · simp [ha, hb]
    · simp [ha, hb, eq_comm]
  · by_cases hb : b = '.'
    · simp [ha, hb]
    · rw [if_neg ha, if_neg hb]
      constructor
      · exact .inl
      · rintro (h | ⟨ha', hb'⟩)
        · exact h
        · have ha' : a = '_' := by simpa [ha] using ha'
          have hb' : b = '_' := by simpa [hb] using hb'
          rw [ha', hb']

theorem localName_eq_iff {e e' : Entity} :
    e.localName = e'.localName ↔ List.Forall₂ SameLetter e.unqualified e'.unqualified := by
  have hflat : e.localName = e'.localName
      ↔ e.unqualified.map flat = e'.unqualified.map flat := String.ofList_inj
  rw [hflat]
  constructor
  · intro h
    exact (forall₂_of_map_eq h).imp fun a b hab => flat_eq_iff.mp hab
  · intro h
    rw [← List.forall₂_eq_eq_eq, List.forall₂_map_left_iff, List.forall₂_map_right_iff]
    exact h.imp fun a b hab => flat_eq_iff.mpr hab

/-- Entities have one identity exactly if they clash. -/
theorem key_symbol_eq_iff {naming : Naming} {e e' : Entity} :
    (e.symbol naming).key = (e'.symbol naming).key ↔ e.Clash e' := by
  have hkey : (e.symbol naming).key = (e'.symbol naming).key
      ↔ naming.importPath e.file = naming.importPath e'.file ∧ e.localName = e'.localName := by
    simp only [symbol, Symbol.key, SymbolKey.mk.injEq]
  have hhome : naming.importPath e.file = naming.importPath e'.file
      ↔ Naming.stem e.file = Naming.stem e'.file := by
    simp only [Naming.importPath, String.append_left_inj, String.append_right_inj]
  rw [hkey, hhome, localName_eq_iff]
  exact ⟨fun h => ⟨h.1, h.2⟩, fun h => ⟨h.file, h.name⟩⟩

/-- Of a type name of the package the rest is left. -/
theorem unqualified_of_append {e : Entity} {rest : List Char}
    (h : e.typeName.toList = e.qualifier ++ rest) : e.unqualified = rest := by
  cases hpackage : e.package with
  | none =>
      simp only [qualifier, hpackage, List.nil_append] at h
      simp only [unqualified, hpackage, h]
  | some package =>
      by_cases hempty : package = ""
      · simp only [qualifier, hpackage, if_pos hempty, List.nil_append] at h
        simp only [unqualified, hpackage, if_pos hempty, h]
      · simp only [qualifier, hpackage, if_neg hempty, List.append_assoc,
          List.singleton_append] at h
        simp only [unqualified, hpackage, if_neg hempty, h, Text.dropFront?_append,
          Option.bind_some, Text.dropFront?, if_true, Option.getD_some]

theorem Plain.typeName_eq {e : Entity} (h : e.Plain) :
    e.typeName.toList = e.qualifier ++ e.unqualified := by
  obtain ⟨rest, hrest⟩ := h.qualified
  rw [unqualified_of_append hrest.symm, hrest]

/-- Plain entities of one package do not clash. -/
theorem Plain.not_clash {e e' : Entity} (h : e.Plain) (h' : e'.Plain)
    (hpackage : e.package = e'.package) (hne : e.typeName ≠ e'.typeName) : ¬ e.Clash e' := by
  intro hclash
  -- without underscores the letters that agree are equal, so only the packages could differ
  have hunqualified : e.unqualified = e'.unqualified :=
    eq_of_forall₂_sameLetter hclash.name h.no_underscore h'.no_underscore
  have hqualifier : e.qualifier = e'.qualifier := by
    unfold qualifier
    rw [hpackage]
  apply hne
  rw [← String.toList_inj, h.typeName_eq, h'.typeName_eq, hqualifier, hunqualified]

end Entity

/-! ## Modules that refer to two entities -/

namespace Resolution

variable {path : String} {tokens : List Token} {r : Resolution}

/-- A symbol of a body has the identifier of another one exactly if they have one identity. -/
theorem identifier?_eq_iff (h : ofTokens path tokens = .ok r) {u : Symbol}
    (hu : u ∈ symbols tokens) (u' : Symbol) :
    r.identifier? u = r.identifier? u' ↔ u.key = u'.key := by
  have hr : ofTokensWith Text.lowercase path tokens = .ok r := h
  constructor
  · intro heq
    -- the key of `u` has an identifier, and no other key has the same one
    obtain ⟨⟨key, ident⟩, hentry, hkey⟩ :=
      List.mem_map.mp (((identifiers_keys hr).2 u.key).mpr ⟨u, hu, rfl⟩)
    have hlookup : r.identifiers.lookup u.key = some ident :=
      (lookup_identifiers hr).mpr (hkey ▸ hentry)
    have hlookup' : r.identifiers.lookup u'.key = some ident := by
      rw [← hlookup]
      exact heq.symm
    have hsame := List.inj_on_of_nodup_map (identifiers_nodup hr)
      ((lookup_identifiers hr).mp hlookup) ((lookup_identifiers hr).mp hlookup') rfl
    exact congrArg Prod.fst hsame
  · intro hkey
    rw [identifier?, identifier?, hkey]

/-- A symbol of another module is imported by the entry of another one exactly if they have one
identity. -/
theorem exists_common_import_iff (h : ofTokens path tokens = .ok r) {key key' : SymbolKey}
    (hkey : IsForeign path tokens key) :
    (∃ n ∈ r.imported, IsImportOf path tokens r key n ∧ IsImportOf path tokens r key' n)
      ↔ key = key' := by
  have hr : ofTokensWith Text.lowercase path tokens = .ok r := h
  constructor
  · rintro ⟨n, -, himport, himport'⟩
    have hsame := List.inj_on_of_nodup_map (identifiers_nodup hr)
      ((lookup_identifiers hr).mp himport.bound) ((lookup_identifiers hr).mp himport'.bound) rfl
    exact congrArg Prod.fst hsame
  · rintro rfl
    obtain ⟨n, hn, himport⟩ := exists_isImportOf hr hkey
    exact ⟨n, hn, himport, himport⟩

end Resolution

/-! ## Symbols of a registry -/

/-- **Two entities are told apart.** What it means that the symbols of two entities have different
identities, and are not merged by any module that refers to both, unless the entities clash. -/
structure Entity.ToldApart (naming : Naming) (e e' : Entity) : Prop where
  /-- The symbols have one identity exactly if the entities clash. -/
  key_eq_iff : (e.symbol naming).key = (e'.symbol naming).key ↔ e.Clash e'
  /-- Plain type names of one package never do. -/
  key_ne_of_plain : e.Plain → e'.Plain → e.package = e'.package → e.typeName ≠ e'.typeName →
    (e.symbol naming).key ≠ (e'.symbol naming).key
  /-- References to the two have one identifier in a module exactly if the entities clash. -/
  identifier_eq_iff : ∀ path tokens r, Resolution.ofTokens path tokens = .ok r →
    ∀ u ∈ Resolution.symbols tokens, ∀ u' ∈ Resolution.symbols tokens,
      u.key = (e.symbol naming).key → u'.key = (e'.symbol naming).key →
        (r.identifier? u = r.identifier? u' ↔ e.Clash e')
  /-- One entry of the import block is the import of both exactly if the entities clash. -/
  import_eq_iff : ∀ path tokens r, Resolution.ofTokens path tokens = .ok r →
    Resolution.IsForeign path tokens (e.symbol naming).key →
    Resolution.IsForeign path tokens (e'.symbol naming).key →
      ((∃ n ∈ r.imported, Resolution.IsImportOf path tokens r (e.symbol naming).key n ∧
          Resolution.IsImportOf path tokens r (e'.symbol naming).key n) ↔ e.Clash e')

theorem Entity.toldApart (naming : Naming) (e e' : Entity) : e.ToldApart naming e' where
  key_eq_iff := key_symbol_eq_iff
  key_ne_of_plain h h' hpackage hne := fun hkey =>
    h.not_clash h' hpackage hne (key_symbol_eq_iff.mp hkey)
  identifier_eq_iff path tokens r hr u hu u' _ hkey hkey' := by
    rw [Resolution.identifier?_eq_iff hr hu, hkey, hkey', key_symbol_eq_iff]
  import_eq_iff path tokens r hr hforeign _ := by
    rw [Resolution.exists_common_import_iff hr hforeign, key_symbol_eq_iff]

namespace Registry

/-- The registry answers a type name with the symbol of an entity of this name. -/
theorem exists_answer {history : List RegistryCall} {t : String} (naming : Naming)
    (h : ∃ e, RegistryCall.register e ∈ history ∧ e.typeName = t) :
    ∃ e, answering? history t = some e ∧ e.typeName = t ∧
      (afterCalls naming history).answer t = .ok (e.symbol naming) := by
  obtain ⟨e, he⟩ := exists_answering?_iff.mpr h
  refine ⟨e, he, typeName_of_answering? he, ?_⟩
  rw [answer_afterCalls, he]

/-- **Identities of registered entities.** After any history, two registered type names are answered
with the symbols of an entity each, and these are told apart unless the entities clash. -/
theorem registered_toldApart (naming : Naming) {history : List RegistryCall} {t t' : String}
    (ht : ∃ e, RegistryCall.register e ∈ history ∧ e.typeName = t)
    (ht' : ∃ e, RegistryCall.register e ∈ history ∧ e.typeName = t') :
    ∃ e e', answering? history t = some e ∧ answering? history t' = some e' ∧
      e.typeName = t ∧ e'.typeName = t' ∧
      (afterCalls naming history).answer t = .ok (e.symbol naming) ∧
      (afterCalls naming history).answer t' = .ok (e'.symbol naming) ∧
      e.ToldApart naming e' := by
  obtain ⟨e, he, htype, hanswer⟩ := exists_answer naming ht
  obtain ⟨e', he', htype', hanswer'⟩ := exists_answer naming ht'
  exact ⟨e, e', he, he', htype, htype', hanswer, hanswer', e.toldApart naming e'⟩

/-- A nested message and a message with an underscore in its name, in one schema file. -/
def lookalikes : List RegistryCall :=
  [.register ⟨"example.A.B", .message, "a.proto", some "example"⟩,
    .register ⟨"example.A_B", .message, "a.proto", some "example"⟩]

theorem lookalikes_toldApart :
    ((∃ e, RegistryCall.register e ∈ lookalikes ∧ e.typeName = "example.A.B") ∧
      ∃ e, RegistryCall.register e ∈ lookalikes ∧ e.typeName = "example.A_B") ∧
    ∃ e e', answering? lookalikes "example.A.B" = some e ∧
      answering? lookalikes "example.A_B" = some e' ∧
      e.typeName = "example.A.B" ∧ e'.typeName = "example.A_B" ∧
      (afterCalls ⟨"_pb", ".js"⟩ lookalikes).answer "example.A.B"
        = .ok (e.symbol ⟨"_pb", ".js"⟩) ∧
      (afterCalls ⟨"_pb", ".js"⟩ lookalikes).answer "example.A_B"
        = .ok (e'.symbol ⟨"_pb", ".js"⟩) ∧
      e.ToldApart ⟨"_pb", ".js"⟩ e' := by
  have hnested : ∃ e, RegistryCall.register e ∈ lookalikes ∧ e.typeName = "example.A.B" :=
    ⟨_, List.mem_cons_self .., rfl⟩
  have hflat : ∃ e, RegistryCall.register e ∈ lookalikes ∧ e.typeName = "example.A_B" :=
    ⟨_, List.mem_cons_of_mem _ (List.mem_cons_self ..), rfl⟩
  exact ⟨⟨hnested, hflat⟩, registered_toldApart ⟨"_pb", ".js"⟩ hnested hflat⟩

/-- The two clash: they have one identity, and a module that refers to both imports one name. -/
theorem lookalikes_clash :
    "example.A.B" ≠ "example.A_B" ∧
      (afterCalls ⟨"_pb", ".js"⟩ lookalikes).answer "example.A.B"
        = .ok ⟨"A_B", "./a_pb.js", false⟩ ∧
      (afterCalls ⟨"_pb", ".js"⟩ lookalikes).answer "example.A_B"
        = .ok ⟨"A_B", "./a_pb.js", false⟩ ∧
      Resolution.ofTokens "./b_pb.js"
          [.symbol ⟨"A_B", "./a_pb.js", false⟩, .symbol ⟨"A_B", "./a_pb.js", false⟩]
        = .ok ⟨[⟨false, "./a_pb.js", [⟨"A_B", none⟩]⟩],
            [(⟨"./a_pb.js", "A_B"⟩, "A_B")]⟩ := by
  decide +kernel

end Registry

end ModuleAssembly
