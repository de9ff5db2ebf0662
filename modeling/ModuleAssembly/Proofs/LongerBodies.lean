import ModuleAssembly.Proofs.BlockOrder

/-!
# Longer bodies

The symbols of a body that goes on are those of its front, and behind them the new ones. As long as
the module does not declare a new name itself, the names that are taken at first are the same, and
the walk over the foreign symbols comes to the new ones only when the others have their identifiers.
So nothing in the front is renamed, its imports stay, and what changes in them is at most that
a type is imported as a value (`Resolution.Continues`).
-/

set_option autoImplicit false

namespace ModuleAssembly.Resolution

/-! ## The symbols of a longer body -/

theorem symbols_append (front back : List Token) :
    symbols (front ++ back) = symbols front ++ symbols back := List.filterMap_append

/-- A body that goes on without new names of the module itself declares the same symbols. -/
theorem localKeys_append {path : String} {ss ss' : List Symbol}
    (h : ∀ s ∈ ss', s.home = path → ∃ own ∈ ss, own.home = path ∧ own.name = s.name) :
    localKeys path (ss ++ ss') = localKeys path ss := by
  unfold localKeys
  rw [List.filter_append, List.map_append]
  refine eraseDups_append_of_subset ?_
  intro key hkey
  obtain ⟨s, hs, rfl⟩ := List.mem_map.mp hkey
  simp only [List.mem_filter, Symbol.isLocalTo, beq_iff_eq] at hs
  obtain ⟨own, hown, hhome, hname⟩ := h s hs.1 hs.2
  have hsame : own.key = s.key := by
    rw [Symbol.key, Symbol.key, hhome, hname, hs.2]
  rw [← hsame]
  refine List.mem_map_of_mem (List.mem_filter.mpr ⟨hown, ?_⟩)
  exact beq_iff_eq.mpr hhome

/-- New foreign symbols come behind the others. -/
theorem exists_foreignKeys_append (path : String) (ss ss' : List Symbol) :
    ∃ new, foreignKeys path (ss ++ ss') = foreignKeys path ss ++ new := by
  unfold foreignKeys
  rw [List.filter_append, List.map_append, List.eraseDups_append]
  exact ⟨_, rfl⟩

/-- New homes come behind the others. -/
theorem prefix_foreignHomes_append (path : String) (front back : List Token) :
    (foreignHomes path front).eraseDups <+: (foreignHomes path (front ++ back)).eraseDups := by
  unfold foreignHomes
  rw [symbols_append, List.filter_append, List.map_append, List.eraseDups_append]
  exact List.prefix_append _ _

/-! ## The resolution of a longer body -/

variable {path : String} {front back : List Token}

/-- The front has a resolution, and its identifiers are among those of the longer body. -/
theorem exists_resolution_front {r' : Resolution}
    (hlocal : ∀ s ∈ symbols back, s.home = path →
      ∃ own ∈ symbols front, own.home = path ∧ own.name = s.name)
    (h : ofTokens path (front ++ back) = .ok r') :
    ∃ r, ofTokens path front = .ok r ∧ r.identifiers ⊆ r'.identifiers := by
  obtain ⟨entries, ha, hi, -⟩ := ofTokensWith_eq_ok h
  obtain ⟨new, hnew⟩ := exists_foreignKeys_append path (symbols front) (symbols back)
  rw [symbols_append, localKeys_append hlocal, hnew, assign_append] at ha
  rw [symbols_append, localKeys_append hlocal] at hi
  -- the walk over the front is the same, and the one over the new symbols follows it
  obtain ⟨kept, hkept, hmore⟩ := except_bind_eq_ok.mp ha
  obtain ⟨more, -, rfl⟩ := except_map_eq_ok.mp hmore
  obtain ⟨r, hr, hri⟩ := ofTokensWith_of_assign Text.lowercase hkept
  refine ⟨r, hr, ?_⟩
  rw [hri, hi, ← List.append_assoc]
  exact List.subset_append_left _ _

/-- An import is determined by the identifier of its symbol. -/
theorem IsImportOf.entry_eq {tokens : List Token} {r : Resolution} {key : SymbolKey}
    {n : ImportedName} (h : IsImportOf path tokens r key n) :
    n.entry = importEntry (key, n.entry.bound) := by
  obtain ⟨typeOnly, source, ⟨name, renamed⟩⟩ := n
  have hname : name = key.name := h.name
  have hrenamed : renamed ≠ none → renamed.getD name ≠ key.name := h.renamed
  subst hname
  cases renamed with
  | none => simp [importEntry, ImportEntry.bound]
  | some other =>
      have hother : other ≠ key.name := hrenamed (by simp)
      simp [importEntry, ImportEntry.bound, hother]

/-- **A body goes on.** What the resolution `r'` of a body keeps of the resolution `r` of its
front. -/
structure Continues (path : String) (front back : List Token) (r r' : Resolution) : Prop where
  /-- Every symbol of the front has the same identifier. -/
  identifiers_kept : ∀ s ∈ symbols front,
    ∃ ident, r.identifier? s = some ident ∧ r'.identifier? s = some ident
  /-- The homes that the front imports from come first, in the same order. -/
  homes_first : ∃ groups groups', ConsistsOf path front r groups ∧
    ConsistsOf path (front ++ back) r' groups' ∧
      groups.map ImportGroup.home <+: groups'.map ImportGroup.home
  /-- Every name that the front imports is imported in the same way; only a type may have become a
  value. -/
  imports_kept : ∀ n ∈ r.imported, ∃ n' ∈ r'.imported, n'.source = n.source ∧
    n'.entry = n.entry ∧ (n.typeOnly = false → n'.typeOnly = false)

/-- What the front imports is imported by the longer body as well. -/
theorem exists_import_kept {r r' : Resolution} (h : ofTokens path front = .ok r)
    (h' : ofTokens path (front ++ back) = .ok r') (hsub : r.identifiers ⊆ r'.identifiers)
    {n : ImportedName} (hn : n ∈ r.imported) :
    ∃ n' ∈ r'.imported, n'.source = n.source ∧ n'.entry = n.entry ∧
      (n.typeOnly = false → n'.typeOnly = false) := by
  obtain ⟨key, ⟨hhome, s, hs, hkey⟩, himport⟩ := exists_isForeign h hn
  have hin : ∀ s ∈ symbols front, s ∈ symbols (front ++ back) := by
    intro s hs
    rw [symbols_append]
    exact List.mem_append_left _ hs
  obtain ⟨n', hn', himport'⟩ := exists_isImportOf h' ⟨hhome, s, hin s hs, hkey⟩
  have hbound : n'.entry.bound = n.entry.bound := by
    have hident := (lookup_identifiers h').mpr (hsub ((lookup_identifiers h).mp himport.bound))
    exact Option.some.inj (himport'.bound.symm.trans hident)
  refine ⟨n', hn', himport'.source.trans himport.source.symm, ?_, ?_⟩
  · rw [himport'.entry_eq, himport.entry_eq, hbound]
  · -- a use as a value is one of the longer body as well
    intro hvalue
    rw [← Bool.not_eq_true, himport.typeOnly_iff] at hvalue
    rw [← Bool.not_eq_true, himport'.typeOnly_iff]
    exact fun htypes => hvalue fun s hs => htypes s (hin s hs)

/-- **Going on renames nothing.** If a body has a resolution and the module declares no names in its
back that it does not declare in its front, then the front has a resolution that is kept. -/
theorem exists_continues {r' : Resolution}
    (hlocal : ∀ s ∈ symbols back, s.home = path →
      ∃ own ∈ symbols front, own.home = path ∧ own.name = s.name)
    (h : ofTokens path (front ++ back) = .ok r') :
    ∃ r, ofTokens path front = .ok r ∧ Continues path front back r r' := by
  obtain ⟨r, hr, hsub⟩ := exists_resolution_front hlocal h
  refine ⟨r, hr, ?_, ?_, fun n hn => exists_import_kept hr h hsub hn⟩
  · intro s hs
    have hkey : s.key ∈ r.identifiers.map Prod.fst :=
      ((identifiers_keys hr).2 s.key).mpr ⟨s, hs, rfl⟩
    obtain ⟨⟨_, ident⟩, he, heq⟩ := List.mem_map.mp hkey
    cases heq
    exact ⟨ident, (lookup_identifiers hr).mpr he, (lookup_identifiers h).mpr (hsub he)⟩
  · obtain ⟨entries, -, hgroups⟩ := exists_consistsOf hr
    obtain ⟨entries', -, hgroups'⟩ := exists_consistsOf h
    refine ⟨_, _, hgroups, hgroups', ?_⟩
    rw [map_home_groupsOf, map_home_groupsOf]
    exact prefix_foreignHomes_append path front back

/-- A body in which a type and a value have to give way to the name `Foo` of the module at
`./m.js`. -/
def crowded : List Token :=
  [.symbol ⟨"Foo", "./a.js", true⟩, .symbol ⟨"Foo", "./m.js", false⟩,
    .symbol ⟨"Foo$1", "./b.js", false⟩]

/-- What may follow `crowded`: its own `Foo` again, another alias, a type of the second home, and
the type of the first home as a value. -/
def addition : List Token :=
  [.symbol ⟨"Foo$2", "./c.js", false⟩, .symbol ⟨"Foo", "./m.js", false⟩, .text ";",
    .symbol ⟨"Foo", "./b.js", true⟩, .symbol ⟨"Foo", "./a.js", false⟩]

/-- The resolution of `crowded` and `addition` together. -/
def additionResolution : Resolution where
  statements :=
    [⟨false, "./a.js", [⟨"Foo", some "Foo$1"⟩]⟩, ⟨true, "./b.js", [⟨"Foo", some "Foo$3"⟩]⟩,
      ⟨false, "./b.js", [⟨"Foo$1", some "Foo$1$1"⟩]⟩, ⟨false, "./c.js", [⟨"Foo$2", none⟩]⟩]
  identifiers :=
    [(⟨"./m.js", "Foo"⟩, "Foo"), (⟨"./a.js", "Foo"⟩, "Foo$1"), (⟨"./b.js", "Foo$1"⟩, "Foo$1$1"),
      (⟨"./c.js", "Foo$2"⟩, "Foo$2"), (⟨"./b.js", "Foo"⟩, "Foo$3")]

theorem addition_continues :
    ((∀ s ∈ symbols addition, s.home = "./m.js" →
        ∃ own ∈ symbols crowded, own.home = "./m.js" ∧ own.name = s.name) ∧
      ofTokens "./m.js" (crowded ++ addition) = .ok additionResolution) ∧
    ∃ r, ofTokens "./m.js" crowded = .ok r ∧
      Continues "./m.js" crowded addition r additionResolution := by
  have hlocal : ∀ s ∈ symbols addition, s.home = "./m.js" →
      ∃ own ∈ symbols crowded, own.home = "./m.js" ∧ own.name = s.name := by
    decide +kernel
  have h : ofTokens "./m.js" (crowded ++ addition) = .ok additionResolution := by
    decide +kernel
  exact ⟨⟨hlocal, h⟩, exists_continues hlocal h⟩

end ModuleAssembly.Resolution
