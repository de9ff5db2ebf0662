import ModuleAssembly.Proofs.Relocation

/-!
# What a resolution sees of a body

A resolution sees three things of a body: which symbols the module declares itself, in which order
the others first occur, and which of these are used as values. The order of the module's own
symbols does not count, because the search for a free alias only asks whether a name is taken
(`assign_perm`). So bodies with the same symbols have the same identifiers
(`Resolution.SameSymbols.ofTokens`), and marking references as uses of a type, or not, leaves the
written body as it is (`OutputFile.parts?_of_sameButUse`).
-/

set_option autoImplicit false

namespace ModuleAssembly

/-! ## Taken names in another order -/

/-- The search for a free alias only asks which names are taken. -/
theorem leastFree_congr (name : String) {taken taken' : List String}
    (h : ∀ x, x ∈ taken ↔ x ∈ taken') (fuel k : Nat) :
    leastFree name taken fuel k = leastFree name taken' fuel k := by
  induction fuel generalizing k with
  | zero => rfl
  | succ fuel ih =>
      unfold leastFree
      by_cases hk : aliasOf name k ∈ taken
      · rw [if_pos hk, if_pos ((h _).mp hk), ih]
      · rw [if_neg hk, if_neg (mt (h _).mpr hk)]

theorem freeAlias_perm (name : String) {taken taken' : List String} (h : taken.Perm taken') :
    freeAlias name taken = freeAlias name taken' := by
  have hleast : leastFree name taken taken.length 1 = leastFree name taken' taken'.length 1 := by
    rw [leastFree_congr name (fun x => h.mem_iff), h.length_eq]
  simp only [freeAlias, hleast]

theorem identifierFor_perm (name : String) {taken taken' : List String} (h : taken.Perm taken') :
    identifierFor taken name = identifierFor taken' name := by
  unfold identifierFor
  by_cases hname : name ∈ taken
  · rw [if_pos hname, if_pos (h.mem_iff.mp hname), freeAlias_perm name h]
  · rw [if_neg hname, if_neg (mt h.mem_iff.mpr hname)]

/-- **The order of the taken names does not count.** Every symbol gets the same identifier. -/
theorem assign_perm {taken taken' : List String} (h : taken.Perm taken') (keys : List SymbolKey) :
    assign taken keys = assign taken' keys := by
  induction keys generalizing taken taken' with
  | nil => rfl
  | cons key rest ih =>
      rw [assign_cons, assign_cons, identifierFor_perm key.name h]
      cases identifierFor taken' key.name with
      | error e => rfl
      | ok ident => rw [except_bind_ok, except_bind_ok, ih (h.cons ident)]

/-! ## Bodies with the same symbols -/

namespace Resolution

/-- Two bodies of the module at `path` have the same symbols: the module declares the same ones
itself, and the others first occur in the same order. -/
structure SameSymbols (path : String) (tokens tokens' : List Token) : Prop where
  own : ∀ key : SymbolKey, key.home = path →
    ((∃ s ∈ symbols tokens, s.key = key) ↔ ∃ s ∈ symbols tokens', s.key = key)
  foreign : foreignKeys path (symbols tokens) = foreignKeys path (symbols tokens')

/-- Two bodies of the module at `path` use the same foreign symbols as values: some reference to
each needs more than the type. -/
def SameValues (path : String) (tokens tokens' : List Token) : Prop :=
  ∀ key : SymbolKey, key.home ≠ path →
    ((∃ s ∈ symbols tokens, s.key = key ∧ s.typeOnly = false) ↔
      ∃ s ∈ symbols tokens', s.key = key ∧ s.typeOnly = false)

/-- **Bodies are resolved alike.** What it means that two bodies of the module at `path` cannot be
told apart by their identifiers. -/
inductive ResolvedAlike (path : String) (tokens tokens' : List Token) : Prop where
  /-- Both fail with the same error. -/
  | failed {e : Error} (error : ofTokens path tokens = .error e)
      (error' : ofTokens path tokens' = .error e)
  /-- Both have the same identifiers, and the same statements if they use the same values. -/
  | resolved {r r' : Resolution} (ok : ofTokens path tokens = .ok r)
      (ok' : ofTokens path tokens' = .ok r')
      (identifiers : ∀ key, r.identifiers.lookup key = r'.identifiers.lookup key)
      (statements : SameValues path tokens tokens' → r.statements = r'.statements)

theorem isValue_eq_true_iff {ss : List Symbol} {key : SymbolKey} :
    isValue ss key = true ↔ ∃ s ∈ ss, s.key = key ∧ s.typeOnly = false := by
  simp [isValue, List.any_eq_true]

section

variable {path : String} {tokens tokens' : List Token}

/-- The module's own symbols are the same, in some order. -/
theorem sameSymbols_iff : SameSymbols path tokens tokens' ↔
    (localKeys path (symbols tokens)).Perm (localKeys path (symbols tokens')) ∧
      foreignKeys path (symbols tokens) = foreignKeys path (symbols tokens') := by
  have hperm : (localKeys path (symbols tokens)).Perm (localKeys path (symbols tokens')) ↔
      ∀ key : SymbolKey, key.home = path →
        ((∃ s ∈ symbols tokens, s.key = key) ↔ ∃ s ∈ symbols tokens', s.key = key) := by
    rw [List.perm_ext_iff_of_nodup (nodup_localKeys _ _) (nodup_localKeys _ _)]
    simp only [mem_localKeys, and_congr_right_iff]
  rw [hperm]
  exact ⟨fun h => ⟨h.own, h.foreign⟩, fun h => ⟨h.1, h.2⟩⟩

/-- So all symbols get the same identifiers. -/
theorem SameSymbols.assign_eq (h : SameSymbols path tokens tokens') :
    assign ((localKeys path (symbols tokens)).map SymbolKey.name)
        (foreignKeys path (symbols tokens))
      = assign ((localKeys path (symbols tokens')).map SymbolKey.name)
        (foreignKeys path (symbols tokens')) := by
  obtain ⟨hown, hforeign⟩ := sameSymbols_iff.mp h
  rw [hforeign]
  exact assign_perm (hown.map SymbolKey.name) _

/-- The statements for a home only ask which of its symbols are used as values. -/
theorem statementsFor_congr (lower : String → String) {ss ss' : List Symbol}
    {entries : List (SymbolKey × String)}
    (h : ∀ e ∈ entries, isValue ss e.1 = isValue ss' e.1) (home : String) :
    statementsFor lower path ss entries home = statementsFor lower path ss' entries home := by
  have hhere : ∀ e ∈ entries.filter (fun e => e.1.home == home),
      isValue ss e.1 = isValue ss' e.1 :=
    fun e he => h e (List.mem_of_mem_filter he)
  have hvalues : (entries.filter fun e => e.1.home == home).filter (fun e => isValue ss e.1)
      = (entries.filter fun e => e.1.home == home).filter fun e => isValue ss' e.1 :=
    List.filter_congr hhere
  have htypes : (entries.filter fun e => e.1.home == home).filter (fun e => !isValue ss e.1)
      = (entries.filter fun e => e.1.home == home).filter fun e => !isValue ss' e.1 :=
    List.filter_congr fun e he => by rw [hhere e he]
  simp only [statementsFor, hvalues, htypes]

/-- **The same symbols are resolved alike.** Texts, repeated references, the places of the module's
own symbols and uses as types leave no trace in the identifiers. -/
theorem SameSymbols.ofTokens (h : SameSymbols path tokens tokens') :
    ResolvedAlike path tokens tokens' := by
  have hassign := h.assign_eq
  cases hr : Resolution.ofTokens path tokens with
  | error e =>
      rcases except_bind_eq_error.mp hr with ha | ⟨entries, -, hnone⟩
      · refine .failed hr (except_bind_eq_error.mpr (.inl ?_))
        rw [← hassign, ha]
      · cases hnone
  | ok r =>
      obtain ⟨entries, ha, hi, hst⟩ := ofTokensWith_eq_ok hr
      have ha' : assign ((localKeys path (symbols tokens')).map SymbolKey.name)
          (foreignKeys path (symbols tokens')) = .ok entries := by rw [← hassign, ha]
      have hr' : ∃ r', Resolution.ofTokens path tokens' = .ok r' :=
        ⟨_, except_bind_eq_ok.mpr ⟨entries, ha', rfl⟩⟩
      obtain ⟨r', hr'⟩ := hr'
      obtain ⟨entries', ha'', hi', hst'⟩ := ofTokensWith_eq_ok hr'
      rw [ha'] at ha''
      cases ha''
      refine .resolved hr hr' ?_ ?_
      · -- the two lists of identifiers differ in the order of the module's own symbols
        refine lookup_eq_of_perm ?_ (identifiers_keys hr).1
        rw [hi, hi']
        exact ((sameSymbols_iff.mp h).1.map _).append_right entries
      · intro hvalues
        have hentries : ∀ e ∈ entries,
            isValue (symbols tokens) e.1 = isValue (symbols tokens') e.1 := by
          intro e he
          have hforeign : e.1 ∈ foreignKeys path (symbols tokens) := by
            rw [← assign_keys ha]
            exact List.mem_map_of_mem he
          rw [Bool.eq_iff_iff, isValue_eq_true_iff, isValue_eq_true_iff]
          exact hvalues e.1 (mem_foreignKeys.mp hforeign).1
        rw [hst, hst', ← h.foreign]
        exact List.flatMap_congr fun home _ =>
          statementsFor_congr Text.lowercase hentries home

end

end Resolution

/-! ## Uses as types -/

/-- The token with nothing said of whether its symbol is used as a type. -/
def Token.withoutUse : Token → Token
  | .text s => .text s
  | .symbol s => .symbol { s with typeOnly := false }

/-- The bodies are the same token by token, except that references may be uses of a type in the
one and not in the other. -/
def SameButUse (tokens tokens' : List Token) : Prop :=
  tokens.map Token.withoutUse = tokens'.map Token.withoutUse

/-- The parts with nothing said of what the module imports. -/
def ModuleParts.withoutStatements (m : ModuleParts) : ModuleParts := { m with statements := [] }

namespace Resolution

theorem symbols_withoutUse (tokens : List Token) :
    (symbols (tokens.map Token.withoutUse)).map Symbol.key = (symbols tokens).map Symbol.key := by
  induction tokens with
  | nil => rfl
  | cons t rest ih =>
      cases t with
      | text s => exact ih
      | symbol s => exact congrArg (List.cons s.key) ih

/-- The identities in a body do not depend on how they are used. -/
theorem keys_of_sameButUse {tokens tokens' : List Token} (h : SameButUse tokens tokens') :
    (symbols tokens).map Symbol.key = (symbols tokens').map Symbol.key := by
  rw [← symbols_withoutUse tokens, ← symbols_withoutUse tokens', h]

/-- The foreign symbols of a body are chosen among its identities. -/
theorem foreignKeys_eq (path : String) (ss : List Symbol) :
    foreignKeys path ss = ((ss.map Symbol.key).filter fun key => !key.home == path).eraseDups := by
  unfold foreignKeys
  rw [List.filter_map]
  rfl

theorem sameSymbols_of_sameButUse (path : String) {tokens tokens' : List Token}
    (h : SameButUse tokens tokens') : SameSymbols path tokens tokens' := by
  have hkeys := keys_of_sameButUse h
  refine ⟨fun key _ => ?_, by rw [foreignKeys_eq, foreignKeys_eq, hkeys]⟩
  have hmem : key ∈ (symbols tokens).map Symbol.key ↔ key ∈ (symbols tokens').map Symbol.key := by
    rw [hkeys]
  rwa [List.mem_map, List.mem_map] at hmem

theorem body_withoutUse (r : Resolution) (tokens : List Token) :
    r.body (tokens.map Token.withoutUse) = r.body tokens := by
  have hwritten : ∀ t : Token, r.written t.withoutUse = r.written t := by
    intro t
    cases t with
    | text s => rfl
    | symbol s => rfl
  unfold body
  rw [List.map_map]
  exact congrArg String.join (List.map_congr_left fun t _ => hwritten t)

/-- A body is written by the identifiers alone. -/
theorem body_congr {r r' : Resolution}
    (h : ∀ key, r.identifiers.lookup key = r'.identifiers.lookup key) (tokens : List Token) :
    r.body tokens = r'.body tokens := by
  have hwritten : ∀ t : Token, r.written t = r'.written t := by
    intro t
    cases t with
    | text s => rfl
    | symbol s => simp only [written, identifier?, h]
  exact congrArg String.join (List.map_congr_left fun t _ => hwritten t)

end Resolution

namespace OutputFile

/-- The file with another body. -/
def withTokens (f : OutputFile) (tokens : List Token) : OutputFile := { f with tokens }

/-- **Uses as types do not reach the body.** Files that are the same but for such uses are finished
to the same parts, apart from the statements. -/
theorem parts?_of_sameButUse (f : OutputFile) {tokens' : List Token}
    (h : SameButUse f.tokens tokens') :
    (f.withTokens tokens').parts?.map (fun m => m.map ModuleParts.withoutStatements)
      = f.parts?.map fun m => m.map ModuleParts.withoutStatements := by
  unfold parts?
  cases (Resolution.sameSymbols_of_sameButUse f.importPath h).ofTokens with
  | @failed e error error' =>
      have hr : f.resolution = .error e := error
      have hr' : (f.withTokens tokens').resolution = .error e := error'
      rw [hr, hr']
      rfl
  | @resolved r r' ok ok' identifiers _ =>
      have hr : f.resolution = .ok r := ok
      have hr' : (f.withTokens tokens').resolution = .ok r' := ok'
      have hbody : r'.body (f.withTokens tokens').tokens = r.body f.tokens :=
        calc r'.body tokens'
            = r'.body (tokens'.map Token.withoutUse) := (r'.body_withoutUse tokens').symm
          _ = r'.body (f.tokens.map Token.withoutUse) := by rw [h]
          _ = r'.body f.tokens := r'.body_withoutUse f.tokens
          _ = r.body f.tokens := (Resolution.body_congr identifiers f.tokens).symm
      have hkeep : (f.withTokens tokens').keepEmpty = f.keepEmpty := rfl
      rw [hr, hr', except_map_ok, except_map_ok, except_map_ok, except_map_ok]
      unfold partsWith
      rw [hbody, hkeep]
      split
      · rfl
      · rfl

end OutputFile

namespace Resolution

/-- **A resolution forgets everything but the symbols.** Bodies with the same symbols are resolved
alike, whatever else they differ in; and a file in which only uses as types change is finished to
the same name, preamble and body. -/
theorem forgets_all_but_symbols :
    (∀ path tokens tokens', SameSymbols path tokens tokens' →
      ResolvedAlike path tokens tokens') ∧
    ∀ (f : OutputFile) (tokens' : List Token), SameButUse f.tokens tokens' →
      (f.withTokens tokens').parts?.map (fun m => m.map ModuleParts.withoutStatements)
        = f.parts?.map fun m => m.map ModuleParts.withoutStatements :=
  ⟨fun _ _ _ h => h.ofTokens, fun f _ h => f.parts?_of_sameButUse h⟩

/-- A body with the symbols of `contested`, in which the module's own `Foo` comes first. -/
def reordered : List Token :=
  [.symbol ⟨"Foo", "./m.js", true⟩, .symbol ⟨"Foo", "./a.js", false⟩,
    .symbol ⟨"Foo$1", "./b.js", true⟩, .symbol ⟨"Foo", "./m.js", false⟩, .text " | ",
    .symbol ⟨"Foo$1", "./b.js", false⟩, .symbol ⟨"Foo", "./c.js", false⟩]

/-- The body `contested` in a file, with every reference as a use of a type. -/
def typesOnly : List Token :=
  contested.map fun t =>
    match t with
    | .text s => .text s
    | .symbol s => .symbol s.asType

/-- The file with the body `contested`. -/
def contestedFile : OutputFile :=
  { name := "m.ts", importPath := "./m.js", tokens := contested, keepEmpty := false }

theorem contested_forgets :
    (SameSymbols "./m.js" contested reordered ∧ SameButUse contested typesOnly) ∧
    ResolvedAlike "./m.js" contested reordered ∧
    (contestedFile.withTokens typesOnly).parts?.map (fun m => m.map ModuleParts.withoutStatements)
      = contestedFile.parts?.map (fun m => m.map ModuleParts.withoutStatements) ∧
    (ofTokens "./m.js" reordered).toOption.map Resolution.statements
      = some contestedResolution.statements ∧
    contestedFile.parts?.toOption.map (fun m => m.map ModuleParts.body)
      = some (some "Foo$1Foo$1$1, Foo$2Foo$1Foo") := by
  have hsame : SameSymbols "./m.js" contested reordered := by
    rw [sameSymbols_iff]
    decide +kernel
  have huse : SameButUse contested typesOnly := by
    unfold SameButUse
    decide +kernel
  exact ⟨⟨hsame, huse⟩, forgets_all_but_symbols.1 _ _ _ hsame,
    forgets_all_but_symbols.2 contestedFile typesOnly huse, by decide +kernel, by decide +kernel⟩

end Resolution

end ModuleAssembly
