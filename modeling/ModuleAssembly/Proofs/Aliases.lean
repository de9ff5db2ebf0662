import ModuleAssembly.Proofs.ImportBlock

/-!
# Aliases are minimal

The foreign symbols of a module get their identifiers in the order of their first occurrence. For
each of them its declared name is tried first, and then its aliases with the suffixes 1, 2 and so
on; the first candidate that is not taken is the identifier (`IsLeastIdentifier`). All candidates
that were tried before are different and taken, so there were no more of them than there are taken
identifiers. This bounds the suffix, and so a resolution only fails with more than 2 ^ 32 symbols
(`Resolution.MinimalAliases`).
-/

set_option autoImplicit false

namespace ModuleAssembly

/-! ## Candidates -/

/-- The candidates for the identifier of a symbol in the order in which they are tried: the declared
name, and then its aliases. -/
def candidate (name : String) : Nat → String
  | 0 => name
  | k + 1 => aliasOf name (k + 1)

/-- An alias is longer than the name. -/
theorem aliasOf_ne (name : String) (k : Nat) : aliasOf name k ≠ name := by
  intro h
  have hlength := congrArg (fun s : String => s.toList.length) h
  simp [aliasOf] at hlength

theorem candidate_injective (name : String) : Function.Injective (candidate name) := by
  intro j k h
  cases j with
  | zero =>
      cases k with
      | zero => rfl
      | succ k => exact absurd h.symm (aliasOf_ne name (k + 1))
  | succ j =>
      cases k with
      | zero => exact absurd h (aliasOf_ne name (j + 1))
      | succ k => exact aliasOf_inj.mp h

/-- If the name is taken and its aliases with smaller suffixes are, then the suffix is no greater
than the number of taken identifiers: the name counts as well. -/
theorem suffix_le_card {name : String} {taken : Finset String} {k : Nat} (hname : name ∈ taken)
    (hbelow : ∀ j, 1 ≤ j → j < k → aliasOf name j ∈ taken) : k ≤ taken.card := by
  have hcandidates : ∀ j < k, candidate name j ∈ taken := by
    intro j hj
    cases j with
    | zero => exact hname
    | succ j => exact hbelow (j + 1) (Nat.le_add_left 1 j) hj
  exact le_card_of_forall_lt_mem (candidate_injective name) hcandidates

/-! ## The least identifier -/

/-- **The least identifier.** The identifier of a symbol with this declared name is the first
candidate that is not taken. -/
structure IsLeastIdentifier (taken : Finset String) (name ident : String) : Prop where
  /-- The declared name is kept exactly when it is not taken. -/
  kept_iff : ident = name ↔ name ∉ taken
  /-- Otherwise the identifier is the alias with the least positive suffix that is not taken, and
  the suffix is no greater than the number of taken identifiers. -/
  aliased : name ∈ taken → ∃ k, 1 ≤ k ∧ k ≤ taken.card ∧ ident = aliasOf name k ∧
    aliasOf name k ∉ taken ∧ ∀ j, 1 ≤ j → j < k → aliasOf name j ∈ taken

theorem identifierFor_least {taken : List String} {name ident : String}
    (h : identifierFor taken name = .ok ident) :
    IsLeastIdentifier taken.toFinset name ident := by
  unfold identifierFor at h
  split at h
  · next hname =>
      have hmem : name ∈ taken.toFinset := List.mem_toFinset.mpr hname
      obtain ⟨k, hpos, rfl, hfree, hbelow⟩ := freeAlias_spec h
      have hfree' : aliasOf name k ∉ taken.toFinset := mt List.mem_toFinset.mp hfree
      have hbelow' : ∀ j, 1 ≤ j → j < k → aliasOf name j ∈ taken.toFinset := fun j hj hlt =>
        List.mem_toFinset.mpr (hbelow j hj hlt)
      refine ⟨?_, fun _ => ⟨k, hpos, suffix_le_card hmem hbelow', rfl, hfree', hbelow'⟩⟩
      exact ⟨fun heq => absurd heq (aliasOf_ne name k), fun hnot => absurd hmem hnot⟩
  · next hname =>
      cases h
      have hnot : name ∉ taken.toFinset := mt List.mem_toFinset.mp hname
      exact ⟨⟨fun _ => hnot, fun _ => rfl⟩, fun hmem => absurd hmem hnot⟩

/-- There is an identifier in range as long as there are no more taken ones than suffixes. -/
theorem exists_identifierFor {taken : List String} (h : taken.length ≤ maxSuffix) (name : String) :
    ∃ ident, identifierFor taken name = .ok ident := by
  unfold identifierFor
  split
  · next hname =>
      have hle : leastFree name taken taken.length 1 ≤ taken.toFinset.card :=
        suffix_le_card (List.mem_toFinset.mpr hname) fun j hj hlt =>
          List.mem_toFinset.mpr (aliasOf_mem_of_lt_leastFree hj hlt)
      have hrange : leastFree name taken taken.length 1 ≤ maxSuffix :=
        hle.trans ((List.toFinset_card_le taken).trans h)
      exact ⟨_, if_pos hrange⟩
  · exact ⟨name, rfl⟩

/-! ## Assignment -/

/-- Every symbol gets the least identifier, when those in front of it have theirs. -/
theorem assign_split {taken : List String} {earlier later : List SymbolKey} {key : SymbolKey}
    {entries : List (SymbolKey × String)}
    (h : assign taken (earlier ++ key :: later) = .ok entries) :
    ∃ front ident back, entries = front ++ (key, ident) :: back ∧
      front.map Prod.fst = earlier ∧
      IsLeastIdentifier ((front.map Prod.snd).reverse ++ taken).toFinset key.name ident := by
  rw [assign_append] at h
  obtain ⟨front, hfront, h⟩ := except_bind_eq_ok.mp h
  obtain ⟨more, hmore, rfl⟩ := except_map_eq_ok.mp h
  obtain ⟨ident, back, hident, -, rfl⟩ := assign_cons_eq_ok hmore
  exact ⟨front, ident, back, rfl, assign_keys hfront, identifierFor_least hident⟩

/-- All symbols get identifiers as long as there are not too many of them. -/
theorem exists_assign {taken : List String} {keys : List SymbolKey}
    (h : taken.length + keys.length ≤ maxSuffix + 1) :
    ∃ entries, assign taken keys = .ok entries := by
  induction keys generalizing taken with
  | nil => exact ⟨[], rfl⟩
  | cons key rest ih =>
      rw [List.length_cons] at h
      obtain ⟨ident, hident⟩ := exists_identifierFor (by omega : taken.length ≤ maxSuffix) key.name
      -- one more identifier is taken, and there is one symbol less
      have hrest : (ident :: taken).length + rest.length ≤ maxSuffix + 1 := by
        rw [List.length_cons]
        omega
      obtain ⟨more, hmore⟩ := ih hrest
      exact ⟨(key, ident) :: more, by rw [assign_cons, hident, except_bind_ok, hmore]; rfl⟩

/-- Symbols whose names are all different and free keep their names, however many they are. -/
theorem assign_of_distinct {taken : List String} {keys : List SymbolKey}
    (hnames : (keys.map SymbolKey.name).Nodup) (hfree : ∀ key ∈ keys, key.name ∉ taken) :
    assign taken keys = .ok (keys.map fun key => (key, key.name)) := by
  induction keys generalizing taken with
  | nil => rfl
  | cons key rest ih =>
      rw [List.map_cons, List.nodup_cons] at hnames
      obtain ⟨hkey, hrest⟩ := List.forall_mem_cons.mp hfree
      have hfree' : ∀ other ∈ rest, other.name ∉ key.name :: taken := by
        intro other hother hmem
        rcases List.mem_cons.mp hmem with heq | hmem
        · exact hnames.1 (heq ▸ List.mem_map_of_mem hother)
        · exact hrest other hother hmem
      rw [assign_cons, identifierFor, if_neg hkey, except_bind_ok, ih hnames.2 hfree',
        except_map_ok, List.map_cons]

/-! ## The aliases of a module -/

namespace Resolution

/-- The identifiers that are taken when the symbols in `earlier` have theirs: the names that the
module declares itself, and the identifiers of these symbols. -/
def takenAfter (path : String) (tokens : List Token) (r : Resolution) (earlier : List SymbolKey) :
    Finset String :=
  ((localKeys path (symbols tokens)).map SymbolKey.name
    ++ earlier.filterMap fun key => r.identifiers.lookup key).toFinset

/-- **Aliases are minimal.** How the symbols in the body of the module at `path` get their
identifiers. -/
structure MinimalAliases (path : String) (tokens : List Token) : Prop where
  /-- In the order of their first occurrence, each foreign symbol gets the least identifier that is
  neither a name that the module declares itself nor given to an earlier one. -/
  least : ∀ r, ofTokens path tokens = .ok r → ∀ earlier key later,
    foreignKeys path (symbols tokens) = earlier ++ key :: later →
      ∃ ident, r.identifiers.lookup key = some ident ∧
        IsLeastIdentifier (takenAfter path tokens r earlier) key.name ident
  /-- A symbol only has an alias if its declared name is the identifier of another symbol. -/
  clash : ∀ r, ofTokens path tokens = .ok r → ∀ s ∈ symbols tokens,
    r.identifier? s ≠ some s.name →
      ∃ other ∈ symbols tokens, other.key ≠ s.key ∧ r.identifier? other = some s.name
  /-- If no two symbols share a name, then all of them keep their names, and nothing is imported
  under an alias. -/
  plain : (∀ s ∈ symbols tokens, ∀ other ∈ symbols tokens, s.name = other.name →
      s.key = other.key) →
    ∃ r, ofTokens path tokens = .ok r ∧ (∀ s ∈ symbols tokens, r.identifier? s = some s.name) ∧
      ∀ n ∈ r.imported, n.entry.renamed = none
  /-- There is a resolution unless there are more than 2 ^ 32 symbols. -/
  resolved : ((symbols tokens).map Symbol.key).toFinset.card ≤ Nat.pow 2 32 →
    ∃ r, ofTokens path tokens = .ok r

section

variable {lower : String → String} {path : String} {tokens : List Token} {r : Resolution}

theorem mem_takenAfter {earlier : List SymbolKey} {x : String} :
    x ∈ takenAfter path tokens r earlier ↔
      (∃ s ∈ symbols tokens, s.home = path ∧ s.name = x) ∨
        ∃ key ∈ earlier, r.identifiers.lookup key = some x := by
  simp only [takenAfter, List.mem_toFinset, List.mem_append, List.mem_map, mem_localKeys,
    List.mem_filterMap]
  refine or_congr ?_ Iff.rfl
  constructor
  · rintro ⟨_, ⟨hhome, s, hs, rfl⟩, rfl⟩
    exact ⟨s, hs, hhome, rfl⟩
  · rintro ⟨s, hs, hhome, rfl⟩
    exact ⟨s.key, ⟨hhome, s, hs, rfl⟩, rfl⟩

/-- The symbols of a body are those that the module declares and those that it imports. -/
theorem card_keys (path : String) (ss : List Symbol) :
    (ss.map Symbol.key).toFinset.card
      = (localKeys path ss).length + (foreignKeys path ss).length := by
  have hsame : (ss.map Symbol.key).toFinset
      = (localKeys path ss ++ foreignKeys path ss).toFinset := by
    ext key
    rw [List.mem_toFinset, List.mem_toFinset, mem_keys, List.mem_map]
  rw [hsame, List.toFinset_card_of_nodup (nodup_keys path ss), List.length_append]

/-- The identifier of a foreign symbol is the least one, when the earlier ones have theirs. -/
theorem exists_isLeastIdentifier (h : ofTokensWith lower path tokens = .ok r)
    {earlier later : List SymbolKey} {key : SymbolKey}
    (hsplit : foreignKeys path (symbols tokens) = earlier ++ key :: later) :
    ∃ ident, r.identifiers.lookup key = some ident ∧
      IsLeastIdentifier (takenAfter path tokens r earlier) key.name ident := by
  obtain ⟨entries, ha, hi, -⟩ := ofTokensWith_eq_ok h
  rw [hsplit] at ha
  obtain ⟨front, ident, back, rfl, rfl, hleast⟩ := assign_split ha
  have hlookup : ∀ e ∈ front ++ (key, ident) :: back, r.identifiers.lookup e.1 = some e.2 := by
    intro e he
    rw [lookup_identifiers h, hi]
    exact List.mem_append_right _ he
  refine ⟨ident, hlookup (key, ident) (by simp), ?_⟩
  -- what the walk has taken so far is what the finished resolution says of the earlier symbols
  have hearlier : (front.map Prod.fst).filterMap (fun key => r.identifiers.lookup key)
      = front.map Prod.snd := by
    rw [List.filterMap_map, ← List.filterMap_eq_map]
    exact List.filterMap_congr fun e he => hlookup e (List.mem_append_left _ he)
  have htaken : takenAfter path tokens r (front.map Prod.fst)
      = ((front.map Prod.snd).reverse
        ++ (localKeys path (symbols tokens)).map SymbolKey.name).toFinset := by
    rw [takenAfter, hearlier]
    ext x
    simp only [List.mem_toFinset, List.mem_append, List.mem_reverse]
    exact or_comm
  rwa [htaken]

/-- An alias is only given to a symbol whose name another symbol has for its identifier. -/
theorem exists_clash (h : ofTokensWith lower path tokens = .ok r) {s : Symbol}
    (hs : s ∈ symbols tokens) (halias : r.identifier? s ≠ some s.name) :
    ∃ other ∈ symbols tokens, other.key ≠ s.key ∧ r.identifier? other = some s.name := by
  have hhome : s.home ≠ path := fun heq => halias (lookup_identifiers_of_local h hs heq)
  obtain ⟨earlier, later, hsplit⟩ :=
    List.append_of_mem (mem_foreignKeys.mpr ⟨hhome, s, hs, rfl⟩ : s.key ∈ foreignKeys path _)
  obtain ⟨ident, hlookup, hleast⟩ := exists_isLeastIdentifier h hsplit
  have htaken : s.name ∈ takenAfter path tokens r earlier := by
    by_contra hfree
    exact halias (hlookup.trans (congrArg some (hleast.kept_iff.mpr hfree)))
  rcases mem_takenAfter.mp htaken with ⟨other, hother, hlocal, hname⟩ | ⟨key, hkey, hother⟩
  · refine ⟨other, hother, fun heq => hhome ?_, ?_⟩
    · exact (congrArg SymbolKey.home heq).symm.trans hlocal
    · rw [← hname]
      exact lookup_identifiers_of_local h hother hlocal
  · -- an earlier symbol is not the symbol itself, since each is listed once
    have hne : key ≠ s.key := by
      rintro rfl
      have hnodup := nodup_foreignKeys path (symbols tokens)
      rw [hsplit, List.nodup_append] at hnodup
      exact hnodup.2.2 _ hkey _ (List.mem_cons_self ..) rfl
    have hmem : key ∈ foreignKeys path (symbols tokens) := by
      rw [hsplit]
      exact List.mem_append_left _ hkey
    obtain ⟨other, hin, rfl⟩ := (mem_foreignKeys.mp hmem).2
    exact ⟨other, hin, hne, hother⟩

/-- Symbols with different names all keep their names. -/
theorem exists_resolution_of_distinct (lower : String → String) (path : String)
    {tokens : List Token}
    (h : ∀ s ∈ symbols tokens, ∀ other ∈ symbols tokens, s.name = other.name →
      s.key = other.key) :
    ∃ r, ofTokensWith lower path tokens = .ok r ∧
      ∀ s ∈ symbols tokens, r.identifier? s = some s.name := by
  have hname : ∀ a ∈ localKeys path (symbols tokens) ++ foreignKeys path (symbols tokens),
      ∀ b ∈ localKeys path (symbols tokens) ++ foreignKeys path (symbols tokens),
        a.name = b.name → a = b := by
    intro a ha b hb heq
    obtain ⟨s, hs, rfl⟩ := mem_keys.mp ha
    obtain ⟨other, hother, rfl⟩ := mem_keys.mp hb
    exact h s hs other hother heq
  have hnodup := (nodup_keys path (symbols tokens)).map_on hname
  rw [List.map_append, List.nodup_append] at hnodup
  have hfree : ∀ key ∈ foreignKeys path (symbols tokens),
      key.name ∉ (localKeys path (symbols tokens)).map SymbolKey.name := fun key hkey hmem =>
    hnodup.2.2 _ hmem _ (List.mem_map_of_mem hkey) rfl
  obtain ⟨r, hr, hi⟩ := ofTokensWith_of_assign lower (assign_of_distinct hnodup.2.1 hfree)
  refine ⟨r, hr, fun s hs => ?_⟩
  have hkey : s.key ∈ localKeys path (symbols tokens) ++ foreignKeys path (symbols tokens) :=
    mem_keys.mpr ⟨s, hs, rfl⟩
  rw [identifier?, lookup_identifiers hr, hi, ← List.map_append]
  exact List.mem_map_of_mem hkey

/-- Nothing is imported under an alias if all symbols keep their names. -/
theorem renamed_eq_none (h : ofTokensWith lower path tokens = .ok r)
    (hkept : ∀ s ∈ symbols tokens, r.identifier? s = some s.name) {n : ImportedName}
    (hn : n ∈ r.imported) : n.entry.renamed = none := by
  obtain ⟨_, ⟨-, s, hs, rfl⟩, himport⟩ := exists_isForeign h hn
  by_contra hne
  exact himport.renamed hne (Option.some.inj (himport.bound.symm.trans (hkept s hs)))

end

/-- Every body of every module has minimal aliases. -/
theorem ofTokens_minimalAliases (path : String) (tokens : List Token) :
    MinimalAliases path tokens where
  least := fun _ h _ _ _ hsplit => exists_isLeastIdentifier h hsplit
  clash := fun _ h _ hs halias => exists_clash h hs halias
  plain := by
    intro hdistinct
    obtain ⟨r, hr, hkept⟩ := exists_resolution_of_distinct Text.lowercase path hdistinct
    exact ⟨r, hr, hkept, fun n hn => renamed_eq_none hr hkept hn⟩
  resolved := by
    intro hcard
    rw [card_keys path] at hcard
    have hlength : ((localKeys path (symbols tokens)).map SymbolKey.name).length
        + (foreignKeys path (symbols tokens)).length ≤ maxSuffix + 1 := by
      rw [List.length_map]
      exact hcard
    obtain ⟨entries, hassign⟩ := exists_assign hlength
    obtain ⟨r, hr, -⟩ := ofTokensWith_of_assign Text.lowercase hassign
    exact ⟨r, hr⟩

/-- The last symbol of `contested` comes to its second alias: the module has its name, and the first
symbol its first alias. -/
theorem contested_minimalAliases :
    (ofTokens "./m.js" contested = .ok contestedResolution ∧
      foreignKeys "./m.js" (symbols contested)
        = [⟨"./a.js", "Foo"⟩, ⟨"./b.js", "Foo$1"⟩] ++ ⟨"./c.js", "Foo"⟩ :: []) ∧
    contestedResolution.identifiers.lookup ⟨"./c.js", "Foo"⟩ = some "Foo$2" ∧
    IsLeastIdentifier (takenAfter "./m.js" contested contestedResolution
      [⟨"./a.js", "Foo"⟩, ⟨"./b.js", "Foo$1"⟩]) "Foo" "Foo$2" := by
  have hsplit : foreignKeys "./m.js" (symbols contested)
      = [⟨"./a.js", "Foo"⟩, ⟨"./b.js", "Foo$1"⟩] ++ ⟨"./c.js", "Foo"⟩ :: [] := by
    decide +kernel
  have hident : contestedResolution.identifiers.lookup ⟨"./c.js", "Foo"⟩ = some "Foo$2" := by
    decide +kernel
  obtain ⟨ident, hlookup, hleast⟩ :=
    (ofTokens_minimalAliases "./m.js" contested).least _ ofTokens_contested _ _ _ hsplit
  cases hident.symm.trans hlookup
  exact ⟨⟨ofTokens_contested, hsplit⟩, hident, hleast⟩

end Resolution

end ModuleAssembly
