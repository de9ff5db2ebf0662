import Mathlib.Data.Finset.Card
import ModuleAssembly.Import.Resolution
import ModuleAssembly.Proofs.Lists
import ModuleAssembly.Proofs.Results

/-!
# Identifiers are unique

The identifiers of a module are given out one by one: a symbol takes its declared name if that is
free, and the free alias with the least suffix if it is not. The invariant of this walk is that
the identifiers given out so far and the names that the module declares itself are taken, and
that nothing taken is given out again. So no two symbols of a module share an identifier,
whatever their declared names look like (`UniqueIdentifiers`).
-/

set_option autoImplicit false

namespace ModuleAssembly

/-! ## Aliases -/

/-- Aliases of one name with different suffixes differ. -/
theorem aliasOf_inj {name : String} {j k : Nat} : aliasOf name j = aliasOf name k ↔ j = k := by
  constructor
  · intro h
    have hl := congrArg String.toList h
    simp only [aliasOf, String.toList_append, List.append_assoc, List.append_cancel_left_eq,
      String.toList_ofList] at hl
    have hd := congrArg (fun cs => Nat.ofDigitChars 10 cs 0) hl
    simpa only [Nat.ofDigitChars_toDigits (by decide : 1 < 10) (by decide : 10 ≤ 10)] using hd
  · rintro rfl
    rfl

/-- The search never goes back. -/
theorem le_leastFree (name : String) (taken : List String) (fuel k : Nat) :
    k ≤ leastFree name taken fuel k := by
  induction fuel generalizing k with
  | zero => exact Nat.le_refl k
  | succ fuel ih =>
      unfold leastFree
      split
      · exact Nat.le_of_succ_le (ih (k + 1))
      · exact Nat.le_refl k

/-- The search takes no more steps than it may. -/
theorem leastFree_le (name : String) (taken : List String) (fuel k : Nat) :
    leastFree name taken fuel k ≤ k + fuel := by
  induction fuel generalizing k with
  | zero => exact Nat.le_refl k
  | succ fuel ih =>
      unfold leastFree
      split
      · have := ih (k + 1)
        omega
      · omega

/-- Every alias that the search passes is taken. -/
theorem aliasOf_mem_of_lt_leastFree {name : String} {taken : List String} {fuel k j : Nat}
    (hk : k ≤ j) (hj : j < leastFree name taken fuel k) : aliasOf name j ∈ taken := by
  induction fuel generalizing k with
  | zero =>
      have : j < k := hj
      omega
  | succ fuel ih =>
      unfold leastFree at hj
      by_cases hm : aliasOf name k ∈ taken
      · rw [if_pos hm] at hj
        rcases Nat.eq_or_lt_of_le hk with rfl | hlt
        · exact hm
        · exact ih hlt hj
      · rw [if_neg hm] at hj
        omega

/-- A search that has steps left has found a free alias. -/
theorem aliasOf_leastFree_not_mem_of_lt {name : String} {taken : List String} {fuel k : Nat}
    (h : leastFree name taken fuel k < k + fuel) :
    aliasOf name (leastFree name taken fuel k) ∉ taken := by
  induction fuel generalizing k with
  | zero => exact absurd h (Nat.lt_irrefl k)
  | succ fuel ih =>
      unfold leastFree at h ⊢
      by_cases hm : aliasOf name k ∈ taken
      · rw [if_pos hm] at h ⊢
        exact ih (by omega)
      · rw [if_neg hm]
        exact hm

/-- A set of identifiers has no fewer elements than there are different ones known to be in it. -/
theorem le_card_of_forall_lt_mem {f : Nat → String} (hf : Function.Injective f)
    {taken : Finset String} {k : Nat} (h : ∀ j < k, f j ∈ taken) : k ≤ taken.card := by
  have hmaps : Set.MapsTo f (Finset.range k) taken := fun j hj => h j (Finset.mem_range.mp hj)
  have hcard := Finset.card_le_card_of_injOn f hmaps hf.injOn
  rwa [Finset.card_range] at hcard

/-- The search ends at a free alias also when it has used up its steps: there are as many steps
as taken identifiers, and all aliases that were passed are different ones of these. -/
theorem aliasOf_leastFree_not_mem (name : String) (taken : List String) :
    aliasOf name (leastFree name taken taken.length 1) ∉ taken := by
  rcases Nat.lt_or_ge (leastFree name taken taken.length 1) (1 + taken.length) with hlt | hge
  · exact aliasOf_leastFree_not_mem_of_lt hlt
  · have hend : leastFree name taken taken.length 1 = 1 + taken.length :=
      Nat.le_antisymm (leastFree_le name taken taken.length 1) hge
    intro hmem
    -- the aliases with the suffixes 1 to `taken.length + 1` would all be taken
    have hall : ∀ i < taken.length + 1, aliasOf name (i + 1) ∈ taken.toFinset := by
      intro i hi
      rw [List.mem_toFinset]
      rcases Nat.eq_or_lt_of_le (Nat.le_of_lt_succ hi) with rfl | hi
      · rwa [hend, Nat.add_comm] at hmem
      · have hlt : i + 1 < leastFree name taken taken.length 1 := by omega
        exact aliasOf_mem_of_lt_leastFree (Nat.le_add_left 1 i) hlt
    have hinj : Function.Injective fun i => aliasOf name (i + 1) := fun i j hij =>
      Nat.succ.inj (aliasOf_inj.mp hij)
    have hcard := le_card_of_forall_lt_mem hinj hall
    have hlength := List.toFinset_card_le taken
    omega

/-- **The free alias.** It has the least positive suffix with which the name is not taken. -/
theorem freeAlias_spec {name other : String} {taken : List String}
    (h : freeAlias name taken = .ok other) :
    ∃ k, 1 ≤ k ∧ other = aliasOf name k ∧ aliasOf name k ∉ taken ∧
      ∀ j, 1 ≤ j → j < k → aliasOf name j ∈ taken := by
  simp only [freeAlias] at h
  split at h
  · cases h
    exact ⟨leastFree name taken taken.length 1, le_leastFree name taken taken.length 1,
      rfl, aliasOf_leastFree_not_mem name taken, fun j => aliasOf_mem_of_lt_leastFree⟩
  · cases h

/-! ## Assignment -/

/-- The identifier of a symbol with this name, when these identifiers are taken. -/
def identifierFor (taken : List String) (name : String) : Except Error String :=
  if name ∈ taken then freeAlias name taken else .ok name

theorem identifierFor_not_mem {taken : List String} {name ident : String}
    (h : identifierFor taken name = .ok ident) : ident ∉ taken := by
  unfold identifierFor at h
  split at h
  · obtain ⟨k, -, rfl, hfree, -⟩ := freeAlias_spec h
    exact hfree
  · next hname =>
      cases h
      exact hname

/-- One step of the assignment: the first symbol gets its identifier, which is taken for the
others. -/
theorem assign_cons (taken : List String) (key : SymbolKey) (rest : List SymbolKey) :
    assign taken (key :: rest) = (identifierFor taken key.name).bind fun ident =>
      (assign (ident :: taken) rest).map fun more => (key, ident) :: more := by
  unfold identifierFor
  rw [assign]
  split
  · rfl
  · rfl

theorem assign_cons_eq_ok {taken : List String} {key : SymbolKey} {rest : List SymbolKey}
    {entries : List (SymbolKey × String)} (h : assign taken (key :: rest) = .ok entries) :
    ∃ ident more, identifierFor taken key.name = .ok ident ∧
      assign (ident :: taken) rest = .ok more ∧ entries = (key, ident) :: more := by
  rw [assign_cons] at h
  obtain ⟨ident, hi, h⟩ := except_bind_eq_ok.mp h
  obtain ⟨more, hm, rfl⟩ := except_map_eq_ok.mp h
  exact ⟨ident, more, hi, hm, rfl⟩

/-- Every symbol gets one identifier, in order. -/
theorem assign_keys {taken : List String} {keys : List SymbolKey}
    {entries : List (SymbolKey × String)} (h : assign taken keys = .ok entries) :
    entries.map Prod.fst = keys := by
  induction keys generalizing taken entries with
  | nil =>
      cases h
      rfl
  | cons key rest ih =>
      obtain ⟨ident, more, -, hm, rfl⟩ := assign_cons_eq_ok h
      rw [List.map_cons, ih hm]

/-- Nothing taken is given out, and nothing is given out twice. -/
theorem assign_fresh {taken : List String} {keys : List SymbolKey}
    {entries : List (SymbolKey × String)} (h : assign taken keys = .ok entries) :
    (∀ e ∈ entries, e.2 ∉ taken) ∧ (entries.map Prod.snd).Nodup := by
  induction keys generalizing taken entries with
  | nil =>
      cases h
      simp
  | cons key rest ih =>
      obtain ⟨ident, more, hi, hm, rfl⟩ := assign_cons_eq_ok h
      -- what is given out later avoids `ident` too, because it is taken by then
      obtain ⟨hfresh, hnodup⟩ := ih hm
      refine ⟨?_, ?_⟩
      · intro e he
        rcases List.mem_cons.mp he with rfl | he
        · exact identifierFor_not_mem hi
        · exact fun hmem => hfresh e he (List.mem_cons_of_mem _ hmem)
      · rw [List.map_cons, List.nodup_cons]
        refine ⟨?_, hnodup⟩
        intro hmem
        obtain ⟨e, he, heq⟩ := List.mem_map.mp hmem
        exact hfresh e he (heq ▸ List.mem_cons_self ..)

/-- Symbols behind others get their identifiers when those have theirs. -/
theorem assign_append (taken : List String) (front back : List SymbolKey) :
    assign taken (front ++ back) = (assign taken front).bind fun entries =>
      (assign ((entries.map Prod.snd).reverse ++ taken) back).map fun more => entries ++ more := by
  induction front generalizing taken with
  | nil =>
      show assign taken back = (assign taken back).map fun more => more
      cases assign taken back with
      | error e => rfl
      | ok more => rfl
  | cons key front ih =>
      rw [List.cons_append, assign_cons, assign_cons]
      cases identifierFor taken key.name with
      | error e => rfl
      | ok ident =>
          rw [except_bind_ok, except_bind_ok, ih]
          cases assign (ident :: taken) front with
          | error e => rfl
          | ok entries =>
              simp only [except_bind_ok, except_map_ok, List.map_cons, List.reverse_cons,
                List.append_assoc, List.singleton_append]
              cases assign ((entries.map Prod.snd).reverse ++ ident :: taken) back with
              | error e => rfl
              | ok more => rfl

/-! ## The symbols of a module -/

namespace Resolution

theorem mem_symbols {tokens : List Token} {s : Symbol} :
    s ∈ symbols tokens ↔ Token.symbol s ∈ tokens := by
  rw [symbols, List.mem_filterMap]
  constructor
  · rintro ⟨t, ht, hs⟩
    cases t with
    | text _ => cases hs
    | symbol s' =>
        cases hs
        exact ht
  · exact fun h => ⟨.symbol s, h, rfl⟩

theorem mem_localKeys {path : String} {ss : List Symbol} {key : SymbolKey} :
    key ∈ localKeys path ss ↔ key.home = path ∧ ∃ s ∈ ss, s.key = key := by
  simp only [localKeys, List.mem_eraseDups, List.mem_map, List.mem_filter, Symbol.isLocalTo,
    beq_iff_eq]
  constructor
  · rintro ⟨s, ⟨hs, hhome⟩, rfl⟩
    exact ⟨hhome, s, hs, rfl⟩
  · rintro ⟨hhome, s, hs, rfl⟩
    exact ⟨s, ⟨hs, hhome⟩, rfl⟩

theorem mem_foreignKeys {path : String} {ss : List Symbol} {key : SymbolKey} :
    key ∈ foreignKeys path ss ↔ key.home ≠ path ∧ ∃ s ∈ ss, s.key = key := by
  simp only [foreignKeys, List.mem_eraseDups, List.mem_map, List.mem_filter, Symbol.isLocalTo,
    Bool.not_eq_true', beq_eq_false_iff_ne]
  constructor
  · rintro ⟨s, ⟨hs, hhome⟩, rfl⟩
    exact ⟨hhome, s, hs, rfl⟩
  · rintro ⟨hhome, s, hs, rfl⟩
    exact ⟨s, ⟨hs, hhome⟩, rfl⟩

theorem nodup_localKeys (path : String) (ss : List Symbol) : (localKeys path ss).Nodup :=
  nodup_eraseDups _

theorem nodup_foreignKeys (path : String) (ss : List Symbol) : (foreignKeys path ss).Nodup :=
  nodup_eraseDups _

/-- No symbol is both declared by the module and imported. -/
theorem nodup_keys (path : String) (ss : List Symbol) :
    (localKeys path ss ++ foreignKeys path ss).Nodup := by
  refine List.nodup_append.mpr ⟨nodup_localKeys _ _, nodup_foreignKeys _ _, ?_⟩
  intro a ha b hb heq
  subst heq
  exact (mem_foreignKeys.mp hb).1 (mem_localKeys.mp ha).1

/-- Every symbol is declared by the module or imported. -/
theorem mem_keys {path : String} {ss : List Symbol} {key : SymbolKey} :
    key ∈ localKeys path ss ++ foreignKeys path ss ↔ ∃ s ∈ ss, s.key = key := by
  rw [List.mem_append, mem_localKeys, mem_foreignKeys]
  by_cases hhome : key.home = path
  · simp [hhome]
  · simp [hhome]

/-- Symbols with one home differ in their names. -/
theorem nodup_localNames (path : String) (ss : List Symbol) :
    ((localKeys path ss).map SymbolKey.name).Nodup := by
  refine (nodup_localKeys path ss).map_on ?_
  intro a ha b hb hname
  have hhome : a.home = b.home := (mem_localKeys.mp ha).1.trans (mem_localKeys.mp hb).1.symm
  cases a
  cases b
  simp_all

/-! ## The identifiers of a module -/

/-- What a resolution consists of. -/
theorem ofTokensWith_eq_ok {lower : String → String} {path : String} {tokens : List Token}
    {r : Resolution} (h : ofTokensWith lower path tokens = .ok r) :
    ∃ entries,
      assign ((localKeys path (symbols tokens)).map SymbolKey.name)
          (foreignKeys path (symbols tokens)) = .ok entries ∧
      r.identifiers
        = (localKeys path (symbols tokens)).map (fun key => (key, key.name)) ++ entries ∧
      r.statements = ((foreignKeys path (symbols tokens)).map SymbolKey.home).eraseDups.flatMap
        (statementsFor lower path (symbols tokens) entries) := by
  obtain ⟨entries, ha, hr⟩ := except_bind_eq_ok.mp h
  cases hr
  exact ⟨entries, ha, rfl, rfl⟩

variable {lower : String → String} {path : String} {tokens : List Token} {r : Resolution}

/-- There is a resolution as soon as the foreign symbols have identifiers. -/
theorem ofTokensWith_of_assign (lower : String → String) {path : String} {tokens : List Token}
    {entries : List (SymbolKey × String)}
    (h : assign ((localKeys path (symbols tokens)).map SymbolKey.name)
      (foreignKeys path (symbols tokens)) = .ok entries) :
    ∃ r, ofTokensWith lower path tokens = .ok r ∧ r.identifiers
      = (localKeys path (symbols tokens)).map (fun key => (key, key.name)) ++ entries := by
  simp only [ofTokensWith, h]
  exact ⟨_, rfl, rfl⟩

/-- The identifiers are given to the symbols of the module, each once. -/
theorem identifiers_keys (h : ofTokensWith lower path tokens = .ok r) :
    (r.identifiers.map Prod.fst).Nodup ∧
      ∀ key, key ∈ r.identifiers.map Prod.fst ↔ ∃ s ∈ symbols tokens, s.key = key := by
  obtain ⟨entries, ha, hi, -⟩ := ofTokensWith_eq_ok h
  have hkeys : r.identifiers.map Prod.fst
      = localKeys path (symbols tokens) ++ foreignKeys path (symbols tokens) := by
    rw [hi, List.map_append, assign_keys ha, List.map_map]
    simp [Function.comp_def]
  rw [hkeys]
  exact ⟨nodup_keys _ _, fun key => mem_keys⟩

/-- No identifier is given twice. -/
theorem identifiers_nodup (h : ofTokensWith lower path tokens = .ok r) :
    (r.identifiers.map Prod.snd).Nodup := by
  obtain ⟨entries, ha, hi, -⟩ := ofTokensWith_eq_ok h
  obtain ⟨hfresh, hnodup⟩ := assign_fresh ha
  have hvals : r.identifiers.map Prod.snd
      = (localKeys path (symbols tokens)).map SymbolKey.name ++ entries.map Prod.snd := by
    rw [hi, List.map_append, List.map_map]
    rfl
  rw [hvals]
  refine List.nodup_append.mpr ⟨nodup_localNames _ _, hnodup, ?_⟩
  intro a ha' b hb heq
  obtain ⟨e, he, rfl⟩ := List.mem_map.mp hb
  exact hfresh e he (heq ▸ ha')

/-- Searching the identifiers finds exactly the ones that were given. -/
theorem lookup_identifiers (h : ofTokensWith lower path tokens = .ok r) {key : SymbolKey}
    {ident : String} :
    r.identifiers.lookup key = some ident ↔ (key, ident) ∈ r.identifiers :=
  lookup_eq_some_iff_mem (identifiers_keys h).1

/-- A symbol that the module declares itself keeps its declared name. -/
theorem lookup_identifiers_of_local (h : ofTokensWith lower path tokens = .ok r) {s : Symbol}
    (hs : s ∈ symbols tokens) (hhome : s.home = path) :
    r.identifiers.lookup s.key = some s.name := by
  rw [lookup_identifiers h]
  obtain ⟨entries, -, hi, -⟩ := ofTokensWith_eq_ok h
  rw [hi, List.mem_append]
  exact .inl (List.mem_map.mpr ⟨s.key, mem_localKeys.mpr ⟨hhome, s, hs, rfl⟩, rfl⟩)

/-- **Identifiers are unique.** What it means that the identifiers of a resolution suit the body
of the module at `path`. -/
structure UniqueIdentifiers (path : String) (tokens : List Token) (r : Resolution) : Prop where
  /-- Every identity is listed once. -/
  listed_once : (r.identifiers.map Prod.fst).Nodup
  /-- The symbols of the body have an identifier, and nothing else has. -/
  given_iff : ∀ key, (∃ ident, r.identifiers.lookup key = some ident) ↔
    ∃ s ∈ symbols tokens, s.key = key
  /-- Different identities have different identifiers. -/
  injective : ∀ key key' ident, r.identifiers.lookup key = some ident →
    r.identifiers.lookup key' = some ident → key = key'
  /-- A symbol that the module declares itself keeps its declared name. -/
  local_kept : ∀ s ∈ symbols tokens, s.home = path → r.identifier? s = some s.name

/-- Every resolution has unique identifiers, wherever in the body its symbols stand and whatever
their declared names look like. -/
theorem ofTokens_uniqueIdentifiers {path : String} {tokens : List Token} {r : Resolution}
    (h : ofTokens path tokens = .ok r) : UniqueIdentifiers path tokens r := by
  have h' : ofTokensWith Text.lowercase path tokens = .ok r := h
  refine ⟨(identifiers_keys h').1, ?_, ?_, ?_⟩
  · intro key
    rw [← (identifiers_keys h').2, List.mem_map]
    constructor
    · rintro ⟨ident, hl⟩
      exact ⟨_, (lookup_identifiers h').mp hl, rfl⟩
    · rintro ⟨⟨_, ident⟩, he, rfl⟩
      exact ⟨ident, (lookup_identifiers h').mpr he⟩
  · intro key key' ident hk hk'
    -- the two entries have one identifier, so they are the same entry
    have heq := List.inj_on_of_nodup_map (identifiers_nodup h') ((lookup_identifiers h').mp hk)
      ((lookup_identifiers h').mp hk') rfl
    exact congrArg Prod.fst heq
  · intro s hs hhome
    exact lookup_identifiers_of_local h' hs hhome

/-- A body in which declared names and aliases compete for `Foo` and `Foo$1`; the module at
`./m.js` declares its own `Foo` last. -/
def contested : List Token :=
  [.symbol ⟨"Foo", "./a.js", true⟩, .symbol ⟨"Foo$1", "./b.js", false⟩, .text ", ",
    .symbol ⟨"Foo", "./c.js", false⟩, .symbol ⟨"Foo", "./a.js", false⟩,
    .symbol ⟨"Foo", "./m.js", false⟩]

/-- The resolution of `contested`. -/
def contestedResolution : Resolution where
  statements :=
    [⟨false, "./a.js", [⟨"Foo", some "Foo$1"⟩]⟩, ⟨false, "./b.js", [⟨"Foo$1", some "Foo$1$1"⟩]⟩,
      ⟨false, "./c.js", [⟨"Foo", some "Foo$2"⟩]⟩]
  identifiers :=
    [(⟨"./m.js", "Foo"⟩, "Foo"), (⟨"./a.js", "Foo"⟩, "Foo$1"), (⟨"./b.js", "Foo$1"⟩, "Foo$1$1"),
      (⟨"./c.js", "Foo"⟩, "Foo$2")]

theorem ofTokens_contested : ofTokens "./m.js" contested = .ok contestedResolution := by
  decide +kernel

theorem contested_uniqueIdentifiers : ofTokens "./m.js" contested = .ok contestedResolution ∧
    UniqueIdentifiers "./m.js" contested contestedResolution :=
  ⟨ofTokens_contested, ofTokens_uniqueIdentifiers ofTokens_contested⟩

end Resolution

end ModuleAssembly
