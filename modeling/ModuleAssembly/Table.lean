/-!
# Tables

A table is a list of key-value pairs in strictly ascending order of the keys. Keys compare by
code point, which is the order of their UTF-8 bytes. `insert` keeps the order and replaces the
value of a key that is already there, so a table has one entry for each key.
-/

set_option autoImplicit false

namespace ModuleAssembly

/-- Key-value pairs, kept in ascending order of the keys by `Table.insert`. -/
abbrev Table (α : Type) := List (String × α)

namespace Table

variable {α β : Type}

/-- The keys of a table, in order. -/
def keys (t : Table α) : List String := t.map Prod.fst

/-- The strict order on keys that a table keeps. -/
def Ordered (t : Table α) : Prop := t.keys.Pairwise (· < ·)

/-- Puts `value` under `key`, in place of the value that stood there. -/
def insert (key : String) (value : α) : Table α → Table α
  | [] => [(key, value)]
  | (k, v) :: rest =>
    if key < k then (key, value) :: (k, v) :: rest
    else if key = k then (key, value) :: rest
    else (k, v) :: insert key value rest

/-- The value under `key`. -/
def find? (key : String) : Table α → Option α
  | [] => none
  | (k, v) :: rest => if k = key then some v else find? key rest

/-- The table of a list of pairs; of two pairs with one key the later one counts. -/
def ofPairs (pairs : List (String × α)) : Table α :=
  pairs.foldl (fun t p => insert p.1 p.2 t) []

@[simp] theorem find?_nil (key : String) : find? key ([] : Table α) = none := rfl

theorem find?_cons (key k : String) (v : α) (rest : Table α) :
    find? key ((k, v) :: rest) = if k = key then some v else find? key rest := rfl

/-- Looking up a key that was just put finds the value that was put. -/
theorem find?_insert_self (key : String) (value : α) (t : Table α) :
    (t.insert key value).find? key = some value := by
  induction t with
  | nil => simp [insert, find?]
  | cons p rest ih =>
      obtain ⟨k, v⟩ := p
      unfold insert
      split
      · simp [find?]
      · split
        · simp [find?]
        · next hne => simp [find?, Ne.symm hne, ih]

/-- Putting a key changes what is found under no other key. -/
theorem find?_insert_of_ne {key other : String} (h : other ≠ key) (value : α) (t : Table α) :
    (t.insert key value).find? other = t.find? other := by
  induction t with
  | nil => simp [insert, find?, Ne.symm h]
  | cons p rest ih =>
      obtain ⟨k, v⟩ := p
      unfold insert
      split
      · simp [find?, Ne.symm h]
      · split
        · next heq => subst heq; simp [find?, Ne.symm h]
        · simp [find?, ih]

theorem mem_keys_insert {key k : String} {value : α} {t : Table α} :
    k ∈ (t.insert key value).keys ↔ k = key ∨ k ∈ t.keys := by
  induction t with
  | nil => simp [insert, keys]
  | cons p rest ih =>
      obtain ⟨k', v⟩ := p
      unfold insert
      split
      · simp [keys]
      · split
        · next heq => subst heq; simp [keys]
        · have hrest : k ∈ (insert key value rest).map Prod.fst ↔ k = key ∨ k ∈ rest.map Prod.fst :=
            ih
          simp only [keys, List.map_cons, List.mem_cons, hrest]
          exact or_left_comm

/-- Putting a key keeps the order. -/
theorem ordered_insert {t : Table α} (h : t.Ordered) (key : String) (value : α) :
    (t.insert key value).Ordered := by
  induction t with
  | nil => simp [insert, Ordered, keys]
  | cons p rest ih =>
      obtain ⟨k, v⟩ := p
      obtain ⟨hk, hrest⟩ := List.pairwise_cons.mp h
      unfold insert
      split
      · next hlt =>
          refine List.pairwise_cons.mpr ⟨?_, h⟩
          intro k' hk'
          rcases List.mem_cons.mp hk' with rfl | hk'
          · exact hlt
          · exact String.lt_trans hlt (hk k' hk')
      · next hnlt =>
          split
          · next heq =>
              subst heq
              exact h
          · next hne =>
              refine List.pairwise_cons.mpr ⟨?_, ih hrest⟩
              intro k' hk'
              rcases mem_keys_insert.mp hk' with rfl | hk'
              · exact Std.lt_of_le_of_ne (String.not_lt.mp hnlt) (Ne.symm hne)
              · exact hk k' hk'

/-- In a table, a search finds exactly the value that stands under the key. -/
theorem find?_eq_some_iff {t : Table α} (h : t.Ordered) {key : String} {value : α} :
    t.find? key = some value ↔ (key, value) ∈ t := by
  induction t with
  | nil => simp
  | cons p rest ih =>
      obtain ⟨k, v⟩ := p
      obtain ⟨hk, hrest⟩ := List.pairwise_cons.mp h
      rw [find?_cons, List.mem_cons, Prod.mk.injEq]
      by_cases heq : k = key
      · subst heq
        have hnot : (k, value) ∉ rest := fun hm =>
          String.lt_irrefl k (hk k (List.mem_map.mpr ⟨_, hm, rfl⟩))
        simp [hnot, eq_comm]
      · rw [if_neg heq, ih hrest]
        simp [Ne.symm heq]

end Table

end ModuleAssembly
