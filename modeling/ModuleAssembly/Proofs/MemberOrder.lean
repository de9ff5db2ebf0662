import Mathlib.Data.List.Perm.Basic
import ModuleAssembly.Proofs.ByteOrder
import ModuleAssembly.Proofs.JsonText
import ModuleAssembly.Proofs.Lists

/-!
# The order of members

An object is a collection of members, and the order in which they are listed means nothing. Two
values whose keys differ within each object are equal up to that order exactly if sorting makes them
equal (`Json.sorted_eq_iff`). What sorting gives has its keys ascending byte by byte, is equal to the
value it was given up to the order, and is left alone when it is sorted again.
-/

set_option autoImplicit false

namespace ModuleAssembly

/-! ## Tables of pairs with different keys -/

namespace Table

variable {α : Type}

theorem ordered_ofPairs (pairs : List (String × α)) : (ofPairs pairs).Ordered := by
  have hfold : ∀ (rest : List (String × α)) {t : Table α}, t.Ordered →
      Ordered (rest.foldl (fun t p => insert p.1 p.2 t) t) := by
    intro rest
    induction rest with
    | nil => exact fun h => h
    | cons p rest ih => exact fun h => ih (ordered_insert h p.1 p.2)
  exact hfold pairs .nil

theorem mem_of_mem_insert {key : String} {value : α} {t : Table α} {p : String × α}
    (h : p ∈ t.insert key value) : p = (key, value) ∨ p ∈ t := by
  induction t with
  | nil => exact .inl (List.mem_singleton.mp h)
  | cons q rest ih =>
      obtain ⟨k, v⟩ := q
      unfold insert at h
      split at h
      · exact List.mem_cons.mp h
      · split at h
        · exact (List.mem_cons.mp h).imp_right (List.mem_cons_of_mem _)
        · rcases List.mem_cons.mp h with rfl | h
          · exact .inr (List.mem_cons_self ..)
          · exact (ih h).imp_right (List.mem_cons_of_mem _)

/-- A table has no pairs but those it is made of. -/
theorem mem_of_mem_ofPairs {pairs : List (String × α)} {p : String × α}
    (h : p ∈ ofPairs pairs) : p ∈ pairs := by
  have hfold : ∀ (rest : List (String × α)) {t : Table α},
      p ∈ rest.foldl (fun t p => insert p.1 p.2 t) t → p ∈ t ∨ p ∈ rest := by
    intro rest
    induction rest with
    | nil => exact fun h => .inl h
    | cons q rest ih =>
        intro t h
        rcases ih h with h | h
        · rcases mem_of_mem_insert h with rfl | h
          · exact .inr (List.mem_cons_self ..)
          · exact .inl h
        · exact .inr (List.mem_cons_of_mem _ h)
  exact (hfold pairs h).resolve_left List.not_mem_nil

/-- A new key is put somewhere among the others. -/
theorem insert_perm {key : String} {t : Table α} (h : key ∉ t.keys) (value : α) :
    (t.insert key value).Perm ((key, value) :: t) := by
  induction t with
  | nil => exact .refl _
  | cons q rest ih =>
      obtain ⟨k, v⟩ := q
      have hne : key ≠ k := fun heq => h (heq ▸ List.mem_cons_self ..)
      have hrest : key ∉ keys rest := fun hmem => h (List.mem_cons_of_mem _ hmem)
      unfold insert
      split
      · exact .refl _
      · exact ((ih hrest).cons _).trans (.swap _ _ _)

/-- Pairs with different keys are all kept. -/
theorem ofPairs_perm {pairs : List (String × α)} (h : (pairs.map Prod.fst).Nodup) :
    (ofPairs pairs).Perm pairs := by
  have hfold : ∀ (rest : List (String × α)) {t : Table α}, (keys (t ++ rest)).Nodup →
      (rest.foldl (fun t p => insert p.1 p.2 t) t).Perm (t ++ rest) := by
    intro rest
    induction rest with
    | nil =>
        intro t _
        rw [List.append_nil]
        exact .refl _
    | cons q rest ih =>
        intro t hkeys
        have hmiddle : (t ++ q :: rest).Perm ((q :: t) ++ rest) := List.perm_middle
        have hnew : q.1 ∉ keys t := by
          have hnodup := (hmiddle.map Prod.fst).nodup_iff.mp hkeys
          intro hmem
          obtain ⟨p, hp, hkey⟩ := List.mem_map.mp hmem
          exact (List.nodup_cons.mp hnodup).1
            (List.mem_map.mpr ⟨p, List.mem_append_left _ hp, hkey⟩)
        have hput : (insert q.1 q.2 t ++ rest).Perm (t ++ q :: rest) :=
          ((insert_perm hnew q.2).append_right rest).trans hmiddle.symm
        have hkeys' : (keys (insert q.1 q.2 t ++ rest)).Nodup :=
          (hput.map Prod.fst).nodup_iff.mpr hkeys
        exact (ih hkeys').trans hput
  exact hfold pairs h

/-- A collection of pairs has one table. -/
theorem eq_of_perm {t t' : Table α} (h : t.Ordered) (h' : t'.Ordered) (hperm : t.Perm t') :
    t = t' := by
  have hlt : t.Pairwise fun p q => p.1 < q.1 := List.pairwise_map.mp h
  have hlt' : t'.Pairwise fun p q => p.1 < q.1 := List.pairwise_map.mp h'
  refine List.Perm.eq_of_pairwise (fun p q _ _ hpq hqp => ?_) hlt hlt' hperm
  exact absurd (String.lt_trans hpq hqp) (String.lt_irrefl _)

theorem ofPairs_eq_of_perm {pairs pairs' : List (String × α)} (h : (pairs.map Prod.fst).Nodup)
    (hperm : pairs.Perm pairs') : ofPairs pairs = ofPairs pairs' := by
  have h' : (pairs'.map Prod.fst).Nodup := (hperm.map Prod.fst).nodup_iff.mp h
  exact eq_of_perm (ordered_ofPairs _) (ordered_ofPairs _)
    ((ofPairs_perm h).trans (hperm.trans (ofPairs_perm h').symm))

end Table

namespace Json

/-! ## Induction over values -/

/-- What holds of arrays and objects when it holds of what is in them holds of every value. -/
@[elab_as_elim]
theorem nested_induction {P : Json → Prop} (null : P .null) (bool : ∀ b, P (.bool b))
    (number : ∀ n, P (.number n)) (string : ∀ s, P (.string s))
    (array : ∀ items, (∀ v ∈ items, P v) → P (.array items))
    (object : ∀ members : List (String × Json), (∀ m ∈ members, P m.2) → P (.object members))
    (v : Json) : P v :=
  @Json.rec P (fun items => ∀ v ∈ items, P v) (fun members => ∀ m ∈ members, P m.2)
    (fun m => P m.2) null bool number string array object
    (fun _ hv => absurd hv List.not_mem_nil)
    (fun _ _ hv hrest => List.forall_mem_cons.mpr ⟨hv, hrest⟩)
    (fun _ hm => absurd hm List.not_mem_nil)
    (fun _ _ hm hrest => List.forall_mem_cons.mpr ⟨hm, hrest⟩)
    (fun _ _ hv => hv) v

theorem sortedItems_eq_map (items : List Json) : sortedItems items = items.map sorted := by
  induction items with
  | nil => rfl
  | cons v rest ih => rw [sortedItems, ih, List.map_cons]

/-- Sorts the value of a member. -/
def sortedMember (m : String × Json) : String × Json := (m.1, m.2.sorted)

theorem sortedMembers_eq_map (members : List (String × Json)) :
    sortedMembers members = members.map sortedMember := by
  induction members with
  | nil => rfl
  | cons m rest ih => rw [sortedMembers, ih, List.map_cons, sortedMember]

theorem sorted_array (items : List Json) : sorted (.array items) = .array (items.map sorted) := by
  rw [sorted, sortedItems_eq_map]

theorem sorted_object (members : List (String × Json)) :
    sorted (.object members) = .object (Table.ofPairs (members.map sortedMember)) := by
  rw [sorted, sortedMembers_eq_map]

/-! ## Equality up to order -/

/-- The keys within each object are different. -/
inductive Distinct : Json → Prop where
  | null : Distinct .null
  | bool (b : Bool) : Distinct (.bool b)
  | number (n : JsonNumber) : Distinct (.number n)
  | string (s : String) : Distinct (.string s)
  | array {items : List Json} (h : ∀ v ∈ items, Distinct v) : Distinct (.array items)
  | object {members : List (String × Json)} (hkeys : (members.map Prod.fst).Nodup)
      (h : ∀ m ∈ members, Distinct m.2) : Distinct (.object members)

/-- The values are equal up to the order of the members of their objects. -/
inductive Reordered : Json → Json → Prop where
  | null : Reordered .null .null
  | bool (b : Bool) : Reordered (.bool b) (.bool b)
  | number (n : JsonNumber) : Reordered (.number n) (.number n)
  | string (s : String) : Reordered (.string s) (.string s)
  | array {items items' : List Json} (h : List.Forall₂ Reordered items items') :
      Reordered (.array items) (.array items')
  | object {members between members' : List (String × Json)}
      (hkeys : members.map Prod.fst = between.map Prod.fst)
      (hvalues : List.Forall₂ Reordered (members.map Prod.snd) (between.map Prod.snd))
      (horder : between.Perm members') : Reordered (.object members) (.object members')

theorem map_sortedMember_eq_zip (members : List (String × Json)) :
    members.map sortedMember
      = (members.map Prod.fst).zip ((members.map Prod.snd).map sorted) := by
  rw [List.map_map, List.zip_map']
  rfl

theorem keys_map_sortedMember (members : List (String × Json)) :
    (members.map sortedMember).map Prod.fst = members.map Prod.fst := by
  rw [List.map_map]
  rfl

/-- Sorting forgets the order. -/
theorem sorted_eq_of_reordered {v : Json} (hv : v.Distinct) :
    ∀ {w}, Reordered v w → v.sorted = w.sorted := by
  induction v using nested_induction with
  | null => intro w h; cases h; rfl
  | bool b => intro w h; cases h; rfl
  | number n => intro w h; cases h; rfl
  | string s => intro w h; cases h; rfl
  | array items ih =>
      intro w h
      cases hv with
      | array hitems =>
          cases h with
          | array h =>
              rw [sorted_array, sorted_array,
                map_eq_of_forall₂ h fun v hmem w hvw => ih v hmem (hitems v hmem) hvw]
  | object members ih =>
      intro w h
      cases hv with
      | object hkeys hmembers =>
          cases h with
          | @object _ between members' hsame hvalues horder =>
              have hsorted : (members.map Prod.snd).map sorted
                  = (between.map Prod.snd).map sorted := by
                refine map_eq_of_forall₂ hvalues fun v hmem w hvw => ?_
                obtain ⟨m, hm, rfl⟩ := List.mem_map.mp hmem
                exact ih m hm (hmembers m hm) hvw
              have hbetween : members.map sortedMember = between.map sortedMember := by
                rw [map_sortedMember_eq_zip, map_sortedMember_eq_zip, hsame, hsorted]
              have hperm : (members.map sortedMember).Perm (members'.map sortedMember) := by
                rw [hbetween]
                exact horder.map sortedMember
              rw [sorted_object, sorted_object, Table.ofPairs_eq_of_perm _ hperm]
              rw [keys_map_sortedMember]
              exact hkeys

/-- Sorting forgets nothing else. -/
theorem reordered_of_sorted_eq {v : Json} (hv : v.Distinct) :
    ∀ {w : Json}, w.Distinct → v.sorted = w.sorted → Reordered v w := by
  induction v using nested_induction with
  | null =>
      intro w _ h
      cases w with
      | null => exact .null
      | _ => cases h
  | bool b =>
      intro w _ h
      cases w with
      | bool b' => cases h; exact .bool b
      | _ => cases h
  | number n =>
      intro w _ h
      cases w with
      | number n' => cases h; exact .number n
      | _ => cases h
  | string s =>
      intro w _ h
      cases w with
      | string s' => cases h; exact .string s
      | _ => cases h
  | array items ih =>
      intro w hw h
      cases hv with
      | array hitems =>
          cases hw with
          | array hitems' =>
              rw [sorted_array, sorted_array, array.injEq] at h
              exact .array (forall₂_of_map_eq_of_mem h fun v hv w hw heq =>
                ih v hv (hitems v hv) (hitems' w hw) heq)
          | _ => cases h
  | object members ih =>
      intro w hw h
      cases hv with
      | object hkeys hmembers =>
          cases hw with
          | @object members' hkeys' hmembers' =>
              rw [sorted_object, sorted_object, object.injEq] at h
              have hperm : (members.map sortedMember).Perm (members'.map sortedMember) := by
                rw [← keys_map_sortedMember] at hkeys hkeys'
                have htable := (Table.ofPairs_perm hkeys).symm
                rw [h] at htable
                exact htable.trans (Table.ofPairs_perm hkeys')
              -- the members of the second value can be listed as those of the first
              obtain ⟨between, hbetween, horder⟩ : Relation.Comp (· = List.map sortedMember ·)
                  List.Perm (members.map sortedMember) members' := by
                rw [List.eq_map_comp_perm]
                exact hperm
              refine .object ?_ ?_ horder
              · rw [← keys_map_sortedMember, hbetween, keys_map_sortedMember]
              · have hvalues : (members.map Prod.snd).map sorted
                    = (between.map Prod.snd).map sorted := by
                  have hsnd := congrArg (List.map Prod.snd) hbetween
                  rw [List.map_map, List.map_map] at hsnd ⊢
                  exact hsnd
                refine forall₂_of_map_eq_of_mem hvalues fun v hv w hw heq => ?_
                obtain ⟨m, hm, rfl⟩ := List.mem_map.mp hv
                obtain ⟨m', hm', rfl⟩ := List.mem_map.mp hw
                exact ih m hm (hmembers m hm) (hmembers' m' (horder.mem_iff.mp hm')) heq
          | _ => cases h

/-- **Sorting makes exactly those values equal that are equal up to order.** -/
theorem sorted_eq_iff {v w : Json} (hv : v.Distinct) (hw : w.Distinct) :
    v.sorted = w.sorted ↔ Reordered v w :=
  ⟨reordered_of_sorted_eq hv hw, sorted_eq_of_reordered hv⟩

/-! ## Sorted values -/

/-- The keys of every object at every depth ascend byte by byte. -/
inductive KeysAscend : Json → Prop where
  | null : KeysAscend .null
  | bool (b : Bool) : KeysAscend (.bool b)
  | number (n : JsonNumber) : KeysAscend (.number n)
  | string (s : String) : KeysAscend (.string s)
  | array {items : List Json} (h : ∀ v ∈ items, KeysAscend v) : KeysAscend (.array items)
  | object {members : List (String × Json)}
      (hkeys : (members.map fun m => Text.bytes m.1).Pairwise (· < ·))
      (h : ∀ m ∈ members, KeysAscend m.2) : KeysAscend (.object members)

/-- What is true of a table of sorted values is known from the values. -/
theorem forall_mem_sorted_members {P : Json → Prop} {members : List (String × Json)}
    (h : ∀ m ∈ members, P m.2.sorted) :
    ∀ m ∈ Table.ofPairs (members.map sortedMember), P m.2 := by
  intro m hm
  obtain ⟨m', hm', rfl⟩ := List.mem_map.mp (Table.mem_of_mem_ofPairs hm)
  exact h m' hm'

theorem keysAscend_sorted (v : Json) : v.sorted.KeysAscend := by
  induction v using nested_induction with
  | null => exact .null
  | bool b => exact .bool b
  | number n => exact .number n
  | string s => exact .string s
  | array items ih =>
      rw [sorted_array]
      refine .array fun v hv => ?_
      obtain ⟨w, hw, rfl⟩ := List.mem_map.mp hv
      exact ih w hw
  | object members ih =>
      rw [sorted_object]
      exact .object (Table.ordered_iff_bytes.mp (Table.ordered_ofPairs _))
        (forall_mem_sorted_members ih)

theorem KeysAscend.distinct {v : Json} (h : v.KeysAscend) : v.Distinct := by
  induction v using nested_induction with
  | null => exact .null
  | bool b => exact .bool b
  | number n => exact .number n
  | string s => exact .string s
  | array items ih =>
      cases h with
      | array h => exact .array fun v hv => ih v hv (h v hv)
  | object members ih =>
      cases h with
      | object hkeys h =>
          have hordered : Table.Ordered members := Table.ordered_iff_bytes.mpr hkeys
          refine .object (hordered.imp fun hlt => ?_) fun m hm => ih m hm (h m hm)
          rintro rfl
          exact String.lt_irrefl _ hlt

/-- Sorting a second time changes nothing. -/
theorem sorted_sorted (v : Json) : v.sorted.sorted = v.sorted := by
  induction v using nested_induction with
  | null => rfl
  | bool b => rfl
  | number n => rfl
  | string s => rfl
  | array items ih =>
      rw [sorted_array, sorted_array, List.map_map]
      exact congrArg array (List.map_congr_left ih)
  | object members ih =>
      have hkept : ∀ m ∈ Table.ofPairs (members.map sortedMember), sortedMember m = m :=
        fun m hm => Prod.ext rfl (forall_mem_sorted_members (P := fun v => v.sorted = v) ih m hm)
      rw [sorted_object, sorted_object, List.map_congr_left hkept, List.map_id',
        Table.ofPairs_of_ordered (Table.ordered_ofPairs _)]

/-- A sorted value is equal to the original up to order. -/
theorem reordered_sorted {v : Json} (h : v.Distinct) : Reordered v v.sorted :=
  reordered_of_sorted_eq h (keysAscend_sorted v).distinct (sorted_sorted v).symm

/-! ## Depth and numbers of sorted values -/

theorem depthItems_le_iff {items : List Json} {d : Nat} :
    depthItems items ≤ d ↔ ∀ v ∈ items, v.depth ≤ d := by
  induction items with
  | nil => exact ⟨fun _ v hv => absurd hv List.not_mem_nil, fun _ => Nat.zero_le d⟩
  | cons v rest ih => rw [depthItems, Nat.max_le, ih, List.forall_mem_cons]

theorem depthMembers_le_iff {members : List (String × Json)} {d : Nat} :
    depthMembers members ≤ d ↔ ∀ m ∈ members, m.2.depth ≤ d := by
  induction members with
  | nil => exact ⟨fun _ m hm => absurd hm List.not_mem_nil, fun _ => Nat.zero_le d⟩
  | cons m rest ih => rw [depthMembers, Nat.max_le, ih, List.forall_mem_cons]

theorem depth_sorted_le (v : Json) : v.sorted.depth ≤ v.depth := by
  induction v using nested_induction with
  | null => exact Nat.le_refl _
  | bool b => exact Nat.le_refl _
  | number n => exact Nat.le_refl _
  | string s => exact Nat.le_refl _
  | array items ih =>
      have hitems := depthItems_le_iff.mp (Nat.le_refl (depthItems items))
      rw [sorted_array, depth, depth, Nat.add_le_add_iff_right, depthItems_le_iff]
      intro v hv
      obtain ⟨w, hw, rfl⟩ := List.mem_map.mp hv
      exact (ih w hw).trans (hitems w hw)
  | object members ih =>
      have hmembers := depthMembers_le_iff.mp (Nat.le_refl (depthMembers members))
      rw [sorted_object, depth, depth, Nat.add_le_add_iff_right, depthMembers_le_iff]
      exact forall_mem_sorted_members (P := fun v => v.depth ≤ depthMembers members)
        fun m hm => (ih m hm).trans (hmembers m hm)

theorem realsOfItems_eq_flatMap (items : List Json) :
    realsOfItems items = items.flatMap reals := by
  induction items with
  | nil => rfl
  | cons v rest ih => rw [realsOfItems, ih, List.flatMap_cons]

theorem realsOfMembers_eq_flatMap (members : List (String × Json)) :
    realsOfMembers members = members.flatMap fun m => m.2.reals := by
  induction members with
  | nil => rfl
  | cons m rest ih => rw [realsOfMembers, ih, List.flatMap_cons]

theorem reals_sorted_subset (v : Json) : v.sorted.reals ⊆ v.reals := by
  induction v using nested_induction with
  | null => exact List.Subset.refl _
  | bool b => exact List.Subset.refl _
  | number n => exact List.Subset.refl _
  | string s => exact List.Subset.refl _
  | array items ih =>
      rw [sorted_array, reals, reals, realsOfItems_eq_flatMap, realsOfItems_eq_flatMap]
      intro x hx
      obtain ⟨v, hv, hx⟩ := List.mem_flatMap.mp hx
      obtain ⟨w, hw, rfl⟩ := List.mem_map.mp hv
      exact List.mem_flatMap.mpr ⟨w, hw, ih w hw hx⟩
  | object members ih =>
      rw [sorted_object, reals, reals, realsOfMembers_eq_flatMap, realsOfMembers_eq_flatMap]
      intro x hx
      obtain ⟨m, hm, hx⟩ := List.mem_flatMap.mp hx
      obtain ⟨m', hm', rfl⟩ := List.mem_map.mp (Table.mem_of_mem_ofPairs hm)
      exact List.mem_flatMap.mpr ⟨m', hm', ih m' hm' hx⟩

end Json

end ModuleAssembly
