import Mathlib.Data.List.Forall2
import Mathlib.Data.List.Induction
import Mathlib.Data.List.Nodup
import Mathlib.Data.List.Perm.Basic

/-!
# Lists

What the order-keeping removal of repetitions leaves, where a list is split at a separator, how a
list of pairs with different keys is searched, and how a list is split into the parts that belong to
each of a list of labels. First occurrences and searches stay the same when the elements are renamed
apart.
-/

set_option autoImplicit false

namespace ModuleAssembly

variable {α β κ : Type}

/-! ## First occurrences -/

/-- Elements that all occur before leave no trace. -/
theorem eraseDups_append_of_subset [BEq α] [LawfulBEq α] {l l' : List α} (h : l' ⊆ l) :
    (l ++ l').eraseDups = l.eraseDups := by
  have hnone : l'.removeAll l = [] := by
    rw [List.removeAll, List.filter_eq_nil_iff]
    intro a ha
    simp [h ha]
  rw [List.eraseDups_append, hnone, List.eraseDups_nil, List.append_nil]

/-- One more element that occurs before leaves no trace. -/
theorem eraseDups_concat_of_mem [BEq α] [LawfulBEq α] {l : List α} {a : α} (h : a ∈ l) :
    (l ++ [a]).eraseDups = l.eraseDups :=
  eraseDups_append_of_subset (List.cons_subset.mpr ⟨h, List.nil_subset l⟩)

/-- One more element that does not occur before is left at the end. -/
theorem eraseDups_concat_of_not_mem [BEq α] [LawfulBEq α] {l : List α} {a : α} (h : a ∉ l) :
    (l ++ [a]).eraseDups = l.eraseDups ++ [a] := by
  rw [List.eraseDups_append, List.removeAll, List.filter_singleton]
  simp [h, List.eraseDups_cons]

/-- What is left stands in the order of the first occurrences. -/
theorem pairwise_idxOf_eraseDups [BEq α] [LawfulBEq α] (l : List α) :
    l.eraseDups.Pairwise fun a b => l.idxOf a < l.idxOf b := by
  induction l using List.reverseRecOn with
  | nil => exact List.Pairwise.nil
  | append_singleton l a ih =>
      -- the first occurrences in `l` are where they were, and that of a new `a` is behind them
      have hfront : ∀ b ∈ l, (l ++ [a]).idxOf b = l.idxOf b := fun b hb =>
        List.idxOf_append_of_mem hb
      have hkept : l.eraseDups.Pairwise fun b c => (l ++ [a]).idxOf b < (l ++ [a]).idxOf c := by
        refine ih.imp_of_mem fun {b c} hb hc hlt => ?_
        rwa [hfront b (List.mem_eraseDups.mp hb), hfront c (List.mem_eraseDups.mp hc)]
      by_cases ha : a ∈ l
      · rwa [eraseDups_concat_of_mem ha]
      · rw [eraseDups_concat_of_not_mem ha]
        refine List.pairwise_append.mpr ⟨hkept, List.pairwise_singleton _ _, ?_⟩
        intro b hb c hc
        rw [List.mem_singleton] at hc
        subst hc
        have hb' := List.mem_eraseDups.mp hb
        rw [hfront b hb', List.idxOf_append, if_neg ha]
        exact Nat.lt_of_lt_of_le (List.idxOf_lt_length_of_mem hb') (Nat.le_add_left _ _)

/-- Every element is left once. -/
theorem nodup_eraseDups [BEq α] [LawfulBEq α] (l : List α) : l.eraseDups.Nodup := by
  refine (pairwise_idxOf_eraseDups l).imp ?_
  rintro a _ hlt rfl
  exact Nat.lt_irrefl _ hlt

/-- Renaming the elements apart does not change where they first occur. -/
theorem eraseDups_map [BEq α] [LawfulBEq α] [BEq β] [LawfulBEq β] {f : α → β}
    (hf : Function.Injective f) (l : List α) : (l.map f).eraseDups = l.eraseDups.map f := by
  induction l using List.reverseRecOn with
  | nil => rfl
  | append_singleton l a ih =>
      have himage : f a ∈ l.map f ↔ a ∈ l := List.mem_map_of_injective hf
      rw [List.map_append, List.map_singleton]
      by_cases ha : a ∈ l
      · rw [eraseDups_concat_of_mem (himage.mpr ha), eraseDups_concat_of_mem ha, ih]
      · rw [eraseDups_concat_of_not_mem (mt himage.mp ha), eraseDups_concat_of_not_mem ha, ih,
          List.map_append, List.map_singleton]

/-- The first occurrences of images are found among those of first occurrences. -/
theorem eraseDups_map_eraseDups [BEq α] [LawfulBEq α] [BEq β] [LawfulBEq β] (f : α → β)
    (l : List α) : (l.eraseDups.map f).eraseDups = (l.map f).eraseDups := by
  induction l using List.reverseRecOn with
  | nil => rfl
  | append_singleton l a ih =>
      rw [List.map_append, List.map_singleton]
      by_cases ha : a ∈ l
      · rw [eraseDups_concat_of_mem ha, eraseDups_concat_of_mem (List.mem_map_of_mem ha), ih]
      · have himage : f a ∈ l.eraseDups.map f ↔ f a ∈ l.map f := by
          simp only [List.mem_map, List.mem_eraseDups]
        rw [eraseDups_concat_of_not_mem ha, List.map_append, List.map_singleton]
        by_cases hfa : f a ∈ l.map f
        · rw [eraseDups_concat_of_mem (himage.mpr hfa), eraseDups_concat_of_mem hfa, ih]
        · rw [eraseDups_concat_of_not_mem (mt himage.mp hfa), eraseDups_concat_of_not_mem hfa, ih]

/-- What is chosen from a renamed list is what is chosen by the same test before. -/
theorem filter_map_eq {f : α → β} {p : β → Bool} {q : α → Bool} (h : ∀ a, p (f a) = q a)
    {l : List α} : (l.map f).filter p = (l.filter q).map f := by
  rw [List.filter_map]
  exact congrArg _ (List.filter_congr fun a _ => h a)

/-- Mapping what is there of a list of options. -/
theorem flatMap_toList_map (g : α → β) (l : List (Option α)) :
    (l.map fun o => o.map g).flatMap Option.toList = (l.flatMap Option.toList).map g := by
  rw [List.flatMap_map, List.map_flatMap]
  exact List.flatMap_congr fun o _ => Option.toList_map

/-! ## Runs -/

/-- A run that is followed by an element outside of it, or by nothing, is taken as a whole. -/
theorem takeWhile_append_of_head? {p : α → Bool} {run rest : List α} (hrun : ∀ a ∈ run, p a = true)
    (hrest : ∀ a, rest.head? = some a → p a = false) : (run ++ rest).takeWhile p = run := by
  rw [List.takeWhile_append_of_pos hrun]
  cases rest with
  | nil => simp
  | cons a rest => simp [hrest a rfl]

/-- What follows the run is left. -/
theorem dropWhile_append_of_head? {p : α → Bool} {run rest : List α} (hrun : ∀ a ∈ run, p a = true)
    (hrest : ∀ a, rest.head? = some a → p a = false) : (run ++ rest).dropWhile p = rest := by
  rw [List.dropWhile_append_of_pos hrun]
  cases rest with
  | nil => simp
  | cons a rest => simp [hrest a rfl]

/-! ## Parts between separators -/

/-- No part has a separator in it. -/
theorem not_mem_of_mem_splitOn [BEq α] [LawfulBEq α] {sep : α} {l part : List α}
    (h : part ∈ l.splitOn sep) : sep ∉ part := by
  induction l generalizing part with
  | nil =>
      rw [List.splitOn_nil, List.mem_singleton] at h
      subst h
      exact List.not_mem_nil
  | cons a l ih =>
      obtain ⟨first, others, hsplit⟩ := List.exists_cons_of_ne_nil (List.splitOn_ne_nil sep l)
      rw [List.splitOn_cons_eq_if_modifyHead, hsplit] at h
      rw [hsplit] at ih
      split at h
      · rcases List.mem_cons.mp h with rfl | h
        · exact List.not_mem_nil
        · exact ih h
      · next ha =>
          rcases List.mem_cons.mp h with rfl | h
          · rw [List.mem_cons, not_or]
            exact ⟨fun heq => ha (beq_iff_eq.mpr heq.symm), ih (List.mem_cons_self ..)⟩
          · exact ih (List.mem_cons_of_mem _ h)

/-- Parts that each end in a separator are split where they end; nothing is behind the last one. -/
theorem splitOn_flatMap_concat [BEq α] [LawfulBEq α] {sep : α} {parts : List (List α)}
    (h : ∀ part ∈ parts, sep ∉ part) :
    (parts.flatMap fun part => part ++ [sep]).splitOn sep = parts ++ [[]] := by
  induction parts with
  | nil => rfl
  | cons part parts ih =>
      obtain ⟨hpart, hparts⟩ := List.forall_mem_cons.mp h
      rw [List.flatMap_cons, List.append_assoc, List.singleton_append,
        List.splitOn_append_cons_self_of_not_mem hpart, ih hparts, List.cons_append]

/-- Parts with a separator and a gap between them are split at the separators, and the gaps are left
in front of the parts. -/
theorem splitOn_intercalate_cons [BEq α] [LawfulBEq α] {sep : α} {gap first : List α}
    {rest : List (List α)} (hgap : sep ∉ gap) (h : ∀ part ∈ first :: rest, sep ∉ part) :
    ((sep :: gap).intercalate (first :: rest)).splitOn sep = first :: rest.map (gap ++ ·) := by
  induction rest generalizing first with
  | nil =>
      have hfirst : (sep :: gap).intercalate [first] = first := by simp
      rw [hfirst, List.splitOn_eq_singleton (h first (List.mem_singleton_self first)),
        List.map_nil]
  | cons second rest ih =>
      obtain ⟨hfirst, hsecond⟩ := List.forall_mem_cons.mp h
      -- the gap is taken for the front of the second part
      have hgapped : gap ++ (sep :: gap).intercalate (second :: rest)
          = (sep :: gap).intercalate ((gap ++ second) :: rest) := by
        cases rest with
        | nil => simp
        | cons third rest => simp [List.intercalate_cons_cons]
      have hparts : ∀ part ∈ (gap ++ second) :: rest, sep ∉ part := by
        obtain ⟨hsecond, hrest⟩ := List.forall_mem_cons.mp hsecond
        refine List.forall_mem_cons.mpr ⟨?_, hrest⟩
        rw [List.mem_append, not_or]
        exact ⟨hgap, hsecond⟩
      rw [List.intercalate_cons_cons, List.append_assoc, List.cons_append,
        List.splitOn_append_cons_self_of_not_mem hfirst, hgapped, ih hparts, List.map_cons]

/-! ## Lists with equal images -/

/-- Lists with equal images are related element by element. -/
theorem forall₂_of_map_eq {f : α → κ} {g : β → κ} {l : List α} {l' : List β}
    (h : l.map f = l'.map g) : List.Forall₂ (fun a b => f a = g b) l l' := by
  rw [← List.forall₂_eq_eq_eq, List.forall₂_map_left_iff, List.forall₂_map_right_iff] at h
  exact h

/-- Elements that are related have equal images. -/
theorem map_eq_of_forall₂ {f : α → κ} {g : β → κ} {r : α → β → Prop} {l : List α} {l' : List β}
    (h : List.Forall₂ r l l') (hr : ∀ a ∈ l, ∀ b, r a b → f a = g b) : l.map f = l'.map g := by
  induction h with
  | nil => rfl
  | cons hhead _ ih =>
      obtain ⟨ha, hl⟩ := List.forall_mem_cons.mp hr
      rw [List.map_cons, List.map_cons, ha _ hhead, ih hl]

/-- A relation between lists is known by what it says of their own elements. -/
theorem forall₂_imp_of_mem {r s : α → β → Prop} {l : List α} {l' : List β}
    (h : List.Forall₂ r l l') (hs : ∀ a ∈ l, ∀ b ∈ l', r a b → s a b) : List.Forall₂ s l l' := by
  induction h with
  | nil => exact .nil
  | cons hhead _ ih =>
      refine .cons (hs _ (List.mem_cons_self ..) _ (List.mem_cons_self ..) hhead) (ih ?_)
      exact fun a ha b hb => hs a (List.mem_cons_of_mem _ ha) b (List.mem_cons_of_mem _ hb)

/-- Elements of lists with equal images are related if equal images make them so. -/
theorem forall₂_of_map_eq_of_mem {f : α → κ} {g : β → κ} {r : α → β → Prop} {l : List α}
    {l' : List β} (h : l.map f = l'.map g) (hr : ∀ a ∈ l, ∀ b ∈ l', f a = g b → r a b) :
    List.Forall₂ r l l' :=
  forall₂_imp_of_mem (forall₂_of_map_eq h) hr

/-- Of lists that are related element by element, both have an element with a property if related
elements have it together. -/
theorem exists_mem_iff_of_forall₂ {r : α → β → Prop} {p : α → Prop} {q : β → Prop} {l : List α}
    {l' : List β} (h : List.Forall₂ r l l') (hr : ∀ a ∈ l, ∀ b, r a b → (p a ↔ q b)) :
    (∃ a ∈ l, p a) ↔ ∃ b ∈ l', q b := by
  induction h with
  | nil => simp
  | cons hhead _ ih =>
      obtain ⟨ha, hl⟩ := List.forall_mem_cons.mp hr
      rw [List.exists_mem_cons_iff, List.exists_mem_cons_iff, ha _ hhead, ih hl]

/-- A list is read back if each of its elements is. -/
theorem mapM_map_eq_some {f : β → Option α} {g : α → β} {l : List α}
    (h : ∀ a ∈ l, f (g a) = some a) : (l.map g).mapM f = some l := by
  induction l with
  | nil => rfl
  | cons a l ih =>
      obtain ⟨ha, hl⟩ := List.forall_mem_cons.mp h
      rw [List.map_cons, List.mapM_cons, ha, ih hl]
      rfl

/-! ## Pairs with different keys -/

/-- Among pairs with different keys, a search finds exactly the pairs of the list. -/
theorem lookup_eq_some_iff_mem [BEq κ] [LawfulBEq κ] {l : List (κ × β)}
    (h : (l.map Prod.fst).Nodup) {k : κ} {b : β} : l.lookup k = some b ↔ (k, b) ∈ l := by
  induction l with
  | nil => simp
  | cons p l ih =>
      obtain ⟨k', b'⟩ := p
      rw [List.map_cons, List.nodup_cons] at h
      rw [List.lookup_cons, List.mem_cons]
      by_cases hk : k = k'
      · subst hk
        have hrest : (k, b) ∉ l := fun hm => h.1 (List.mem_map.mpr ⟨_, hm, rfl⟩)
        simp [hrest, eq_comm]
      · have hbeq : (k == k') = false := by simpa using hk
        rw [hbeq]
        simp [hk, ih h.2]

/-- Among pairs with different keys, a search finds the same in any order. -/
theorem lookup_eq_of_perm [BEq κ] [LawfulBEq κ] {l l' : List (κ × β)} (h : l.Perm l')
    (hl : (l.map Prod.fst).Nodup) (k : κ) : l.lookup k = l'.lookup k := by
  have hl' : (l'.map Prod.fst).Nodup := (h.map Prod.fst).nodup_iff.mp hl
  refine Option.ext fun b => ?_
  rw [lookup_eq_some_iff_mem hl, lookup_eq_some_iff_mem hl', h.mem_iff]

/-- Renaming the keys apart does not change what a search finds. -/
theorem lookup_map_key {κ' : Type} [BEq κ] [LawfulBEq κ] [BEq κ'] [LawfulBEq κ'] {f : κ → κ'}
    (hf : Function.Injective f) (l : List (κ × β)) (k : κ) :
    (l.map fun p => (f p.1, p.2)).lookup (f k) = l.lookup k := by
  induction l with
  | nil => rfl
  | cons p l ih =>
      rw [List.map_cons, List.lookup_cons, List.lookup_cons, hf.beq_eq, ih]

/-! ## Parts by label -/

/-- Every element has one label of the list, so the parts make up the list again. -/
theorem flatMap_filter_perm [DecidableEq κ] (label : α → κ) :
    ∀ (ks : List κ) (l : List α), ks.Nodup → (∀ a ∈ l, label a ∈ ks) →
      (ks.flatMap fun k => l.filter fun a => label a == k).Perm l := by
  intro ks
  induction ks with
  | nil =>
      intro l _ hl
      have : l = [] := List.eq_nil_iff_forall_not_mem.mpr fun a ha => by simpa using hl a ha
      simp [this]
  | cons k ks ih =>
      intro l hk hl
      rw [List.nodup_cons] at hk
      -- the labels after `k` only see the elements that `k` leaves
      have hrest : (ks.flatMap fun k' => l.filter fun a => label a == k')
          = ks.flatMap fun k' => (l.filter fun a => !(label a == k)).filter
              fun a => label a == k' := by
        refine List.flatMap_congr fun k' hk' => ?_
        rw [List.filter_filter]
        refine List.filter_congr fun a _ => ?_
        by_cases ha : label a = k'
        · have hne : k' ≠ k := fun e => hk.1 (e ▸ hk')
          simp [ha, hne]
        · simp [ha]
      have hleft : ∀ a ∈ l.filter fun a => !(label a == k), label a ∈ ks := by
        intro a ha
        rw [List.mem_filter] at ha
        have hne : label a ≠ k := by simpa using ha.2
        exact (List.mem_cons.mp (hl a ha.1)).resolve_left hne
      rw [List.flatMap_cons, hrest]
      exact ((ih _ hk.2 hleft).append_left _).trans (List.filter_append_perm _ l)

end ModuleAssembly
