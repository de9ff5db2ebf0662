import Mathlib.Data.String.Basic
import Mathlib.Tactic.SplitIfs
import ModuleAssembly.Table

/-!
# The order of bytes

Strings compare by code point, character by character. The encoding in UTF-8 keeps that order: a
longer encoding starts with a greater byte and stands for a greater character, and among equally long
ones the leading bits come first. So the bytes of two strings, compared one by one, are in the order
of the strings (`Text.lt_iff_bytes_lt`), and the keys of a table ascend by their bytes
(`Table.ordered_iff_bytes`).
-/

set_option autoImplicit false

namespace ModuleAssembly

namespace Text

/-- The bytes of a string in UTF-8. -/
def bytes (s : String) : List UInt8 := s.toUTF8.data.toList

theorem bytes_eq (s : String) : bytes s = s.toList.flatMap String.utf8EncodeChar := by
  rw [bytes, String.toUTF8_eq_toByteArray, ← String.ofList_toList (s := s),
    String.toByteArray_ofList, String.toList_ofList, List.utf8Encode]
  simp

/-! ## One character -/

theorem cons_ofNat_lt_iff {m n : Nat} (hm : m < 256) (hn : n < 256) {x y : List UInt8} :
    UInt8.ofNat m :: x < UInt8.ofNat n :: y ↔ m < n ∨ m = n ∧ x < y := by
  have hsize : UInt8.size = 256 := rfl
  rw [List.cons_lt_cons_iff, UInt8.lt_iff_toNat_lt, ← UInt8.toNat_inj,
    UInt8.toNat_ofNat_of_lt' (by omega), UInt8.toNat_ofNat_of_lt' (by omega)]

/-- Six bits at the end. -/
theorem div_lt_or_mod_lt {v w : Nat} (h : v < w) :
    v / 64 < w / 64 ∨ v / 64 = w / 64 ∧ v % 64 < w % 64 := by
  omega

/-- The encodings of different characters differ before either of them ends. -/
theorem encode_append_lt {c d : Char} (h : c < d) (x y : List UInt8) :
    String.utf8EncodeChar c ++ x < String.utf8EncodeChar d ++ y := by
  have hlt : c.val.toNat < d.val.toNat := h
  have hd : d.val.toNat < 0x110000 := by
    rcases d.valid with hvalid | hvalid
    · exact Nat.lt_trans hvalid (by decide)
    · exact hvalid.2
  unfold String.utf8EncodeChar
  dsimp only
  generalize c.val.toNat = v at hlt ⊢
  generalize d.val.toNat = w at hlt hd ⊢
  -- one case for each pair of lengths; a shorter encoding starts with a smaller byte
  split_ifs
  all_goals try omega
  all_goals
    simp only [List.cons_append, List.nil_append]
    rw [cons_ofNat_lt_iff (by omega) (by omega)]
  all_goals try exact .inl (by omega)
  · have hbits : v / 64 % 32 + 192 < w / 64 % 32 + 192 ∨
        v / 64 % 32 + 192 = w / 64 % 32 + 192 ∧ v % 64 + 128 < w % 64 + 128 := by omega
    rw [cons_ofNat_lt_iff (by omega) (by omega)]
    exact hbits.imp_right (And.imp_right .inl)
  · have hbits : v / 4096 % 16 + 224 < w / 4096 % 16 + 224 ∨
        v / 4096 % 16 + 224 = w / 4096 % 16 + 224 ∧ (v / 64 % 64 + 128 < w / 64 % 64 + 128 ∨
          v / 64 % 64 + 128 = w / 64 % 64 + 128 ∧ v % 64 + 128 < w % 64 + 128) := by omega
    rw [cons_ofNat_lt_iff (by omega) (by omega), cons_ofNat_lt_iff (by omega) (by omega)]
    exact hbits.imp_right (And.imp_right (Or.imp_right (And.imp_right .inl)))
  · have hbits : v / 262144 % 8 + 240 < w / 262144 % 8 + 240 ∨
        v / 262144 % 8 + 240 = w / 262144 % 8 + 240 ∧
          (v / 4096 % 64 + 128 < w / 4096 % 64 + 128 ∨
            v / 4096 % 64 + 128 = w / 4096 % 64 + 128 ∧
              (v / 64 % 64 + 128 < w / 64 % 64 + 128 ∨
                v / 64 % 64 + 128 = w / 64 % 64 + 128 ∧ v % 64 + 128 < w % 64 + 128)) := by
      rcases div_lt_or_mod_lt hlt with hlt | heq
      · rcases div_lt_or_mod_lt hlt with hlt | heq
        · omega
        · omega
      · omega
    rw [cons_ofNat_lt_iff (by omega) (by omega), cons_ofNat_lt_iff (by omega) (by omega),
      cons_ofNat_lt_iff (by omega) (by omega)]
    exact hbits.imp_right
      (And.imp_right (Or.imp_right (And.imp_right (Or.imp_right (And.imp_right .inl)))))

theorem encode_ne_nil (c : Char) : String.utf8EncodeChar c ≠ [] := by
  unfold String.utf8EncodeChar
  dsimp only
  split_ifs <;> exact List.cons_ne_nil _ _

/-! ## Strings -/

theorem flatMap_encode_lt {cs ds : List Char} (h : cs < ds) :
    cs.flatMap String.utf8EncodeChar < ds.flatMap String.utf8EncodeChar := by
  induction cs generalizing ds with
  | nil =>
      cases ds with
      | nil => exact absurd h (List.lt_irrefl [])
      | cons d ds =>
          obtain ⟨b, bs, hencode⟩ := List.exists_cons_of_ne_nil (encode_ne_nil d)
          rw [List.flatMap_cons, hencode]
          exact List.nil_lt_cons _ _
  | cons c cs ih =>
      cases ds with
      | nil => cases h
      | cons d ds =>
          rw [List.flatMap_cons, List.flatMap_cons]
          rcases List.cons_lt_cons_iff.mp h with hlt | ⟨rfl, hlt⟩
          · exact encode_append_lt hlt _ _
          · exact List.append_left_lt (ih hlt)

/-- **The order of strings is that of their bytes.** -/
theorem lt_iff_bytes_lt {s t : String} : s < t ↔ bytes s < bytes t := by
  have hmono : ∀ {s t : String}, s < t → bytes s < bytes t := by
    intro s t h
    rw [bytes_eq, bytes_eq]
    exact flatMap_encode_lt (String.lt_iff_toList_lt.mp h)
  refine ⟨hmono, fun h => ?_⟩
  rcases lt_trichotomy s t with hlt | rfl | hlt
  · exact hlt
  · exact absurd h (List.lt_irrefl _)
  · exact absurd h (List.lt_asymm (hmono hlt))

end Text

/-- The keys of a table ascend byte by byte. -/
theorem Table.ordered_iff_bytes {α : Type} {t : Table α} :
    t.Ordered ↔ (t.map fun p => Text.bytes p.1).Pairwise (· < ·) := by
  rw [Ordered, keys, List.pairwise_map, List.pairwise_map]
  simp only [Text.lt_iff_bytes_lt]

end ModuleAssembly
