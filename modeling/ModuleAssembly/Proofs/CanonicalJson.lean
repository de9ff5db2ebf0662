import ModuleAssembly.Proofs.CompactText

/-!
# The canonical text of a value

Values that differ only in the order of members have one canonical text, and no other values share
it. The text has no blank outside of its strings, its keys ascend byte by byte, and as far as a
reader gives the numbers of the value back, it is read as the value up to that order and is its own
canonical text (`Json.hasCanonicalText`).
-/

set_option autoImplicit false

namespace ModuleAssembly.Json

theorem canonical_eq_iff {v w : Json} (hv : v.Distinct) (hw : w.Distinct) :
    v.canonical = w.canonical ↔ Reordered v w := by
  rw [← sorted_eq_iff hv hw]
  exact ⟨compact_injective, congrArg compact⟩

theorem AllReadBack.sorted {v : Json} (h : AllReadBack v.reals) : AllReadBack v.sorted.reals :=
  fun x hx => h x (reals_sorted_subset v hx)

/-- The canonical text is read as the sorted value. -/
theorem ofText_canonical {v : Json} (hdepth : v.depth ≤ nestingLimit)
    (hreals : AllReadBack v.reals) : Json.ofText v.canonical = .ok v.sorted :=
  calc Json.ofText v.canonical
      = .ok v.sorted.sorted := ofText_compact (v.depth_sorted_le.trans hdepth) hreals.sorted
    _ = .ok v.sorted := by rw [sorted_sorted]

/-- The canonical text of `v` stands for `v` up to the order of members, and for nothing else. -/
structure HasCanonicalText (v : Json) : Prop where
  blankFree : BlankFree v.canonical.toList
  /-- It is the text of the value with its keys in ascending order at every depth. -/
  ascending : ∃ w, v.canonical = w.compact ∧ w.KeysAscend ∧ Reordered v w
  /-- It is shared by exactly those values that are equal up to order. -/
  shared : ∀ w : Json, w.Distinct → (v.canonical = w.canonical ↔ Reordered v w)
  /-- It is read as a value that is equal up to order and has the same canonical text. -/
  readsBack : v.depth ≤ nestingLimit → AllReadBack v.reals →
    ∃ w, Json.ofText v.canonical = .ok w ∧ Reordered v w ∧ w.canonical = v.canonical

/-- **The canonical text is a canonical form**, whatever the value is, as long as no object has a
key twice. -/
theorem hasCanonicalText {v : Json} (h : v.Distinct) : HasCanonicalText v where
  blankFree := blankFree_compact v.sorted
  ascending := ⟨v.sorted, rfl, keysAscend_sorted v, reordered_sorted h⟩
  shared := fun _ hw => canonical_eq_iff h hw
  readsBack := fun hdepth hreals =>
    ⟨v.sorted, ofText_canonical hdepth hreals, reordered_sorted h,
      congrArg compact (sorted_sorted v)⟩

/-- The negative zero in double precision. -/
def minusZero : Number.Finite := ⟨true, 0, -1074, by decide⟩

/-- An object whose members are in no order, with an object of that kind in it, a string that needs
every kind of escape, and both kinds of numbers. -/
def unordered : Json :=
  .object
    [("z", .array [.number (.real minusZero), .object
        [("é", .string "\"\\\n\x01é"), ("b", .number (.whole ⟨-1, by decide, by decide⟩))]]),
      ("a", .object [])]

theorem hasCanonicalText_unordered :
    (unordered.Distinct ∧ unordered.depth ≤ nestingLimit ∧ AllReadBack unordered.reals) ∧
      HasCanonicalText unordered := by
  have hnone : ∀ {P : Json → Prop}, ∀ m ∈ ([] : List (String × Json)), P m.2 :=
    fun _ hm => absurd hm List.not_mem_nil
  have hinner : ∀ {n : JsonNumber} {s : String},
      Distinct (.object [("é", .string s), ("b", .number n)]) := by
    intro n s
    have hkeys : ["é", "b"].Nodup := by decide
    exact .object hkeys (List.forall_mem_cons.mpr
      ⟨.string s, List.forall_mem_cons.mpr ⟨.number n, hnone⟩⟩)
  have hdistinct : unordered.Distinct := by
    refine .object (by decide) (List.forall_mem_cons.mpr ⟨.array ?_, List.forall_mem_cons.mpr
      ⟨.object .nil hnone, hnone⟩⟩)
    intro v hv
    rcases List.mem_pair.mp hv with rfl | rfl
    · exact .number _
    · exact hinner
  have hreals : AllReadBack unordered.reals := by
    intro x hx
    have hzero : x = minusZero := List.mem_singleton.mp hx
    rw [hzero, JsonNumber.readsBack_iff]
    decide +kernel
  exact ⟨⟨hdistinct, by decide, hreals⟩, hasCanonicalText hdistinct⟩

/-- Its canonical text. -/
example : unordered.canonical
    = "\x7b\"a\":\x7b\x7d,\"z\":[-0.0,\x7b\"b\":-1,\"é\":\"\\\"\\\\\\n\\u0001é\"\x7d]\x7d" := by
  decide +kernel

end ModuleAssembly.Json
