import ModuleAssembly.Proofs.JsonText
import Mathlib.Data.List.Nodup

/-!
# Decoders that read what was written

A decoder reads a value as `a` when it gives `a` wherever the value may be entered
(`Decoder.Reads`). What a record format reads is put together from what its fields read
(`Record.ReadsMembers`), one member after the other, so that an encoder is undone field by field.
A value that is read is in order, so its canonical text is its compact text and the decoder reads
that as well (`Decoder.Reads.ofText_canonical`).
-/

set_option autoImplicit false

namespace ModuleAssembly

variable {α β : Type}

/-! ## Values that are read -/

namespace Decoder

/-- The value is in order, and the decoder reads it as `a`, provided that it may enter as many
containers as nest in the value. -/
structure Reads (decoder : Decoder α) (v : Json) (a : α) : Prop where
  ordered : v.Ordered
  decode : ∀ depth, v.depth ≤ depth → decoder depth (Draft.ofJson v) = .ok a

/-- **The canonical text of a value that is read is read as well.** -/
theorem Reads.ofText_canonical {decoder : Decoder α} {v : Json} {a : α} (h : decoder.Reads v a)
    (hdepth : v.depth ≤ nestingLimit) (hreals : Json.AllReadBack v.reals) :
    decoder.ofText v.canonical = .ok a :=
  calc decoder.ofText v.canonical
      = decoder.ofText v.compact := by rw [Json.canonical_of_ordered h.ordered]
    _ = decoder nestingLimit (Draft.ofJson v) := ofText_compact decoder hreals
    _ = .ok a := h.decode nestingLimit hdepth

/-! ## Scalars -/

theorem reads_text (s : String) : text.Reads (.string s) s := ⟨trivial, fun _ _ => rfl⟩

theorem reads_flag (b : Bool) : flag.Reads (.bool b) b := ⟨trivial, fun _ _ => rfl⟩

theorem reads_choice {options : List (String × α)} {name : String} {a : α}
    (h : options.lookup name = some a) : (choice options).Reads (.string name) a := by
  refine ⟨trivial, fun depth _ => ?_⟩
  simp only [choice, Draft.ofJson, Draft.key, bind, Except.bind, h]

/-! ## Values that may be absent -/

theorem reads_null (inner : Decoder α) : (optional inner).Reads .null none :=
  ⟨trivial, fun _ _ => rfl⟩

theorem reads_present {inner : Decoder α} {v : Json} {a : α} (h : inner.Reads v a)
    (hv : v ≠ .null) : (optional inner).Reads v (some a) := by
  refine ⟨h.ordered, fun depth hdepth => ?_⟩
  have hread := h.decode depth hdepth
  -- only the draft of null is null
  have hoptional : optional inner depth (Draft.ofJson v)
      = (inner depth (Draft.ofJson v)).map some := by
    cases v with
    | null => exact absurd rfl hv
    | bool b => rfl
    | number n => rfl
    | string s => rfl
    | array items => rfl
    | object members => rfl
  rw [hoptional, hread]
  rfl

/-- A value that is written as null where it is absent, and never otherwise. -/
theorem reads_option (o : Option α) {inner : Decoder α} {encode : α → Json}
    (h : ∀ a, inner.Reads (encode a) a) (hne : ∀ a, encode a ≠ .null) {v : Json}
    (hv : v = o.elim .null encode) : (optional inner).Reads v o := by
  rw [hv]
  cases o with
  | none => exact reads_null inner
  | some a => exact reads_present (h a) (hne a)

/-! ## Lists -/

theorem items_ofItems {inner : Decoder α} {vs : List Json} {as : List α}
    (h : List.Forall₂ inner.Reads vs as) {depth : Nat} (hdepth : Json.depthItems vs ≤ depth) :
    items inner depth (Draft.ofItems vs) = .ok as := by
  induction h with
  | nil => rfl
  | cons hhead _ ih =>
      obtain ⟨hv, hrest⟩ := Nat.max_le.mp hdepth
      rw [Draft.ofItems, items, hhead.decode depth hv, ih hrest]
      rfl

/-- An array is read when each of its items is. -/
theorem reads_list {inner : Decoder α} {vs : List Json} {as : List α}
    (h : List.Forall₂ inner.Reads vs as) : (list inner).Reads (.array vs) as := by
  refine ⟨?_, fun depth hdepth => ?_⟩
  · show Json.OrderedItems vs
    induction h with
    | nil => trivial
    | cons hhead _ ih => exact ⟨hhead.ordered, ih⟩
  · cases depth with
    | zero => exact absurd hdepth (Nat.not_succ_le_zero _)
    | succ depth =>
        have hitems := items_ofItems h (Nat.le_of_succ_le_succ hdepth)
        rw [Draft.ofJson, list, enter]
        rw [hitems]
        rfl

/-- An encoded list is read when each encoded element is. -/
theorem reads_list_map {inner : Decoder α} {encode : α → Json} {as : List α}
    (h : ∀ a ∈ as, inner.Reads (encode a) a) : (list inner).Reads (.array (as.map encode)) as :=
  reads_list (List.forall₂_map_left_iff.mpr (List.forall₂_same.mpr h))

/-- Any value in order is read as it is. -/
theorem reads_json {v : Json} (h : v.Ordered) : Decoder.Reads json v v := by
  refine ⟨h, fun depth hdepth => ?_⟩
  rw [json_ofJson v hdepth, Json.sorted_of_ordered h]

end Decoder

/-! ## Records -/

namespace Record

/-- The members are those of fields of the record, and reading them one by one turns the first
record into the second. -/
inductive ReadsMembers (r : Record α) : α → List (String × Json) → α → Prop where
  | nil (a : α) : ReadsMembers r a [] a
  | cons {a b : α} {k : String} {v : Json} {members : List (String × Json)} {f : Field α}
      {put : α → α} (hf : r.fields.find? (fun f => f.name == k) = some f)
      (hv : f.put.Reads v put) (hrest : ReadsMembers r (put a) members b) :
      ReadsMembers r a ((k, v) :: members) b

variable {r : Record α}

/-- A field whose value goes into the record by `set`. -/
theorem ReadsMembers.field {a b : α} {k name : String} {v : Json}
    {members : List (String × Json)} {required : Bool} {inner : Decoder β} {set : α → β → α}
    {x : β}
    (hf : r.fields.find? (fun f => f.name == k) = some (Field.of name required inner set))
    (hv : inner.Reads v x) (hrest : r.ReadsMembers (set a x) members b) :
    r.ReadsMembers a ((k, v) :: members) b := by
  have hput : (Field.of name required inner set).put.Reads v fun a => set a x := by
    refine ⟨hv.ordered, fun depth hdepth => ?_⟩
    show (inner depth (Draft.ofJson v)).map (fun x a => set a x) = .ok fun a => set a x
    rw [hv.decode depth hdepth]
    rfl
  exact .cons hf hput hrest

theorem ReadsMembers.ordered {a b : α} {members : List (String × Json)}
    (h : r.ReadsMembers a members b) : Json.OrderedMembers members := by
  induction h with
  | nil a => trivial
  | cons _ hv _ ih => exact ⟨hv.ordered, ih⟩

/-- Members with different keys, none of them seen before, are read into the record. -/
theorem readMembers_ofMembers {a b : α} {members : List (String × Json)}
    (h : r.ReadsMembers a members b) {depth : Nat} {seen : List String}
    (hdepth : Json.depthMembers members ≤ depth)
    (hkeys : (Table.keys members).Nodup) (hseen : ∀ k ∈ Table.keys members, k ∉ seen) :
    r.readMembers depth seen a (Draft.ofMembers members)
      = .ok ((Table.keys members).reverse ++ seen, b) := by
  -- the induction is on how the members are read; the keys seen so far grow with them
  induction h generalizing seen with
  | nil a => rfl
  | @cons a b k v members f put hf hv hrest ih =>
      obtain ⟨hvdepth, hrestdepth⟩ := Nat.max_le.mp hdepth
      obtain ⟨hk, hkeys⟩ := List.nodup_cons.mp hkeys
      obtain ⟨hkseen, hseen⟩ : k ∉ seen ∧ ∀ k' ∈ Table.keys members, k' ∉ seen :=
        List.forall_mem_cons.mp hseen
      have hkrest : ∀ k' ∈ Table.keys members, k' ∉ k :: seen := by
        intro k' hk' hmem
        rcases List.mem_cons.mp hmem with rfl | hmem
        · exact hk hk'
        · exact hseen k' hk' hmem
      have hstep : r.readMembers depth seen a (Draft.ofMembers ((k, v) :: members))
          = r.readMembers depth (k :: seen) (put a) (Draft.ofMembers members) := by
        rw [Draft.ofMembers, readMembers]
        simp only [Draft.key, bind, Except.bind, hf, if_neg hkseen, hv.decode depth hvdepth]
      have hreverse : (Table.keys ((k, v) :: members)).reverse ++ seen
          = (Table.keys members).reverse ++ k :: seen := by
        show (k :: Table.keys members).reverse ++ seen = _
        rw [List.reverse_cons, List.append_assoc, List.singleton_append]
      rw [hstep, hreverse, ih hrestdepth hkeys hkrest]

/-- Keys in ascending order, with every field among them that may not be left out. -/
def Complete (r : Record α) (keys : List String) : Prop :=
  keys.Pairwise (· < ·) ∧ ∀ f ∈ r.fields, f.required = true → f.name ∈ keys

instance (r : Record α) (keys : List String) : Decidable (r.Complete keys) :=
  inferInstanceAs (Decidable (_ ∧ _))

/-- **A record is read field by field** from an object with the keys that the record needs. -/
theorem reads_object {a : α} {members : List (String × Json)}
    (hcomplete : r.Complete (Table.keys members)) (h : r.ReadsMembers r.blank members a) :
    r.decoder.Reads (.object members) a := by
  obtain ⟨hordered, hrequired⟩ := hcomplete
  refine ⟨⟨hordered, h.ordered⟩, fun depth hdepth => ?_⟩
  cases depth with
  | zero => exact absurd hdepth (Nat.not_succ_le_zero _)
  | succ depth =>
      have hkeys : (Table.keys members).Nodup := by
        refine List.Pairwise.imp ?_ hordered
        rintro k _ hlt rfl
        exact String.lt_irrefl k hlt
      have hread : r.readMembers depth [] r.blank (Draft.ofMembers members)
          = .ok ((Table.keys members).reverse ++ [], a) :=
        readMembers_ofMembers h (Nat.le_of_succ_le_succ hdepth) hkeys fun _ _ => List.not_mem_nil
      have hall : (r.fields.all fun f =>
          !f.required || decide (f.name ∈ (Table.keys members).reverse ++ [])) = true := by
        rw [List.all_eq_true]
        intro f hf
        cases hreq : f.required with
        | false => rfl
        | true => simpa using hrequired f hf hreq
      rw [Draft.ofJson, decoder, Decoder.enter]
      simp only [hread]
      show (if (r.fields.all fun f =>
        !f.required || decide (f.name ∈ (Table.keys members).reverse ++ [])) = true
        then Except.ok a else Except.error Fault.mismatch) = .ok a
      rw [if_pos hall]

end Record

end ModuleAssembly
