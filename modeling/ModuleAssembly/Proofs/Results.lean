import Mathlib.Data.List.Forall2

/-!
# Results that may be errors

A chain of computations that may fail gives a value exactly when each of them does, and fails as
the first one fails; a mapped result is a value exactly when the result is. The same holds of a
list of computations.
-/

set_option autoImplicit false

namespace ModuleAssembly

variable {ε α β γ : Type}

@[simp] theorem except_bind_ok (a : α) (f : α → Except ε β) : (Except.ok a).bind f = f a := rfl

@[simp] theorem except_bind_error (e : ε) (f : α → Except ε β) :
    (Except.error e).bind f = .error e := rfl

@[simp] theorem except_map_ok (a : α) (f : α → β) :
    (Except.ok a : Except ε α).map f = .ok (f a) := rfl

@[simp] theorem except_map_error (e : ε) (f : α → β) :
    (Except.error e : Except ε α).map f = .error e := rfl

@[simp] theorem except_toOption_ok (a : α) : (Except.ok a : Except ε α).toOption = some a := rfl

@[simp] theorem except_toOption_error (e : ε) :
    (Except.error e : Except ε α).toOption = none := rfl

theorem except_bind_eq_ok {x : Except ε α} {f : α → Except ε β} {b : β} :
    x.bind f = .ok b ↔ ∃ a, x = .ok a ∧ f a = .ok b := by
  cases x with
  | error e => simp
  | ok a => simp

theorem except_map_eq_ok {x : Except ε α} {f : α → β} {b : β} :
    x.map f = .ok b ↔ ∃ a, x = .ok a ∧ f a = b := by
  cases x with
  | error e => simp
  | ok a => simp

theorem except_bind_eq_error {x : Except ε α} {f : α → Except ε β} {e : ε} :
    x.bind f = .error e ↔ x = .error e ∨ ∃ a, x = .ok a ∧ f a = .error e := by
  cases x with
  | error e' => simp
  | ok a => simp

theorem except_map_eq_error {x : Except ε α} {f : α → β} {e : ε} :
    x.map f = .error e ↔ x = .error e := by
  cases x with
  | error e' => simp
  | ok a => simp

theorem except_toOption_eq_some {x : Except ε α} {a : α} :
    x.toOption = some a ↔ x = .ok a := by
  cases x with
  | error e => simp
  | ok a' => simp

theorem except_toOption_map (x : Except ε α) (f : α → β) :
    (x.map f).toOption = x.toOption.map f := by
  cases x with
  | error e => rfl
  | ok a => rfl

/-! ## Lists of results -/

theorem mapM_cons_eq_bind (f : α → Except ε β) (x : α) (xs : List α) :
    (x :: xs).mapM f = (f x).bind fun y => (xs.mapM f).map fun ys => y :: ys := by
  rw [List.mapM_cons]
  cases f x with
  | error e => rfl
  | ok y => cases xs.mapM f <;> rfl

theorem mapM_congr {f g : α → Except ε β} {xs : List α} (h : ∀ x ∈ xs, f x = g x) :
    xs.mapM f = xs.mapM g := by
  induction xs with
  | nil => rfl
  | cons x xs ih =>
      obtain ⟨hx, hxs⟩ := List.forall_mem_cons.mp h
      rw [mapM_cons_eq_bind, mapM_cons_eq_bind, hx, ih hxs]

/-- Computations with mapped results give the mapped list. -/
theorem mapM_eq_map_mapM {f : α → Except ε γ} {g : α → Except ε β} {h : β → γ} {xs : List α}
    (hf : ∀ x ∈ xs, f x = (g x).map h) :
    xs.mapM f = (xs.mapM g).map fun ys => ys.map h := by
  induction xs with
  | nil => rfl
  | cons x xs ih =>
      obtain ⟨hx, hxs⟩ := List.forall_mem_cons.mp hf
      rw [mapM_cons_eq_bind, mapM_cons_eq_bind, hx, ih hxs]
      cases g x with
      | error e => rfl
      | ok y => cases xs.mapM g <;> rfl

/-- A list of computations gives values exactly when each of them does. -/
theorem mapM_eq_ok_iff {f : α → Except ε β} {xs : List α} {ys : List β} :
    xs.mapM f = .ok ys ↔ List.Forall₂ (fun x y => f x = .ok y) xs ys := by
  induction xs generalizing ys with
  | nil =>
      rw [List.forall₂_nil_left_iff]
      show Except.ok [] = Except.ok ys ↔ ys = []
      rw [Except.ok.injEq, eq_comm]
  | cons x xs ih =>
      rw [mapM_cons_eq_bind, except_bind_eq_ok, List.forall₂_cons_left_iff]
      constructor
      · rintro ⟨y, hy, htail⟩
        obtain ⟨rest, hrest, rfl⟩ := except_map_eq_ok.mp htail
        exact ⟨y, rest, hy, ih.mp hrest, rfl⟩
      · rintro ⟨y, rest, hy, hrest, rfl⟩
        exact ⟨y, hy, except_map_eq_ok.mpr ⟨rest, ih.mpr hrest, rfl⟩⟩

theorem exists_mapM_eq_ok_iff {f : α → Except ε β} {xs : List α} :
    (∃ ys, xs.mapM f = .ok ys) ↔ ∀ x ∈ xs, ∃ y, f x = .ok y := by
  simp only [mapM_eq_ok_iff]
  induction xs with
  | nil => exact ⟨fun _ x hx => absurd hx List.not_mem_nil, fun _ => ⟨[], .nil⟩⟩
  | cons x xs ih =>
      rw [List.forall_mem_cons, ← ih]
      simp only [List.forall₂_cons_left_iff]
      constructor
      · rintro ⟨_, y, ys, hy, hys, rfl⟩
        exact ⟨⟨y, hy⟩, ys, hys⟩
      · rintro ⟨⟨y, hy⟩, ys, hys⟩
        exact ⟨y :: ys, y, ys, hy, hys, rfl⟩

/-- It fails as the first of them that fails. -/
theorem mapM_append_cons_eq_error {f : α → Except ε β} {front back : List α} {x : α} {e : ε}
    (hfront : ∀ y ∈ front, ∃ b, f y = .ok b) (hx : f x = .error e) :
    (front ++ x :: back).mapM f = .error e := by
  induction front with
  | nil => rw [List.nil_append, mapM_cons_eq_bind, hx, except_bind_error]
  | cons y front ih =>
      obtain ⟨b, hb⟩ := hfront y (List.mem_cons_self ..)
      rw [List.cons_append, mapM_cons_eq_bind, hb, except_bind_ok,
        ih fun z hz => hfront z (List.mem_cons_of_mem _ hz), except_map_error]

/-- It fails only so. -/
theorem mapM_eq_error_iff {f : α → Except ε β} {xs : List α} {e : ε} :
    xs.mapM f = .error e ↔ ∃ front x back, xs = front ++ x :: back ∧
      (∀ y ∈ front, ∃ b, f y = .ok b) ∧ f x = .error e := by
  constructor
  · intro h
    induction xs with
    | nil => cases h
    | cons x xs ih =>
        rw [mapM_cons_eq_bind, except_bind_eq_error] at h
        rcases h with hx | ⟨b, hb, htail⟩
        · exact ⟨[], x, xs, rfl, fun _ hy => absurd hy List.not_mem_nil, hx⟩
        · obtain ⟨front, y, back, rfl, hfront, hy⟩ := ih (except_map_eq_error.mp htail)
          exact ⟨x :: front, y, back, rfl, List.forall_mem_cons.mpr ⟨⟨b, hb⟩, hfront⟩, hy⟩
  · rintro ⟨front, x, back, rfl, hfront, hx⟩
    exact mapM_append_cons_eq_error hfront hx

/-- A list that is put together gives what its parts give, unless the front fails. -/
theorem mapM_append_eq_bind (f : α → Except ε β) (xs ys : List α) :
    (xs ++ ys).mapM f
      = (xs.mapM f).bind fun front => (ys.mapM f).map fun back => front ++ back := by
  induction xs with
  | nil =>
      show ys.mapM f = (ys.mapM f).map fun back => [] ++ back
      cases ys.mapM f <;> rfl
  | cons x xs ih =>
      rw [List.cons_append, mapM_cons_eq_bind, mapM_cons_eq_bind, ih]
      cases f x with
      | error e => rfl
      | ok y =>
          cases xs.mapM f with
          | error e => rfl
          | ok front => cases ys.mapM f <;> rfl

/-- A second round over the values is a round over the list. -/
theorem mapM_of_mapM_eq_ok {f : α → Except ε β} {xs : List α} {ys : List β}
    (h : xs.mapM f = .ok ys) (g : β → Except ε γ) :
    ys.mapM g = xs.mapM fun x => (f x).bind g := by
  have hall := mapM_eq_ok_iff.mp h
  induction hall with
  | nil => rfl
  | cons hx hxs ih =>
      rw [mapM_cons_eq_bind, mapM_cons_eq_bind, hx, except_bind_ok, ih (mapM_eq_ok_iff.mpr hxs)]

/-- Two rounds over a list give values exactly when one round of both does. -/
theorem mapM_bind_mapM_eq_ok {f : α → Except ε β} {g : β → Except ε γ} {xs : List α}
    {zs : List γ} :
    (xs.mapM f).bind (List.mapM g) = .ok zs ↔ xs.mapM (fun x => (f x).bind g) = .ok zs := by
  simp only [except_bind_eq_ok, mapM_eq_ok_iff]
  induction xs generalizing zs with
  | nil => simp
  | cons x xs ih =>
      simp only [List.forall₂_cons_left_iff]
      constructor
      · rintro ⟨_, ⟨y, ys, hy, hys, rfl⟩, hall⟩
        obtain ⟨z, zs, hz, hzs, rfl⟩ := List.forall₂_cons_left_iff.mp hall
        exact ⟨z, zs, ⟨y, hy, hz⟩, ih.mp ⟨ys, hys, hzs⟩, rfl⟩
      · rintro ⟨z, zs, ⟨y, hy, hz⟩, hzs, rfl⟩
        obtain ⟨ys, hys, hzs⟩ := ih.mpr hzs
        exact ⟨y :: ys, ⟨y, ys, hy, hys, rfl⟩, .cons hz hzs⟩

end ModuleAssembly
