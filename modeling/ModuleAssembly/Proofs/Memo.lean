import ModuleAssembly.Entity.Inquiry

/-!
# The memory of the registry

The registry remembers the symbols that it has given out. What it remembers is what it would
answer anyway, so putting a question to it changes none of its answers (`answer_resolve`). Hence
the result of an inquiry depends on the registry only through its answers, whatever was asked
before (`run_eq_eval`).
-/

set_option autoImplicit false

namespace ModuleAssembly

variable {α β : Type}

/-! ## Answers -/

namespace Registry

/-- What the registry answers to a type name. -/
def answer (r : Registry) (typeName : String) : Except Error Symbol := (r.resolve typeName).1

/-- The answer to a type name that is remembered. -/
theorem answer_of_lookup {r : Registry} {t : String} {s : Symbol} (h : r.lookup? t = some s) :
    r.answer t = .ok s := by
  unfold answer resolve
  rw [h]

/-- The answer to a type name that is not remembered. -/
theorem answer_of_not_lookup {r : Registry} {t : String} (h : r.lookup? t = none) :
    r.answer t = match r.get? t with
      | none => .error (.unknownEntity t)
      | some e => .ok (r.symbolOf e) := by
  unfold answer resolve settle
  rw [h]
  cases r.get? t with
  | none => rfl
  | some e => rfl

/-- What a question does to the registry: nothing, or it remembers the answer to a type name that
was not remembered. -/
theorem resolve_cases (r : Registry) (t : String) :
    (r.resolve t).2 = r ∨
      ∃ e, r.lookup? t = none ∧ r.get? t = some e ∧
        (r.resolve t).2 = { r with settled := r.settled.insert t (r.symbolOf e) } := by
  unfold resolve settle
  cases hl : r.lookup? t with
  | some s => exact .inl rfl
  | none =>
      cases hg : r.get? t with
      | none => exact .inl rfl
      | some e => exact .inr ⟨e, rfl, rfl, rfl⟩

/-- A question leaves the naming as it is. -/
theorem naming_resolve (r : Registry) (t : String) : (r.resolve t).2.naming = r.naming := by
  rcases resolve_cases r t with h | ⟨e, -, -, h⟩
  · rw [h]
  · rw [h]

/-- A question leaves the entities as they are. -/
theorem entities_resolve (r : Registry) (t : String) : (r.resolve t).2.entities = r.entities := by
  rcases resolve_cases r t with h | ⟨e, -, -, h⟩
  · rw [h]
  · rw [h]

theorem get?_resolve (r : Registry) (t u : String) : (r.resolve t).2.get? u = r.get? u := by
  rw [get?, get?, entities_resolve]

theorem symbolOf_resolve (r : Registry) (t : String) : (r.resolve t).2.symbolOf = r.symbolOf := by
  funext e
  rw [symbolOf, symbolOf, naming_resolve]

/-- Resolving a name remembers the symbol of its entity, if none is remembered. -/
theorem lookup?_resolve_eq (r : Registry) (t u : String) :
    (r.resolve t).2.lookup? u
      = (r.lookup? u).or (if t = u then (r.get? u).map r.symbolOf else none) := by
  by_cases htu : t = u
  · subst htu
    rw [if_pos rfl]
    unfold resolve settle
    cases hl : r.lookup? t with
    | some s => exact hl
    | none =>
        cases hg : r.get? t with
        | none => exact hl
        | some e => exact Table.find?_insert_self t (r.symbolOf e) r.settled
  · rw [if_neg htu, Option.or_none]
    rcases resolve_cases r t with h | ⟨e, -, -, h⟩
    · rw [h]
    · rw [h]
      exact Table.find?_insert_of_ne (Ne.symm htu) (r.symbolOf e) r.settled

/-- What a registry answers: the symbol it remembers, or that of the entity under the name. -/
theorem answer_eq (r : Registry) (t : String) :
    r.answer t = match (r.lookup? t).or ((r.get? t).map r.symbolOf) with
      | none => .error (.unknownEntity t)
      | some s => .ok s := by
  cases hl : r.lookup? t with
  | some s => exact answer_of_lookup hl
  | none =>
      rw [answer_of_not_lookup hl]
      cases r.get? t with
      | none => rfl
      | some e => rfl

/-- A question changes no answer. -/
theorem answer_resolve (r : Registry) (t u : String) : (r.resolve t).2.answer u = r.answer u := by
  rw [answer_eq, answer_eq, lookup?_resolve_eq, get?_resolve, symbolOf_resolve, Option.or_assoc]
  by_cases htu : t = u
  · -- what is remembered now is what was answered before without it
    rw [if_pos htu, Option.or_self]
  · rw [if_neg htu, Option.none_or]

/-! ### A registry that was just filled -/

/-- The last entity under each type name. -/
def entityTable (es : List Entity) : Table Entity :=
  es.foldl (fun t e => t.insert e.typeName e) []

theorem foldl_register (es : List Entity) (r : Registry) :
    es.foldl register r =
      { r with entities := es.foldl (fun t e => t.insert e.typeName e) r.entities } := by
  induction es generalizing r with
  | nil => rfl
  | cons e rest ih => exact ih (r.register e)

/-- The entities do not depend on the naming, and no symbol was given out. -/
theorem ofEntities_eq (naming : Naming) (es : List Entity) :
    ofEntities naming es = { naming, entities := entityTable es } := foldl_register es { naming }

@[simp] theorem lookup?_ofEntities (naming : Naming) (es : List Entity) (t : String) :
    (ofEntities naming es).lookup? t = none := by
  rw [ofEntities_eq]
  rfl

/-- Its answers are the symbols of the last entities. -/
theorem answer_ofEntities (naming : Naming) (es : List Entity) (t : String) :
    (ofEntities naming es).answer t = match (entityTable es).find? t with
      | none => .error (.unknownEntity t)
      | some e => .ok ⟨e.localName, naming.importPath e.file, false⟩ := by
  rw [answer_of_not_lookup (lookup?_ofEntities naming es t), ofEntities_eq]
  rfl

end Registry

/-! ## Inquiries without a registry -/

namespace Inquiry

/-- The result of an inquiry when its questions are answered by `ans`. -/
def eval (ans : String → Except Error Symbol) : Inquiry α → Except Error α
  | .done result => result
  | .ask typeName next => (next (ans typeName)).eval ans

/-- Putting an inquiry to the registry changes no answer. -/
theorem answer_run (r : Registry) (q : Inquiry α) : (q.run r).2.answer = r.answer := by
  induction q generalizing r with
  | done result => rfl
  | ask typeName next ih =>
      have hnext := ih (r.resolve typeName).1 (r.resolve typeName).2
      have hstep : (r.resolve typeName).2.answer = r.answer :=
        funext (Registry.answer_resolve r typeName)
      exact hnext.trans hstep

/-- **The memory cannot be seen.** The result of an inquiry is given by the answers that the
registry would give to its questions at the start. -/
theorem run_eq_eval (r : Registry) (q : Inquiry α) : (q.run r).1 = q.eval r.answer := by
  induction q generalizing r with
  | done result => rfl
  | ask typeName next ih =>
      have hnext := ih (r.resolve typeName).1 (r.resolve typeName).2
      have hstep : (r.resolve typeName).2.answer = r.answer :=
        funext (Registry.answer_resolve r typeName)
      rw [hstep] at hnext
      exact hnext

@[simp] theorem eval_ofExcept (ans : String → Except Error Symbol) (result : Except Error α) :
    (ofExcept result).eval ans = result := rfl

theorem eval_bind (ans : String → Except Error Symbol) (q : Inquiry α) (f : α → Inquiry β) :
    (q >>= f).eval ans = (q.eval ans).bind fun a => (f a).eval ans := by
  show (q.bind f).eval ans = _
  induction q with
  | done result =>
      cases result with
      | error e => rfl
      | ok a => rfl
  | ask typeName next ih => exact ih (ans typeName)

end Inquiry

end ModuleAssembly
