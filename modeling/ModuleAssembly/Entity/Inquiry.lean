import ModuleAssembly.Entity.Registry

/-!
# Inquiries

An inquiry is a computation that asks the registry for the symbols of type names on its way. It
does not say when its questions are answered, so the same inquiry can be run at once, or step by
step between the steps of others.
-/

set_option autoImplicit false

namespace ModuleAssembly
/-- A computation that may ask for the symbols of type names and may fail. -/
inductive Inquiry (α : Type) where
  | done (result : Except Error α)
  | ask (typeName : String) (next : Except Error Symbol → Inquiry α)

namespace Inquiry

variable {α β : Type}

/-- Goes on with the result, unless the inquiry fails. -/
def bind (q : Inquiry α) (f : α → Inquiry β) : Inquiry β :=
  match q with
  | .done (.ok a) => f a
  | .done (.error e) => .done (.error e)
  | .ask typeName next => .ask typeName fun answer => (next answer).bind f

instance : Monad Inquiry where
  pure a := .done (.ok a)
  bind := bind

theorem bind_done (q : Inquiry α) : q.bind (fun a => .done (.ok a)) = q := by
  induction q with
  | done result => cases result <;> rfl
  | ask typeName next ih => exact congrArg (ask typeName) (funext ih)

theorem bind_bind {γ : Type} (q : Inquiry α) (f : α → Inquiry β) (g : β → Inquiry γ) :
    (q.bind f).bind g = q.bind fun a => (f a).bind g := by
  induction q with
  | done result => cases result <;> rfl
  | ask typeName next ih => exact congrArg (ask typeName) (funext ih)

instance : LawfulMonad Inquiry :=
  LawfulMonad.mk' Inquiry bind_done (fun _ _ => rfl) bind_bind

/-- An inquiry that asks nothing. -/
def ofExcept (result : Except Error α) : Inquiry α := .done result

/-- What an inquiry goes on with is known if what it starts with is. -/
theorem ofExcept_map_bind {γ : Type} (x : Except Error α) (f : α → β) (g : β → Inquiry γ) :
    (ofExcept (x.map f) >>= g) = ofExcept x >>= fun a => g (f a) := by
  cases x with
  | error e => rfl
  | ok a => rfl

/-- Asks for the symbol of a reference. -/
def resolve (ref : EntityUse) : Inquiry Symbol :=
  .ask ref.typeName fun answer => .done (answer.map fun s => s.usedAs ref.typeOnly)

/-- The same inquiry with a failure as an ordinary result. -/
def attempt : Inquiry α → Inquiry (Except Error α)
  | .done result => .done (.ok result)
  | .ask typeName next => .ask typeName fun answer => (next answer).attempt

/-- The result when every question is put to the registry in turn. -/
def run (r : Registry) : Inquiry α → Except Error α × Registry
  | .done result => (result, r)
  | .ask typeName next =>
    let (answer, r') := r.resolve typeName
    (next answer).run r'

end Inquiry

end ModuleAssembly
