/-!
# Faults of a JSON text

The three ways in which a text fails to hold the value that is wanted from it.
-/

set_option autoImplicit false

namespace ModuleAssembly

/-- What can be wrong with a text that should hold a value: it ends too early, it is not
well-formed, or it holds a value of another shape. -/
inductive Fault where
  | ended
  | malformed
  | mismatch
deriving DecidableEq, Repr

/-- The wording of a flaw in a JSON text. -/
def Fault.message : Fault → String
  | .ended => "the text ends early"
  | .malformed => "the text is not well-formed"
  | .mismatch => "the value has another shape"

end ModuleAssembly
