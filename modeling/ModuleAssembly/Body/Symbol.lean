/-!
# Symbols

A symbol is a name together with its home, the module that declares it. Name and home are its
identity; whether a reference needs the name as a type only is not part of it. A token is a piece
of a module body: a text to be written as it is, or a symbol whose written form is not known
until the imports of the module are.
-/

set_option autoImplicit false

namespace ModuleAssembly

/-- The identity of a symbol: the import path of its home and its declared name. -/
structure SymbolKey where
  home : String
  name : String
deriving DecidableEq

/-- The identity in words. -/
def SymbolKey.text (key : SymbolKey) : String := "import(\"" ++ key.home ++ "\")." ++ key.name

/-- A reference to a name that a module declares. -/
structure Symbol where
  name : String
  home : String
  /-- The name is used as a type only. -/
  typeOnly : Bool := false
deriving DecidableEq

namespace Symbol

/-- What is referred to. -/
def key (s : Symbol) : SymbolKey := ⟨s.home, s.name⟩

/-- The same name, used as a type only. -/
def asType (s : Symbol) : Symbol := { s with typeOnly := true }

/-- The symbol as it is used by a reference that asks for a type or not. -/
def usedAs (s : Symbol) (typeOnly : Bool) : Symbol := if typeOnly then s.asType else s

/-- The module at this import path declares the symbol. -/
def isLocalTo (s : Symbol) (importPath : String) : Bool := s.home == importPath

@[simp] theorem key_asType (s : Symbol) : s.asType.key = s.key := rfl

@[simp] theorem key_usedAs (s : Symbol) (typeOnly : Bool) : (s.usedAs typeOnly).key = s.key := by
  cases typeOnly <;> rfl

end Symbol

/-- A piece of a module body. -/
inductive Token where
  | text (s : String)
  | symbol (s : Symbol)
deriving DecidableEq

/-- The symbol of a token. -/
def Token.symbol? : Token → Option Symbol
  | .text _ => none
  | .symbol s => some s

end ModuleAssembly
