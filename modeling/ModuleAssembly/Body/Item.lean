import ModuleAssembly.Body.DocBlock
import ModuleAssembly.Body.Literal
import ModuleAssembly.Body.RuntimeLibrary
import ModuleAssembly.Entity.Inquiry
import ModuleAssembly.Json.Printer
import ModuleAssembly.Number.Numeral
import ModuleAssembly.Text.Base64

/-!
# Items

An item is anything that can be printed into a module: texts, literals, symbols, uses of entities,
and sequences of items at any depth. Printing flattens an item into tokens from left to right. A
sixty-four bit integer is printed as a call of the runtime library with all its digits in a string,
because the number literals of the language lose the lower ones.

An item is also written as a JSON value. Texts, truth values, numbers and arrays stand for
themselves; an object says by its keys what it stands for.
-/

set_option autoImplicit false

namespace ModuleAssembly

open Number (Double toInt64? readInt64? readDouble? intText)

/-- What can be printed into a module. -/
inductive Item where
  | text (s : String)
  | bool (b : Bool)
  | number (x : Double)
  | int64 (n : Int64)
  | bytes (bs : List UInt8)
  | symbol (s : Symbol)
  | entity (ref : EntityUse)
  | seq (items : List Item)

namespace Item

/-! ## Printing -/

/-- The tokens of a sixty-four bit integer. -/
def int64Tokens (lib : RuntimeLibrary) (n : Int64) : List Token :=
  if n = 0 then [.symbol (lib.symbol .protoInt64), .text ".zero"]
  else
    [.symbol (lib.symbol .protoInt64), .text ".parse(",
      .text (Literal.string (String.ofList (intText n.toInt))), .text ")"]

mutual

/-- The tokens of an item. -/
def tokens (lib : RuntimeLibrary) : Item → Inquiry (List Token)
  | .text s => pure [.text s]
  | .bool b => pure [.text (Literal.bool b)]
  | .number x => pure [.text (Literal.number x)]
  | .int64 n => pure (int64Tokens lib n)
  | .bytes bs => pure [.text (Literal.bytes bs)]
  | .symbol s => pure [.symbol s]
  | .entity ref => do
    let s ← Inquiry.resolve ref
    pure [.symbol s]
  | .seq items => tokensOfAll lib items

/-- The tokens of several items, one after the other. -/
def tokensOfAll (lib : RuntimeLibrary) : List Item → Inquiry (List Token)
  | [] => pure []
  | p :: rest => do
    let front ← p.tokens lib
    let back ← tokensOfAll lib rest
    pure (front ++ back)

end

/-! ## Reading from JSON -/

/-- The sixty-four bit integer that a value stands for: a whole number or a numeral in range. -/
def int64Of : Json → Option Int64
  | .string s => readInt64? s
  | .number (.whole n) => toInt64? n.value
  | _ => none

/-- The number that a value stands for. -/
def numberOf : Json → Option Double
  | .string s => readDouble? s
  | .number n => some n.toDouble
  | _ => none

/-- The bytes that a value stands for. -/
def bytesOf : Json → Option (List UInt8)
  | .string s => Text.Base64.decode? s
  | _ => none

/-- The error for a value that cannot stand under a key. -/
def unfit (key : String) (v : Json) : Error := .unsupported (key ++ " " ++ v.compact)

/-- The texts of a documentation block. -/
def docTexts : Json → Except Error (List String)
  | .string s => .ok [s]
  | .array items => items.mapM fun v =>
    match v with
    | .string s => .ok s
    | v => .error (unfit "jsdoc" v)
  | v => .error (unfit "jsdoc" v)

/-- A name imported from a module or a package. -/
def importedSymbol (name source : String) : Except Error Symbol :=
  if source = "" then .error (.missingSource name) else .ok ⟨name, source, false⟩

/-- The item of an object. The first of the keys decides that is there and, for the keys that
name something, holds a string. -/
def ofMembers (home : String) (members : List (String × Json)) : Except Error Item :=
  let member (key : String) : Option Json := Table.find? key members
  let textAt (key : String) : Option String := (member key).bind Json.string?
  let typeOnly := ((member "typeOnly").bind Json.bool?).getD false
  if let some v := member "int64" then
    match int64Of v with
    | some n => .ok (.int64 n)
    | none => .error (unfit "int64" v)
  else if let some v := member "number" then
    match numberOf v with
    | some x => .ok (.number x)
    | none => .error (unfit "number" v)
  else if let some v := member "bytes" then
    match bytesOf v with
    | some bs => .ok (.bytes bs)
    | none => .error (unfit "bytes" v)
  else if let some typeName := textAt "type" then
    .ok (.entity ⟨typeName, typeOnly⟩)
  else if let some name := textAt "import" then
    (importedSymbol name ((textAt "from").getD "")).map fun s => .symbol (s.usedAs typeOnly)
  else if let some name := textAt "export" then
    .ok (.symbol ⟨name, home, false⟩)
  else if let some v := member "jsdoc" then
    (docTexts v).map fun texts =>
      .text ((DocBlock.ofTexts texts).indented ((textAt "indent").getD ""))
  else
    .error (.unsupported
      ("object \x7b" ++ ", ".intercalate (members.map Prod.fst) ++ "\x7d"))

mutual

/-- The item that a JSON value stands for in the module at `home`. -/
def ofJson (home : String) : Json → Except Error Item
  | .string s => .ok (.text s)
  | .bool b => .ok (.bool b)
  | .number n => .ok (.number n.toDouble)
  | .array items => (ofJsonItems home items).map .seq
  | .object members => ofMembers home members
  | .null => .error (.unsupported "null")

/-- The items that several JSON values stand for. -/
def ofJsonItems (home : String) : List Json → Except Error (List Item)
  | [] => .ok []
  | v :: rest => do
    let p ← ofJson home v
    let ps ← ofJsonItems home rest
    .ok (p :: ps)

end

end Item

end ModuleAssembly
