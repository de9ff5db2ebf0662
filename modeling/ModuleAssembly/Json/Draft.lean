import ModuleAssembly.Json.Lexeme

/-!
# Drafts

A draft is what a JSON text shows of its value, read from left to right up to the point where the
text breaks off or stops being well-formed. A whole value has a draft without a flaw. The flaws
stay where they were met, so that a decoder that walks the draft in the order of the text meets a
wrong shape and a broken text in the order in which they stand.
-/

set_option autoImplicit false

namespace ModuleAssembly

/-- How a container ends. -/
inductive Close where
  /-- The closing bracket is there. -/
  | closed
  /-- Something else stands where a comma or the bracket should. -/
  | broken (fault : Fault)
deriving DecidableEq

/-- The part of a JSON value that a text shows. After a comma there is always one more item or
member, if only a broken one. -/
inductive Draft where
  | null
  | bool (b : Bool)
  | number (n : Option JsonNumber)
  | string (s : Option String)
  | array (items : List Draft) (close : Close)
  /-- A key is a draft too, since anything may stand where a key should. -/
  | object (members : List (Draft × Draft)) (close : Close)
  | broken (b : Breakage)

namespace Draft

/-! ## From lexemes -/

/-- A container that is still open, innermost first on a stack. -/
inductive Frame where
  /-- The items so far, last one first. -/
  | array (items : List Draft)
  /-- The members so far, last one first, and the key whose value comes next. -/
  | object (members : List (Draft × Draft)) (key : Draft)

/-- The container with `last` as its last value. -/
def Frame.finish (f : Frame) (last : Draft) (close : Close) : Draft :=
  match f with
  | .array items => .array (last :: items).reverse close
  | .object members key => .object ((key, last) :: members).reverse close

/-- The draft of a text that is not read beyond `last`, which stands inside the open containers
of the stack. -/
def abandon (stack : List Frame) (last : Draft) : Draft :=
  stack.foldl (fun d f => f.finish d (.broken .ended)) last

/-- What a lexeme looks like where a key should stand. -/
def ofLexeme : Lexeme → Draft
  | .null => .null
  | .bool b => .bool b
  | .number n => .number n
  | .string s => .string s
  | .openArray => .array [] (.broken .ended)
  | .openObject => .object [] (.broken .ended)
  | .broken b => .broken b
  | _ => .broken Lexeme.stray

mutual

/-- Reads a value inside the open containers of the stack, and goes on to the end of the
outermost one. A closing bracket is no value, except right behind the opening one. -/
def readValue (stack : List Frame) : List Lexeme → Draft × List Lexeme
  | [] => (abandon stack (.broken .ended), [])
  | .null :: rest => readAfter stack .null rest
  | .bool b :: rest => readAfter stack (.bool b) rest
  | .number n :: rest => readAfter stack (.number n) rest
  | .string s :: rest => readAfter stack (.string s) rest
  | .openArray :: rest => readValue (.array [] :: stack) rest
  | .openObject :: rest => readKey stack [] rest
  | .closeArray :: rest =>
    match stack with
    | .array [] :: outer => readAfter outer (.array [] .closed) rest
    | _ => (abandon stack (.broken Lexeme.stray), [])
  | .broken b :: _ => (abandon stack (.broken b), [])
  | _ :: _ => (abandon stack (.broken Lexeme.stray), [])

/-- Goes on behind the complete value `last`. -/
def readAfter (stack : List Frame) (last : Draft) : List Lexeme → Draft × List Lexeme
  | [] =>
    match stack with
    | [] => (last, [])
    | f :: outer => (abandon outer (f.finish last (.broken .ended)), [])
  | l :: rest =>
    match stack, l with
    | [], _ => (last, l :: rest)
    | .array items :: outer, .comma => readValue (.array (last :: items) :: outer) rest
    | .object members key :: outer, .comma => readKey outer ((key, last) :: members) rest
    | .array items :: outer, .closeArray =>
      readAfter outer (.array (last :: items).reverse .closed) rest
    | .object members key :: outer, .closeObject =>
      readAfter outer (.object ((key, last) :: members).reverse .closed) rest
    | f :: outer, _ => (abandon outer (f.finish last (.broken .malformed)), [])

/-- Reads a key and its colon, or the closing brace right behind the opening one. -/
def readKey (stack : List Frame) (members : List (Draft × Draft)) :
    List Lexeme → Draft × List Lexeme
  | [] => (abandon (.object members (.broken .ended) :: stack) (.broken .ended), [])
  | .string s :: .colon :: rest => readValue (.object members (.string s) :: stack) rest
  | [.string s] => (abandon (.object members (.string s) :: stack) (.broken .ended), [])
  | .string s :: _ :: _ =>
    (abandon (.object members (.string s) :: stack) (.broken Lexeme.stray), [])
  | .closeObject :: rest =>
    match members with
    | [] => readAfter stack (.object [] .closed) rest
    | _ => (abandon (.object members (.broken Lexeme.stray) :: stack) (.broken .ended), [])
  | l :: _ => (abandon (.object members (ofLexeme l) :: stack) (.broken .ended), [])

end

/-- The draft of a text, and the lexemes that stand behind its value. -/
def ofText (text : String) : Draft × List Lexeme := readValue [] (Lexeme.ofChars text.toList)

/-! ## From values -/

mutual

/-- The draft of a whole value. -/
def ofJson : Json → Draft
  | .null => .null
  | .bool b => .bool b
  | .number n => .number (some n)
  | .string s => .string (some s)
  | .array items => .array (ofItems items) .closed
  | .object members => .object (ofMembers members) .closed

/-- The draft of each item. -/
def ofItems : List Json → List Draft
  | [] => []
  | v :: rest => ofJson v :: ofItems rest

/-- The draft of each member. -/
def ofMembers : List (String × Json) → List (Draft × Draft)
  | [] => []
  | (k, v) :: rest => (.string (some k), ofJson v) :: ofMembers rest

end

end Draft

end ModuleAssembly
