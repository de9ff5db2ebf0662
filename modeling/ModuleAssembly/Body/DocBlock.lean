import ModuleAssembly.Text.Affix

/-!
# Documentation blocks

A documentation block is a comment from `/**` to `*/` with a star in front of every line. A
closing `*/` inside a text is broken up by a backslash, but not the one that a line makes with the
star in front of it when it starts with a slash.
-/

set_option autoImplicit false

namespace ModuleAssembly

/-- The lines of a text; a text has one line more than it has line breaks. -/
def linesOf (cs : List Char) : List (List Char) := cs.splitOn '\n'

/-- The lines of a comment. One line break at the end of a comment does not count. -/
def commentLines (comment : String) : List (List Char) :=
  linesOf (Text.withoutBack ['\n'] comment.toList)

/-- The lines of a documentation block, without stars and indentation. -/
structure DocBlock where
  lines : List (List Char) := []
deriving DecidableEq

namespace DocBlock

/-- Puts a backslash into every `*/`. -/
def protect : List Char → List Char
  | '*' :: '/' :: rest => '*' :: '\\' :: '/' :: protect rest
  | c :: rest => c :: protect rest
  | [] => []

/-- A block without lines. -/
def empty : DocBlock := {}

/-- Adds the lines of a text. The text is protected as a whole, before it has stars in front of its
lines. -/
def add (b : DocBlock) (text : String) : DocBlock :=
  ⟨b.lines ++ linesOf (protect (Text.withoutBack ['\n'] text.toList))⟩

/-- The block with the lines of several texts. -/
def ofTexts (texts : List String) : DocBlock := texts.foldl add empty

/-- The block has no lines. -/
def isEmpty (b : DocBlock) : Bool := b.lines.isEmpty

/-- The characters of the comment, every line indented. -/
def indentedChars (b : DocBlock) (indent : List Char) : List Char :=
  indent ++ '/' :: '*' :: '*' :: '\n'
    :: (b.lines.flatMap fun line => indent ++ ' ' :: '*' :: (line ++ ['\n']))
    ++ indent ++ [' ', '*', '/']

/-- The comment with every line indented; there is no comment without lines. -/
def indented (b : DocBlock) (indent : String) : String :=
  if b.isEmpty then "" else String.ofList (b.indentedChars indent.toList)

end DocBlock

end ModuleAssembly
