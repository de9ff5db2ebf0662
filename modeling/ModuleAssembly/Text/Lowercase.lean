import ModuleAssembly.Text.CaseData

/-!
# Lower-casing

The full lower-case mapping of the Unicode standard, without the tailorings of single
languages. A letter maps to one letter with two exceptions. The capital I with a dot becomes a
small i followed by a combining dot. The capital sigma becomes the final small sigma when it
ends a word, that is, when a letter with case stands before it and none after it, passing over
the case-ignorable characters in between.
-/

set_option autoImplicit false

namespace ModuleAssembly.Text

/-- The simple lower-case mapping of one character. -/
def lowercaseChar (c : Char) : Char :=
  if c.toNat < 0x80 then c.toLower
  else
    match lowercaseRuns.findSome? fun r => r.image? c.toNat with
    | some n => Char.ofNat n
    | none => c

/-- A letter with case that is not passed over. -/
def isCased (c : Char) : Bool := inRanges casedRanges c.toNat

/-- A character that is passed over in the search for a letter with case. -/
def isCaseIgnorable (c : Char) : Bool := inRanges caseIgnorableRanges c.toNat

/-- The first character of `cs` that is not passed over is a letter with case. -/
def meetsCased (cs : List Char) : Bool :=
  match cs.dropWhile isCaseIgnorable with
  | c :: _ => isCased c
  | [] => false

/-- Lower-cases `cs`, where `before` holds the characters in front of it, last one first. -/
def lowercaseAfter (before : List Char) : List Char → List Char
  | [] => []
  | c :: rest =>
    let image :=
      if c = 'Σ' then
        if meetsCased before && !meetsCased rest then ['ς'] else ['σ']
      else if c = 'İ' then ['i', Char.ofNat 0x307]
      else [lowercaseChar c]
    image ++ lowercaseAfter (c :: before) rest

/-- The lower-case form of a text. -/
def lowercase (s : String) : String := String.ofList (lowercaseAfter [] s.toList)

end ModuleAssembly.Text
