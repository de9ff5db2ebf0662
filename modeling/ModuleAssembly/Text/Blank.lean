/-!
# Blank characters

The characters with the Unicode property `White_Space`, and the trimming of a text by that
property. The property has twenty-five members and is closed under future versions of the
standard.
-/

set_option autoImplicit false

namespace ModuleAssembly.Text

/-- The code points with the property `White_Space`. -/
def isBlankPoint (n : Nat) : Bool :=
  (0x09 ≤ n && n ≤ 0x0D) || n == 0x20 || n == 0x85 || n == 0xA0 || n == 0x1680
    || (0x2000 ≤ n && n ≤ 0x200A) || n == 0x2028 || n == 0x2029 || n == 0x202F
    || n == 0x205F || n == 0x3000

/-- A character with the property `White_Space`. -/
def isBlank (c : Char) : Bool := isBlankPoint c.toNat

/-- Drops the blanks at the end. -/
def trimEnd (cs : List Char) : List Char := (cs.reverse.dropWhile isBlank).reverse

/-- Drops the blanks at both ends. -/
def trim (cs : List Char) : List Char := trimEnd (cs.dropWhile isBlank)

end ModuleAssembly.Text
