/-!
# Blank text

A line of text is blank when it holds nothing but white space. White space is the Unicode
property `White_Space`.
-/

namespace ProofSheet.Text

/-- The code points with the property `White_Space`, as closed ranges in ascending order. -/
def whiteSpace : List (Nat × Nat) :=
  [(0x9, 0xD), (0x20, 0x20), (0x85, 0x85), (0xA0, 0xA0), (0x1680, 0x1680), (0x2000, 0x200A),
    (0x2028, 0x2029), (0x202F, 0x202F), (0x205F, 0x205F), (0x3000, 0x3000)]

/-- Whether a character is white space. -/
def isBlankChar (c : Char) : Bool :=
  whiteSpace.any fun (low, high) => decide (low ≤ c.toNat ∧ c.toNat ≤ high)

/-- Whether a text holds white space only; the empty text does. -/
def isBlank (s : String) : Bool :=
  s.toList.all isBlankChar

end ProofSheet.Text
