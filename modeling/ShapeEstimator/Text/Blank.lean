/-
  ShapeEstimator.Text.Blank
  ────────────────────────────────
  **WHITE SPACE.**

  The characters with the Unicode property White_Space, and text without the
  white space around it.
-/

namespace ShapeEstimator.Text

/-- The code points of white space beyond the ranges 9 to 13 and 0x2000 to 0x200A. -/
def singleBlanks : List Nat :=
  [0x20, 0x85, 0xA0, 0x1680, 0x2028, 0x2029, 0x202F, 0x205F, 0x3000]

/-- Whether a character is white space. -/
def isBlank (c : Char) : Bool :=
  (9 ≤ c.toNat && c.toNat ≤ 13) || (0x2000 ≤ c.toNat && c.toNat ≤ 0x200A)
    || singleBlanks.contains c.toNat

/-- A text without the white space at its start and end. -/
def trimBlanks (text : String) : String :=
  let front := text.toList.dropWhile isBlank
  String.ofList (front.reverse.dropWhile isBlank).reverse

end ShapeEstimator.Text
