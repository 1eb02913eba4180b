/-!
The blank characters: the code points with the Unicode property White_Space. Zero-width spaces,
the byte order mark and the information separators U+001C to U+001F do not have it.
-/
namespace KeypadCalc

/-- First and last code point of every run of White_Space characters, in increasing order. -/
def blankRanges : List (Nat × Nat) :=
  [(0x0009, 0x000D), (0x0020, 0x0020), (0x0085, 0x0085), (0x00A0, 0x00A0), (0x1680, 0x1680),
    (0x2000, 0x200A), (0x2028, 0x2029), (0x202F, 0x202F), (0x205F, 0x205F), (0x3000, 0x3000)]

/-- A character is blank when it has the property White_Space. -/
def isBlank (c : Char) : Bool :=
  blankRanges.any fun range => range.1 ≤ c.toNat && c.toNat ≤ range.2

end KeypadCalc
