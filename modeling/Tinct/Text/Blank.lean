/-! # Blank characters

White space in the sense of the Unicode property `White_Space`, and the words of a text, which are
its maximal runs of other characters. -/

namespace Tinct

/-- Whether a character has the Unicode property `White_Space`. -/
def isBlank (c : Char) : Bool :=
  let n := c.toNat
  9 ≤ n && n ≤ 13 || n = 0x20 || n = 0x85 || n = 0xA0 || n = 0x1680 ||
    0x2000 ≤ n && n ≤ 0x200A || n = 0x2028 || n = 0x2029 || n = 0x202F || n = 0x205F || n = 0x3000

/-- The words of a text: its non-empty pieces between blank characters. -/
def words (text : String) : List String :=
  ((text.toList.splitOnP isBlank).filter (!·.isEmpty)).map String.ofList

/-- A text without its leading blank characters. -/
def dropLeadingBlanks (text : List Char) : List Char := text.dropWhile isBlank

end Tinct
