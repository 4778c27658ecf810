/-! # Windows

The window of a text is its longest beginning with at most a given size in UTF-8. -/

namespace Tinct

/-- The longest beginning of a text that takes at most `size` bytes of UTF-8. -/
def window : Nat → List Char → List Char
  | _, [] => []
  | size, c :: rest => if c.utf8Size ≤ size then c :: window (size - c.utf8Size) rest else []

end Tinct
