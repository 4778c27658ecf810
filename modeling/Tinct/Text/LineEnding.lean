/-! # Line endings

A line ends in a line feed, a carriage return, or both of them. -/

namespace Tinct

/-- Replaces each carriage return that a line feed follows, together with that line feed, by one
line feed. -/
def joinReturnFeeds : List Char → List Char
  | '\r' :: '\n' :: rest => '\n' :: joinReturnFeeds rest
  | c :: rest => c :: joinReturnFeeds rest
  | [] => []

end Tinct
