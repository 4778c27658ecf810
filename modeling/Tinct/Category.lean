/-! # Categories

A category names a kind of text, such as a keyword or a string, by a path in a hierarchy: the empty
path is the root, and each further segment is more specific.  The key of a category joins its
segments with dots.

* `ofKey` reads a key, in which a leading segment `Token` stands for the root;
* `ancestors` lists a category and everything above it, the most specific first;
* `isWithin` says that a category lies in the subtree of another. -/

namespace Tinct

/-- A category as its path from the root of the hierarchy. -/
structure Category where
  segments : List String
deriving DecidableEq, Repr

namespace Category

/-- The category above all others. -/
def root : Category := ⟨[]⟩

/-- The category with the given segments; empty segments are left out. -/
def ofSegments (segments : List String) : Category := ⟨segments.filter (· ≠ "")⟩

/-- The non-empty parts of a text between its dots. -/
def keyParts (key : String) : List String :=
  ((key.toList.splitOn '.').filter (!·.isEmpty)).map String.ofList

/-- Reads a dotted key.  Empty parts are left out, and one leading `Token` names the root. -/
def ofKey (key : String) : Category :=
  match keyParts key with
  | [] => root
  | head :: rest => if head = "Token" then ⟨rest⟩ else ⟨head :: rest⟩

/-- The dotted key, which is empty for the root. -/
def key (c : Category) : String :=
  String.ofList (['.'].intercalate (c.segments.map String.toList))

/-- Whether the category is the root. -/
def isRoot (c : Category) : Bool := c.segments.isEmpty

/-- The number of steps from the root. -/
def depth (c : Category) : Nat := c.segments.length

/-- The category one step above, which the root does not have. -/
def parent? (c : Category) : Option Category :=
  if c.isRoot then none else some ⟨c.segments.dropLast⟩

/-- The category below with one more segment; an empty segment adds nothing. -/
def child (c : Category) (segment : String) : Category :=
  if segment = "" then c else ⟨c.segments ++ [segment]⟩

/-- The category itself and all categories above it, down to the root. -/
def ancestors (c : Category) : List Category :=
  (List.range (c.depth + 1)).reverse.map fun n => ⟨c.segments.take n⟩

/-- Whether the category is `top` or lies below it. -/
def isWithin (c top : Category) : Bool := top.segments.isPrefixOf c.segments

/-- Categories are ordered by their segments, from the root on. -/
instance : Ord Category := ⟨fun a b => compare a.segments b.segments⟩

instance : Std.TransOrd Category where
  eq_swap {a b} := (Std.OrientedCmp.eq_swap : compare a.segments b.segments = _)
  isLE_trans {a b _} h₁ h₂ :=
    (Std.TransCmp.isLE_trans : (compare a.segments b.segments).isLE → _ → _) h₁ h₂

instance : Std.LawfulEqOrd Category where
  compare_self {a} := (Std.ReflCmp.compare_self : compare a.segments a.segments = _)
  eq_of_compare {a b} h := by
    have : a.segments = b.segments :=
      Std.LawfulEqCmp.eq_of_compare (h : compare a.segments b.segments = _)
    cases a
    cases b
    simp_all

end Category

end Tinct
