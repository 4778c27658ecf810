/-! # Filename globs

In a glob a star stands for any run of characters and a question mark for any one character, both
without line feeds; every other character stands for itself.

The parts of a glob are gone through from its end, and for each of them it is found out which ends
of the name the glob describes from there on.  So the effort is the length of the glob times that of
the name, however many stars there are. -/

namespace Tinct.Glob

/-- Whether a character of a glob other than the star stands for a character of a name. -/
def accepts (g c : Char) : Bool := if g = '?' then c ≠ '\n' else g = c

/-- Which ends of a name are described, from the whole name to the empty one, if one more character
of the glob stands in front of what describes the given ends. -/
def behindChar (g : Char) : List Char → List Bool → List Bool
  | c :: name, _ :: ends => (accepts g c && ends.headD false) :: behindChar g name ends
  | _, _ => [false]

/-- Which ends of a name are described if a star stands in front of what describes the given
ends. -/
def behindStar : List Char → List Bool → List Bool
  | c :: name, here :: ends =>
    let later := behindStar name ends
    (here || c ≠ '\n' && later.headD false) :: later
  | _, ends => ends

/-- Which ends of a name a glob describes, from the whole name to the empty one. -/
def describedEnds (name : List Char) : List Char → List Bool
  | [] => name.map (fun _ => false) ++ [true]
  | g :: glob =>
    let ends := describedEnds name glob
    if g = '*' then behindStar name ends else behindChar g name ends

/-- Whether a glob describes a whole name. -/
def matchesChars (glob name : List Char) : Bool := (describedEnds name glob).headD false

/-- Whether a glob describes a file name. -/
def describes (glob name : String) : Bool := matchesChars glob.toList name.toList

end Tinct.Glob
