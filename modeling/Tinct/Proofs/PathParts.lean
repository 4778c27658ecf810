import Mathlib.Data.List.TakeWhile
import Tinct.Path
import Tinct.Proofs.Pieces

/-!
# The last name of a path

A path is cut at its slashes, and pieces without characters or with a single dot name nothing.  So
the last name of a path starts it or stands behind a slash, and is followed by slashes only, with at
most a dot behind each of them.  There is at most one such name, and none at the end of a path that
goes up with two dots.  A name is cut once more, at the dot in front of its extension.

## Key results

- `splitOn_append_marks`: the pieces of a text behind a slash, up to marks that name nothing
- `fileName?_eq_some_iff`: what is found is the last name of the path
- `isFileName_iff`: the name that globs are compared with, also where a path has no last name
- `splitExtension_eq_some_iff`: a name with an extension is cut at its last dot
-/

namespace Tinct.Path

variable {path name : String}

/-! ## Names in paths -/

/-- A text can name a file: there is no slash in it, and it is not empty and no dots. -/
structure CanName (name : String) : Prop where
  no_slash : '/' ∉ name.toList
  ne_empty : name ≠ ""
  ne_dot : name ≠ "."
  ne_dots : name ≠ ".."

/-- A text behind a name that names nothing more: slashes, with at most a dot behind each. -/
def NamesNothing (text : List Char) : Prop :=
  ∃ marks : List (List Char), text = marks.flatten ∧
    ∀ mark ∈ marks, mark = ['/'] ∨ mark = ['/', '.']

/-- The last name of a path starts it or stands behind a slash, and nothing is named behind it. -/
structure IsLastName (path name : String) : Prop where
  canName : CanName name
  exists_split : ∃ front back, path.toList = front ++ name.toList ++ back ∧
    (front = [] ∨ front.getLast? = some '/') ∧ NamesNothing back

/-- The name of the file at a path, which is empty where the path has no last name. -/
def IsFileName (path name : String) : Prop :=
  IsLastName path name ∨ name = "" ∧ ∀ other, ¬ IsLastName path other

/-! ## Pieces -/

/-- Texts joined by a separator, seen from one of them. -/
theorem intercalate_append_cons (sep : Char) (before after : List (List Char)) (piece : List Char) :
    [sep].intercalate (before ++ piece :: after) =
      (before.map (· ++ [sep])).flatten ++ piece ++ (after.map (sep :: ·)).flatten := by
  induction before with
  | nil =>
    -- each of the texts behind the piece brings the separator in front of it
    induction after generalizing piece with
    | nil => simp
    | cons next after ih =>
      have hnext := ih next
      rw [List.nil_append, List.map_nil, List.flatten_nil, List.nil_append] at hnext ⊢
      rw [List.intercalate_cons_cons, hnext]
      simp
  | cons first before ih =>
    rw [List.cons_append, List.intercalate_cons_of_ne_nil (by simp), ih]
    simp

/-- A piece between slashes has no slash. -/
theorem no_slash_of_mem_splitOn {text piece : List Char} (h : piece ∈ text.splitOn '/') :
    '/' ∉ piece := by
  intro hmem
  rw [List.splitOn_eq_splitOnP] at h
  simpa using eq_false_of_mem_splitOnP h hmem

/-- The pieces of a name and of marks behind it. -/
theorem splitOn_append_marks {name : List Char} (hname : '/' ∉ name) {marks : List (List Char)}
    (hmarks : ∀ mark ∈ marks, mark = ['/'] ∨ mark = ['/', '.']) :
    (name ++ marks.flatten).splitOn '/' = name :: marks.map List.tail := by
  induction marks generalizing name with
  | nil => simp [List.splitOn_eq_singleton hname]
  | cons mark marks ih =>
    obtain ⟨hmark, hrest⟩ := List.forall_mem_cons.mp hmarks
    -- the mark starts with a slash, and its dot is the piece behind it
    obtain ⟨piece, rfl, hpiece⟩ : ∃ piece, mark = '/' :: piece ∧ '/' ∉ piece := by
      rcases hmark with rfl | rfl
      · exact ⟨[], rfl, by decide⟩
      · exact ⟨['.'], rfl, by decide⟩
    rw [List.flatten_cons, List.cons_append, List.splitOn_append_cons_self_of_not_mem hname,
      ih hpiece hrest]
    rfl

/-- The pieces of a text in front of a name and of the name with marks behind it. -/
theorem exists_splitOn_eq {front name back : List Char} (hname : '/' ∉ name)
    (hfront : front = [] ∨ front.getLast? = some '/') (hback : NamesNothing back) :
    ∃ before after, (front ++ name ++ back).splitOn '/' = before ++ name :: after ∧
      ∀ piece ∈ after, piece = [] ∨ piece = ['.'] := by
  obtain ⟨marks, rfl, hmarks⟩ := hback
  have hafter : ∀ piece ∈ marks.map List.tail, piece = [] ∨ piece = ['.'] := by
    intro piece hpiece
    obtain ⟨mark, hmark, rfl⟩ := List.mem_map.mp hpiece
    exact (hmarks mark hmark).imp (congrArg List.tail) (congrArg List.tail)
  have hpieces := splitOn_append_marks hname hmarks
  rw [List.append_assoc]
  rcases hfront with rfl | hlast
  · exact ⟨[], _, hpieces, hafter⟩
  · obtain ⟨front, rfl⟩ := List.getLast?_eq_some_iff.mp hlast
    refine ⟨front.splitOn '/', _, ?_, hafter⟩
    rw [List.append_assoc, List.singleton_append, List.splitOn_append_cons_self, hpieces]

/-! ## The name that is found -/

/-- The last part of a path is the last of its pieces that has characters and is no single dot. -/
theorem getLast?_parts_eq_some_iff :
    (parts path).getLast? = some name ↔
      (name ≠ "" ∧ name ≠ ".") ∧ ∃ before after,
        path.toList.splitOn '/' = before ++ name.toList :: after ∧
          ∀ piece ∈ after, piece = [] ∨ piece = ['.'] := by
  have hnothing : ∀ piece : List Char, (!(String.ofList piece ≠ "" && String.ofList piece ≠ ".")) =
      true ↔ piece = [] ∨ piece = ['.'] := by
    intro piece
    simp [← String.toList_inj, Classical.or_iff_not_imp_left]
  rw [parts, List.getLast?_filter, List.find?_eq_some_iff_append]
  constructor
  · rintro ⟨hname, behind, front, hsplit, hbehind⟩
    -- the search runs from the end, so the pieces come back in reverse
    have hpieces := congrArg List.reverse hsplit
    rw [List.reverse_reverse, List.reverse_append, List.reverse_cons, List.append_assoc,
      List.singleton_append] at hpieces
    obtain ⟨before, rest, hparts, -, hrest⟩ := List.map_eq_append_iff.mp hpieces
    obtain ⟨piece, after, rfl, rfl, hafter⟩ := List.map_eq_cons_iff.mp hrest
    refine ⟨by simpa using hname, before, after, by rw [hparts, String.toList_ofList], ?_⟩
    intro other hother
    refine (hnothing other).mp (hbehind _ (List.mem_reverse.mp ?_))
    rw [← hafter]
    exact List.mem_map_of_mem hother
  · rintro ⟨⟨hempty, hdot⟩, before, after, hsplit, hafter⟩
    refine ⟨by simp [hempty, hdot], (after.map String.ofList).reverse,
      (before.map String.ofList).reverse, ?_, ?_⟩
    · simp [hsplit]
    · intro part hpart
      obtain ⟨piece, hpiece, rfl⟩ := List.mem_map.mp (List.mem_reverse.mp hpart)
      exact (hnothing piece).mpr (hafter piece hpiece)

/-- The last part of a path is found unless it goes up. -/
theorem fileName?_eq_some_iff_getLast? :
    fileName? path = some name ↔ (parts path).getLast? = some name ∧ name ≠ ".." := by
  rw [fileName?]
  split
  · rename_i last hlast
    rw [hlast, Option.some_inj]
    split <;> grind
  · rename_i hnone
    simp [hnone]

/-- What is found is the last name of the path. -/
theorem fileName?_eq_some_iff : fileName? path = some name ↔ IsLastName path name := by
  rw [fileName?_eq_some_iff_getLast?, getLast?_parts_eq_some_iff]
  constructor
  · rintro ⟨⟨⟨hempty, hdot⟩, before, after, hpieces, hafter⟩, hdots⟩
    have hmem : name.toList ∈ path.toList.splitOn '/' := by simp [hpieces]
    have hjoined : ['/'].intercalate (path.toList.splitOn '/') = path.toList :=
      List.intercalate_splitOn '/'
    refine ⟨⟨no_slash_of_mem_splitOn hmem, hempty, hdot, hdots⟩,
      (before.map (· ++ ['/'])).flatten, (after.map ('/' :: ·)).flatten, ?_, ?_, _, rfl, ?_⟩
    · rw [← hjoined, hpieces, intercalate_append_cons]
    · -- in front of the name there is nothing, or a piece and its slash
      rcases List.eq_nil_or_concat before with rfl | ⟨before, last, rfl⟩
      · exact .inl rfl
      · exact .inr (by simp)
    · intro mark hmark
      obtain ⟨piece, hpiece, rfl⟩ := List.mem_map.mp hmark
      exact (hafter piece hpiece).imp (congrArg ('/' :: ·)) (congrArg ('/' :: ·))
  · rintro ⟨hname, front, back, hsplit, hfront, hback⟩
    rw [hsplit]
    exact ⟨⟨⟨hname.ne_empty, hname.ne_dot⟩, exists_splitOn_eq hname.no_slash hfront hback⟩,
      hname.ne_dots⟩

/-- Nothing is found at the end of a path without a last name. -/
theorem fileName?_eq_none_iff : fileName? path = none ↔ ∀ name, ¬ IsLastName path name := by
  simp only [← fileName?_eq_some_iff]
  exact Option.eq_none_iff_forall_ne_some

/-- There is one name of the file at a path, the one that globs are compared with. -/
theorem isFileName_iff : IsFileName path name ↔ (fileName? path).getD "" = name := by
  rw [IsFileName, ← fileName?_eq_some_iff, ← fileName?_eq_none_iff]
  cases fileName? path with
  | none => simp [eq_comm]
  | some last => simp

/-! ## Extensions -/

section Extensions

variable {stem ext : String}

/-- A stem and an extension are told apart again. -/
theorem splitExtension_append (hstem : stem ≠ "") (hext : '.' ∉ ext.toList) :
    splitExtension (stem ++ "." ++ ext) = (stem, some ext) := by
  have hreverse : (stem ++ "." ++ ext).toList.reverse =
      ext.toList.reverse ++ '.' :: stem.toList.reverse := by simp
  have hbehind : ∀ c ∈ ext.toList.reverse, decide (c ≠ '.') = true := by
    intro c hc
    rw [decide_eq_true_iff]
    rintro rfl
    exact hext (List.mem_reverse.mp hc)
  -- seen from the end, the extension is the run in front of the first dot
  rw [splitExtension, hreverse, List.takeWhile_append_of_pos hbehind,
    List.dropWhile_append_of_pos hbehind, List.takeWhile_cons_of_neg (by simp),
    List.dropWhile_cons_of_neg (by simp), List.append_nil, List.reverse_reverse]
  cases hcases : stem.toList.reverse with
  | nil => exact absurd (String.toList_eq_nil_iff.mp (List.reverse_eq_nil_iff.mp hcases)) hstem
  | cons c rest =>
    have hback : (c :: rest).reverse = stem.toList := by rw [← hcases, List.reverse_reverse]
    simp only [List.drop_one, List.tail_cons, hback, String.ofList_toList]

/-- A name that is cut in two is its stem, a dot and its extension; the stem has characters, and the
    extension has no dot. -/
theorem splitExtension_eq_some_iff :
    splitExtension name = (stem, some ext) ↔
      stem ≠ "" ∧ '.' ∉ ext.toList ∧ name = stem ++ "." ++ ext := by
  constructor
  · intro h
    unfold splitExtension at h
    dsimp only at h
    have hsplit := List.takeWhile_append_dropWhile (p := (· ≠ '.')) (l := name.toList.reverse)
    have hdot := List.head?_dropWhile_not (· ≠ '.') name.toList.reverse
    -- seen from the end, the first dot and the characters behind it are left
    cases hdrop : name.toList.reverse.dropWhile (· ≠ '.') with
    | nil =>
      rw [hdrop] at h
      cases h
    | cons d behind =>
      rw [hdrop] at h hdot hsplit
      obtain rfl : d = '.' := by simpa using hdot
      cases behind with
      | nil => cases h
      | cons c front =>
        obtain ⟨rfl, hext⟩ := Prod.mk.inj h
        obtain rfl := Option.some.inj hext
        refine ⟨by simp [← String.toList_inj], ?_, ?_⟩
        · rw [String.toList_ofList, List.mem_reverse]
          intro hmem
          simpa using List.mem_takeWhile_imp hmem
        · have htext := congrArg List.reverse hsplit
          rw [List.reverse_reverse, List.reverse_append] at htext
          exact String.toList_inj.mp (htext.symm.trans (by simp))
  · rintro ⟨hstem, hext, rfl⟩
    exact splitExtension_append hstem hext

/-- The extension of a name is what stands behind its last dot, if something stands before it. -/
theorem extension?_eq_some_iff :
    extension? name = some ext ↔
      '.' ∉ ext.toList ∧ ∃ stem, stem ≠ "" ∧ name = stem ++ "." ++ ext := by
  constructor
  · intro h
    obtain ⟨hstem, hext, hname⟩ := splitExtension_eq_some_iff.mp (Prod.ext rfl h)
    exact ⟨hext, _, hstem, hname⟩
  · intro h
    obtain ⟨hext, stem, hstem, rfl⟩ := h
    exact congrArg Prod.snd (splitExtension_append hstem hext)

end Extensions

end Tinct.Path
