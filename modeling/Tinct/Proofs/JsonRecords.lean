import Mathlib.Data.List.Nodup
import Tinct.Json.Record

/-!
# Records that are read back

The string of a text is read as this text, and an object of members with different names is read as
the record of these members.  A value that is made of plain values is plain.

## Key results

- `text?_ofString`, `optionalText?_ofString?`: texts, and texts that may be missing
- `members?_ofMembers`, `record?_ofMembers`: the members of an object, by their names
- `isPlain_ofString`, `isPlain_array`, `isPlain_ofMembers`: plain values
-/

namespace Tinct

/-- If each element is read back, so is the list of them. -/
theorem mapM_map_of_read {α β γ : Type} {write : α → β} {read : β → Option γ} {f : α → γ}
    {l : List α} (h : ∀ a ∈ l, read (write a) = some (f a)) :
    (l.map write).mapM read = some (l.map f) := by
  induction l with
  | nil => rfl
  | cons a rest ih =>
    obtain ⟨ha, hrest⟩ := List.forall_mem_cons.mp h
    rw [List.map_cons, List.mapM_cons, ha, ih hrest]
    rfl

namespace Json

/-! ## Texts -/

/-- A text that is made of a string is this string. -/
theorem Text.string?_ofString (s : String) : (Text.ofString s).string? = some s := by
  have hchars : ∀ cs : List Char, Text.chars? (cs.map .char) = some cs := by
    intro cs
    induction cs with
    | nil => rfl
    | cons c cs ih => rw [List.map_cons, chars?, ih, Option.map_some]
  rw [string?, ofString, hchars, Option.map_some, String.ofList_toList]

/-- A string is read back from its value. -/
theorem text?_ofString (s : String) : (Json.ofString s).text? = some s :=
  Text.string?_ofString s

/-- A string that may be missing is read back from its value, also as missing. -/
theorem optionalText?_ofString? (s : Option String) :
    optionalText? (some (ofString? s)) = some s := by
  cases s with
  | none => rfl
  | some s => exact congrArg (Option.map some) (text?_ofString s)

/-! ## Members -/

/-- Members are read back from their object. -/
theorem members?_ofMembers (members : List (String × Json)) :
    (ofMembers members).members? = some members := by
  have hread : ∀ m ∈ members, (Text.ofString m.1).string?.map (·, m.2) = some m := by
    intro m _
    rw [Text.string?_ofString, Option.map_some]
  exact (mapM_map_of_read hread).trans (congrArg some (List.map_id members))

/-- A member is found if no other one has its name. -/
theorem member?_of_mem {members : List (String × Json)} (hnames : (members.map (·.1)).Nodup)
    {m : String × Json} (hm : m ∈ members) : member? members m.1 = some (some m.2) := by
  have hsame : (members.filter fun other => other.1 = m.1) = [m] := by
    obtain ⟨front, back, rfl⟩ := List.append_of_mem hm
    rw [List.map_append, List.map_cons, List.nodup_middle, List.nodup_cons, List.mem_append,
      not_or] at hnames
    have hnone : ∀ rest : List (String × Json), m.1 ∉ rest.map (·.1) →
        (rest.filter fun other => other.1 = m.1) = [] := by
      intro rest hrest
      refine List.filter_eq_nil_iff.mpr fun other hother heq => hrest ?_
      exact List.mem_map.mpr ⟨other, hother, of_decide_eq_true heq⟩
    rw [List.filter_append, List.filter_cons_of_pos (by simp), hnone _ hnames.1.1,
      hnone _ hnames.1.2, List.nil_append]
  rw [member?, hsame]

/-- An object is read as the record of its members. -/
theorem record?_ofMembers (members : List (String × Json)) (hnames : (members.map (·.1)).Nodup) :
    (ofMembers members).record? (members.map (·.1)) = some (members.map (some ·.2)) := by
  show (ofMembers members).members?.bind (fun read => (members.map (·.1)).mapM (member? read)) = _
  rw [members?_ofMembers]
  exact mapM_map_of_read fun m hm => member?_of_mem hnames hm

/-! ## Plain values -/

theorem Text.isSome_chars?_ofString (s : String) : (Text.ofString s).chars?.isSome = true := by
  have hsome := congrArg Option.isSome (string?_ofString s)
  rwa [string?, Option.isSome_map] at hsome

/-- The value of a string is plain. -/
theorem isPlain_ofString (s : String) : (Json.ofString s).isPlain = true := by
  rw [Json.ofString, isPlain]
  exact Text.isSome_chars?_ofString s

theorem isPlain_ofString? (s : Option String) : (ofString? s).isPlain = true := by
  cases s with
  | none => rfl
  | some s => exact isPlain_ofString s

/-- An array of plain values is plain. -/
theorem isPlain_array {items : List Json} (h : ∀ v ∈ items, v.isPlain = true) :
    (Json.array items).isPlain = true := by
  rw [isPlain]
  induction items with
  | nil => rfl
  | cons v items ih =>
    rw [itemsPlain, h v List.mem_cons_self, ih fun w hw => h w (List.mem_cons_of_mem _ hw)]
    rfl

/-- An object whose members are plain is plain. -/
theorem isPlain_ofMembers {members : List (String × Json)}
    (h : ∀ m ∈ members, m.2.isPlain = true) : (ofMembers members).isPlain = true := by
  rw [ofMembers, isPlain]
  induction members with
  | nil => rfl
  | cons m members ih =>
    obtain ⟨hm, hrest⟩ := List.forall_mem_cons.mp h
    rw [List.map_cons, membersPlain, Text.isSome_chars?_ofString, hm, ih hrest]
    rfl

end Json

end Tinct
