import Tinct.Category
import Tinct.Proofs.Pieces

/-!
# Categories, their keys and what lies above them

Keys identify categories as long as no segment is empty or contains a dot, as is the case for all
categories that are read from keys.  What lies above a category are the beginnings of its path, and
they form a chain: a search through them, from the category up, finds the closest one.

## Key results

- `key_inj`: plain categories with the same key are the same
- `isPlain_ofKey`: a category that is read from a key is plain
- `ofKey_key_eq_iff`: the categories that are read back from their keys
- `head?_segments_ofKey_iff`: the keys that are read as a category that starts with `Token`
- `mem_ancestors_iff`: the ancestors of a category are those it lies within
- `findSome?_ancestors_eq_some_iff`: the first ancestor with a value is the closest one
- `IsBuilt.segment_ne_empty`: no operation on categories makes an empty segment
-/

namespace Tinct.Category

/-! ## Keys -/

/-- No segment of the category is empty or contains a dot. -/
def IsPlain (c : Category) : Prop := ∀ s ∈ c.segments, s ≠ "" ∧ '.' ∉ s.toList

instance : DecidablePred IsPlain :=
  fun c => inferInstanceAs (Decidable (∀ s ∈ c.segments, s ≠ "" ∧ '.' ∉ s.toList))

/-- The key of a plain category below the root has the segments between its dots. -/
private theorem splitOn_key {c : Category} (hplain : c.IsPlain) (hne : c.segments ≠ []) :
    c.key.toList.splitOn '.' = c.segments.map String.toList := by
  rw [key, String.toList_ofList]
  refine List.splitOn_intercalate '.' ?_ (by simpa using hne)
  intro chars hchars
  obtain ⟨s, hs, rfl⟩ := List.mem_map.mp hchars
  exact (hplain s hs).2

/-- Only the root has the empty key. -/
private theorem key_ne_empty {c : Category} (hplain : c.IsPlain) (hne : c.segments ≠ []) :
    c.key ≠ "" := by
  intro hempty
  -- the empty text has one part, and it is empty
  have hparts := splitOn_key hplain hne
  rw [hempty, String.toList_empty, List.splitOn_nil] at hparts
  have hmem : [] ∈ c.segments.map String.toList := hparts ▸ List.mem_singleton_self []
  obtain ⟨s, hs, hsegment⟩ := List.mem_map.mp hmem
  exact (hplain s hs).1 (String.toList_eq_nil_iff.mp hsegment)

/-- Plain categories with the same key are the same. -/
theorem key_inj {c d : Category} (hc : c.IsPlain) (hd : d.IsPlain) : c.key = d.key ↔ c = d := by
  refine ⟨fun h => ?_, fun h => h ▸ rfl⟩
  suffices hsegments : c.segments = d.segments by
    cases c
    cases d
    simp_all
  -- only the root has the empty key, so either both are the root or neither is
  by_cases hcroot : c.segments = []
  · by_cases hdroot : d.segments = []
    · rw [hcroot, hdroot]
    · have hempty : c.key = "" := by rw [key, hcroot]; rfl
      exact absurd (h ▸ hempty) (key_ne_empty hd hdroot)
  · by_cases hdroot : d.segments = []
    · have hempty : d.key = "" := by rw [key, hdroot]; rfl
      exact absurd (h.trans hempty) (key_ne_empty hc hcroot)
    · have hparts := splitOn_key hc hcroot
      rw [h, splitOn_key hd hdroot] at hparts
      exact ((List.map_inj_right fun _ _ => String.toList_inj.mp).mp hparts).symm

/-- A category that is read from a key is plain. -/
theorem isPlain_ofKey (key : String) : (ofKey key).IsPlain := by
  -- the parts of a key are what remains of its pieces, and no piece holds a dot
  have hparts : ∀ s ∈ keyParts key, s ≠ "" ∧ '.' ∉ s.toList := by
    intro s hs
    obtain ⟨part, hpart, rfl⟩ := List.mem_map.mp hs
    obtain ⟨hsplit, hne⟩ := List.mem_filter.mp hpart
    rw [List.splitOn_eq_splitOnP] at hsplit
    rw [String.toList_ofList]
    refine ⟨fun hempty => ?_, fun hdot => by simpa using eq_false_of_mem_splitOnP hsplit hdot⟩
    rw [← String.toList_eq_nil_iff, String.toList_ofList] at hempty
    simp [hempty] at hne
  -- the segments are among the parts, all of them or all but the first
  unfold ofKey
  split
  · exact fun s hs => absurd hs List.not_mem_nil
  · rename_i head rest hkey
    rw [hkey] at hparts
    split
    · exact fun s hs => hparts s (List.mem_cons_of_mem _ hs)
    · exact hparts

/-- Cutting the key of a plain category gives its segments back. -/
theorem keyParts_key {c : Category} (hplain : c.IsPlain) : keyParts c.key = c.segments := by
  by_cases hroot : c.segments = []
  · -- the root has the empty key, and this has no parts
    rw [key, hroot]
    rfl
  · -- no segment is empty, so none is left out
    have hne : ∀ chars ∈ c.segments.map String.toList, (!chars.isEmpty) = true := by
      intro chars hchars
      obtain ⟨s, hs, rfl⟩ := List.mem_map.mp hchars
      simpa using (hplain s hs).1
    rw [keyParts, splitOn_key hplain hroot, List.filter_eq_self.mpr hne, List.map_map]
    simp

/-- A plain category that does not start with `Token` is read back from its key. -/
theorem ofKey_key {c : Category} (hplain : c.IsPlain) (hhead : c.segments.head? ≠ some "Token") :
    ofKey c.key = c := by
  obtain ⟨segments⟩ := c
  rw [ofKey, keyParts_key hplain]
  cases segments with
  | nil => rfl
  | cons head rest => exact if_neg (by simpa using hhead)

/-- A leading `Token` is taken for the root, which shifts the category up. -/
theorem ofKey_key_token {rest : List String} (hplain : IsPlain ⟨"Token" :: rest⟩) :
    ofKey (key ⟨"Token" :: rest⟩) = ⟨rest⟩ := by
  rw [ofKey, keyParts_key hplain]
  exact if_pos rfl

/-- A category whose segments are not empty is read back from its key exactly if it has no dot in
    a segment and does not start with `Token`. -/
theorem ofKey_key_eq_iff {c : Category} (hne : ∀ s ∈ c.segments, s ≠ "") :
    ofKey c.key = c ↔
      (∀ s ∈ c.segments, '.' ∉ s.toList) ∧ c.segments.head? ≠ some "Token" := by
  constructor
  · intro h
    -- what is read from a key is plain, and so is `c`
    have hplain : c.IsPlain := h ▸ isPlain_ofKey c.key
    refine ⟨fun s hs => (hplain s hs).2, fun hhead => ?_⟩
    obtain ⟨segments⟩ := c
    obtain ⟨rest, rfl⟩ : ∃ rest, segments = "Token" :: rest := List.head?_eq_some_iff.mp hhead
    -- without its first segment the category would be shorter than itself
    rw [ofKey_key_token hplain] at h
    exact List.cons_ne_self _ _ (Category.mk.inj h).symm
  · intro h
    -- without empty segments and dots the category is plain
    obtain ⟨hdot, hhead⟩ := h
    exact ofKey_key (fun s hs => ⟨hne s hs, hdot s hs⟩) hhead

/-- Only one leading `Token` of a key is taken for the root, so a second one stays. -/
theorem head?_segments_ofKey_iff (key : String) :
    (ofKey key).segments.head? = some "Token" ↔ ["Token", "Token"] <+: keyParts key := by
  unfold ofKey
  cases hparts : keyParts key with
  | nil => simp [root]
  | cons head rest =>
    dsimp only
    by_cases hhead : head = "Token"
    · -- the first part is dropped, and the next one comes first
      rw [if_pos hhead, hhead, List.cons_prefix_cons]
      cases rest with
      | nil => simp
      | cons second rest => simp [eq_comm]
    · -- nothing is dropped, and the first part is not `Token`
      have hne : ¬ ["Token", "Token"] <+: head :: rest := by
        intro hprefix
        exact hhead (List.cons_prefix_cons.mp hprefix).1.symm
      rw [if_neg hhead]
      simp [hhead, hne]

/-! ## Ancestors -/

/-- A category lies within those whose segments are the first ones of its own. -/
theorem isWithin_iff {c top : Category} : c.isWithin top ↔ top.segments <+: c.segments :=
  List.isPrefixOf_iff_prefix

/-- Categories that lie within each other are the same. -/
theorem isWithin_antisymm {c d : Category} (hcd : c.isWithin d) (hdc : d.isWithin c) : c = d := by
  have hle := (isWithin_iff.mp hdc).length_le
  have hsegments := (isWithin_iff.mp hcd).eq_of_length_le hle
  cases c
  cases d
  exact congrArg mk hsegments.symm

/-- What lies above a plain category is plain, too. -/
theorem IsPlain.of_isWithin {c top : Category} (h : c.IsPlain) (hwithin : c.isWithin top) :
    top.IsPlain :=
  fun s hs => h s ((isWithin_iff.mp hwithin).subset hs)

/-- The ancestors of a category are the categories that it lies within. -/
theorem mem_ancestors_iff {c d : Category} : d ∈ c.ancestors ↔ c.isWithin d := by
  simp only [ancestors, isWithin_iff, List.mem_map, List.mem_reverse, List.mem_range, depth]
  constructor
  · intro h
    -- every ancestor is a beginning of the path
    obtain ⟨n, -, rfl⟩ := h
    exact List.take_prefix n c.segments
  · intro h
    -- a beginning is the ancestor of its own length
    refine ⟨d.segments.length, by have := h.length_le; omega, ?_⟩
    rw [← List.prefix_iff_eq_take.mp h]

/-- Of two ancestors the one that is listed first lies within the other. -/
theorem pairwise_isWithin_ancestors (c : Category) :
    c.ancestors.Pairwise fun d top => d.isWithin top := by
  rw [ancestors, List.pairwise_map, List.pairwise_reverse]
  refine List.pairwise_lt_range.imp fun {n m} hlt => ?_
  exact isWithin_iff.mpr (List.take_prefix_take_left (Nat.le_of_lt hlt))

/-- The closest category with a property that is the category or lies above it. -/
structure IsClosest (P : Category → Prop) (c d : Category) : Prop where
  isWithin : c.isWithin d
  holds : P d
  isWithin_of_holds : ∀ top, c.isWithin top → P top → d.isWithin top

theorem IsClosest.unique {P : Category → Prop} {c d e : Category} (hd : IsClosest P c d)
    (he : IsClosest P c e) : d = e :=
  isWithin_antisymm (hd.isWithin_of_holds e he.isWithin he.holds)
    (he.isWithin_of_holds d hd.isWithin hd.holds)

/-- The first ancestor with a value is the closest one. -/
theorem findSome?_ancestors_eq_some_iff {α : Type} {f : Category → Option α}
    {P : Category → Prop} {c : Category} (hP : ∀ d, c.isWithin d → ((f d).isSome ↔ P d)) {a : α} :
    c.ancestors.findSome? f = some a ↔ ∃ d, IsClosest P c d ∧ f d = some a := by
  -- what the search finds is closest, since ancestors are listed from below
  have hfound : ∀ b, c.ancestors.findSome? f = some b → ∃ d, IsClosest P c d ∧ f d = some b := by
    intro b hb
    obtain ⟨before, d, after, hsplit, hd, hbefore⟩ := List.findSome?_eq_some_iff.mp hb
    have hwithin : c.isWithin d := mem_ancestors_iff.mp (by simp [hsplit])
    refine ⟨d, ⟨hwithin, (hP d hwithin).mp (by simp [hd]), fun top htop htopP => ?_⟩, hd⟩
    have hmem := mem_ancestors_iff.mpr htop
    rw [hsplit, List.mem_append, List.mem_cons] at hmem
    -- before the first value there is none, and what is listed later lies above
    rcases hmem with hfirst | rfl | hlater
    · have hsome := (hP top htop).mpr htopP
      simp [hbefore top hfirst] at hsome
    · exact isWithin_iff.mpr (List.prefix_refl _)
    · have hchain := c.pairwise_isWithin_ancestors
      rw [hsplit, List.pairwise_append, List.pairwise_cons] at hchain
      exact hchain.2.1.1 top hlater
  refine ⟨hfound a, ?_⟩
  intro h
  obtain ⟨d, hclosest, hd⟩ := h
  -- the search does find something, and what it finds is closest, too
  have hsome : (c.ancestors.findSome? f).isSome :=
    List.findSome?_isSome_iff.mpr ⟨d, mem_ancestors_iff.mpr hclosest.isWithin, by simp [hd]⟩
  obtain ⟨b, hb⟩ := Option.isSome_iff_exists.mp hsome
  obtain ⟨e, hother, he⟩ := hfound b hb
  rw [hb, ← he, ← hclosest.unique hother, hd]

/-! ## Categories that are built -/

/-- A category that comes out of the operations on categories. -/
inductive IsBuilt : Category → Prop where
  | root : IsBuilt root
  | ofSegments (segments : List String) : IsBuilt (ofSegments segments)
  | ofKey (key : String) : IsBuilt (ofKey key)
  | child {c : Category} (hc : IsBuilt c) (segment : String) : IsBuilt (c.child segment)
  | parent {c p : Category} (hc : IsBuilt c) (hp : c.parent? = some p) : IsBuilt p
  | ancestor {c top : Category} (hc : IsBuilt c) (htop : top ∈ c.ancestors) : IsBuilt top

/-- No operation makes an empty segment. -/
theorem IsBuilt.segment_ne_empty {c : Category} (hc : c.IsBuilt) : ∀ s ∈ c.segments, s ≠ "" := by
  induction hc with
  | root => exact fun s hs => absurd hs List.not_mem_nil
  | ofSegments segments => exact fun s hs => by simpa using (List.mem_filter.mp hs).2
  | ofKey key => exact fun s hs => (isPlain_ofKey key s hs).1
  -- an empty segment is not appended
  | @child c hc segment ih =>
    intro s hs
    unfold Category.child at hs
    split at hs
    · exact ih s hs
    · rename_i hsegment
      rcases List.mem_append.mp hs with hmem | hlast
      · exact ih s hmem
      · rwa [List.mem_singleton.mp hlast]
  -- what lies above has some of the segments
  | @parent c p hc hp ih =>
    unfold parent? at hp
    split at hp
    · cases hp
    · obtain rfl := Option.some.inj hp
      exact fun s hs => ih s (List.dropLast_subset c.segments hs)
  | ancestor hc htop ih =>
    exact fun s hs => ih s ((isWithin_iff.mp (mem_ancestors_iff.mp htop)).subset hs)

/-- A category that is built without dots in its segments is plain. -/
theorem IsBuilt.isPlain {c : Category} (hc : c.IsBuilt)
    (hdots : ∀ s ∈ c.segments, '.' ∉ s.toList) : c.IsPlain :=
  fun s hs => ⟨hc.segment_ne_empty s hs, hdots s hs⟩

end Tinct.Category
