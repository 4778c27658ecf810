import Mathlib.Order.Defs.Unbundled
import Tinct.Proofs.CategoryHierarchy
import Tinct.Proofs.TextOrder

/-!
# The hierarchy and the order of categories

The ancestors of a category are what one comes to in going up step by step, and a category lies
within exactly these.  Categories are ordered segment by segment, so a category comes before all that
lie within it, and nothing else comes between them: in sorted order every subtree is in one piece.
The order of the keys would not do, since `a-b` comes between `a` and `a.b`.

## Key results

- `getElem?_ancestors_eq_iterate`: the ancestors are the steps up from a category
- `isLE_compare_of_isWithin`: a category comes before all that lie within it
- `isWithin_of_between`: what comes between a category and one within it lies within it, too
- `filter_isWithin_infix`: in sorted order a subtree is in one piece
- `hierarchy_and_order`: all of this for all categories
-/

namespace Tinct

/-! ## Lists in lexicographic order -/

section Lists

variable {α : Type} [Ord α] {mark l m : List α}

/-- A beginning of a list comes before it. -/
theorem isLE_compare_of_prefix [Std.ReflOrd α] (h : mark <+: l) : (compare mark l).isLE = true := by
  induction mark generalizing l with
  | nil => exact List.isLE_compare_nil_left
  | cons a mark ih =>
    obtain ⟨rest, rfl⟩ := h
    -- the first elements are equal, so what is behind them decides
    rw [List.cons_append, List.compare_cons_cons, Std.compare_self]
    exact ih (List.prefix_append mark rest)

/-- What comes between a beginning of a list and the list has the same beginning. -/
theorem prefix_of_between [Std.OrientedOrd α] [Std.LawfulEqOrd α]
    (hlow : (compare mark l).isLE = true) (hhigh : (compare l m).isLE = true) (h : mark <+: m) :
    mark <+: l := by
  induction mark generalizing l m with
  | nil => exact List.nil_prefix
  | cons a mark ih =>
    obtain ⟨rest, rfl⟩ := h
    cases l with
    | nil =>
      -- a beginning that goes on does not come before the empty list
      rw [List.compare_cons_nil] at hlow
      exact absurd hlow (by decide)
    | cons b l =>
      rw [List.compare_cons_cons, Ordering.isLE_then_iff_and] at hlow
      rw [List.cons_append, List.compare_cons_cons, Ordering.isLE_then_iff_and] at hhigh
      -- the first elements are below each other, so they are the same
      obtain rfl : a = b :=
        Std.LawfulEqCmp.eq_of_compare (Std.OrientedCmp.isLE_antisymm hlow.1 hhigh.1)
      have hne : compare a a ≠ .lt := by
        rw [Std.compare_self]
        decide
      -- an equal first element leaves the comparison to what is behind it
      have hrest := ih (hlow.2.resolve_left hne) (hhigh.2.resolve_left hne)
        (List.prefix_append mark rest)
      exact (List.prefix_cons_inj a).mpr hrest

/-- Lists in lexicographic order are ordered as the lists of what stands for their elements, if the
    elements are. -/
theorem compare_eq_lt_iff_map_lt {β : Type} [LT β] [Std.LawfulEqOrd α] {f : α → β}
    (hf : ∀ a b, compare a b = .lt ↔ f a < f b) (hinj : Function.Injective f) :
    compare l m = .lt ↔ l.map f < m.map f := by
  induction l generalizing m with
  -- the empty list comes before all others
  | nil =>
    cases m with
    | nil =>
      rw [List.compare_nil_nil]
      exact iff_of_false (by decide) (List.not_lt_nil _)
    | cons b m =>
      rw [List.compare_nil_cons]
      exact iff_of_true rfl (List.nil_lt_cons _ _)
  -- the first elements decide, or what is behind them if they are equal
  | cons a l ih =>
    cases m with
    | nil =>
      rw [List.compare_cons_nil]
      exact iff_of_false (by decide) (List.not_lt_nil _)
    | cons b m =>
      rw [List.compare_cons_cons, List.map_cons, List.map_cons, List.cons_lt_cons_iff, ← hf,
        Ordering.then_eq_lt, ih, Std.LawfulEqCmp.compare_eq_iff_eq, hinj.eq_iff]

end Lists

/-! ## Properties that hold in between -/

section Between

variable {α : Type} {R : α → α → Prop} {p : α → Bool} {l : List α} {a : α}

/-- Behind an element with such a property come the others with it, and then those without it. -/
theorem filter_prefix_of_between
    (hp : ∀ a b c, R a b → R b c → p a = true → p c = true → p b = true)
    (h : (a :: l).Pairwise R) (ha : p a = true) : l.filter p <+: l := by
  induction l generalizing a with
  | nil => exact List.prefix_refl _
  | cons b l ih =>
    obtain ⟨hbelow, hrest⟩ := List.pairwise_cons.mp h
    by_cases hb : p b = true
    · rw [List.filter_cons_of_pos hb]
      exact (List.prefix_cons_inj b).mpr (ih hrest hb)
    · -- a later element with the property would give it to this one
      have hnone : ∀ c ∈ b :: l, ¬ p c = true := by
        refine List.forall_mem_cons.mpr ⟨hb, fun c hc hpc => hb ?_⟩
        exact hp a b c (hbelow b List.mem_cons_self) ((List.pairwise_cons.mp hrest).1 c hc) ha hpc
      rw [List.filter_eq_nil_iff.mpr hnone]
      exact List.nil_prefix

/-- In an ordered list the elements with a property are in one piece if the property holds of all that
    comes between them. -/
theorem filter_infix_of_between
    (hp : ∀ a b c, R a b → R b c → p a = true → p c = true → p b = true) (h : l.Pairwise R) :
    l.filter p <:+: l := by
  induction l with
  | nil => exact List.infix_refl _
  | cons a l ih =>
    by_cases ha : p a = true
    · -- the piece starts here
      rw [List.filter_cons_of_pos ha]
      exact ((List.prefix_cons_inj a).mpr (filter_prefix_of_between hp h ha)).isInfix
    · -- the piece comes later
      rw [List.filter_cons_of_neg ha]
      exact (ih (List.pairwise_cons.mp h).2).trans (List.suffix_cons a l).isInfix

end Between

namespace Category

variable {c d p x y : Category}

/-! ## Going up -/

/-- There is one ancestor more than there are steps to the root. -/
theorem length_ancestors (c : Category) : c.ancestors.length = c.depth + 1 := by
  simp [ancestors]

/-- What is above a category is one segment shorter. -/
theorem parent?_eq (c : Category) :
    c.parent? = if c.depth = 0 then none else some ⟨c.segments.take (c.depth - 1)⟩ := by
  simp only [parent?, isRoot, depth, List.isEmpty_iff, List.length_eq_zero_iff,
    List.dropLast_eq_take]

/-- The ancestor after some steps is the beginning of the path that is shorter by as many
    segments. -/
theorem getElem?_ancestors (c : Category) (n : Nat) :
    c.ancestors[n]? = if n ≤ c.depth then some ⟨c.segments.take (c.depth - n)⟩ else none := by
  split
  · rename_i hle
    -- the lengths come in falling order, so the place is counted from the full length
    have hlt : n < (List.range (c.depth + 1)).length := by
      rw [List.length_range]
      omega
    rw [ancestors, List.getElem?_map, List.getElem?_reverse hlt, List.length_range,
      List.getElem?_range (by omega), Option.map_some, Nat.add_sub_cancel]
  · rename_i hgt
    -- there are no more ancestors than steps
    refine List.getElem?_eq_none ?_
    rw [length_ancestors]
    omega

/-- One step up leads from an ancestor to the next one, and from the last one nowhere. -/
theorem getElem?_ancestors_succ (c : Category) (n : Nat) :
    c.ancestors[n + 1]? = c.ancestors[n]?.bind parent? := by
  rw [getElem?_ancestors, getElem?_ancestors]
  by_cases hlt : n + 1 ≤ c.depth
  · -- this ancestor has segments left, of which the step up takes the last
    have hdepth : depth ⟨c.segments.take (c.depth - n)⟩ = c.depth - n :=
      List.length_take_of_le (Nat.sub_le _ _)
    rw [if_pos hlt, if_pos (by omega), Option.bind_some, parent?_eq, hdepth, if_neg (by omega),
      List.take_take, Nat.min_eq_left (Nat.sub_le _ _), Nat.sub_sub]
  · rw [if_neg hlt]
    by_cases hlast : n ≤ c.depth
    · -- this ancestor is the root, which has nothing above it
      have hend : c.depth - n = 0 := by omega
      rw [if_pos hlast, hend]
      rfl
    · rw [if_neg hlast]
      rfl

/-- The ancestors of a category are what one comes to in going up step by step. -/
theorem getElem?_ancestors_eq_iterate (c : Category) (n : Nat) :
    c.ancestors[n]? = (·.bind parent?)^[n] (some c) := by
  induction n with
  | zero => simp [getElem?_ancestors, depth]
  | succ n ih => rw [getElem?_ancestors_succ, ih, Function.iterate_succ_apply']

theorem getLast?_ancestors (c : Category) : c.ancestors.getLast? = some root := by
  rw [List.getLast?_eq_getElem?, length_ancestors, getElem?_ancestors, if_pos (by omega),
    Nat.add_sub_cancel, Nat.sub_self, List.take_zero]
  rfl

/-- Every step up leads to a smaller depth. -/
theorem pairwise_depth_ancestors (c : Category) :
    c.ancestors.Pairwise fun d top => top.depth < d.depth := by
  rw [ancestors, List.pairwise_map, List.pairwise_reverse]
  refine List.pairwise_lt_range.imp_of_mem fun {n m} hn hm hlt => ?_
  -- the beginnings are listed from the longest on
  rw [List.mem_range, depth] at hn hm
  simp only [depth, List.length_take]
  omega

/-- No ancestor is listed twice, since their depths differ. -/
theorem nodup_ancestors (c : Category) : c.ancestors.Nodup :=
  c.pairwise_depth_ancestors.imp fun {_ _} hlt heq => Nat.ne_of_gt hlt (congrArg depth heq)

/-! ## Subtrees in the order of categories -/

/-- Categories are in the order of the bytes of their segments. -/
theorem compare_eq_lt_iff :
    compare c d = .lt ↔ c.segments.map utf8Bytes < d.segments.map utf8Bytes := by
  refine compare_eq_lt_iff_map_lt (fun _ _ => Tinct.compare_eq_lt_iff_utf8Bytes_lt) ?_
  -- texts with the same bytes are the same
  intro s t h
  exact eq_of_utf8Bytes_le (h ▸ List.le_refl _) (h ▸ List.le_refl _)

/-- To lie within another category is a partial order. -/
theorem isPartialOrder_isWithin : IsPartialOrder Category fun c top => c.isWithin top = true where
  refl c := isWithin_iff.mpr (List.prefix_refl c.segments)
  trans _ _ _ hcd hde := isWithin_iff.mpr ((isWithin_iff.mp hde).trans (isWithin_iff.mp hcd))
  antisymm _ _ := isWithin_antisymm

/-- A category comes before all that lie within it. -/
theorem isLE_compare_of_isWithin (h : c.isWithin p = true) : (compare p c).isLE = true :=
  isLE_compare_of_prefix (isWithin_iff.mp h)

/-- What comes between a category and one that lies within it lies within it, too. -/
theorem isWithin_of_between (hlow : (compare p x).isLE = true) (hhigh : (compare x y).isLE = true)
    (h : y.isWithin p = true) : x.isWithin p = true :=
  isWithin_iff.mpr (prefix_of_between hlow hhigh (isWithin_iff.mp h))

/-- In sorted order a subtree is in one piece. -/
theorem filter_isWithin_infix {l : List Category}
    (h : l.Pairwise fun c d => (compare c d).isLE = true) (p : Category) :
    l.filter (·.isWithin p) <:+: l := by
  refine filter_infix_of_between (fun a b c hab hbc ha hc => ?_) h
  -- the first of the three lies within `p`, so `p` comes before the second
  exact isWithin_of_between (Std.TransCmp.isLE_trans (isLE_compare_of_isWithin ha) hab) hbc hc

/-! ## All categories -/

/-- The ancestors of a category are the different categories that one comes to in going up step by
    step, as many as its depth and one more, down to the depth of the root, and a category lies within
    exactly its ancestors.  To lie within another category is a partial order, which the order by
    segments reverses, and in sorted order every subtree is in one piece. -/
theorem hierarchy_and_order :
    (∀ c : Category, (∀ n, c.ancestors[n]? = (·.bind parent?)^[n] (some c)) ∧
      c.ancestors.length = c.depth + 1 ∧ c.ancestors.Nodup ∧ c.ancestors.getLast? = some root ∧
      c.ancestors.Pairwise fun d top => top.depth < d.depth) ∧
    (∀ c p : Category, c.isWithin p = true ↔ p ∈ c.ancestors) ∧
    IsPartialOrder Category (fun c p => c.isWithin p = true) ∧
    (∀ c d : Category, compare c d = .lt ↔
      c.segments.map utf8Bytes < d.segments.map utf8Bytes) ∧
    (∀ c p : Category, c.isWithin p = true → (compare p c).isLE = true) ∧
    (∀ p x y : Category, (compare p x).isLE = true → (compare x y).isLE = true →
      y.isWithin p = true → x.isWithin p = true) ∧
    ∀ (p : Category) (l : List Category), (l.Pairwise fun c d => (compare c d).isLE = true) →
      l.filter (·.isWithin p) <:+: l := by
  refine ⟨fun c => ⟨?_, ?_, ?_, ?_, ?_⟩, ?_, isPartialOrder_isWithin, ?_, ?_, ?_, ?_⟩
  · -- the ancestors of a category
    exact getElem?_ancestors_eq_iterate c
  · exact length_ancestors c
  · exact nodup_ancestors c
  · exact getLast?_ancestors c
  · exact pairwise_depth_ancestors c
  · -- subtrees, and the two orders
    exact fun c p => mem_ancestors_iff.symm
  · exact fun c d => compare_eq_lt_iff
  · exact fun c p => isLE_compare_of_isWithin
  · exact fun p x y => isWithin_of_between
  · exact fun p l h => filter_isWithin_infix h p

/-- By its key the category `a-b` comes between `a` and `a.b`, but by its segments it comes behind
    all of the subtree of `a`. -/
theorem hierarchy_and_order_of_dash :
    let top := ofKey "a"
    let inner := ofKey "a.b"
    let leaf := ofKey "a.b.c"
    let other := ofKey "a-b"
    (top.key < other.key ∧ other.key < inner.key) ∧
      (leaf.isWithin top = true ∧ (compare top leaf).isLE = true) ∧
      ((compare top inner).isLE = true ∧ (compare inner leaf).isLE = true ∧
        inner.isWithin top = true) ∧
      [top, inner, leaf, other].Pairwise (fun c d => (compare c d).isLE = true) ∧
      [top, inner, leaf, other].filter (·.isWithin top) <:+: [top, inner, leaf, other] := by
  intro top inner leaf other
  obtain ⟨-, -, -, -, hbefore, hbetween, hpiece⟩ := hierarchy_and_order
  have hkeys : top.key < other.key ∧ other.key < inner.key := by decide
  -- the leaf lies in the subtree, and what is between it and the top does, too
  have hleaf : leaf.isWithin top = true := by decide
  have hlow : (compare top inner).isLE = true := by decide
  have hhigh : (compare inner leaf).isLE = true := by decide
  have hsorted : [top, inner, leaf, other].Pairwise fun c d => (compare c d).isLE = true := by
    decide
  exact ⟨hkeys, ⟨hleaf, hbefore leaf top hleaf⟩,
    ⟨hlow, hhigh, hbetween top inner leaf hlow hhigh hleaf⟩, hsorted, hpiece top _ hsorted⟩

end Category

end Tinct
