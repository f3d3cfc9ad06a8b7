import Mathlib

/-!
# Search trees

The values of a binary tree in order, and the walk from the root that looks for one of
them.
-/

namespace AlmondAndroid.Library

universe u

namespace SearchTree

variable {α : Type u}

def inorder : BinaryTree α → List α
  | .nil => []
  | .node v left right => inorder left ++ v :: inorder right

@[simp] theorem inorder_nil : inorder (.nil : BinaryTree α) = [] := rfl

@[simp] theorem inorder_node (v : α) (left right : BinaryTree α) :
    inorder (.node v left right) = inorder left ++ v :: inorder right := rfl

variable [LinearOrder α]

def search (x : α) : BinaryTree α → Bool
  | .nil => false
  | .node v left right =>
      if v < x then search x right
      else if x < v then search x left
      else true

/-- The values to the left of a smaller one are smaller, so that the walk passes over
none of them. -/
theorem search_iff {x : α} (tree : BinaryTree α) :
    (inorder tree).Pairwise (· < ·) → (search x tree = true ↔ x ∈ inorder tree) := by
  induction tree with
  | nil => simp [search]
  | node v left right ihleft ihright =>
    intro h
    obtain ⟨hleft, hnode, hbelow⟩ := List.pairwise_append.mp h
    obtain ⟨habove, hright⟩ := List.pairwise_cons.mp hnode
    rw [search, inorder_node, List.mem_append, List.mem_cons]
    by_cases hlt : v < x
    · have hnot : x ∉ inorder left := fun hx =>
        lt_asymm hlt (hbelow x hx v (List.mem_cons_self ..))
      rw [if_pos hlt, ihright hright]
      simp [hnot, ne_of_gt hlt]
    · rw [if_neg hlt]
      by_cases hgt : x < v
      · have hnot : x ∉ inorder right := fun hx => lt_asymm hgt (habove x hx)
        rw [if_pos hgt, ihleft hleft]
        simp [hnot, ne_of_lt hgt]
      · rw [if_neg hgt]
        simp [le_antisymm (not_lt.mp hlt) (not_lt.mp hgt)]

end SearchTree

end AlmondAndroid.Library
