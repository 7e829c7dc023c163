import Script.Syntax.Node

/-!
# All nodes of a tree

A condition on single nodes holds of a whole tree if it holds of each node that can be reached from
the root through children.
-/

namespace Script.Node

/-- A node of the tree below a node, or that node. -/
inductive Within (root : Node) : Node → Prop
  | self : Within root root
  | child {m k : Node} (h : Within root m) (mem : k ∈ m.children) : Within root k

theorem Within.of_child {root k m : Node} (hmem : k ∈ root.children) (h : k.Within m) :
    root.Within m := by
  induction h with
  | self => exact .child .self hmem
  | child _ mem ih => exact .child ih mem

/-- All that is in a tree but the root is below one of its children. -/
theorem Within.eq_or_below {root m : Node} (h : root.Within m) :
    m = root ∨ ∃ k ∈ root.children, k.Within m := by
  induction h with
  | self => exact .inl rfl
  | @child m' k _ mem ih =>
    rcases ih with rfl | ⟨k', hk', hkm⟩
    · exact .inr ⟨k, mem, .self⟩
    · exact .inr ⟨k', hk', .child hkm mem⟩

/-- The condition holds of all nodes of the tree. -/
def Everywhere (condition : Node → Prop) (root : Node) : Prop :=
  ∀ m, root.Within m → condition m

namespace Everywhere

variable {condition : Node → Prop} {root : Node}

theorem here (h : root.Everywhere condition) : condition root := h root .self

theorem child (h : root.Everywhere condition) {k : Node} (hmem : k ∈ root.children) :
    k.Everywhere condition :=
  fun m hm => h m (.of_child hmem hm)

theorem of_children (hroot : condition root) (h : ∀ k ∈ root.children, k.Everywhere condition) :
    root.Everywhere condition := by
  intro m hm
  rcases hm.eq_or_below with rfl | ⟨k, hk, hkm⟩
  · exact hroot
  · exact h k hk m hkm

end Everywhere

end Script.Node
