import Mathlib

namespace Buzz
set_option autoImplicit true

/-- Ordered trees side by side: the first one, its children, and the trees behind it. -/
inductive Forest (α : Type) where
  | nil
  | node (a : α) (children rest : Forest α)

namespace Forest

variable {α : Type} {a : α} {children rest : Forest α} {P Q : α → Prop}

/-- The roots, in order. -/
def roots : Forest α → List α
  | nil => []
  | node a _ rest => a :: rest.roots

/-- Each node before its children, and these before what comes behind it. -/
def preorder : Forest α → List α
  | nil => []
  | node a children rest => a :: (children.preorder ++ rest.preorder)

/-- What holds of each node and the list of its children. -/
def All (P : α → Forest α → Prop) : Forest α → Prop
  | nil => True
  | node a children rest => P a children ∧ children.All P ∧ rest.All P

@[simp]
theorem roots_nil : (nil : Forest α).roots = [] := rfl

@[simp]
theorem roots_node : (node a children rest).roots = a :: rest.roots := rfl

@[simp]
theorem preorder_nil : (nil : Forest α).preorder = [] := rfl

@[simp]
theorem preorder_node :
    (node a children rest).preorder = a :: (children.preorder ++ rest.preorder) := rfl

theorem mem_preorder_node {b : α} : b ∈ (node a children rest).preorder ↔
    b = a ∨ b ∈ children.preorder ∨ b ∈ rest.preorder := by
  rw [preorder_node, List.mem_cons, List.mem_append]

theorem All.mono {P Q : α → Forest α → Prop} {f : Forest α} (h : f.All P)
    (hPQ : ∀ a children, P a children → Q a children) : f.All Q := by
  induction f with
  | nil => trivial
  | node a children rest ihc ihr => exact ⟨hPQ a children h.1, ihc h.2.1, ihr h.2.2⟩

end Forest

end Buzz
