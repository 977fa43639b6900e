import Mathlib

/-!
# Augmented binary search trees

Every node of an augmented tree stores, beside its item, a value computed from the item and the
values of the two children by a callback.

* `inorder` is the sequence of items, `Augmented f` says that all stored values are up to date;
* `AugmentedOff f x` allows stale values on the way from the root to the item `x`, which is what
  linking a new leaf leaves behind;
* `Balancer` is the contract of a balancing library that knows the callback only as a parameter;
* `plainBalancer` meets the contract without any rotation.
-/

namespace Bsr.Lib

/-- A binary tree with an item and a stored value at every node. -/
inductive AugTree (α β : Type)
  | leaf
  | node (left : AugTree α β) (item : α) (val : β) (right : AugTree α β)

namespace AugTree

variable {α β : Type}

/-- The items from left to right. -/
def inorder : AugTree α β → List α
  | leaf => []
  | node l x _ r => inorder l ++ x :: inorder r

/-- The value stored at the root, if there is a root. -/
def rootVal : AugTree α β → Option β
  | leaf => none
  | node _ _ v _ => some v

/-- Every stored value is what the callback computes from the children. -/
def Augmented (f : Option β → α → Option β → β) : AugTree α β → Prop
  | leaf => True
  | node l x v r => v = f l.rootVal x r.rootVal ∧ Augmented f l ∧ Augmented f r

/-- As `Augmented`, but nothing is said about the nodes above or at `x`. -/
def AugmentedOff (f : Option β → α → Option β → β) (x : α) : AugTree α β → Prop
  | leaf => True
  | node l y v r => (x ∉ inorder (node l y v r) → v = f l.rootVal y r.rootVal) ∧
      AugmentedOff f x l ∧ AugmentedOff f x r

@[simp] theorem inorder_leaf : inorder (leaf : AugTree α β) = [] := rfl

@[simp] theorem inorder_node (l r : AugTree α β) (x : α) (v : β) :
    inorder (node l x v r) = inorder l ++ x :: inorder r := rfl

@[simp] theorem rootVal_leaf : rootVal (leaf : AugTree α β) = none := rfl

@[simp] theorem rootVal_node (l r : AugTree α β) (x : α) (v : β) :
    rootVal (node l x v r) = some v := rfl

theorem Augmented.off {f : Option β → α → Option β → β} {t : AugTree α β} (h : Augmented f t)
    (x : α) : AugmentedOff f x t := by
  induction t with
  | leaf => trivial
  | node l y v r ihl ihr =>
    obtain ⟨hv, hl, hr⟩ := h
    exact ⟨fun _ => hv, ihl hl, ihr hr⟩

/-- Recompute every stored value from the leaves up. -/
def refresh (f : Option β → α → Option β → β) : AugTree α β → AugTree α β
  | leaf => leaf
  | node l x _ r => node (refresh f l) x (f (refresh f l).rootVal x (refresh f r).rootVal)
      (refresh f r)

variable (f : Option β → α → Option β → β)

include f

theorem inorder_refresh (t : AugTree α β) : inorder (refresh f t) = inorder t := by
  induction t with
  | leaf => rfl
  | node l x v r ihl ihr => rw [refresh, inorder_node, inorder_node, ihl, ihr]

theorem augmented_refresh (t : AugTree α β) : Augmented f (refresh f t) := by
  induction t with
  | leaf => trivial
  | node l x v r ihl ihr => exact ⟨rfl, ihl, ihr⟩

/-- The right spine with the given items. -/
def spine (f : Option β → α → Option β → β) : List α → AugTree α β
  | [] => leaf
  | x :: xs => node leaf x (f none x (spine f xs).rootVal) (spine f xs)

theorem inorder_spine (xs : List α) : inorder (spine f xs) = xs := by
  induction xs with
  | nil => rfl
  | cons x xs ih => rw [spine, inorder_node, ih, inorder_leaf, List.nil_append]

theorem augmented_spine (xs : List α) : Augmented f (spine f xs) := by
  induction xs with
  | nil => trivial
  | cons x xs ih => exact ⟨rfl, trivial, ih⟩

end AugTree

open AugTree

/-- The operations of a balancing library, with what its documentation promises: rotations keep the
order of the items, the callback is run on every node whose children changed, and `next` walks from
an item to its in-order successor. Colours are not part of the tree that the operations see. -/
structure Balancer (α β : Type) [DecidableEq α] where
  /-- Rebalance after `x` was linked as a leaf, then run the callback. -/
  insertColor : (Option β → α → Option β → β) → AugTree α β → α → AugTree α β
  /-- Unlink `x`, rebalance, run the callback. -/
  erase : (Option β → α → Option β → β) → AugTree α β → α → AugTree α β
  /-- The in-order successor. -/
  next : AugTree α β → α → Option α
  inorder_insertColor : ∀ f t x, x ∈ inorder t → (inorder t).Nodup →
    inorder (insertColor f t x) = inorder t
  augmented_insertColor : ∀ f t x, x ∈ inorder t → (inorder t).Nodup → AugmentedOff f x t →
    Augmented f (insertColor f t x)
  inorder_erase : ∀ f t x, x ∈ inorder t → (inorder t).Nodup →
    inorder (erase f t x) = (inorder t).erase x
  augmented_erase : ∀ f t x, x ∈ inorder t → (inorder t).Nodup → Augmented f t →
    Augmented f (erase f t x)
  next_eq : ∀ t x before after, (inorder t).Nodup → inorder t = before ++ x :: after →
    next t x = after.head?

/-- The item after `x` in a list. -/
def listNext {α : Type} [DecidableEq α] (x : α) : List α → Option α
  | [] => none
  | y :: ys => if y = x then ys.head? else listNext x ys

theorem listNext_append {α : Type} [DecidableEq α] (x : α) (before after : List α)
    (hbefore : x ∉ before) : listNext x (before ++ x :: after) = after.head? := by
  induction before with
  | nil => exact if_pos rfl
  | cons y ys ih =>
    rw [List.mem_cons, not_or] at hbefore
    rw [List.cons_append, listNext, if_neg (Ne.symm hbefore.1)]
    exact ih hbefore.2

/-- A balancer that never rotates and recomputes all values. -/
def plainBalancer (α β : Type) [DecidableEq α] : Balancer α β where
  insertColor f t _ := refresh f t
  erase f t x := spine f ((inorder t).erase x)
  next t x := listNext x (inorder t)
  inorder_insertColor f t _ _ _ := inorder_refresh f t
  augmented_insertColor f t _ _ _ _ := augmented_refresh f t
  inorder_erase f _ _ _ _ := inorder_spine f _
  augmented_erase f _ _ _ _ _ := augmented_spine f _
  next_eq t x before after hnodup heq := by
    rw [heq] at hnodup ⊢
    apply listNext_append
    intro hmem
    exact (List.nodup_append.mp hnodup).2.2 x hmem x List.mem_cons_self rfl

end Bsr.Lib
