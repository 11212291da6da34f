import Mathlib

/-!
# Going down with a stack

Things lead to things that are smaller together.  Taken one after another from a stack on which what
they lead to is put, in any order, they are the things that some thing of the stack leads to in some
number of steps.
-/

namespace WardSweep.Tree

open Relation

/-- Things that lead to smaller things. -/
structure Descent (α : Type*) where
  next : α → List α
  size : α → ℕ
  sum_size_lt : ∀ a, ((next a).map size).sum < size a

namespace Descent

variable {α : Type*} (descent : Descent α)

/-- The second thing is one of those that the first leads to. -/
def Leads (a b : α) : Prop := b ∈ descent.next a

/-- Some thing of a stack leads to a thing in some number of steps. -/
def Reached (stack : List α) (a : α) : Prop := ∃ top ∈ stack, ReflTransGen descent.Leads top a

/-- The things taken from a stack.  What a thing leads to is put on it, the last on top. -/
def visits : List α → List α
  | [] => []
  | a :: stack => a :: visits ((descent.next a).reverse ++ stack)
termination_by stack => (stack.map descent.size).sum
decreasing_by
  have hnext := descent.sum_size_lt a
  rw [List.unattach_reverse, List.unattach_attach, List.map_append, List.sum_append,
    List.map_reverse, List.sum_reverse, List.map_cons, List.sum_cons]
  omega

variable {descent}

theorem reached_nil (a : α) : ¬ descent.Reached [] a := by
  rintro ⟨top, htop, -⟩
  cases htop

theorem reached_cons_iff {top a : α} {stack : List α} :
    descent.Reached (top :: stack) a ↔
      a = top ∨ descent.Reached ((descent.next top).reverse ++ stack) a := by
  simp only [Reached, List.mem_cons, List.mem_append, List.mem_reverse, or_and_right, exists_or,
    exists_eq_left, ← or_assoc]
  refine or_congr_left ?_
  rw [ReflTransGen.cases_head_iff, @eq_comm _ top a]
  rfl

/-- Everything that is reached is taken, and nothing else. -/
theorem mem_visits_iff {stack : List α} {a : α} :
    a ∈ descent.visits stack ↔ descent.Reached stack a := by
  fun_induction descent.visits stack with
  | case1 => simp [reached_nil]
  | case2 top stack ih =>
    rw [List.unattach_reverse, List.unattach_attach] at ih
    rw [List.mem_cons, ih, reached_cons_iff]

/-- What holds of a stack and of whatever a thing leads to holds of everything reached. -/
theorem of_reached {holds : α → Prop} {stack : List α} (hstack : ∀ top ∈ stack, holds top)
    (hnext : ∀ a, ∀ b ∈ descent.next a, holds b) {a : α} (h : descent.Reached stack a) :
    holds a := by
  obtain ⟨top, htop, hreach⟩ := h
  cases hreach with
  | refl => exact hstack a htop
  | tail _ hlast => exact hnext _ a hlast

section

variable {β : Type*} {label : α → List β} {root a b : α}

end

end Descent

end WardSweep.Tree
