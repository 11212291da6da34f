import Mathlib

/-!
# All ways of choosing

One option from each of several lists, in every way there is, the first choice changing slowest.
-/

namespace WardSweep.Ordered

variable {α β : Type*}

/-- Every way of choosing one option from each list. -/
def choices : List (List α) → List (List α)
  | [] => [[]]
  | options :: more => options.flatMap fun option ↦ (choices more).map (option :: ·)

theorem mem_choices_iff {options : List (List α)} {choice : List α} :
    choice ∈ choices options ↔ List.Forall₂ (· ∈ ·) choice options := by
  induction options generalizing choice with
  | nil =>
    rw [choices, List.mem_singleton]
    exact List.forall₂_nil_right_iff.symm
  | cons first more ih =>
    simp only [choices, List.mem_flatMap, List.mem_map, ih]
    constructor
    · rintro ⟨option, hoption, rest, hrest, rfl⟩
      exact .cons hoption hrest
    · intro h
      cases h with
      | cons hoption hrest => exact ⟨_, hoption, _, hrest, rfl⟩

/-- There are as many ways as the product of the numbers of options. -/
theorem length_choices (options : List (List α)) :
    (choices options).length = (options.map List.length).prod := by
  induction options with
  | nil => rfl
  | cons first more ih =>
    rw [choices, List.length_flatMap, List.map_cons, List.prod_cons, ← ih]
    simp only [List.length_map, List.map_const', List.sum_replicate_nat]

/-- Without an option for one of the choices there is no way at all. -/
theorem choices_eq_nil_of_mem {options : List (List α)} (h : [] ∈ options) :
    choices options = [] := by
  rw [← List.length_eq_zero_iff, length_choices]
  exact List.prod_eq_zero (List.mem_map.mpr ⟨[], h, rfl⟩)

theorem choices_map (change : α → β) (options : List (List α)) :
    choices (options.map (List.map change)) = (choices options).map (List.map change) := by
  induction options with
  | nil => rfl
  | cons first more ih =>
    simp only [List.map_cons, choices, ih, List.flatMap_map, List.map_flatMap, List.map_map]
    rfl

/-- The ways come in lexicographic order, when the options of each choice are in order. -/
theorem pairwise_choices {before : α → α → Prop} {options : List (List α)}
    (h : ∀ of ∈ options, of.Pairwise before) : (choices options).Pairwise (List.Lex before) := by
  induction options with
  | nil => exact List.pairwise_singleton _ _
  | cons first more ih =>
    rw [choices, List.pairwise_flatMap]
    constructor
    · intro option _
      rw [List.pairwise_map]
      exact (ih fun of hof ↦ h of (List.mem_cons_of_mem _ hof)).imp fun hlex ↦ .cons hlex
    · refine (h first List.mem_cons_self).imp fun hbefore left hleft right hright ↦ ?_
      obtain ⟨rest, -, rfl⟩ := List.mem_map.mp hleft
      obtain ⟨rest', -, rfl⟩ := List.mem_map.mp hright
      exact .rel hbefore

/-- The places of the options chosen, beside them. -/
def numberedChoices (options : List (List α)) : List (List (α × ℕ)) :=
  choices (options.map fun of ↦ of.zipIdx)

theorem map_numberedChoices (options : List (List α)) :
    (numberedChoices options).map (List.map Prod.fst) = choices options := by
  rw [numberedChoices, ← choices_map, List.map_map]
  have hfst : (List.map Prod.fst ∘ fun of : List α ↦ of.zipIdx) = (id : List α → List α) := by
    funext of
    exact List.zipIdx_map_fst 0 of
  rw [hfst, List.map_id]

/-- By the places of the options, the order is lexicographic. -/
theorem pairwise_numberedChoices (options : List (List α)) :
    (numberedChoices options).Pairwise (List.Lex fun left right ↦ left.2 < right.2) := by
  apply pairwise_choices
  intro of hof
  obtain ⟨given, -, rfl⟩ := List.mem_map.mp hof
  rw [← List.pairwise_map, List.zipIdx_map_snd]
  exact List.pairwise_lt_range'

end WardSweep.Ordered
