import Mathlib.Data.List.Basic
import Mathlib.Logic.Relation

/-!
# Replacing pieces of a list

A pass reads a list from left to right: it keeps an item, or takes a piece out and puts something in
its place.  Which pieces may be taken depends on what is before and after them in the list that the
pass reads.  Where no piece may be taken, any number of passes leave the list as it is.
-/

namespace WardSweep.Ordered

variable {α : Type*} {allows allows' : List α → List α → List α → List α → Prop}
  {before list result : List α}

/-- What one pass makes of the rest of a list after what is before it.  `allows` relates what is
before a piece, the piece, what is after it and what takes its place. -/
inductive Replaced (allows : List α → List α → List α → List α → Prop) :
    List α → List α → List α → Prop
  | nil (before : List α) : Replaced allows before [] []
  | keep (item : α) {before rest result : List α} :
      Replaced allows (before ++ [item]) rest result →
        Replaced allows before (item :: rest) (item :: result)
  | piece {before span rest placed result : List α} :
      allows before span rest placed → Replaced allows (before ++ span) rest result →
        Replaced allows before (span ++ rest) (placed ++ result)

/-- What any number of passes make of a list. -/
def ReplacedInPasses (allows : List α → List α → List α → List α → Prop) :
    List α → List α → Prop :=
  Relation.ReflTransGen (Replaced allows [])

namespace Replaced

theorem keep_append (kept : List α) {before rest result : List α}
    (h : Replaced allows (before ++ kept) rest result) :
    Replaced allows before (kept ++ rest) (kept ++ result) := by
  induction kept generalizing before with
  | nil => rwa [List.append_nil] at h
  | cons item kept ih =>
    apply Replaced.keep item
    apply ih
    rwa [List.append_assoc, List.singleton_append]

theorem refl (before list : List α) : Replaced allows before list list := by
  have hnil : Replaced allows (before ++ list) [] [] := .nil _
  simpa only [List.append_nil] using keep_append list hnil

theorem mono (h : Replaced allows before list result)
    (himp : ∀ before span rest placed, allows before span rest placed →
      allows' before span rest placed) : Replaced allows' before list result := by
  induction h with
  | nil before => exact .nil before
  | keep item _ ih => exact ih.keep item
  | piece hallows _ ih => exact ih.piece (himp _ _ _ _ hallows)

/-- Where no piece may be taken, the list is kept. -/
theorem eq_of_never (h : Replaced allows before list result)
    (hnever : ∀ early span late placed, before ++ list = early ++ (span ++ late) →
      ¬ allows early span late placed) : result = list := by
  induction h with
  | nil => rfl
  | keep item _ ih =>
    rw [ih fun early span late placed hsplit ↦ hnever early span late placed (by
      rw [← hsplit, List.append_assoc, List.singleton_append])]
  | piece hallows _ _ => exact absurd hallows (hnever _ _ _ _ rfl)

/-- A pass that goes by offsets: it keeps what is between the cursor and a piece, and goes on where
the piece stops. -/
theorem at_offset {list placed result : List α} {cursor start stop : ℕ} (hcursor : cursor ≤ start)
    (hstop : start ≤ stop)
    (hallows : allows (list.take start) ((list.take stop).drop start) (list.drop stop) placed)
    (h : Replaced allows (list.take stop) (list.drop stop) result) :
    Replaced allows (list.take cursor) (list.drop cursor)
      ((list.take start).drop cursor ++ (placed ++ result)) := by
  have hkept : list.take cursor ++ (list.take start).drop cursor = list.take start := by
    conv_rhs => rw [← List.take_append_drop cursor (list.take start)]
    rw [List.take_take, Nat.min_eq_left hcursor]
  have hspan : list.take start ++ (list.take stop).drop start = list.take stop := by
    conv_rhs => rw [← List.take_append_drop start (list.take stop)]
    rw [List.take_take, Nat.min_eq_left hstop]
  have hlist : list.drop cursor =
      (list.take start).drop cursor ++ ((list.take stop).drop start ++ list.drop stop) := by
    apply (List.append_right_inj (list.take cursor)).mp
    rw [List.take_append_drop, ← List.append_assoc, hkept, ← List.append_assoc, hspan,
      List.take_append_drop]
  rw [hlist]
  apply keep_append
  rw [hkept]
  exact Replaced.piece hallows (hspan.symm ▸ h)

end Replaced

namespace ReplacedInPasses

theorem mono (h : ReplacedInPasses allows list result)
    (himp : ∀ before span rest placed, allows before span rest placed →
      allows' before span rest placed) : ReplacedInPasses allows' list result := by
  have hle : Replaced allows [] ≤ Replaced allows' [] := fun _ _ hpass ↦ hpass.mono himp
  exact Relation.ReflTransGen.mono hle _ _ h

/-- Steps of which each is made of passes over the list that a state holds. -/
theorem foldl {σ β : Type*} {content : σ → List α} {step : σ → β → σ} {items : List β}
    (h : ∀ item ∈ items, ∀ state,
      ReplacedInPasses allows (content state) (content (step state item)))
    (state : σ) : ReplacedInPasses allows (content state) (content (items.foldl step state)) := by
  induction items generalizing state with
  | nil => exact .refl
  | cons item items ih =>
    obtain ⟨hitem, hitems⟩ := List.forall_mem_cons.mp h
    exact (hitem state).trans (ih hitems _)

theorem eq_of_never (h : ReplacedInPasses allows list result)
    (hnever : ∀ early span late placed, list = early ++ (span ++ late) →
      ¬ allows early span late placed) : result = list := by
  induction h with
  | refl => rfl
  | tail _ hpass ih =>
    subst ih
    exact hpass.eq_of_never hnever

end ReplacedInPasses

end WardSweep.Ordered
