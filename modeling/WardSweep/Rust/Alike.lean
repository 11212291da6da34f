import Mathlib.Data.List.Forall2
import WardSweep.Rust.Outcome

/-!
# Outcomes that go alike

Two calls go alike when both return and the values are related, when both give the same error, or
when both panic.
-/

namespace WardSweep

variable {ε α β γ δ : Type*}

/-- Both return related values, give the same error, or panic. -/
inductive Outcome.Alike (related : α → β → Prop) : Outcome ε α → Outcome ε β → Prop
  | ok {value : α} {value' : β} (h : related value value') : Alike related (.ok value) (.ok value')
  | err (error : ε) : Alike related (.err error) (.err error)
  | panic : Alike related .panic .panic

namespace Outcome.Alike

variable {related : α → β → Prop} {related' : γ → δ → Prop}

theorem refl {same : α → α → Prop} (h : ∀ value, same value value) (outcome : Outcome ε α) :
    Outcome.Alike same outcome outcome := by
  cases outcome with
  | ok value => exact .ok (h value)
  | err error => exact .err error
  | panic => exact .panic

/-- What goes on alike from related values goes alike. -/
theorem bind {outcome : Outcome ε α} {outcome' : Outcome ε β} {next : α → Outcome ε γ}
    {next' : β → Outcome ε δ} (h : outcome.Alike related outcome')
    (hnext : ∀ value value', related value value' → (next value).Alike related' (next' value')) :
    (outcome.bind next).Alike related' (outcome'.bind next') := by
  cases h with
  | ok h => exact hnext _ _ h
  | err error => exact .err error
  | panic => exact .panic

theorem traverse {call : α → Outcome ε γ} {call' : β → Outcome ε δ} {elements : List α}
    {elements' : List β}
    (h : List.Forall₂ (fun element element' ↦ (call element).Alike related' (call' element'))
      elements elements') :
    (Outcome.traverse call elements).Alike (List.Forall₂ related')
      (Outcome.traverse call' elements') := by
  induction h with
  | nil => exact .ok .nil
  | cons hfirst _ ih =>
    rw [traverse_cons, traverse_cons]
    apply hfirst.bind
    intro value value' hvalue
    apply ih.bind
    intro values values' hvalues
    exact .ok (.cons hvalue hvalues)

theorem flatTraverse {call : α → Outcome ε (List γ)} {call' : β → Outcome ε (List δ)}
    {elements : List α} {elements' : List β}
    (h : List.Forall₂ (fun element element' ↦
      (call element).Alike (List.Forall₂ related') (call' element')) elements elements') :
    (Outcome.flatTraverse call elements).Alike (List.Forall₂ related')
      (Outcome.flatTraverse call' elements') := by
  apply (traverse h).bind
  intro parts parts' hparts
  exact .ok (List.rel_flatten hparts)

end Outcome.Alike

end WardSweep
