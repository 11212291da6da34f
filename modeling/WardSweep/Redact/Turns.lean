import WardSweep.Redact.Document

/-!
# The turns of the names

The names of the table are looked for one after the other, each in what the rules and the names
before it have left of a text.  A name is replaced when it stands on its own at its turn.
-/

namespace WardSweep.Redact

open Utf8 Str

/-- A name of the table with its placeholder and the text it is looked for in. -/
structure TextTurn where
  name : Text
  placeholder : Text
  before : Text
  deriving DecidableEq, Repr

/-- The turns of the names of a table on a text. -/
def textTurns : List (Text × Text) → Text × List Text → List TextTurn
  | [], _ => []
  | name :: names, state =>
    ⟨name.1, name.2, state.1⟩ :: textTurns names (applyBareName state name)

/-- One of the matches of a name in a text, from left to right and in any case, has no letter or
digit on either side. -/
def StandsAlone (text name : Text) : Prop :=
  ∃ start ∈ findIgnoringCase text name, isAlone text start name.length = true

/-- Whatever stands before the first match that stands alone, that match is replaced. -/
theorem bareNamesFrom_snd {text placeholder : Text} {length : ℕ} (starts : List ℕ) :
    (bareNamesFrom text placeholder length 0 starts).2 = starts.any (isAlone text · length) := by
  induction starts with
  | nil => rfl
  | cons start starts ih =>
    rw [bareNamesFrom, if_neg (Nat.not_lt_zero start), List.any_cons]
    by_cases halone : isAlone text start length = true
    · rw [if_pos halone, halone, Bool.true_or]
    · rw [if_neg halone, ih, Bool.eq_false_iff.mpr halone, Bool.false_or]

theorem replaceBareName_isSome_iff (text name placeholder : Text) :
    (replaceBareName text name placeholder).isSome = true ↔ StandsAlone text name := by
  have hfound : (bareNamesFrom text placeholder name.length 0 (findIgnoringCase text name)).2 =
      (findIgnoringCase text name).any (isAlone text · name.length) := bareNamesFrom_snd _
  rw [StandsAlone, ← List.any_eq_true, ← hfound, replaceBareName]
  split
  · next hsome => rw [hsome]; rfl
  · next hnone => rw [hnone]; rfl

end WardSweep.Redact
