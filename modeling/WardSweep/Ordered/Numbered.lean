import Mathlib

/-!
# Numbered logs

A log whose entries carry their own place in it, counted from one.  Whoever has read a beginning of
such a log can say how far by the number of the last entry alone.
-/

namespace WardSweep.Ordered

variable {α : Type*} {number : α → Option ℕ} {log read : List α}

/-- Every entry carries its place, counted from one. -/
def Numbered (number : α → Option ℕ) (log : List α) : Prop :=
  log.map number = (List.range log.length).map fun place ↦ some (place + 1)

/-- The number of the last entry that was read, or zero. -/
def lastNumber (number : α → Option ℕ) (read : List α) : ℕ := (read.getLast?.bind number).getD 0

theorem numbered_nil : Numbered number [] := rfl

theorem Numbered.concat (h : Numbered number log) {entry : α}
    (hentry : number entry = some (log.length + 1)) : Numbered number (log ++ [entry]) := by
  unfold Numbered at h ⊢
  rw [List.map_append, h, List.length_append, List.length_singleton, List.range_succ,
    List.map_append, List.map_singleton, List.map_singleton, hentry]

/-- The entry at a place has the number of that place. -/
theorem Numbered.number_getElem? (h : Numbered number log) {place : ℕ} {entry : α}
    (hentry : log[place]? = some entry) : number entry = some (place + 1) := by
  obtain ⟨hplace, rfl⟩ := List.getElem?_eq_some_iff.mp hentry
  have hmap := congrArg (fun numbers ↦ numbers[place]?) h
  simpa [hplace] using hmap

/-- A beginning of a numbered log is numbered. -/
theorem Numbered.of_prefix (h : Numbered number log) (hread : read <+: log) :
    Numbered number read := by
  obtain ⟨rest, rfl⟩ := hread
  unfold Numbered at h ⊢
  rw [List.map_append, List.length_append, List.range_add, List.map_append] at h
  exact List.append_inj_left h (by simp)

/-- The number of the last entry says how much of the log was read. -/
theorem Numbered.lastNumber_eq (h : Numbered number read) :
    lastNumber number read = read.length := by
  cases read using List.reverseRecOn with
  | nil => rfl
  | append_singleton front entry =>
    have hlast : (front ++ [entry])[front.length]? = some entry := by simp
    simp [lastNumber, h.number_getElem? hlast]

end WardSweep.Ordered
