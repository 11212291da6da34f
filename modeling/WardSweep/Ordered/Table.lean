import Mathlib

/-!
# Tables with a key

Rows of which no two have the same key.  A row is put in unless its key is taken, and then the row
that has it is changed.  What a run of changes leaves under a key is told by the changes to that key
alone.
-/

namespace WardSweep.Ordered

/-- Rows of which no two have the same key. -/
structure Table {ρ κ : Type*} (key : ρ → κ) where
  rows : List ρ
  nodup : (rows.map key).Nodup

namespace Table

variable {ρ κ : Type*} {key : ρ → κ}

/-- A table without rows. -/
def empty : Table key := ⟨[], List.nodup_nil⟩

variable [DecidableEq κ] (table : Table key)

/-- The row under a key. -/
def find (k : κ) : Option ρ := table.rows.find? fun row ↦ key row = k

/-- Change the row under a key, which it keeps. -/
def update (k : κ) (change : ρ → ρ) (hkey : ∀ row, key (change row) = key row) : Table key where
  rows := table.rows.map fun row ↦ if key row = k then change row else row
  nodup := by
    have hkeys : key ∘ (fun row ↦ if key row = k then change row else row) = key := by
      funext row
      simp only [Function.comp_apply]
      split_ifs
      · exact hkey row
      · rfl
    rw [List.map_map, hkeys]
    exact table.nodup

/-- Put in a row, or change the one that has its key. -/
def upsert (new : ρ) (change : ρ → ρ) (hkey : ∀ row, key (change row) = key row) : Table key :=
  if h : key new ∈ table.rows.map key then table.update (key new) change hkey
  else ⟨table.rows ++ [new], by
    rw [List.map_append, List.map_singleton, ← List.concat_eq_append]
    exact table.nodup.concat h⟩

variable {table}

@[simp] theorem find_empty (k : κ) : (empty : Table key).find k = none := rfl

theorem key_of_find {k : κ} {row : ρ} (h : table.find k = some row) : key row = k := by
  have hfound := List.find?_some h
  rwa [decide_eq_true_iff] at hfound

/-- A row is the one that its key finds. -/
theorem mem_rows_iff {row : ρ} : row ∈ table.rows ↔ table.find (key row) = some row := by
  constructor
  · intro h
    obtain ⟨found, hfound⟩ : ∃ found, table.find (key row) = some found :=
      Option.isSome_iff_exists.mp (List.find?_isSome.mpr ⟨row, h, decide_eq_true rfl⟩)
    have hsame := key_of_find hfound
    rw [hfound, List.inj_on_of_nodup_map table.nodup (List.mem_of_find?_eq_some hfound) h hsame]
  · exact List.mem_of_find?_eq_some

theorem find_isSome_iff {k : κ} : (table.find k).isSome ↔ k ∈ table.rows.map key := by
  simp [find]

theorem find_update (k k' : κ) (change : ρ → ρ) (hkey : ∀ row, key (change row) = key row) :
    (table.update k change hkey).find k' =
      if k = k' then (table.find k').map change else table.find k' := by
  unfold find update
  dsimp only
  induction table.rows with
  | nil => simp
  | cons row rows ih =>
    rw [List.map_cons, List.find?_cons, List.find?_cons, ih]
    have hsame : key (if key row = k then change row else row) = key row := by
      split_ifs
      · exact hkey row
      · rfl
    rw [hsame]
    by_cases hrow : key row = k'
    · rw [decide_eq_true hrow]
      dsimp only
      rw [hrow]
      by_cases hk : k' = k
      · rw [if_pos hk, if_pos hk.symm]
        rfl
      · rw [if_neg hk, if_neg (Ne.symm hk)]
    · rw [decide_eq_false hrow]

theorem find_upsert (new : ρ) (change : ρ → ρ) (hkey : ∀ row, key (change row) = key row) (k : κ) :
    (table.upsert new change hkey).find k =
      if key new = k then some ((table.find k).elim new change) else table.find k := by
  unfold upsert
  split_ifs with htaken hk hk
  · obtain ⟨row, hrow⟩ := Option.isSome_iff_exists.mp (find_isSome_iff.mpr htaken)
    rw [find_update, if_pos hk, ← hk, hrow]
    rfl
  · rw [find_update, if_neg hk]
  · have hfree : table.find k = none := by
      rw [← hk]
      exact Option.not_isSome_iff_eq_none.mp (mt find_isSome_iff.mp htaken)
    rw [hfree]
    unfold find at hfree ⊢
    rw [List.find?_append, hfree, Option.none_or, List.find?_singleton, decide_eq_true hk]
    rfl
  · unfold find
    rw [List.find?_append, List.find?_singleton, decide_eq_false hk]
    exact Option.or_none

end Table

/-! ## Parts that have nothing to do with each other -/

section Apart

variable {Whole Part κ ε : Type*} [DecidableEq κ] {part : Whole → κ → Part} {key : ε → κ}

/-- When an event changes the part under its key alone, a run leaves of each part what the events
with its key make of it. -/
theorem foldl_apart {step : Whole → ε → Whole} {own : κ → Part → ε → Part}
    (hstep : ∀ whole event k,
      part (step whole event) k =
        if key event = k then own k (part whole k) event else part whole k)
    (whole : Whole) (events : List ε) (k : κ) :
    part (events.foldl step whole) k =
      (events.filter fun event ↦ key event = k).foldl (own k) (part whole k) := by
  induction events generalizing whole with
  | nil => rfl
  | cons event events ih =>
    rw [List.foldl_cons, ih, hstep, List.filter_cons]
    by_cases hk : key event = k
    · rw [if_pos hk, if_pos (decide_eq_true hk), List.foldl_cons]
    · rw [if_neg hk, if_neg (by rwa [decide_eq_true_iff])]

/-- The same of steps that may be impossible. -/
theorem foldlM_apart {step : Whole → ε → Option Whole} {own : κ → Part → ε → Option Part}
    (hstep : ∀ whole event next, step whole event = some next →
      ∀ k, if key event = k then own k (part whole k) event = some (part next k)
        else part next k = part whole k)
    {whole last : Whole} {events : List ε} (h : events.foldlM step whole = some last) (k : κ) :
    (events.filter fun event ↦ key event = k).foldlM (own k) (part whole k) =
      some (part last k) := by
  induction events generalizing whole with
  | nil =>
    obtain rfl := Option.some.inj h
    rfl
  | cons event events ih =>
    rw [List.foldlM_cons] at h
    obtain ⟨next, hnext, hrest⟩ := Option.bind_eq_some_iff.mp h
    have hpart := hstep whole event next hnext k
    rw [List.filter_cons]
    split_ifs at hpart with hk
    · rw [if_pos (decide_eq_true hk), List.foldlM_cons, hpart]
      exact ih hrest
    · rw [if_neg (by rwa [decide_eq_true_iff]), ← hpart]
      exact ih hrest

end Apart

end WardSweep.Ordered
