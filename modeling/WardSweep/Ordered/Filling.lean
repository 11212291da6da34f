import Mathlib

/-!
# Filling lines

Things are put on lines in their order, a thing to the line before when there is room for it.  No
other way of putting them on lines that are no longer takes fewer lines.
-/

namespace WardSweep.Filling

variable {α : Type*} (size : α → ℕ) (width : ℕ)

/-- The room that the things of a line take, with one for each gap. -/
def extent (line : List α) : ℕ := (line.map size).sum + (line.length - 1)

/-- A line is no longer than the width, or it has one thing that is. -/
def Fits (line : List α) : Prop := extent size line ≤ width ∨ line.length = 1

/-- Things put on lines, none of which is empty or too long. -/
structure Layout (things : List α) (lines : List (List α)) : Prop where
  flatten : lines.flatten = things
  nonempty : ∀ line ∈ lines, line ≠ []
  fits : ∀ line ∈ lines, Fits size width line

/-- Fill up a line with the things that are left, and begin another when the next has no room. -/
def fillFrom (line : List α) : List α → List (List α)
  | [] => if line.isEmpty then [] else [line]
  | thing :: things =>
    if !line.isEmpty &&
      width < extent size line + 1 + size thing then line :: fillFrom [thing] things
    else fillFrom (line ++ [thing]) things

def fill (things : List α) : List (List α) := fillFrom size width [] things

variable {size width}

theorem extent_concat {line : List α} (h : line ≠ []) (thing : α) :
    extent size (line ++ [thing]) = extent size line + 1 + size thing := by
  have hlength := List.length_pos_of_ne_nil h
  simp only [extent, List.map_append, List.sum_append, List.map_cons, List.map_nil, List.sum_cons,
    List.sum_nil, List.length_append, List.length_singleton]
  omega

theorem extent_le_of_infix {line line' : List α} (h : line <:+: line') :
    extent size line ≤ extent size line' := by
  obtain ⟨lead, tail, rfl⟩ := h
  simp only [extent, List.map_append, List.sum_append, List.length_append]
  omega

theorem Layout.tail {things : List α} {line : List α} {lines : List (List α)}
    (h : Layout size width things (line :: lines)) : Layout size width lines.flatten lines where
  flatten := rfl
  nonempty other hother := h.nonempty other (List.mem_cons_of_mem _ hother)
  fits other hother := h.fits other (List.mem_cons_of_mem _ hother)

theorem layout_fillFrom {line : List α} (hfits : line ≠ [] → Fits size width line)
    (things : List α) :
    Layout size width (line ++ things) (fillFrom size width line things) := by
  induction things generalizing line with
  | nil =>
    rw [fillFrom]
    split_ifs with hline
    · rw [List.isEmpty_iff.mp hline]
      exact ⟨rfl, List.forall_mem_nil _, List.forall_mem_nil _⟩
    · have hne : line ≠ [] := fun h ↦ hline (List.isEmpty_iff.mpr h)
      exact ⟨by simp, by simpa using hne, by simpa using hfits hne⟩
  | cons thing things ih =>
    rw [fillFrom]
    split_ifs with hfull
    · have hne : line ≠ [] := by
        rintro rfl
        simp at hfull
      have hrest := @ih [thing] fun _ ↦ .inr rfl
      refine ⟨?_, ?_, ?_⟩
      · rw [List.flatten_cons, hrest.flatten, List.singleton_append]
      · exact List.forall_mem_cons.mpr ⟨hne, hrest.nonempty⟩
      · exact List.forall_mem_cons.mpr ⟨hfits hne, hrest.fits⟩
    · rw [← List.singleton_append, ← List.append_assoc]
      refine ih fun _ ↦ ?_
      by_cases hline : line = []
      · exact .inr (by rw [hline]; rfl)
      · refine .inl ?_
        rw [extent_concat hline]
        by_contra hlong
        exact hfull (by simp [hline, Nat.lt_of_not_le hlong])

theorem layout_fill (things : List α) : Layout size width things (fill size width things) :=
  layout_fillFrom (fun h ↦ absurd rfl h) things

/-- The first line of a layout ends before a thing for which there is no room. -/
theorem Layout.exists_of_full {line left things : List α} {thing : α} {lines : List (List α)}
    (hline : line ≠ []) (hleft : line <:+ left) (hfull : width < extent size line + 1 + size thing)
    (h : Layout size width (left ++ thing :: things) lines) :
    ∃ first rest left', lines = first :: rest ∧
      Layout size width (left' ++ thing :: things) rest := by
  cases lines with
  | nil =>
    have hnil := h.flatten
    simp at hnil
  | cons first rest =>
    have hflatten : first ++ rest.flatten = left ++ thing :: things := h.flatten
    rcases List.append_eq_append_iff.mp hflatten with
      ⟨left', hleft', hrest⟩ | ⟨excess, hfirst, hexcess⟩
    · exact ⟨first, rest, left', rfl, hrest ▸ h.tail⟩
    · cases excess with
      | nil =>
        rw [List.nil_append] at hexcess
        exact ⟨first, rest, [], rfl, hexcess ▸ h.tail⟩
      | cons other excess =>
        -- The first line reaches over what is left and has the thing on it as well.
        obtain ⟨rfl, -⟩ := List.cons.inj hexcess
        have hinfix : line ++ [thing] <:+: first := by
          obtain ⟨lead, rfl⟩ := hleft
          exact ⟨lead, excess, by simp [hfirst]⟩
        have hlong : extent size (line ++ [thing]) ≤ extent size first := extent_le_of_infix hinfix
        rw [extent_concat hline] at hlong
        have hlength := hinfix.length_le
        rw [List.length_append, List.length_singleton] at hlength
        have hpos := List.length_pos_of_ne_nil hline
        rcases h.fits first List.mem_cons_self with hfits | hone
        · omega
        · omega

/-- A layout of at least what filling has still to put on lines takes at least as many lines. -/
theorem length_fillFrom_le {line left things : List α} {lines : List (List α)}
    (hleft : line <:+ left)
    (h : Layout size width (left ++ things) lines) :
    (fillFrom size width line things).length ≤ lines.length := by
  induction things generalizing line left lines with
  | nil =>
    rw [fillFrom]
    split_ifs with hline
    · exact Nat.zero_le _
    · cases lines with
      | nil =>
        have hnil : left = [] := by simpa using h.flatten.symm
        rw [hnil, List.suffix_nil] at hleft
        exact absurd (List.isEmpty_iff.mpr hleft) hline
      | cons _ _ => simp
  | cons thing things ih =>
    rw [fillFrom]
    split_ifs with hfull
    · rw [Bool.and_eq_true, Bool.not_eq_true', List.isEmpty_eq_false_iff,
        decide_eq_true_iff] at hfull
      obtain ⟨first, rest, left', rfl, hrest⟩ := h.exists_of_full hfull.1 hleft hfull.2
      rw [← List.singleton_append, ← List.append_assoc] at hrest
      exact Nat.succ_le_succ (ih (List.suffix_append left' [thing]) hrest)
    · rw [← List.singleton_append, ← List.append_assoc] at h
      obtain ⟨lead, rfl⟩ := hleft
      have hkept : line ++ [thing] <:+ lead ++ line ++ [thing] := ⟨lead, by simp⟩
      exact ih hkept h

/-- No layout takes fewer lines. -/
theorem length_fill_le {things : List α} {lines : List (List α)}
    (h : Layout size width things lines) :
    (fill size width things).length ≤ lines.length :=
  length_fillFrom_le (List.suffix_refl ([] : List α)) h

end WardSweep.Filling
