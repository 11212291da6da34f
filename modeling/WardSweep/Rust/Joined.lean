import Mathlib

/-!
# Parts with a separator between them

What is in a text that is put together of parts, and which parts make one text.
-/

namespace WardSweep.Joined

theorem mem_of_mem_intercalate {α : Type*} {separator : List α} {parts : List (List α)} {a : α}
    (h : a ∈ separator.intercalate parts) : a ∈ separator ∨ ∃ part ∈ parts, a ∈ part := by
  induction parts with
  | nil => cases h
  | cons part parts ih =>
    cases parts with
    | nil =>
      rw [List.intercalate_singleton] at h
      exact .inr ⟨part, List.mem_cons_self, h⟩
    | cons second parts =>
      rw [List.intercalate_cons_cons, List.mem_append, List.mem_append] at h
      rcases h with (h | h) | h
      · exact .inr ⟨part, List.mem_cons_self, h⟩
      · exact .inl h
      · exact (ih h).imp_right fun ⟨other, hother, ha⟩ ↦ ⟨other, List.mem_cons_of_mem _ hother, ha⟩

theorem mem_intercalate_of_mem {α : Type*} {separator : List α} {parts : List (List α)}
    {part : List α} (hpart : part ∈ parts) {a : α} (ha : a ∈ part) :
    a ∈ separator.intercalate parts := by
  induction parts with
  | nil => cases hpart
  | cons first parts ih =>
    cases parts with
    | nil =>
      rw [List.intercalate_singleton]
      exact List.mem_singleton.mp hpart ▸ ha
    | cons second parts =>
      rw [List.intercalate_cons_cons, List.mem_append, List.mem_append]
      rcases List.mem_cons.mp hpart with rfl | hpart
      · exact .inl (.inl ha)
      · exact .inr (ih hpart)

theorem intercalate_concat {α : Type*} {separator : List α} {parts : List (List α)} (h : parts ≠ [])
    (part : List α) :
    separator.intercalate (parts ++ [part]) = separator.intercalate parts ++ separator ++ part := by
  induction parts with
  | nil => exact absurd rfl h
  | cons first parts ih =>
    cases parts with
    | nil => simp [List.intercalate_cons_cons]
    | cons next parts =>
      rw [List.cons_append, List.cons_append, List.intercalate_cons_cons, ← List.cons_append,
        ih (List.cons_ne_nil _ _), List.intercalate_cons_cons]
      simp only [List.append_assoc]

section

variable {α : Type*} [BEq α] [LawfulBEq α] {separator : α} {parts parts' : List (List α)}

omit [BEq α] [LawfulBEq α] in
theorem intercalate_eq_nil_iff (hparts : ∀ part ∈ parts, part ≠ []) :
    [separator].intercalate parts = [] ↔ parts = [] := by
  match parts with
  | [] => simp
  | [part] => simpa using hparts part List.mem_cons_self
  | part :: next :: parts => simp [List.intercalate_cons_cons]

end

end WardSweep.Joined
