import Mathlib.Data.List.Lex
import Mathlib.Data.Char
import WardSweep.Rust.Str

/-!
# Numbers of a fixed width

A number that is filled up with zeros to a fixed width sorts as text the way it sorts as a number,
and texts put together of parts with fixed widths sort by their parts in turn.
-/

namespace WardSweep.Str

open Utf8

/-- A number filled up with leading zeros: `{:0width}`. -/
def padded (width n : ℕ) : Text :=
  List.replicate (width - (decimal n).length) '0' ++ decimal n

/-- The last digits of a number, as many as the width says. -/
def fixedDigits : ℕ → ℕ → Text
  | 0, _ => []
  | width + 1, n => fixedDigits width (n / 10) ++ [Nat.digitChar (n % 10)]

@[simp] theorem length_fixedDigits (width n : ℕ) : (fixedDigits width n).length = width := by
  induction width generalizing n with
  | zero => rfl
  | succ width ih => rw [fixedDigits, List.length_append, ih, List.length_singleton]

theorem fixedDigits_zero (width : ℕ) : fixedDigits width 0 = List.replicate width '0' := by
  induction width with
  | zero => rfl
  | succ width ih =>
    rw [fixedDigits, Nat.zero_div, ih, List.replicate_succ']
    rfl

/-- A number that fits its width is its digits. -/
theorem padded_eq_fixedDigits {width n : ℕ} (hwidth : 0 < width) (h : n < 10 ^ width) :
    padded width n = fixedDigits width n := by
  induction width generalizing n with
  | zero => exact absurd hwidth (lt_irrefl 0)
  | succ width ih =>
    unfold padded decimal at ih ⊢
    rw [fixedDigits]
    by_cases hsmall : n < 10
    · rw [Nat.toDigits_of_lt_base hsmall, Nat.div_eq_of_lt hsmall, Nat.mod_eq_of_lt hsmall,
        fixedDigits_zero, List.length_singleton, Nat.add_sub_cancel]
    · have hrest : n / 10 < 10 ^ width := by
        rw [Nat.pow_succ] at h
        omega
      have hpositive : 0 < width := by
        rw [Nat.pos_iff_ne_zero]
        rintro rfl
        omega
      have hdigits : Nat.toDigits 10 n =
          Nat.toDigits 10 (n / 10) ++ [Nat.digitChar (n % 10)] :=
        Nat.toDigits_of_base_le (by decide) (not_lt.mp hsmall)
      rw [hdigits, List.length_append, List.length_singleton, Nat.add_sub_add_right,
        ← List.append_assoc, ih hpositive hrest]

/-! ## Their order -/

/-- Texts whose first parts are equally long are ordered by these, and then by what follows. -/
theorem append_lt_append_iff {left left' : Text} (h : left.length = left'.length)
    {right right' : Text} : left ++ right < left' ++ right' ↔
      left < left' ∨ left = left' ∧ right < right' := by
  induction left generalizing left' with
  | nil =>
    cases left' with
    | nil => simp
    | cons c left' => cases h
  | cons c left ih =>
    cases left' with
    | nil => cases h
    | cons d left' =>
      rw [List.cons_append, List.cons_append, List.cons_lt_cons_iff, List.cons_lt_cons_iff,
        ih (Nat.succ.inj h), List.cons.injEq]
      tauto

theorem digitChar_lt_digitChar {m n : ℕ} (h : m < n) (hn : n < 10) :
    Nat.digitChar m < Nat.digitChar n := by
  have hall : ∀ n < 10, ∀ m < n, Nat.digitChar m < Nat.digitChar n := by decide
  exact hall n hn m h

theorem fixedDigits_lt {width m n : ℕ} (h : m < n) (hn : n < 10 ^ width) :
    fixedDigits width m < fixedDigits width n := by
  induction width generalizing m n with
  | zero =>
    rw [Nat.pow_zero] at hn
    omega
  | succ width ih =>
    rw [fixedDigits, fixedDigits, append_lt_append_iff (by simp)]
    by_cases hrest : m / 10 < n / 10
    · left
      apply ih hrest
      rw [Nat.pow_succ] at hn
      omega
    · right
      refine ⟨by rw [show m / 10 = n / 10 by omega], ?_⟩
      rw [List.cons_lt_cons_iff]
      left
      apply digitChar_lt_digitChar <;> omega

end WardSweep.Str
