import Mathlib

/-!
# What nothing listed is above

Of some things listed, only those are kept that nothing listed is above.  Where the things above one
thing are above one another, each listed thing has one kept thing at or above it, and it stays
covered when more is listed.
-/

namespace WardSweep.Tree

variable {α : Type*} (Above : α → α → Prop) [DecidableRel Above]

/-- Those of some things that nothing listed is above. -/
def topmost (listed : List α) : List α :=
  listed.filter fun a ↦ !listed.any fun b ↦ decide (Above b a)

/-- A thing is another or above it. -/
def AtOrAbove (top a : α) : Prop := top = a ∨ Above top a

instance [DecidableEq α] (top a : α) : Decidable (AtOrAbove Above top a) :=
  inferInstanceAs (Decidable (top = a ∨ Above top a))

/-- The kept thing at or above another. -/
def topOf [DecidableEq α] (listed : List α) (a : α) : α :=
  ((topmost Above listed).find? fun top ↦ decide (AtOrAbove Above top a)).getD a

variable {Above}

theorem mem_topmost_iff {listed : List α} {a : α} :
    a ∈ topmost Above listed ↔ a ∈ listed ∧ ∀ b ∈ listed, ¬ Above b a := by
  simp [topmost]

/-- Going up ends, so something kept is at or above each listed thing. -/
theorem exists_mem_topmost (rank : α → ℕ) (hrank : ∀ b a, Above b a → rank b < rank a)
    (htrans : ∀ c b a, Above c b → Above b a → Above c a) {listed : List α} {a : α}
    (h : a ∈ listed) : ∃ top ∈ topmost Above listed, AtOrAbove Above top a := by
  induction hlevel : rank a using Nat.strongRecOn generalizing a with
  | ind level ih =>
    by_cases habove : ∃ b ∈ listed, Above b a
    · obtain ⟨b, hb, hba⟩ := habove
      obtain ⟨top, htop, hat⟩ := ih (rank b) (hlevel ▸ hrank b a hba) hb rfl
      refine ⟨top, htop, .inr ?_⟩
      cases hat with
      | inl heq => exact heq ▸ hba
      | inr htopb => exact htrans top b a htopb hba
    · exact ⟨a, mem_topmost_iff.mpr ⟨h, fun b hb hba ↦ habove ⟨b, hb, hba⟩⟩, .inl rfl⟩

/-- At most one kept thing is at or above another. -/
theorem eq_of_mem_topmost
    (hlinear : ∀ c b a, Above c a → Above b a → c = b ∨ Above c b ∨ Above b c) {listed : List α}
    {top top' a : α} (htop : top ∈ topmost Above listed) (htop' : top' ∈ topmost Above listed)
    (hat : AtOrAbove Above top a) (hat' : AtOrAbove Above top' a) : top = top' := by
  obtain ⟨hmem, hnone⟩ := mem_topmost_iff.mp htop
  obtain ⟨hmem', hnone'⟩ := mem_topmost_iff.mp htop'
  rcases hat with rfl | habove
  · rcases hat' with rfl | habove'
    · rfl
    · exact absurd habove' (hnone top' hmem')
  · rcases hat' with rfl | habove'
    · exact absurd habove (hnone' top hmem)
    · rcases hlinear top top' a habove habove' with heq | hbelow | hbelow
      · exact heq
      · exact absurd hbelow (hnone' top hmem)
      · exact absurd hbelow (hnone top' hmem')

variable [DecidableEq α]

theorem topOf_spec (rank : α → ℕ) (hrank : ∀ b a, Above b a → rank b < rank a)
    (htrans : ∀ c b a, Above c b → Above b a → Above c a) {listed : List α} {a : α}
    (h : a ∈ listed) :
    topOf Above listed a ∈ topmost Above listed ∧ AtOrAbove Above (topOf Above listed a) a := by
  obtain ⟨top, htop, hat⟩ := exists_mem_topmost rank hrank htrans h
  cases hfound : (topmost Above listed).find? fun top ↦ decide (AtOrAbove Above top a) with
  | none =>
    have hnone := List.find?_eq_none.mp hfound top htop
    exact absurd (decide_eq_true hat) hnone
  | some found =>
    have hat := List.find?_some hfound
    rw [topOf, hfound]
    exact ⟨List.mem_of_find?_eq_some hfound, of_decide_eq_true hat⟩

end WardSweep.Tree
