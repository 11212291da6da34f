import Mathlib

/-!
# Marking upwards

Things have parents, and going up ends.  Some of them are marked with everything above them, one
climb after another; a climb may stop at the first marked thing, since what is above that is marked
already.  Of some listed things those are kept that are unmarked and whose parent is marked or not
listed.
-/

namespace WardSweep.Tree

/-- Things with at most one parent each, where going up ends. -/
structure Hierarchy (α : Type*) where
  parent : α → Option α
  rank : α → ℕ
  rank_lt : ∀ a b, parent a = some b → rank b < rank a

namespace Hierarchy

variable {α : Type*} (tree : Hierarchy α)

/-- The first is the second or below it. -/
def AtOrBelow (a b : α) : Prop := Relation.ReflTransGen (fun a b ↦ tree.parent a = some b) a b

/-- Something held is at a thing or below it. -/
def HeldBelow (holding : List α) (b : α) : Prop := ∃ a ∈ holding, tree.AtOrBelow a b

/-- Nothing held is at or below a thing, and its parent is not such a thing among the listed. -/
structure IsTop (listed holding : List α) (a : α) : Prop where
  empty : ¬ tree.HeldBelow holding a
  parent_not : ∀ b, tree.parent a = some b → b ∈ listed → tree.HeldBelow holding b

/-- Some things are the topmost ones with nothing held at or below them: all of these, as often as
they are listed, with every such listed thing at or below one, and none below another. -/
structure Topmost (listed holding found : List α) : Prop where
  found_perm : open scoped Classical in found.Perm (listed.filter (tree.IsTop listed holding))
  covers : ∀ a ∈ listed, ¬ tree.HeldBelow holding a → ∃ top ∈ found, tree.AtOrBelow a top
  apart : ∀ IsRoot : α → Prop,
    (∀ a ∈ listed, IsRoot a ∨ ∃ b ∈ listed, tree.parent a = some b) →
    (∀ root root', IsRoot root → IsRoot root' → tree.AtOrBelow root root' → root = root') →
    ∀ a ∈ found, ∀ top ∈ found, tree.AtOrBelow a top → a = top

variable {tree}

/-! ## Going up -/

theorem atOrBelow_refl (a : α) : tree.AtOrBelow a a := Relation.ReflTransGen.refl

theorem AtOrBelow.trans {a b c : α} (hab : tree.AtOrBelow a b) (hbc : tree.AtOrBelow b c) :
    tree.AtOrBelow a c :=
  Relation.ReflTransGen.trans hab hbc

theorem atOrBelow_parent {a b : α} (h : tree.parent a = some b) : tree.AtOrBelow a b :=
  Relation.ReflTransGen.single h

/-- What is at or above a thing is the thing, or at or above its parent. -/
theorem atOrBelow_iff {a c : α} :
    tree.AtOrBelow a c ↔ c = a ∨ ∃ b, tree.parent a = some b ∧ tree.AtOrBelow b c := by
  rw [AtOrBelow, Relation.ReflTransGen.cases_head_iff, eq_comm]
  rfl

theorem rank_le {a b : α} (h : tree.AtOrBelow a b) : tree.rank b ≤ tree.rank a := by
  induction h with
  | refl => exact Nat.le_refl _
  | tail _ hparent ih => exact Nat.le_trans (Nat.le_of_lt (tree.rank_lt _ _ hparent)) ih

theorem heldBelow_mono {holding : List α} {a b : α} (h : tree.HeldBelow holding a)
    (hab : tree.AtOrBelow a b) : tree.HeldBelow holding b := by
  obtain ⟨held, hheld, hbelow⟩ := h
  exact ⟨held, hheld, hbelow.trans hab⟩

/-! ## The topmost ones -/

/-- Every listed thing with nothing held at or below it is at or below a topmost one. -/
theorem exists_isTop {listed holding : List α} {a : α} (ha : a ∈ listed)
    (hempty : ¬ tree.HeldBelow holding a) :
    ∃ top ∈ listed, tree.IsTop listed holding top ∧ tree.AtOrBelow a top := by
  induction hrank : tree.rank a using Nat.strongRecOn generalizing a with
  | ind rank ih =>
    by_cases htop : ∀ b, tree.parent a = some b → b ∈ listed → tree.HeldBelow holding b
    · exact ⟨a, ha, ⟨hempty, htop⟩, atOrBelow_refl a⟩
    · push Not at htop
      obtain ⟨b, hparent, hlisted, hemptyToo⟩ := htop
      obtain ⟨top, hmem, hisTop, hbelow⟩ :=
        ih (tree.rank b) (hrank ▸ tree.rank_lt a b hparent) hlisted hemptyToo rfl
      exact ⟨top, hmem, hisTop, (atOrBelow_parent hparent).trans hbelow⟩

/-- Where the parents of all but some roots are listed, every listed thing is at or below a root. -/
theorem exists_root {listed : List α} {IsRoot : α → Prop}
    (hlisted : ∀ a ∈ listed, IsRoot a ∨ ∃ b ∈ listed, tree.parent a = some b) {a : α}
    (ha : a ∈ listed) : ∃ root, IsRoot root ∧ tree.AtOrBelow a root := by
  induction hrank : tree.rank a using Nat.strongRecOn generalizing a with
  | ind rank ih =>
    cases hlisted a ha with
    | inl hroot => exact ⟨a, hroot, atOrBelow_refl a⟩
    | inr hparent =>
      obtain ⟨b, hb, hparent⟩ := hparent
      obtain ⟨root, hroot, hbelow⟩ := ih (tree.rank b) (hrank ▸ tree.rank_lt a b hparent) hb rfl
      exact ⟨root, hroot, (atOrBelow_parent hparent).trans hbelow⟩

/-- Where the roots are not below one another, neither are the topmost ones. -/
theorem eq_of_isTop {listed holding : List α} {IsRoot : α → Prop}
    (hlisted : ∀ a ∈ listed, IsRoot a ∨ ∃ b ∈ listed, tree.parent a = some b)
    (hroots : ∀ root root', IsRoot root → IsRoot root' → tree.AtOrBelow root root' → root = root')
    {a top : α} (ha : a ∈ listed) (htop : top ∈ listed) (haTop : tree.IsTop listed holding a)
    (hempty : ¬ tree.HeldBelow holding top) (hbelow : tree.AtOrBelow a top) : a = top := by
  cases atOrBelow_iff.mp hbelow with
  | inl heq => exact heq.symm
  | inr hup =>
    obtain ⟨b, hparent, hbelowTop⟩ := hup
    -- The parent is as empty as the thing above it, so it is not listed and the thing is a root.
    have hnotListed : b ∉ listed := fun hb ↦
      hempty (heldBelow_mono (haTop.parent_not b hparent hb) hbelowTop)
    have hrootA : IsRoot a := by
      cases hlisted a ha with
      | inl hroot => exact hroot
      | inr hother =>
        obtain ⟨b', hb', hparent'⟩ := hother
        rw [hparent] at hparent'
        exact absurd (Option.some.inj hparent' ▸ hb') hnotListed
    obtain ⟨root, hroot, hbelowRoot⟩ := exists_root hlisted htop
    have hsame := hroots a root hrootA hroot (hbelow.trans hbelowRoot)
    have hlow := rank_le (hbelowTop.trans hbelowRoot)
    have hhigh := tree.rank_lt a b hparent
    rw [hsame] at hhigh
    omega

/-! ## Marking -/

variable (tree)

/-- Whatever is above a marked thing is marked. -/
def Closed (marked : List α) : Prop :=
  ∀ a ∈ marked, ∀ b, tree.parent a = some b → b ∈ marked

/-- The state inside a climb: the parent of a marked thing is marked, or the next to be marked. -/
def ClosedButFor (marked : List α) (next : α) : Prop :=
  ∀ a ∈ marked, ∀ b, tree.parent a = some b → b ∈ marked ∨ b = next

variable {tree}

theorem Closed.butFor {marked : List α} (h : tree.Closed marked) (next : α) :
    tree.ClosedButFor marked next :=
  fun a ha b hb ↦ Or.inl (h a ha b hb)

/-- A climb that ends at a marked thing leaves nothing open. -/
theorem ClosedButFor.closed {marked : List α} {next : α} (h : tree.ClosedButFor marked next)
    (hnext : next ∈ marked) : tree.Closed marked := by
  intro a ha b hb
  cases h a ha b hb with
  | inl hmarked => exact hmarked
  | inr heq => exact heq ▸ hnext

theorem Closed.mem_of_atOrBelow {marked : List α} (h : tree.Closed marked) {a b : α}
    (ha : a ∈ marked) (hab : tree.AtOrBelow a b) : b ∈ marked := by
  induction hab with
  | refl => exact ha
  | tail _ hparent ih => exact h _ ih _ hparent

theorem ClosedButFor.cons {marked : List α} {a b : α} (h : tree.ClosedButFor marked a)
    (hparent : tree.parent a = some b) : tree.ClosedButFor (a :: marked) b := by
  intro x hx y hy
  cases List.mem_cons.mp hx with
  | inl hhere => exact Or.inr (Option.some.inj (hy.symm.trans (hhere ▸ hparent)))
  | inr hold =>
    cases h x hold y hy with
    | inl hmarked => exact Or.inl (List.mem_cons_of_mem _ hmarked)
    | inr heq => exact Or.inl (heq ▸ List.mem_cons_self)

variable [DecidableEq α]

variable (tree) in
/-- Mark a thing and what is above it, up to the first that is marked. -/
def mark (marked : List α) (a : α) : List α :=
  if a ∈ marked then marked
  else
    match _h : tree.parent a with
    | none => a :: marked
    | some b => mark (a :: marked) b
termination_by tree.rank a
decreasing_by exact tree.rank_lt a b _h

variable (tree) in
/-- Mark all things held, one after another. -/
def markAll (holding : List α) : List α := holding.foldl tree.mark []

variable (tree) in
/-- The listed things that are not marked and whose parent is marked or not listed. -/
def tops (listed marked : List α) : List α :=
  (listed.filter fun a ↦ a ∉ marked).filter fun a ↦
    (tree.parent a).all fun b ↦ b ∉ listed || b ∈ marked

/-- A climb marks the thing and all above it, and nothing else. -/
theorem mem_mark_iff {marked : List α} {a : α} (h : tree.ClosedButFor marked a) {c : α} :
    c ∈ tree.mark marked a ↔ c ∈ marked ∨ tree.AtOrBelow a c := by
  fun_induction mark tree marked a with
  | case1 marked a hmarked =>
    rw [iff_self_or]
    exact (h.closed hmarked).mem_of_atOrBelow hmarked
  | case2 marked a hnew hroot =>
    rw [List.mem_cons, or_comm, atOrBelow_iff, hroot]
    simp
  | case3 marked a hnew b hparent ih =>
    rw [ih (h.cons hparent), List.mem_cons, @atOrBelow_iff _ tree a c, hparent]
    simp only [Option.some.injEq, exists_eq_left']
    tauto

theorem closed_mark {marked : List α} {a : α} (h : tree.Closed marked) :
    tree.Closed (tree.mark marked a) := by
  intro x hx y hy
  rw [mem_mark_iff (h.butFor a)] at hx ⊢
  cases hx with
  | inl hold => exact Or.inl (h x hold y hy)
  | inr hbelow => exact Or.inr (hbelow.tail hy)

theorem mem_foldl_mark_iff {marked : List α} (h : tree.Closed marked) (holding : List α) {c : α} :
    c ∈ holding.foldl tree.mark marked ↔ c ∈ marked ∨ tree.HeldBelow holding c := by
  induction holding generalizing marked with
  | nil => simp [HeldBelow]
  | cons a holding ih =>
    rw [List.foldl_cons, ih (closed_mark h), mem_mark_iff (h.butFor a)]
    simp only [HeldBelow, List.mem_cons, exists_eq_or_imp, or_assoc]

/-- The marked things are those with something held at or below them, in whatever order the held
ones come. -/
theorem mem_markAll_iff {holding : List α} {c : α} :
    c ∈ tree.markAll holding ↔ tree.HeldBelow holding c := by
  rw [markAll, mem_foldl_mark_iff fun a ha ↦ absurd ha List.not_mem_nil]
  simp

open scoped Classical in
/-- Marking picks out the topmost things with nothing held at or below them. -/
theorem tops_markAll (listed holding : List α) :
    tree.tops listed (tree.markAll holding) = listed.filter (tree.IsTop listed holding) := by
  rw [tops, List.filter_filter]
  apply List.filter_congr
  intro a _
  rw [Bool.eq_iff_iff, Bool.and_eq_true, decide_eq_true_eq, decide_eq_true_eq, mem_markAll_iff,
    Option.all_eq_true]
  constructor
  · rintro ⟨hparent, hempty⟩
    refine ⟨hempty, fun b hb hlisted ↦ ?_⟩
    simpa [hlisted, mem_markAll_iff] using hparent b hb
  · rintro ⟨hempty, hparent⟩
    refine ⟨fun b hb ↦ ?_, hempty⟩
    by_cases hlisted : b ∈ listed
    · simpa [hlisted, mem_markAll_iff] using hparent b hb hlisted
    · simp [hlisted]

theorem mem_tops_markAll_iff {listed holding : List α} {a : α} :
    a ∈ tree.tops listed (tree.markAll holding) ↔ a ∈ listed ∧ tree.IsTop listed holding a := by
  classical
  rw [tops_markAll, List.mem_filter, decide_eq_true_eq]

/-- What marking leaves, in any order. -/
theorem topmost_of_perm {listed holding found : List α}
    (h : found.Perm (tree.tops listed (tree.markAll holding))) :
    tree.Topmost listed holding found := by
  have hmem : ∀ a, a ∈ found ↔ a ∈ listed ∧ tree.IsTop listed holding a := fun a ↦
    h.mem_iff.trans mem_tops_markAll_iff
  constructor
  · rwa [← tops_markAll]
  · intro a ha hempty
    obtain ⟨top, hlisted, htop, hbelow⟩ := exists_isTop ha hempty
    exact ⟨top, (hmem top).mpr ⟨hlisted, htop⟩, hbelow⟩
  · intro IsRoot hlisted hroots a ha top htop hbelow
    obtain ⟨haListed, haTop⟩ := (hmem a).mp ha
    obtain ⟨htopListed, htopTop⟩ := (hmem top).mp htop
    exact eq_of_isTop hlisted hroots haListed htopListed haTop htopTop.empty hbelow

end Hierarchy

end WardSweep.Tree
