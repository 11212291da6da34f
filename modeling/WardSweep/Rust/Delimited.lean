import Mathlib

/-!
# Parts between separators

Parts with a separator before each and behind the last are found inside each other exactly when the
parts of the one are a run of the parts of the other: a separator at each end keeps a part from
being found inside a longer one.
-/

namespace WardSweep.Delimited

variable {α : Type*}

/-! ## Splitting -/

theorem splitOnP_map {β : Type*} (separates : β → Bool) (change : α → β) (elements : List α) :
    (elements.map change).splitOnP separates =
      (elements.splitOnP (separates ∘ change)).map (List.map change) := by
  induction elements with
  | nil => rfl
  | cons first elements ih =>
    rw [List.map_cons, List.splitOnP_cons_eq_if_modifyHead, List.splitOnP_cons_eq_if_modifyHead, ih]
    split
    · rw [if_pos (by assumption)]
      rfl
    · rw [if_neg (by assumption)]
      cases elements.splitOnP (separates ∘ change) <;> rfl

/-- The last part of a list and the first one of what follows it are one part. -/
theorem exists_splitOnP_append (separates : α → Bool) (left right : List α) :
    ∃ front last first behind, left.splitOnP separates = front ++ [last] ∧
      right.splitOnP separates = first :: behind ∧
      (left ++ right).splitOnP separates = front ++ (last ++ first) :: behind := by
  obtain ⟨first, behind, hright⟩ :=
    List.exists_cons_of_ne_nil (List.splitOnP_ne_nil separates right)
  induction left with
  | nil => exact ⟨[], [], first, behind, List.splitOnP_nil, hright, hright⟩
  | cons c left ih =>
    obtain ⟨front, last, first', behind', hleft, hright', hboth⟩ := ih
    obtain ⟨rfl, rfl⟩ := List.cons.inj (hright.symm.trans hright')
    rw [List.cons_append, List.splitOnP_cons_eq_if_modifyHead, List.splitOnP_cons_eq_if_modifyHead,
      hleft, hboth]
    split_ifs
    · exact ⟨[] :: front, last, first, behind, rfl, hright, rfl⟩
    · cases front with
      | nil => exact ⟨[], c :: last, first, behind, rfl, hright, rfl⟩
      | cons head front => exact ⟨(c :: head) :: front, last, first, behind, rfl, hright, rfl⟩

/-- What makes separators of separators alone can be done to each part. -/
theorem splitOn_map [BEq α] [LawfulBEq α] {separator : α} {change : α → α}
    (hchange : ∀ element, change element = separator ↔ element = separator) (elements : List α) :
    (elements.map change).splitOn separator =
      (elements.splitOn separator).map (List.map change) := by
  have hseparates : (· == separator) ∘ change = (· == separator) := by
    funext element
    exact Bool.eq_iff_iff.mpr (by simpa using hchange element)
  rw [List.splitOn_eq_splitOnP, splitOnP_map, hseparates, List.splitOn_eq_splitOnP]

/-! ## Parts between separators -/

/-- Parts with a separator before each and behind the last. -/
def delimited (separator : α) : List (List α) → List α
  | [] => [separator]
  | part :: parts => separator :: (part ++ delimited separator parts)

variable {separator : α}

theorem delimited_eq_cons (separator : α) (parts : List (List α)) :
    ∃ rest, delimited separator parts = separator :: rest := by
  cases parts with
  | nil => exact ⟨[], rfl⟩
  | cons part parts => exact ⟨_, rfl⟩

/-- Splitting takes out the parts. -/
theorem delimited_splitOn [BEq α] [LawfulBEq α] (separator : α) (elements : List α) :
    delimited separator (elements.splitOn separator) = separator :: (elements ++ [separator]) := by
  induction elements with
  | nil => rfl
  | cons element elements ih =>
    rw [List.splitOn_cons_eq_if_modifyHead]
    split
    · next hsep =>
      rw [delimited, ih, beq_iff_eq.mp hsep]
      rfl
    · obtain ⟨first, rest, hsplit⟩ :=
        List.exists_cons_of_ne_nil (List.splitOn_ne_nil separator elements)
      rw [hsplit, delimited] at ih
      rw [hsplit, List.modifyHead_cons, delimited, List.cons_append, (List.cons.inj ih).2]
      rfl

theorem not_mem_of_mem_splitOn [BEq α] [LawfulBEq α] {elements part : List α}
    (h : part ∈ elements.splitOn separator) : separator ∉ part := by
  induction elements generalizing part with
  | nil =>
    obtain rfl := List.mem_singleton.mp h
    exact List.not_mem_nil
  | cons element elements ih =>
    rw [List.splitOn_cons_eq_if_modifyHead] at h
    split at h
    · rcases List.mem_cons.mp h with rfl | hmem
      · exact List.not_mem_nil
      · exact ih hmem
    · next hsep =>
      obtain ⟨first, rest, hsplit⟩ :=
        List.exists_cons_of_ne_nil (List.splitOn_ne_nil separator elements)
      rw [hsplit] at h ih
      rcases List.mem_cons.mp h with rfl | hmem
      · have hne : separator ≠ element := fun heq ↦ hsep (beq_iff_eq.mpr heq.symm)
        exact List.not_mem_cons_of_ne_of_not_mem hne (ih List.mem_cons_self)
      · exact ih (List.mem_cons_of_mem _ hmem)

/-! ## Runs of parts -/

variable {part part' : List α} {parts parts' : List (List α)}

/-- Up to the first separator, two texts are the same. -/
theorem append_cons_prefix_iff {rest rest' : List α} (hpart : separator ∉ part)
    (hpart' : separator ∉ part') :
    part ++ separator :: rest <+: part' ++ separator :: rest' ↔ part = part' ∧ rest <+: rest' := by
  induction part generalizing part' with
  | nil =>
    cases part' with
    | nil => simp
    | cons element part' =>
      have hne : separator ≠ element := fun h ↦ hpart' (h ▸ List.mem_cons_self)
      simp [List.cons_prefix_cons, hne]
  | cons element part ih =>
    cases part' with
    | nil =>
      have hne : element ≠ separator := fun h ↦ hpart (h ▸ List.mem_cons_self)
      simp [List.cons_prefix_cons, hne]
    | cons element' part' =>
      have htail := ih (fun h ↦ hpart (List.mem_cons_of_mem _ h))
        fun h ↦ hpart' (List.mem_cons_of_mem _ h)
      simp only [List.cons_append, List.cons_prefix_cons, htail, List.cons.injEq, and_assoc]

theorem delimited_prefix_iff (hparts : ∀ part ∈ parts, separator ∉ part)
    (hparts' : ∀ part ∈ parts', separator ∉ part) :
    delimited separator parts <+: delimited separator parts' ↔ parts <+: parts' := by
  induction parts generalizing parts' with
  | nil =>
    obtain ⟨rest, hrest⟩ := delimited_eq_cons separator parts'
    rw [hrest]
    simp [delimited]
  | cons part parts ih =>
    obtain ⟨rest, hrest⟩ := delimited_eq_cons separator parts
    cases parts' with
    | nil => simp [delimited, hrest, List.cons_prefix_cons]
    | cons part' parts' =>
      obtain ⟨rest', hrest'⟩ := delimited_eq_cons separator parts'
      have htail := ih (fun part h ↦ hparts part (List.mem_cons_of_mem _ h))
        fun part h ↦ hparts' part (List.mem_cons_of_mem _ h)
      rw [hrest, hrest', List.cons_prefix_cons] at htail
      rw [delimited, delimited, List.cons_prefix_cons, hrest, hrest',
        append_cons_prefix_iff (hparts _ List.mem_cons_self) (hparts' _ List.mem_cons_self),
        List.cons_prefix_cons, ← htail]
      simp

/-- What begins with a separator is not found inside a part. -/
theorem infix_append_iff {wanted rest : List α} (hpart : separator ∉ part) :
    separator :: wanted <:+: part ++ rest ↔ separator :: wanted <:+: rest := by
  induction part with
  | nil => rfl
  | cons element part ih =>
    have hne : separator ≠ element := fun h ↦ hpart (h ▸ List.mem_cons_self)
    rw [List.cons_append, List.infix_cons_iff, ih fun h ↦ hpart (List.mem_cons_of_mem _ h),
      List.cons_prefix_cons]
    simp [hne]

/-- Parts are found between the separators of others exactly where they are a run of them. -/
theorem delimited_infix_iff (hne : parts ≠ []) (hparts : ∀ part ∈ parts, separator ∉ part)
    (hparts' : ∀ part ∈ parts', separator ∉ part) :
    delimited separator parts <:+: delimited separator parts' ↔ parts <:+: parts' := by
  induction parts' with
  | nil =>
    obtain ⟨part, parts, rfl⟩ := List.exists_cons_of_ne_nil hne
    obtain ⟨rest, hrest⟩ := delimited_eq_cons separator parts
    have hlong : ¬ delimited separator (part :: parts) <:+: delimited separator [] := by
      intro hinfix
      have hlength := hinfix.length_le
      simp only [delimited, hrest, List.length_cons, List.length_append, List.length_nil] at hlength
      omega
    exact ⟨fun h ↦ absurd h hlong, fun h ↦ absurd (List.infix_nil.mp h) hne⟩
  | cons part' parts' ih =>
    obtain ⟨rest, hrest⟩ := delimited_eq_cons separator parts
    have hinside : separator :: rest <:+: part' ++ delimited separator parts' ↔
        separator :: rest <:+: delimited separator parts' :=
      infix_append_iff (hparts' _ List.mem_cons_self)
    rw [List.infix_cons_iff, ← delimited_prefix_iff hparts hparts',
      ← ih fun part h ↦ hparts' part (List.mem_cons_of_mem _ h), hrest, ← hinside]
    exact List.infix_cons_iff

end WardSweep.Delimited
