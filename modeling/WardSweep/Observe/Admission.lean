import WardSweep.Observe.Policy

/-!
# What a policy keeps

A key is excluded by whole components: a fragment is looked for with a separator at each of its
ends, in the key with a separator at each of its own.  What is kept of a record is kept as it is by
the same policy.
-/

namespace WardSweep.Observe

open Utf8 Str Delimited

/-! ## Components -/

/-- The components of a key. -/
def keyComponents (key : Text) : List Text := key.splitOn '\\'

/-- The components of a fragment, which has a separator at each end. -/
def fragmentComponents (fragment : Text) : List Text := (fragment.splitOn '\\').tail.dropLast

example : fragmentComponents r"\services\bam\state\".toList =
    ["services", "bam", "state"].map String.toList := by decide

/-- Some components are a contiguous run of others, whatever the case. -/
def IsRunOf (fragment key : List Text) : Prop :=
  ∃ run, run <:+: key ∧ List.Forall₂ (fun part other ↦ eqIgnoreAsciiCase part other) fragment run

/-- A fragment names whole components in lower case. -/
structure NamesComponents (fragment : Text) : Prop where
  delimited_eq : delimited '\\' (fragmentComponents fragment) = fragment
  ne_nil : fragmentComponents fragment ≠ []
  lower : toAsciiLowercase fragment = fragment

instance (fragment : Text) : Decidable (NamesComponents fragment) :=
  decidable_of_iff (delimited '\\' (fragmentComponents fragment) = fragment ∧
      fragmentComponents fragment ≠ [] ∧ toAsciiLowercase fragment = fragment)
    ⟨fun ⟨h, hne, hlower⟩ ↦ ⟨h, hne, hlower⟩, fun h ↦ ⟨h.delimited_eq, h.ne_nil, h.lower⟩⟩

/-- Every fragment names whole components in lower case. -/
theorem namesComponents_of_mem : ∀ fragment ∈ excludedKeyFragments, NamesComponents fragment := by
  decide +kernel

/-! ## What is excluded -/

theorem NamesComponents.map_toAsciiLowercase {fragment : Text} (h : NamesComponents fragment) :
    (fragmentComponents fragment).map toAsciiLowercase = fragmentComponents fragment := by
  rw [fragmentComponents, List.map_dropLast, List.map_tail, ← splitOn_toAsciiLowercase, h.lower]

theorem not_mem_of_mem_fragmentComponents {fragment part : Text}
    (h : part ∈ fragmentComponents fragment) : '\\' ∉ part :=
  not_mem_of_mem_splitOn (List.mem_of_mem_tail (List.mem_of_mem_dropLast h))

/-- Ignoring the case of both is comparing in lower case. -/
theorem isRunOf_iff (fragment key : List Text) :
    IsRunOf fragment key ↔ fragment.map toAsciiLowercase <:+: key.map toAsciiLowercase := by
  have hsame (run : List Text) :
      List.Forall₂ (fun part other ↦ eqIgnoreAsciiCase part other = true) fragment run ↔
        fragment.map toAsciiLowercase = run.map toAsciiLowercase := by
    rw [← List.forall₂_eq_eq_eq, List.forall₂_map_left_iff, List.forall₂_map_right_iff]
    simp only [eqIgnoreAsciiCase, beq_iff_eq]
  simp only [IsRunOf, hsame]
  exact List.infix_map_iff.symm

theorem contains_fragment_iff {fragment : Text} (h : NamesComponents fragment) (key : Text) :
    contains ('\\' :: toAsciiLowercase key ++ ['\\']) fragment = true ↔
      IsRunOf (fragmentComponents fragment) (keyComponents key) := by
  have hkey : '\\' :: toAsciiLowercase key ++ ['\\'] =
      delimited '\\' ((toAsciiLowercase key).splitOn '\\') := (delimited_splitOn _ _).symm
  rw [contains_iff_isInfix, isRunOf_iff, h.map_toAsciiLowercase, keyComponents,
    ← splitOn_toAsciiLowercase, hkey, ← delimited_infix_iff h.ne_nil
      (fun _ ↦ not_mem_of_mem_fragmentComponents) (fun _ ↦ not_mem_of_mem_splitOn), h.delimited_eq]

/-- A key is excluded when a fragment is a run of its components. -/
theorem excludesKey_iff {policy : Policy}
    (h : ∀ fragment ∈ policy.keyFragments, NamesComponents fragment) (key : Text) :
    policy.excludesKey key = true ↔
      ∃ fragment ∈ policy.keyFragments,
        IsRunOf (fragmentComponents fragment) (keyComponents key) := by
  rw [Policy.excludesKey, List.any_eq_true]
  constructor
  · rintro ⟨fragment, hfragment, hcontains⟩
    exact ⟨fragment, hfragment, (contains_fragment_iff (h fragment hfragment) key).mp hcontains⟩
  · rintro ⟨fragment, hfragment, hrun⟩
    exact ⟨fragment, hfragment, (contains_fragment_iff (h fragment hfragment) key).mpr hrun⟩

/-- What is below an excluded key is excluded. -/
theorem IsRunOf.below {fragment : List Text} {key : Text} (h : IsRunOf fragment (keyComponents key))
    (rest : Text) : IsRunOf fragment (keyComponents (key ++ '\\' :: rest)) := by
  obtain ⟨run, hrun, hsame⟩ := h
  refine ⟨run, hrun.trans ?_, hsame⟩
  rw [keyComponents, keyComponents, List.splitOn_append_cons_self]
  exact (List.prefix_append _ _).isInfix

/-! ## What is kept -/

theorem drops_iff (policy : Policy) (record : RegistryRecord) :
    policy.Drops record ↔ policy.excludesKey record.key = true ∨
      ((∃ value ∈ record.values, policy.refuses value) ∧
        ∀ value ∈ record.values, policy.refuses value) := by
  refine or_congr Iff.rfl ⟨?_, ?_⟩
  · rintro ⟨hne, hall⟩
    obtain ⟨value, hvalue⟩ := List.exists_mem_of_ne_nil _ hne
    exact ⟨⟨value, hvalue, hall value hvalue⟩, hall⟩
  · rintro ⟨⟨value, hvalue, -⟩, hall⟩
    exact ⟨List.ne_nil_of_mem hvalue, hall⟩

/-- A record that has nothing refused is borrowed. -/
theorem admit_eq_borrowed {policy : Policy} {record : RegistryRecord}
    (hkey : policy.excludesKey record.key = false)
    (hvalues : ∀ value ∈ record.values, policy.refuses value = false) :
    policy.admit record = ⟨some (.borrowed record), 0⟩ := by
  have hcount : record.values.countP policy.refuses = 0 := by
    rw [List.countP_eq_zero]
    intro value hvalue
    rw [hvalues value hvalue]
    exact Bool.false_ne_true
  unfold Policy.admit
  rw [if_neg (hkey ▸ Bool.false_ne_true), if_pos hcount, hcount]

/-- Exclusion goes by whole components, and what is admitted of a record is what the policy does not
refuse of it and is admitted as it is. -/
theorem admission_exact :
    (∀ key, Policy.current.excludesKey key = true ↔ ∃ fragment ∈ excludedKeyFragments,
        IsRunOf (fragmentComponents fragment) (keyComponents key)) ∧
      (∀ key rest, Policy.current.excludesKey key = true →
        Policy.current.excludesKey (key ++ '\\' :: rest) = true) ∧
      ∀ (policy : Policy) (record : RegistryRecord),
        (policy.admitted record = none ↔ policy.excludesKey record.key = true ∨
          ((∃ value ∈ record.values, policy.refuses value) ∧
            ∀ value ∈ record.values, policy.refuses value)) ∧
        ∀ result, policy.admitted record = some result →
          result = { record with
            values := record.values.filter fun value ↦ !policy.refuses value } ∧
          policy.admit result = ⟨some (.borrowed result), 0⟩ := by
  refine ⟨excludesKey_iff namesComponents_of_mem, ?_, ?_⟩
  · intro key rest hkey
    rw [excludesKey_iff namesComponents_of_mem] at hkey ⊢
    obtain ⟨fragment, hfragment, hrun⟩ := hkey
    exact ⟨fragment, hfragment, hrun.below rest⟩
  · intro policy record
    refine ⟨?_, ?_⟩
    · rw [← drops_iff, admitted_eq]
      simp
    · intro result hresult
      obtain ⟨hkeeps, rfl⟩ := admitted_eq_some_iff.mp hresult
      refine ⟨rfl, admit_eq_borrowed ?_ fun value ↦ not_refuses_of_mem_trimmed⟩
      exact Bool.eq_false_iff.mpr fun hkey ↦ hkeeps (.inl hkey)

end WardSweep.Observe
