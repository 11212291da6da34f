import Mathlib

/-!
# Outcomes of a call that can fail or panic

A Rust function that returns a `Result` ends in one of three ways: with a value, with an error, or
by unwinding out of a slice or an index that is out of range.  `Outcome` keeps the three apart, so
that a model says where a panic can start and a theorem says where none can.
-/

namespace WardSweep

/-- How a call ends. -/
inductive Outcome (ε α : Type*) where
  /-- The call returned a value. -/
  | ok (value : α)
  /-- The call returned an error. -/
  | err (error : ε)
  /-- The call did not return. -/
  | panic
  deriving DecidableEq, Repr

namespace Outcome

variable {ε δ α β : Type*}

/-- Go on with the value of a call; an error and a panic both end the caller. -/
def bind (outcome : Outcome ε α) (next : α → Outcome ε β) : Outcome ε β :=
  match outcome with
  | .ok value => next value
  | .err error => .err error
  | .panic => .panic

/-- Go on from the value or from the error of a call; a panic ends the caller. -/
def handle (outcome : Outcome ε α) (onValue : α → Outcome δ β) (onError : ε → Outcome δ β) :
    Outcome δ β :=
  match outcome with
  | .ok value => onValue value
  | .err error => onError error
  | .panic => .panic

/-- The call came back to its caller, with a value or with an error. -/
def Returns (outcome : Outcome ε α) : Prop := outcome ≠ .panic

/-- The call came back with an error. -/
def Refuses (outcome : Outcome ε α) : Prop := ∃ error, outcome = .err error

instance [DecidableEq ε] [DecidableEq α] (outcome : Outcome ε α) : Decidable outcome.Returns :=
  inferInstanceAs (Decidable (outcome ≠ .panic))

@[simp] theorem bind_ok (value : α) (next : α → Outcome ε β) :
    Outcome.bind (.ok value) next = next value := rfl

@[simp] theorem bind_err (error : ε) (next : α → Outcome ε β) :
    Outcome.bind (.err error) next = .err error := rfl

@[simp] theorem bind_panic (next : α → Outcome ε β) :
    Outcome.bind .panic next = .panic := rfl

@[simp] theorem handle_ok (value : α) (onValue : α → Outcome δ β) (onError : ε → Outcome δ β) :
    Outcome.handle (.ok value) onValue onError = onValue value := rfl

@[simp] theorem handle_err (error : ε) (onValue : α → Outcome δ β) (onError : ε → Outcome δ β) :
    Outcome.handle (.err error) onValue onError = onError error := rfl

@[simp] theorem returns_ok (value : α) : (Outcome.ok value : Outcome ε α).Returns := by
  simp [Returns]

@[simp] theorem returns_err (error : ε) : (Outcome.err error : Outcome ε α).Returns := by
  simp [Returns]

@[simp] theorem not_returns_panic : ¬ (Outcome.panic : Outcome ε α).Returns := by
  simp [Returns]

@[simp] theorem refuses_err (error : ε) : (Outcome.err error : Outcome ε α).Refuses :=
  ⟨error, rfl⟩

@[simp] theorem not_refuses_ok (value : α) : ¬ (Outcome.ok value : Outcome ε α).Refuses := by
  simp [Refuses]

/-- A call that gives nothing but its success and that returns either succeeds or refuses. -/
theorem Returns.refuses_iff {outcome : Outcome ε Unit} (h : outcome.Returns) :
    outcome.Refuses ↔ outcome ≠ .ok () := by
  cases outcome with
  | ok value => simp
  | err error => simp
  | panic => exact absurd h not_returns_panic

/-- A sequence gives a value exactly when its first call does and the rest does on that value. -/
theorem bind_eq_ok_iff (outcome : Outcome ε α) (next : α → Outcome ε β) (value : β) :
    outcome.bind next = .ok value ↔ ∃ first, outcome = .ok first ∧ next first = .ok value := by
  cases outcome <;> simp

/-- A sequence returns exactly when its first call does and the rest does on the value it gave. -/
theorem returns_bind_iff (outcome : Outcome ε α) (next : α → Outcome ε β) :
    (outcome.bind next).Returns ↔
      outcome.Returns ∧ ∀ value, outcome = .ok value → (next value).Returns := by
  cases outcome <;> simp

/-- Handling a call returns exactly when the call does and what is made of its end does. -/
theorem returns_handle_iff (outcome : Outcome ε α) (onValue : α → Outcome δ β)
    (onError : ε → Outcome δ β) :
    (outcome.handle onValue onError).Returns ↔
      outcome.Returns ∧ (∀ value, outcome = .ok value → (onValue value).Returns) ∧
        ∀ error, outcome = .err error → (onError error).Returns := by
  cases outcome <;> simp [handle]

/-! ## A call for each element of a list -/

/-- Call for each element of a list in turn; the first call that gives no value ends the caller. -/
def traverse (call : α → Outcome ε β) : List α → Outcome ε (List β)
  | [] => .ok []
  | first :: rest =>
    (call first).bind fun value ↦ (traverse call rest).bind fun values ↦ .ok (value :: values)

@[simp] theorem traverse_nil (call : α → Outcome ε β) : traverse call [] = .ok [] := rfl

@[simp] theorem traverse_cons (call : α → Outcome ε β) (first : α) (rest : List α) :
    traverse call (first :: rest) =
      (call first).bind fun value ↦ (traverse call rest).bind fun values ↦ .ok (value :: values) :=
  rfl

/-- Calling for each element gives values exactly when every call gives the value in its place. -/
theorem traverse_eq_ok_iff (call : α → Outcome ε β) (elements : List α) (values : List β) :
    traverse call elements = .ok values ↔
      List.Forall₂ (fun element value ↦ call element = .ok value) elements values := by
  induction elements generalizing values with
  | nil => simp [eq_comm]
  | cons first rest ih =>
    rw [traverse_cons, bind_eq_ok_iff, List.forall₂_cons_left_iff]
    constructor
    · rintro ⟨value, hvalue, h⟩
      obtain ⟨values', hvalues, h⟩ := (bind_eq_ok_iff _ _ _).1 h
      exact ⟨value, values', hvalue, (ih values').1 hvalues, (Outcome.ok.inj h).symm⟩
    · rintro ⟨value, values', hvalue, hvalues, rfl⟩
      refine ⟨value, hvalue, ?_⟩
      rw [(ih values').2 hvalues, bind_ok]

/-- Call for each element of a list in turn and put the lists it gives one behind the other. -/
def flatTraverse (call : α → Outcome ε (List β)) (elements : List α) : Outcome ε (List β) :=
  (traverse call elements).bind fun values ↦ .ok values.flatten

theorem flatTraverse_eq_ok_iff (call : α → Outcome ε (List β)) (elements : List α)
    (all : List β) :
    flatTraverse call elements = .ok all ↔
      ∃ parts, List.Forall₂ (fun element part ↦ call element = .ok part) elements parts ∧
        all = parts.flatten := by
  rw [flatTraverse, bind_eq_ok_iff]
  refine exists_congr fun parts ↦ ?_
  rw [traverse_eq_ok_iff, Outcome.ok.injEq, eq_comm]

/-- Nothing is given for the whole exactly when nothing is given for any element. -/
theorem flatTraverse_eq_nil_iff (call : α → Outcome ε (List β)) (elements : List α) :
    flatTraverse call elements = .ok [] ↔ ∀ element ∈ elements, call element = .ok [] := by
  rw [flatTraverse_eq_ok_iff]
  constructor
  · intro h
    obtain ⟨parts, hparts, hnil⟩ := h
    induction hparts with
    | nil => simp
    | cons hpart _ ih =>
      rw [List.flatten_cons, eq_comm, List.append_eq_nil_iff] at hnil
      rw [List.forall_mem_cons, hpart, hnil.1]
      exact ⟨rfl, ih hnil.2.symm⟩
  · intro h
    refine ⟨elements.map fun _ ↦ [], ?_, by simp⟩
    rw [List.forall₂_map_right_iff, List.forall₂_same]
    exact h

/-- What holds of some element of the whole is decided call by call. -/
theorem exists_mem_flatTraverse {call : α → Outcome ε (List β)} {elements : List α}
    {all : List β} (h : flatTraverse call elements = .ok all) {holds : β → Prop}
    {gives : α → Prop}
    (hcall : ∀ element part, call element = .ok part →
      ((∃ entry ∈ part, holds entry) ↔ gives element)) :
    (∃ entry ∈ all, holds entry) ↔ ∃ element ∈ elements, gives element := by
  obtain ⟨parts, hparts, rfl⟩ := (flatTraverse_eq_ok_iff _ _ _).1 h
  clear h
  induction hparts with
  | nil => simp
  | @cons element part elements parts hpart _ ih =>
    rw [List.flatten_cons]
    simp only [List.mem_append, List.mem_cons, or_and_right, exists_or, exists_eq_left, ih,
      hcall element part hpart]

/-- What holds of all that each call gives holds of the whole. -/
theorem forall_mem_flatTraverse {call : α → Outcome ε (List β)} {elements : List α}
    {all : List β} (h : flatTraverse call elements = .ok all) {holds : β → Prop}
    (hcall : ∀ element part, call element = .ok part → ∀ entry ∈ part, holds entry) :
    ∀ entry ∈ all, holds entry := by
  obtain ⟨parts, hparts, rfl⟩ := (flatTraverse_eq_ok_iff _ _ _).1 h
  clear h
  induction hparts with
  | nil => simp
  | @cons element part elements parts hpart _ ih =>
    rw [List.flatten_cons, List.forall_mem_append]
    exact ⟨hcall element part hpart, ih⟩

/-- Calling for the elements in another order gives the same in another order. -/
theorem exists_perm_flatTraverse {call : α → Outcome ε (List β)} {elements elements' : List α}
    (hperm : elements.Perm elements') {all : List β} (h : flatTraverse call elements = .ok all) :
    ∃ all', flatTraverse call elements' = .ok all' ∧ all.Perm all' := by
  obtain ⟨parts, hparts, rfl⟩ := (flatTraverse_eq_ok_iff _ _ _).1 h
  obtain ⟨parts', hparts', hperm'⟩ := List.perm_comp_forall₂ hperm.symm hparts
  exact ⟨parts'.flatten, (flatTraverse_eq_ok_iff _ _ _).2 ⟨parts', hparts', rfl⟩,
    hperm'.symm.flatten⟩

/-- A call that has no error to return gives a value when it returns. -/
theorem Returns.exists_eq_ok {outcome : Outcome Empty α} (h : outcome.Returns) :
    ∃ value, outcome = .ok value := by
  match outcome with
  | .ok value => exact ⟨value, rfl⟩
  | .panic => exact absurd h not_returns_panic

/-- Without errors, calling for each element returns exactly when every call does. -/
theorem returns_traverse_iff (call : α → Outcome Empty β) (elements : List α) :
    (traverse call elements).Returns ↔ ∀ element ∈ elements, (call element).Returns := by
  induction elements with
  | nil => simp
  | cons first rest ih =>
    rw [traverse_cons, returns_bind_iff, List.forall_mem_cons]
    refine and_congr_right fun hfirst ↦ ?_
    obtain ⟨value, hvalue⟩ := hfirst.exists_eq_ok
    rw [← ih]
    constructor
    · intro h
      exact ((returns_bind_iff _ _).1 (h value hvalue)).1
    · intro h value' _
      exact (returns_bind_iff _ _).2 ⟨h, fun _ _ ↦ returns_ok _⟩

theorem returns_flatTraverse_iff (call : α → Outcome Empty (List β)) (elements : List α) :
    (flatTraverse call elements).Returns ↔ ∀ element ∈ elements, (call element).Returns := by
  rw [flatTraverse, returns_bind_iff, returns_traverse_iff]
  exact and_iff_left fun _ _ ↦ returns_ok _

end Outcome

end WardSweep
