import Mathlib

/-!
# Protected subtrees of a tree of locations

A location is the list of names on the way down to it, so `<+:` reads "at or above".  Protecting a
set of subtrees is only sound against a recursive removal when every location above a protected
root is refused too; that is `ClosedUpwards`, and tables of patterns with wildcards reach it through
a finite check on the patterns themselves.
-/

namespace WardSweep.Tree

section Locations

variable {α : Type*}

/-- The location is one of the roots, or lies below one. -/
def AtOrBelow (roots : Set (List α)) (location : List α) : Prop := ∃ root ∈ roots, root <+: location

/-- No location at or above a root is accepted. -/
def ClosedUpwards (accepted roots : Set (List α)) : Prop :=
  ∀ root ∈ roots, ∀ ancestor, ancestor <+: root → ancestor ∉ accepted

theorem AtOrBelow.mono {roots : Set (List α)} {location below : List α}
    (h : AtOrBelow roots location) (hbelow : location <+: below) : AtOrBelow roots below := by
  obtain ⟨root, hroot, hbegins⟩ := h
  exact ⟨root, hroot, hbegins.trans hbelow⟩

/-- Accepted locations of an upwards closed protection hold no protected location below them. -/
theorem not_atOrBelow_of_accepted {accepted roots : Set (List α)}
    (hclosed : ClosedUpwards accepted roots) {location : List α} (haccepted : location ∈ accepted)
    (houtside : ¬ AtOrBelow roots location) {below : List α} (hbelow : location <+: below) :
    ¬ AtOrBelow roots below := by
  rintro ⟨root, hroot, hbegins⟩
  rcases List.prefix_or_prefix_of_prefix hbegins hbelow with habove | habove
  · exact houtside ⟨root, hroot, habove⟩
  · exact hclosed root hroot location habove haccepted

end Locations

section Patterns

variable {α β : Type*} (fits : β → α → Bool)

/-- The names of the location begin with names that fit the pattern, one for one. -/
def startsWith (location : List α) (pattern : List β) : Bool :=
  decide (pattern.length ≤ location.length) &&
    (pattern.zip location).all fun pair ↦ fits pair.1 pair.2

/-- The names of the location fit the pattern, one for one. -/
def equals (location : List α) (pattern : List β) : Bool :=
  decide (location.length = pattern.length) && startsWith fits location pattern

/-- The locations that fit some pattern of a table. -/
def roots (table : List (List β)) : Set (List α) :=
  {location | ∃ pattern ∈ table, equals fits location pattern = true}

variable {fits}

@[simp] theorem startsWith_nil_right (location : List α) : startsWith fits location [] = true := by
  simp [startsWith]

@[simp] theorem startsWith_nil_cons (want : β) (pattern : List β) :
    startsWith fits [] (want :: pattern) = false := by
  simp [startsWith]

@[simp] theorem startsWith_cons_cons (name : α) (location : List α) (want : β) (pattern : List β) :
    startsWith fits (name :: location) (want :: pattern) =
      (fits want name && startsWith fits location pattern) := by
  simp only [startsWith, List.length_cons, Nat.add_le_add_iff_right, List.zip_cons_cons,
    List.all_cons]
  rw [Bool.and_left_comm]

@[simp] theorem equals_nil_nil : equals fits [] [] = true := by simp [equals]

@[simp] theorem equals_cons_nil (name : α) (location : List α) :
    equals fits (name :: location) [] = false := by simp [equals]

@[simp] theorem equals_nil_cons (want : β) (pattern : List β) :
    equals fits [] (want :: pattern) = false := by simp [equals]

@[simp] theorem equals_cons_cons (name : α) (location : List α) (want : β) (pattern : List β) :
    equals fits (name :: location) (want :: pattern) =
      (fits want name && equals fits location pattern) := by
  simp only [equals, startsWith_cons_cons, List.length_cons, Nat.add_right_cancel_iff]
  rw [Bool.and_left_comm]

/-- A location begins with a pattern exactly when some location above it fits the pattern. -/
theorem startsWith_iff (location : List α) (pattern : List β) :
    startsWith fits location pattern = true ↔
      ∃ root, root <+: location ∧ equals fits root pattern = true := by
  induction pattern generalizing location with
  | nil =>
    rw [startsWith_nil_right]
    exact ⟨fun _ ↦ ⟨[], List.nil_prefix, by simp⟩, fun _ ↦ rfl⟩
  | cons want pattern ih =>
    cases location with
    | nil =>
      simp only [startsWith_nil_cons, Bool.false_eq_true, List.prefix_nil, exists_eq_left,
        equals_nil_cons]
    | cons name location =>
      rw [startsWith_cons_cons, Bool.and_eq_true, ih]
      constructor
      · rintro ⟨hfits, root, hbegins, hequals⟩
        refine ⟨name :: root, List.cons_prefix_cons.2 ⟨rfl, hbegins⟩, ?_⟩
        rw [equals_cons_cons, hfits, hequals]
        rfl
      · rintro ⟨root, hbegins, hequals⟩
        cases root with
        | nil => simp at hequals
        | cons first root =>
          obtain ⟨rfl, htail⟩ := List.cons_prefix_cons.1 hbegins
          rw [equals_cons_cons, Bool.and_eq_true] at hequals
          exact ⟨hequals.1, root, htail, hequals.2⟩

/-- At or below a root of a table is beginning with one of its patterns. -/
theorem atOrBelow_roots_iff (table : List (List β)) (location : List α) :
    AtOrBelow (roots fits table) location ↔ table.any (startsWith fits location) = true := by
  rw [List.any_eq_true]
  constructor
  · rintro ⟨root, ⟨pattern, hpattern, hequals⟩, hbegins⟩
    exact ⟨pattern, hpattern, (startsWith_iff location pattern).2 ⟨root, hbegins, hequals⟩⟩
  · rintro ⟨pattern, hpattern, hstarts⟩
    obtain ⟨root, hbegins, hequals⟩ := (startsWith_iff location pattern).1 hstarts
    exact ⟨root, ⟨pattern, hpattern, hequals⟩, hbegins⟩

/-- What lies above a location that fits a pattern fits an initial segment of the pattern. -/
theorem equals_take {location : List α} {pattern : List β} (h : equals fits location pattern = true)
    {ancestor : List α} (hbegins : ancestor <+: location) :
    equals fits ancestor (pattern.take ancestor.length) = true := by
  induction pattern generalizing location ancestor with
  | nil =>
    cases location with
    | nil =>
      obtain rfl := List.prefix_nil.1 hbegins
      simp
    | cons name location => simp at h
  | cons want pattern ih =>
    cases ancestor with
    | nil => simp
    | cons first ancestor =>
      cases location with
      | nil => simp at h
      | cons name location =>
        obtain ⟨rfl, htail⟩ := List.cons_prefix_cons.1 hbegins
        rw [equals_cons_cons, Bool.and_eq_true] at h
        rw [List.length_cons, List.take_succ_cons, equals_cons_cons, Bool.and_eq_true]
        exact ⟨h.1, ih h.2 htail⟩

/-- One more name helps a location to begin with a pattern only as the last name of it. -/
theorem startsWith_concat {location : List α} {name : α} {pattern : List β}
    (h : startsWith fits (location ++ [name]) pattern = true) :
    startsWith fits location pattern = true ∨
      ∃ want ∈ pattern.getLast?, fits want name = true := by
  induction location generalizing pattern with
  | nil =>
    match pattern, h with
    | [], _ => exact .inl (startsWith_nil_right [])
    | [want], h =>
      rw [List.nil_append, startsWith_cons_cons, Bool.and_eq_true] at h
      exact .inr ⟨want, rfl, h.1⟩
    | want :: want' :: pattern, h => simp at h
  | cons first location ih =>
    cases pattern with
    | nil => exact .inl (startsWith_nil_right _)
    | cons want pattern =>
      rw [List.cons_append, startsWith_cons_cons, Bool.and_eq_true] at h
      rcases ih h.2 with hstarts | ⟨last, hlast, hfits⟩
      · rw [startsWith_cons_cons, h.1, hstarts]
        exact .inl rfl
      · refine .inr ⟨last, ?_, hfits⟩
        rw [Option.mem_def] at hlast ⊢
        rw [List.getLast?_cons, hlast, Option.getD_some]

theorem length_of_equals {location : List α} {pattern : List β}
    (h : equals fits location pattern = true) : location.length = pattern.length := by
  rw [equals, Bool.and_eq_true, decide_eq_true_eq] at h
  exact h.1

/-! ## A table below a name -/

/-- What a table says below a name: the patterns whose first name fits it, without that name. -/
def residual (fits : β → α → Bool) (name : α) (table : List (List β)) : List (List β) :=
  table.filterMap fun pattern ↦
    match pattern with
    | [] => none
    | want :: pattern => if fits want name then some pattern else none

theorem any_equals_cons (table : List (List β)) (name : α) (location : List α) :
    table.any (equals fits (name :: location)) =
      (residual fits name table).any (equals fits location) := by
  induction table with
  | nil => rfl
  | cons pattern table ih =>
    rw [List.any_cons, ih]
    cases pattern with
    | nil => simp [residual]
    | cons want pattern => by_cases hfits : fits want name = true <;> simp [residual, hfits]

/-- A table that protects the root itself has no residual to speak of, and is excluded here. -/
theorem any_startsWith_cons {table : List (List β)} (hroot : [] ∉ table) (name : α)
    (location : List α) :
    table.any (startsWith fits (name :: location)) =
      (residual fits name table).any (startsWith fits location) := by
  induction table with
  | nil => rfl
  | cons pattern table ih =>
    rw [List.any_cons, ih fun h ↦ hroot (List.mem_cons_of_mem _ h)]
    cases pattern with
    | nil => exact absurd List.mem_cons_self hroot
    | cons want pattern => by_cases hfits : fits want name = true <;> simp [residual, hfits]

/-! ## Closing a table upwards -/

variable (subsumes : β → β → Bool)

/-- Whatever fits the second pattern fits the first. -/
def covers (wide narrow : List β) : Bool :=
  decide (wide.length = narrow.length) && (wide.zip narrow).all fun pair ↦ subsumes pair.1 pair.2

variable {subsumes}

theorem equals_of_covers
    (hsubsumes : ∀ wide narrow name, subsumes wide narrow = true → fits narrow name = true →
      fits wide name = true)
    {wide narrow : List β} (hcovers : covers subsumes wide narrow = true) {location : List α}
    (h : equals fits location narrow = true) : equals fits location wide = true := by
  induction wide generalizing narrow location with
  | nil =>
    cases narrow with
    | nil => exact h
    | cons want narrow => simp [covers] at hcovers
  | cons want wide ih =>
    cases narrow with
    | nil => simp [covers] at hcovers
    | cons want' narrow =>
      cases location with
      | nil => simp at h
      | cons name location =>
        simp only [covers, List.length_cons, Nat.add_right_cancel_iff, List.zip_cons_cons,
          List.all_cons, Bool.and_eq_true, decide_eq_true_eq] at hcovers
        rw [equals_cons_cons, Bool.and_eq_true] at h ⊢
        refine ⟨hsubsumes want want' name hcovers.2.1 h.1, ih ?_ h.2⟩
        simp [covers, hcovers.1, hcovers.2.2]

variable (subsumes)

/-- Every proper initial segment of at least `floor` names of every pattern is covered by a pattern
of the other table. -/
def closedUpwards (floor : ℕ) (guards table : List (List β)) : Bool :=
  table.all fun pattern ↦ (List.range pattern.length).all fun depth ↦
    decide (depth < floor) || guards.any fun guard ↦ covers subsumes guard (pattern.take depth)

variable {subsumes}

/-- The finite check on two tables closes the protected subtrees upwards: what lies strictly above
a root is too shallow, or fits a guard. -/
theorem equals_guard_of_closedUpwards
    (hsubsumes : ∀ wide narrow name, subsumes wide narrow = true → fits narrow name = true →
      fits wide name = true)
    {floor : ℕ} {guards table : List (List β)}
    (hclosed : closedUpwards subsumes floor guards table = true) {root ancestor : List α}
    (hroot : root ∈ roots fits table) (hbegins : ancestor <+: root) (hne : ancestor ≠ root) :
    ancestor.length < floor ∨ ∃ guard ∈ guards, equals fits ancestor guard = true := by
  obtain ⟨pattern, hpattern, hequals⟩ := hroot
  have hlength : ancestor.length < pattern.length := by
    rw [← length_of_equals hequals]
    exact lt_of_le_of_ne hbegins.length_le fun hlen ↦ hne (hbegins.eq_of_length hlen)
  have hcheck := List.all_eq_true.1 (List.all_eq_true.1 hclosed pattern hpattern) _
    (List.mem_range.2 hlength)
  rw [Bool.or_eq_true, decide_eq_true_eq, List.any_eq_true] at hcheck
  rcases hcheck with hfloor | ⟨guard, hguard, hcovers⟩
  · exact .inl hfloor
  · exact .inr ⟨guard, hguard, equals_of_covers hsubsumes hcovers (equals_take hequals hbegins)⟩

/-- The locations a table of guards and a table of protected subtrees leave to be accepted. -/
def outside (fits : β → α → Bool) (floor : ℕ) (guards table : List (List β)) : Set (List α) :=
  {location | floor ≤ location.length ∧ guards.any (equals fits location) = false ∧
    table.any (startsWith fits location) = false}

/-- Under the finite check the protected subtrees are closed upwards. -/
theorem closedUpwards_roots
    (hsubsumes : ∀ wide narrow name, subsumes wide narrow = true → fits narrow name = true →
      fits wide name = true)
    {floor : ℕ} {guards table : List (List β)}
    (hclosed : closedUpwards subsumes floor guards table = true) :
    ClosedUpwards (outside fits floor guards table) (roots fits table) := by
  rintro root hroot ancestor hbegins ⟨hfloor, hguards, htable⟩
  by_cases hself : ancestor = root
  · have hbelow : AtOrBelow (roots fits table) ancestor := ⟨root, hroot, hself ▸ List.prefix_rfl⟩
    rw [atOrBelow_roots_iff, htable] at hbelow
    cases hbelow
  · rcases equals_guard_of_closedUpwards hsubsumes hclosed hroot hbegins hself with
      hshallow | ⟨guard, hguard, hequals⟩
    · omega
    · exact List.any_eq_false.1 hguards guard hguard hequals

/-- Below a location outside the protected subtrees there is no protected location. -/
theorem startsWith_below
    (hsubsumes : ∀ wide narrow name, subsumes wide narrow = true → fits narrow name = true →
      fits wide name = true)
    {floor : ℕ} {guards table : List (List β)}
    (hclosed : closedUpwards subsumes floor guards table = true) {location : List α}
    (houtside : location ∈ outside fits floor guards table) (more : List α) :
    table.any (startsWith fits (location ++ more)) = false := by
  have hnot : ¬ AtOrBelow (roots fits table) location := by
    rw [atOrBelow_roots_iff, houtside.2.2]
    exact Bool.false_ne_true
  have hbelow := not_atOrBelow_of_accepted (closedUpwards_roots hsubsumes hclosed) houtside hnot
    (List.prefix_append location more)
  rwa [atOrBelow_roots_iff, Bool.not_eq_true] at hbelow

/-- A table of guards that is closed upwards itself guards nothing strictly below a location that
is not guarded. -/
theorem equals_below
    (hsubsumes : ∀ wide narrow name, subsumes wide narrow = true → fits narrow name = true →
      fits wide name = true)
    {floor : ℕ} {guards : List (List β)}
    (hclosed : closedUpwards subsumes floor guards guards = true) {location : List α}
    (hfloor : floor ≤ location.length) (hguards : guards.any (equals fits location) = false)
    {more : List α} (hmore : more ≠ []) :
    guards.any (equals fits (location ++ more)) = false := by
  rw [List.any_eq_false]
  intro pattern hpattern hequals
  have hne : location ≠ location ++ more := fun h ↦ hmore (List.self_eq_append_right.1 h)
  rcases equals_guard_of_closedUpwards hsubsumes hclosed ⟨pattern, hpattern, hequals⟩
      (List.prefix_append location more) hne with hshallow | ⟨guard, hguard, hfits⟩
  · omega
  · exact List.any_eq_false.1 hguards guard hguard hfits

end Patterns

end WardSweep.Tree
