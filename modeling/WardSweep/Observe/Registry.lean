import WardSweep.Observe.Emptied
import WardSweep.Observe.Policy
import WardSweep.Redact.Bytes
import WardSweep.Rust.Utf16
import WardSweep.Tree.Descent

/-!
# Walking the registry

Each root is walked through both WOW64 views with a stack of keys.  A key that the policy excludes
is never opened, and neither is the 64-bit view's second name for the keys of the 32-bit view; both
count as holding something.  What could not be opened or enumerated is recorded.  A value larger
than the cap is asked for again without its data, and when that fails too it leaves no trace.
-/

namespace WardSweep.Observe.Registry

open Utf8 Utf16 Str Tree

/-! ## What the registry answers -/

/-- What asking for the value at one index gives. -/
inductive ValueAnswer where
  | read (name : Text) (kind : UInt32) (data : List UInt8)
  /-- More data than the cap, and what asking again without the data gives. -/
  | oversized (again : Option (Text × UInt32 × ℕ))

/-- What opening a key gives: an error, or its values and its subkeys, each with the error that
stopped their enumeration early if one did. -/
inductive KeyTree where
  | denied (error : ℕ)
  | opened (answers : List ValueAnswer) (valuesStopped : Option ℕ)
    (children : List (Text × KeyTree)) (childrenStopped : Option ℕ)

/-- A key of the walk's stack, by the name it is recorded under. -/
abbrev Key := Text × KeyTree

/-! ## Values as text -/

def wideFromBytes (data : List UInt8) : Text := fromUtf16Lossy (units data)

/-- The number of some bytes, low byte first. -/
def fromLeBytes (data : List UInt8) : ℕ :=
  data.foldr (fun byte number ↦ byte.toNat + 256 * number) 0

/-- A number of the first bytes, or nothing when there are too few. -/
def renderNumber (width : ℕ) (data : List UInt8) : Text :=
  if width ≤ data.length then decimal (fromLeBytes (data.take width)) else []

/-- Value data as text that a diff can compare and a person can read. -/
def render (kind : UInt32) (data : List UInt8) : Text :=
  if kind = 1 ∨ kind = 2 ∨ kind = 6 then trimEndMatches (· == '\x00') (wideFromBytes data)
  else if kind = 7 then
    [';'].intercalate (((wideFromBytes data).splitOn '\x00').filter fun part ↦ !part.isEmpty)
  else if kind = 4 then renderNumber 4 data
  else if kind = 11 then renderNumber 8 data
  else Redact.encodeHex data false

def kindName (kind : UInt32) : Text :=
  (if kind = 0 then "none"
  else if kind = 1 then "sz"
  else if kind = 2 then "expand_sz"
  else if kind = 3 then "binary"
  else if kind = 4 then "dword"
  else if kind = 5 then "dword_big_endian"
  else if kind = 6 then "link"
  else if kind = 7 then "multi_sz"
  else if kind = 11 then "qword"
  else "unknown").toList

/-- What is kept of an answer: a value, a refusal, or nothing. -/
def judgeValue (policy : Policy) : ValueAnswer → Option (RegistryValue ⊕ Text × Refusal)
  | .read name kind data =>
    some (match policy.refusal name (render kind data) with
      | some refusal => .inr (name, refusal)
      | none => .inl ⟨name, kindName kind, render kind data, none⟩)
  | .oversized (some (name, kind, size)) =>
    some (match policy.refusal name [] with
      | some refusal => .inr (name, refusal)
      | none => .inl ⟨name, kindName kind, [], some size⟩)
  | .oversized none => none

/-- The values kept of some answers, by name. -/
def keptValues (policy : Policy) (answers : List ValueAnswer) : List RegistryValue :=
  (answers.filterMap fun answer ↦ (judgeValue policy answer).bind Sum.getLeft?).insertionSort
    fun a b ↦ a.name ≤ b.name

/-- The values refused, by name. -/
def refusedValues (policy : Policy) (answers : List ValueAnswer) : List (Text × Refusal) :=
  (answers.filterMap fun answer ↦ (judgeValue policy answer).bind Sum.getRight?).insertionSort
    fun a b ↦ a.1 ≤ b.1

/-! ## The walk -/

/-- `HKLM\SOFTWARE\WOW6432Node` read through the 64-bit view. -/
def isWow64Alias (display view : Text) : Bool :=
  view = "64".toList && eqIgnoreAsciiCase display r"HKLM\SOFTWARE\WOW6432Node".toList

def reason : Refusal → Text
  | .hardwareIdentity => "refused by Safety Gate G3 (hardware identity)".toList
  | .personalIdentity => "refused: personal identity".toList

section

variable (policy : Policy) (view : Text)

/-- Whether a subkey is passed over without being opened. -/
def passesOver (display : Text) : Bool := policy.excludesKey display || isWow64Alias display view

/-- The name of a subkey. -/
def childDisplay (display : Text) (child : Text × KeyTree) : Text := display ++ '\\' :: child.1

/-- The keys below a key that are put on the stack. -/
def below (key : Key) : List Key :=
  match key.2 with
  | .denied _ => []
  | .opened _ _ children _ =>
    (children.filter fun child ↦ !passesOver policy view (childDisplay key.1 child)).map
      fun child ↦ (childDisplay key.1 child, child.2)

/-- What the walk has found so far. -/
structure Found where
  keys : List RegistryRecord
  accessDenied : List AccessDenied
  read : List Text
  holding : List Text

def inView (item : Text) : Text := item ++ " [view ".toList ++ view ++ [']']

def deniedItem (item reason : Text) : AccessDenied := ⟨.registry, inView view item, reason⟩

/-- The record of a key: none when it has no values. -/
def recordOf (key : Key) : Option RegistryRecord :=
  match key.2 with
  | .denied _ => none
  | .opened answers _ _ _ =>
    if keptValues policy answers = [] then none else some ⟨key.1, view, keptValues policy answers⟩

/-- What is recorded of a key as not read. -/
def deniedOf (key : Key) : List AccessDenied :=
  match key.2 with
  | .denied error => [deniedItem view key.1 ("RegOpenKeyExW returned ".toList ++ decimal error)]
  | .opened answers valuesStopped _ childrenStopped =>
    (valuesStopped.toList.map fun error ↦ deniedItem view key.1
      ("value enumeration stopped early: RegEnumValueW returned ".toList ++ decimal error)) ++
    ((refusedValues policy answers).map fun value ↦
      deniedItem view (key.1 ++ " :: ".toList ++ value.1) (reason value.2)) ++
    childrenStopped.toList.map fun error ↦ deniedItem view key.1
      ("subkey enumeration stopped early: RegEnumKeyExW returned ".toList ++ decimal error)

/-- The key that another shows to hold something: itself, or the one above it when it cannot be
opened. -/
def heldBy (key : Key) : Option Text :=
  match key.2 with
  | .denied _ => parentKey key.1
  | .opened answers valuesStopped children childrenStopped =>
    if valuesStopped.isSome || refusedValues policy answers ≠ [] ||
      keptValues policy answers ≠ [] ||
        childrenStopped.isSome ||
        children.any fun child ↦ passesOver policy view (childDisplay key.1 child) then
      some key.1
    else none

/-- The name of a key that was opened. -/
def readOf (key : Key) : Option Text :=
  match key.2 with
  | .denied _ => none
  | .opened _ _ _ _ => some key.1

/-- What one key adds. -/
def Found.enter (found : Found) (key : Key) : Found where
  keys := found.keys ++ (recordOf policy view key).toList
  accessDenied := found.accessDenied ++ deniedOf policy view key
  read := found.read ++ (readOf key).toList
  holding := found.holding ++ (heldBy policy view key).toList

theorem sum_sizeOf_below_lt (key : Key) :
    ((below policy view key).map fun child ↦ sizeOf child.2).sum < sizeOf key.2 := by
  obtain ⟨display, tree⟩ := key
  cases tree with
  | denied error =>
    simp only [below, List.map_nil, List.sum_nil, KeyTree.denied.sizeOf_spec]
    omega
  | opened answers valuesStopped children childrenStopped =>
    have hchildren : ((children.filter fun child ↦
        !passesOver policy view (childDisplay display child)).map fun child ↦ sizeOf child.2).sum ≤
          sizeOf children := by
      induction children with
      | nil => simp
      | cons child children ih =>
        obtain ⟨name, tree⟩ := child
        rw [List.cons.sizeOf_spec, Prod.mk.sizeOf_spec]
        by_cases hover : passesOver policy view (childDisplay display (name, tree)) = true
        · rw [List.filter_cons_of_neg (by simp [hover])]
          omega
        · rw [List.filter_cons_of_pos (by simp [hover]), List.map_cons, List.sum_cons]
          dsimp only
          omega
    simp only [below, List.map_map, Function.comp_def, KeyTree.opened.sizeOf_spec]
    omega

/-- Open the keys of a stack, one after another. -/
def walkStack (found : Found) : List Key → Found
  | [] => found
  | key :: stack =>
    walkStack (found.enter policy view key) ((below policy view key).reverse ++ stack)
termination_by stack => (stack.map fun key ↦ sizeOf key.2).sum
decreasing_by
  have hbelow := sum_sizeOf_below_lt policy view key
  rw [List.map_append, List.sum_append, List.map_reverse, List.sum_reverse, List.map_cons,
    List.sum_cons]
  omega

/-- Walk one root in one view. -/
def walk (root : Key) : Found :=
  if policy.excludesKey root.1 then ⟨[], [], [], []⟩
  else walkStack policy view ⟨[], [], [], []⟩ [root]

/-- The topmost empty keys of one walk. -/
def recordEmpty (found : Found) : List RegistryKeyRef :=
  (topmostEmpty found.read found.holding).map fun key ↦ ⟨key, view⟩

end

/-- Everything the registry collector returns. -/
structure Captured where
  keys : List RegistryRecord
  accessDenied : List AccessDenied
  policy : RegistryPolicy
  emptyKeys : List RegistryKeyRef

def maxValueBytes : ℕ := 4096

def roots : List Text :=
  [r"HKLM\SOFTWARE", r"HKLM\SYSTEM\CurrentControlSet\Services", r"HKCU\SOFTWARE"].map String.toList

/-- Every root in each view, in the order they are walked. -/
def walks : List (Text × Text) :=
  roots.flatMap fun root ↦ ["64", "32"].map fun view ↦ (root, view.toList)

/-- Walk every root in both views, given what each key answers in each view. -/
def registry (policy : Policy) (trees : Text → Text → KeyTree) : Captured where
  keys :=
    (walks.flatMap fun root ↦ (walk policy root.2 (root.1, trees root.1 root.2)).keys).insertionSort
      fun a b ↦ toLex (a.key, a.view) ≤ toLex (b.key, b.view)
  accessDenied :=
    (walks.flatMap fun root ↦
      (walk policy root.2 (root.1, trees root.1 root.2)).accessDenied).insertionSort
      fun a b ↦ a.item ≤ b.item
  policy := ⟨roots, ["32".toList, "64".toList], policy.keyFragments, maxValueBytes⟩
  emptyKeys :=
    (walks.flatMap fun root ↦
      recordEmpty root.2 (walk policy root.2 (root.1, trees root.1 root.2))).insertionSort
      fun a b ↦ toLex (a.key, a.view) ≤ toLex (b.key, b.view)

/-! ## What is reached -/

section

variable (policy : Policy) (view : Text)

/-- Keys lead to the keys below them that are not passed over. -/
noncomputable def keyDescent : Descent Key where
  next := below policy view
  size key := sizeOf key.2
  sum_size_lt := sum_sizeOf_below_lt policy view

/-- A key that a root leads to through keys that are opened, none of them passed over. -/
def Reached (root key : Key) : Prop :=
  policy.excludesKey root.1 = false ∧ (keyDescent policy view).Reached [root] key

variable {policy view}

/-- The walk gathers what each key it opens adds. -/
theorem walkStack_eq (found : Found) (stack : List Key) :
    walkStack policy view found stack =
      { keys := found.keys ++
          ((keyDescent policy view).visits stack).flatMap fun key ↦
            (recordOf policy view key).toList
        accessDenied := found.accessDenied ++
          ((keyDescent policy view).visits stack).flatMap (deniedOf policy view)
        read := found.read ++
          ((keyDescent policy view).visits stack).flatMap fun key ↦ (readOf key).toList
        holding := found.holding ++
          ((keyDescent policy view).visits stack).flatMap fun key ↦
            (heldBy policy view key).toList } := by
  fun_induction walkStack policy view found stack with
  | case1 found => simp [Descent.visits]
  | case2 found key stack ih =>
    rw [ih, Descent.visits]
    simp only [Found.enter, List.flatMap_cons, List.append_assoc]
    rfl

theorem walk_of_excluded {root : Key} (h : policy.excludesKey root.1 = true) :
    walk policy view root = ⟨[], [], [], []⟩ := if_pos h

theorem not_reached_of_excluded {root key : Key} (h : policy.excludesKey root.1 = true) :
    ¬ Reached policy view root key := by
  rintro ⟨hallowed, -⟩
  rw [h] at hallowed
  cases hallowed

/-- What a walk gathers is what the keys it reaches add. -/
theorem mem_gathered_iff {α : Type*} {root : Key} (gather : Found → List α) (add : Key → List α)
    (hempty : gather ⟨[], [], [], []⟩ = [])
    (hgather : ∀ stack, gather (walkStack policy view ⟨[], [], [], []⟩ stack) =
      ((keyDescent policy view).visits stack).flatMap add) {a : α} :
    a ∈ gather (walk policy view root) ↔ ∃ key, Reached policy view root key ∧ a ∈ add key := by
  by_cases hexcluded : policy.excludesKey root.1 = true
  · rw [walk_of_excluded hexcluded, hempty]
    constructor
    · intro h
      cases h
    · rintro ⟨key, hreached, -⟩
      exact absurd hreached (not_reached_of_excluded hexcluded)
  · rw [walk, if_neg hexcluded, hgather, List.mem_flatMap]
    simp only [Descent.mem_visits_iff, Reached, Bool.not_eq_true _ ▸ hexcluded, true_and]

theorem mem_keys_walk_iff {root : Key} {record : RegistryRecord} :
    record ∈ (walk policy view root).keys ↔
      ∃ key, Reached policy view root key ∧ recordOf policy view key = some record := by
  rw [mem_gathered_iff Found.keys (fun key ↦ (recordOf policy view key).toList) rfl fun stack ↦ by
    rw [walkStack_eq, List.nil_append]]
  simp only [Option.mem_toList]

theorem mem_accessDenied_walk_iff {root : Key} {denied : AccessDenied} :
    denied ∈ (walk policy view root).accessDenied ↔
      ∃ key, Reached policy view root key ∧ denied ∈ deniedOf policy view key :=
  mem_gathered_iff Found.accessDenied (deniedOf policy view) rfl fun stack ↦ by
    rw [walkStack_eq]
    rfl

theorem mem_read_walk_iff {root : Key} {display : Text} :
    display ∈ (walk policy view root).read ↔
      ∃ key, Reached policy view root key ∧ readOf key = some display := by
  rw [mem_gathered_iff Found.read (fun key ↦ (readOf key).toList) rfl fun stack ↦ by
    rw [walkStack_eq]
    rfl]
  simp only [Option.mem_toList]

theorem mem_holding_walk_iff {root : Key} {display : Text} :
    display ∈ (walk policy view root).holding ↔
      ∃ key, Reached policy view root key ∧ heldBy policy view key = some display := by
  rw [mem_gathered_iff Found.holding (fun key ↦ (heldBy policy view key).toList) rfl fun stack ↦ by
    rw [walkStack_eq]
    rfl]
  simp only [Option.mem_toList]

theorem mem_below_iff {key child : Key} :
    child ∈ below policy view key ↔ ∃ answers valuesStopped children childrenStopped name,
      key.2 = .opened answers valuesStopped children childrenStopped ∧
        (name, child.2) ∈ children ∧ child.1 = key.1 ++ '\\' :: name ∧
          passesOver policy view child.1 = false := by
  obtain ⟨display, tree⟩ := key
  obtain ⟨childDisplay', childTree⟩ := child
  cases tree with
  | denied error => simp [below]
  | opened answers valuesStopped children childrenStopped =>
    simp only [below, List.mem_map, List.mem_filter, Bool.not_eq_true', Prod.mk.injEq,
      KeyTree.opened.injEq]
    constructor
    · rintro ⟨⟨name, tree⟩, ⟨hmem, hover⟩, rfl, rfl⟩
      exact ⟨_, _, _, _, name, ⟨rfl, rfl, rfl, rfl⟩, hmem, rfl, hover⟩
    · rintro ⟨_, _, _, _, name, ⟨rfl, rfl, rfl, rfl⟩, hmem, rfl, hover⟩
      exact ⟨(name, childTree), ⟨hmem, hover⟩, rfl, rfl⟩

/-- Below its root a walk opens no key that is passed over. -/
theorem Reached.allowed {root key : Key} (h : Reached policy view root key) :
    policy.excludesKey key.1 = false := by
  refine @Descent.of_reached _ (keyDescent policy view) (fun key ↦ policy.excludesKey key.1 = false)
    [root] ?_ ?_ key h.2
  · intro top htop
    rw [List.mem_singleton.mp htop]
    exact h.1
  · intro key child hchild
    obtain ⟨-, -, -, -, -, -, -, -, hover⟩ := mem_below_iff.mp hchild
    exact (Bool.or_eq_false_iff.mp hover).1

/-! ## What is empty -/

/-- An answer of the registry leaves no trace in the snapshot. -/
def ValueAnswer.IsLost (answer : ValueAnswer) : Prop := answer = .oversized none

/-- A key that was opened and enumerated to its end, and in which there is neither a value that
could be asked for nor a key that is passed over. -/
def HoldsNothing (policy : Policy) (view : Text) (key : Key) : Prop :=
  ∃ answers children, key.2 = .opened answers none children none ∧
    (∀ answer ∈ answers, answer.IsLost) ∧
      ∀ child ∈ children, passesOver policy view (childDisplay key.1 child) = false

/-- Whatever is at or below a key was opened and holds nothing. -/
structure SeenEmpty (policy : Policy) (view : Text) (root : Key) (display : Text) : Prop where
  opened : ∀ key, Reached policy view root key → (readOf key).isSome →
    keyTree.AtOrBelow key.1 display →
    HoldsNothing policy view key
  denied : ∀ key, Reached policy view root key → readOf key = none →
    ∀ parent, parentKey key.1 = some parent → ¬ keyTree.AtOrBelow parent display

theorem insertionSort_eq_nil_iff {α : Type*} (r : α → α → Prop) [DecidableRel r]
    {elements : List α} :
    elements.insertionSort r = [] ↔ elements = [] := by
  rw [← List.length_eq_zero_iff, List.length_insertionSort, List.length_eq_zero_iff]

theorem keptValues_eq_nil_iff {answers : List ValueAnswer} :
    keptValues policy answers = [] ↔
      ∀ answer ∈ answers, (judgeValue policy answer).bind Sum.getLeft? = none := by
  rw [keptValues, insertionSort_eq_nil_iff, List.filterMap_eq_nil_iff]

theorem refusedValues_eq_nil_iff {answers : List ValueAnswer} :
    refusedValues policy answers = [] ↔
      ∀ answer ∈ answers, (judgeValue policy answer).bind Sum.getRight? = none := by
  rw [refusedValues, insertionSort_eq_nil_iff, List.filterMap_eq_nil_iff]

theorem judgeValue_eq_none_iff {answer : ValueAnswer} :
    judgeValue policy answer = none ↔ answer.IsLost := by
  unfold ValueAnswer.IsLost
  cases answer with
  | read name kind data => simp [judgeValue]
  | oversized again => cases again <;> simp [judgeValue]

/-- Nothing is kept and nothing is refused of answers that are all lost, and only of those. -/
theorem values_eq_nil_iff {answers : List ValueAnswer} :
    refusedValues policy answers = [] ∧ keptValues policy answers = [] ↔
      ∀ answer ∈ answers, answer.IsLost := by
  rw [refusedValues_eq_nil_iff, keptValues_eq_nil_iff, ← forall₂_and]
  refine forall₂_congr fun answer _ ↦ ?_
  rw [← @judgeValue_eq_none_iff policy]
  cases judgeValue policy answer with
  | none => simp
  | some judged => cases judged <;> simp

theorem heldBy_opened_eq_none_iff {key : Key} (hread : (readOf key).isSome) :
    heldBy policy view key = none ↔ HoldsNothing policy view key := by
  obtain ⟨display, tree⟩ := key
  cases tree with
  | denied error => cases hread
  | opened answers valuesStopped children childrenStopped =>
    simp only [HoldsNothing, KeyTree.opened.injEq, ← @values_eq_nil_iff policy, heldBy,
      ite_eq_right_iff, reduceCtorEq, imp_false, Bool.not_eq_true, Bool.or_eq_false_iff,
      Option.isSome_eq_false_iff, Option.isNone_iff_eq_none, decide_eq_false_iff_not, not_not,
      List.any_eq_false]
    constructor
    · rintro ⟨⟨⟨⟨rfl, hrefused⟩, hkept⟩, rfl⟩, hover⟩
      exact ⟨answers, children, ⟨rfl, rfl, rfl, rfl⟩, ⟨hrefused, hkept⟩, hover⟩
    · rintro ⟨_, _, ⟨rfl, rfl, rfl, rfl⟩, ⟨hrefused, hkept⟩, hover⟩
      exact ⟨⟨⟨⟨rfl, hrefused⟩, hkept⟩, rfl⟩, hover⟩

/-- An opened key that holds something is marked itself. -/
theorem heldBy_of_opened {key : Key} (hread : (readOf key).isSome) {held : Text}
    (h : heldBy policy view key = some held) : held = key.1 := by
  obtain ⟨display, tree⟩ := key
  cases tree with
  | denied error => cases hread
  | opened answers valuesStopped children childrenStopped =>
    rw [heldBy, Option.ite_none_right_eq_some] at h
    exact (Option.some.inj h.2).symm

theorem heldBy_of_denied {key : Key} (hread : readOf key = none) :
    heldBy policy view key = parentKey key.1 := by
  obtain ⟨display, tree⟩ := key
  cases tree with
  | denied error => rfl
  | opened answers valuesStopped children childrenStopped => cases hread

/-- Nothing is marked at or below a key exactly when all of that was seen to be empty. -/
theorem not_heldBelow_iff {root : Key} {display : Text} :
    ¬ keyTree.HeldBelow (walk policy view root).holding display ↔
      SeenEmpty policy view root display := by
  unfold Hierarchy.HeldBelow
  simp only [mem_holding_walk_iff]
  push Not
  constructor
  · intro h
    constructor
    · intro key hreached hread hbelow
      rw [← heldBy_opened_eq_none_iff hread, Option.eq_none_iff_forall_ne_some]
      intro held hheld
      have hself := heldBy_of_opened hread hheld
      exact h held ⟨key, hreached, hheld⟩ (hself ▸ hbelow)
    · intro key hreached hread parent hparent
      exact h parent ⟨key, hreached, (heldBy_of_denied hread).trans hparent⟩
  · rintro h held ⟨key, hreached, hheld⟩ hbelow
    cases hread : readOf key with
    | none =>
      exact h.denied key hreached hread held ((heldBy_of_denied hread).symm.trans hheld) hbelow
    | some name =>
      have hisSome := Option.isSome_of_eq_some hread
      have hself := heldBy_of_opened hisSome hheld
      have hnothing := h.opened key hreached hisSome (hself ▸ hbelow)
      rw [(heldBy_opened_eq_none_iff hisSome).mpr hnothing] at hheld
      cases hheld

/-- A key that was opened. -/
def IsOpened (policy : Policy) (view : Text) (root : Key) (display : Text) : Prop :=
  ∃ key, Reached policy view root key ∧ readOf key = some display

/-- The topmost of the opened keys that were seen to be empty. -/
structure IsEmptied (policy : Policy) (view : Text) (root : Key) (display : Text) : Prop where
  opened : IsOpened policy view root display
  empty : SeenEmpty policy view root display
  topmost : ∀ parent, parentKey display = some parent → IsOpened policy view root parent →
    ¬ SeenEmpty policy view root parent

theorem mem_recordEmpty_iff {root : Key} {ref : RegistryKeyRef} :
    ref ∈ recordEmpty view (walk policy view root) ↔
      ref.view = view ∧ IsEmptied policy view root ref.key := by
  obtain ⟨display, named⟩ := ref
  have hmem : display ∈ topmostEmpty (walk policy view root).read (walk policy view root).holding ↔
      IsEmptied policy view root display := by
    rw [topmostEmpty, List.mem_insertionSort, Hierarchy.mem_tops_markAll_iff, mem_read_walk_iff]
    constructor
    · rintro ⟨hopened, hempty, hparent⟩
      refine ⟨hopened, not_heldBelow_iff.mp hempty, fun parent hup hread hseen ↦ ?_⟩
      exact not_heldBelow_iff.mpr hseen (hparent parent hup (mem_read_walk_iff.mpr hread))
    · rintro ⟨hopened, hempty, htopmost⟩
      refine ⟨hopened, not_heldBelow_iff.mpr hempty, fun parent hup hread ↦ ?_⟩
      by_contra hheld
      exact htopmost parent hup (mem_read_walk_iff.mp hread) (not_heldBelow_iff.mp hheld)
  rw [recordEmpty, List.mem_map]
  constructor
  · rintro ⟨key, hkey, heq⟩
    obtain ⟨rfl, rfl⟩ := RegistryKeyRef.mk.inj heq
    exact ⟨rfl, hmem.mp hkey⟩
  · rintro ⟨rfl, hemptied⟩
    exact ⟨display, hmem.mpr hemptied, rfl⟩

/-- What a capture says of the registry, root by root and view by view. -/
structure Accounts (policy : Policy) (trees : Text → Text → KeyTree)
    (captured : Captured) : Prop where
  /-- A record for each key reached that has values to keep. -/
  keys : ∀ record, record ∈ captured.keys ↔ ∃ root ∈ walks, ∃ key,
    Reached policy root.2 (root.1, trees root.1 root.2) key ∧
      recordOf policy root.2 key = some record
  /-- Whatever could not be opened or enumerated, and every value refused. -/
  accessDenied : ∀ denied, denied ∈ captured.accessDenied ↔ ∃ root ∈ walks, ∃ key,
    Reached policy root.2 (root.1, trees root.1 root.2) key ∧ denied ∈ deniedOf policy root.2 key
  emptyKeys : ∀ ref, ref ∈ captured.emptyKeys ↔ ∃ root ∈ walks, ref.view = root.2 ∧
    IsEmptied policy root.2 (root.1, trees root.1 root.2) ref.key
  /-- No key that is opened is excluded. -/
  allowed : ∀ root ∈ walks, ∀ key, Reached policy root.2 (root.1, trees root.1 root.2) key →
    policy.excludesKey key.1 = false

/-- A capture accounts for every key: it is excluded with all below it and never opened, or could
not be opened and is recorded so, or is opened; and of the opened keys the topmost are listed as
empty that were seen to hold nothing, they and whatever is below them. -/
theorem registry_accounts (policy : Policy) (trees : Text → Text → KeyTree) :
    Accounts policy trees (registry policy trees) where
  keys record := by
    rw [registry, List.mem_insertionSort, List.mem_flatMap]
    simp only [mem_keys_walk_iff]
  accessDenied denied := by
    rw [registry, List.mem_insertionSort, List.mem_flatMap]
    simp only [mem_accessDenied_walk_iff]
  emptyKeys ref := by
    rw [registry, List.mem_insertionSort, List.mem_flatMap]
    simp only [mem_recordEmpty_iff]
  allowed root _ key hreached := hreached.allowed

end

end WardSweep.Observe.Registry
