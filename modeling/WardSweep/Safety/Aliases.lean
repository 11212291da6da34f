import WardSweep.Safety.Panics

/-!
# Keys with two names

Windows shows `HKLM\SOFTWARE\Classes` again as `HKCR`, keeps a user's classes in a hive of their
own, and mirrors `SOFTWARE` in `SOFTWARE\WOW6432Node` for 32-bit programs.  Each hive is judged by
its own branch and its own tables, so a key is protected under all of its names only where these
agree.  The tables are compared by what is left of them below the names two spellings start with.
-/

namespace WardSweep.Denylist

open Utf8 Str Paths

/-- The key of a hive with these components. -/
def keyOf (hive : Hive) (components : List Text) : CanonicalRegKey where
  hive := hive
  components := components
  text := hive.short ++ joinSegments components

/-- `SOFTWARE\CLASSES` followed by further components. -/
def classes (below : List Text) : List Text := "SOFTWARE".toList :: "CLASSES".toList :: below

/-- `SOFTWARE\WOW6432NODE` followed by further components. -/
def mirrored (below : List Text) : List Text := "SOFTWARE".toList :: "WOW6432NODE".toList :: below

/-- Below the classes, the keys that register components of other software. -/
def registeringKeys : List Text := ["APPID", "CLSID", "INTERFACE", "TYPELIB"].map String.toList

/-- The components are the name of one of the registering keys. -/
def isRegisteringKey (below : List Text) : Bool :=
  match below with
  | [name] => registeringKeys.any (eqIgnoreAsciiCase name)
  | _ => false

/-- The components begin with the name of the 32-bit mirror. -/
def startsMirrored (below : List Text) : Bool :=
  below.head?.any fun first ↦ eqIgnoreAsciiCase first "WOW6432NODE".toList

/-! ## The tables below the classes -/

theorem machineContainerKeys_classes (below : List Text) :
    machineContainerKeys.any (equalsPattern (classes below)) =
      (below.isEmpty || isRegisteringKey below) := by
  have hresidual : Tree.residual wants "CLASSES".toList
      (Tree.residual wants "SOFTWARE".toList machineContainerKeys) =
        [] :: registeringKeys.map ([·]) := by decide
  have hliteral : ∀ want ∈ registeringKeys, (want == "*".toList) = false := by decide
  change machineContainerKeys.any (Tree.equals wants (_ :: _ :: below)) = _
  rw [Tree.any_equals_cons, Tree.any_equals_cons, hresidual]
  match below with
  | [] => rfl
  | [name] =>
    rw [List.any_cons, Tree.equals_cons_nil, Bool.false_or, List.any_map, List.isEmpty_cons,
      Bool.false_or, isRegisteringKey]
    rw [Bool.eq_iff_iff, List.any_eq_true, List.any_eq_true]
    refine exists_congr fun want ↦ and_congr_right fun hwant ↦ ?_
    rw [Function.comp_apply, Tree.equals_cons_cons, Tree.equals_nil_nil, Bool.and_true, wants,
      hliteral want hwant, Bool.false_or]
  | first :: second :: below =>
    rw [List.any_cons, Tree.equals_cons_nil, Bool.false_or, List.any_map]
    simp [isRegisteringKey]

theorem machineProtectedKeys_classes (below : List Text) :
    machineProtectedKeys.any (startsWithPattern (classes below)) = false := by
  have hresidual : Tree.residual wants "CLASSES".toList
      (Tree.residual wants "SOFTWARE".toList machineProtectedKeys) = [] := by decide
  change machineProtectedKeys.any (Tree.startsWith wants (_ :: _ :: below)) = _
  rw [Tree.any_startsWith_cons (by decide), Tree.any_startsWith_cons (by decide), hresidual,
    List.any_nil]

/-- The mirror itself is guarded, and nothing else is by its own name. -/
theorem machineContainerKeys_mirrored (below : List Text) :
    machineContainerKeys.any (equalsPattern (mirrored below)) = below.isEmpty := by
  have hresidual : Tree.residual wants "WOW6432NODE".toList
      (Tree.residual wants "SOFTWARE".toList machineContainerKeys) = [[]] := by decide
  change machineContainerKeys.any (Tree.equals wants (_ :: _ :: below)) = _
  rw [Tree.any_equals_cons, Tree.any_equals_cons, hresidual]
  cases below <;> simp

theorem machineProtectedKeys_mirrored (below : List Text) :
    machineProtectedKeys.any (startsWithPattern (mirrored below)) = false := by
  have hresidual : Tree.residual wants "WOW6432NODE".toList
      (Tree.residual wants "SOFTWARE".toList machineProtectedKeys) = [] := by decide
  change machineProtectedKeys.any (Tree.startsWith wants (_ :: _ :: below)) = _
  rw [Tree.any_startsWith_cons (by decide), Tree.any_startsWith_cons (by decide), hresidual,
    List.any_nil]

/-! ## The machine's branch -/

theorem nativeView_mirrored (below : List Text) :
    nativeView (mirrored below) = some ("SOFTWARE".toList :: below) := rfl

theorem nativeView_software {below : List Text} (h : startsMirrored below = false) :
    nativeView ("SOFTWARE".toList :: below) = none := by
  cases below with
  | nil => rfl
  | cons first below =>
    have hfirst : eqIgnoreAsciiCase first "WOW6432NODE".toList = false := h
    rw [nativeView, hfirst, Bool.and_false]
    rfl

/-- Below `SOFTWARE` there is no service and no protected hive. -/
theorem evaluateMachineKey_software (below : List Text) (exceptions : Exceptions) :
    evaluateMachineKey ("SOFTWARE".toList :: below) exceptions =
      evaluateSoftwareKey ("SOFTWARE".toList :: below) := by
  have hhive : isProtectedHive ("SOFTWARE".toList :: below) = false := rfl
  have hsystem : isSystemHive ("SOFTWARE".toList :: below) = false := rfl
  have hleaf := serviceKeyLeaf_of_not_system (Bool.eq_false_iff.1 hsystem)
  unfold evaluateMachineKey
  change (if isProtectedHive ("SOFTWARE".toList :: below) = true then _ else _) = _
  rw [if_neg (Bool.eq_false_iff.1 hhive), hleaf, Outcome.bind_ok]
  change (if isSystemHive ("SOFTWARE".toList :: below) = true then _ else _) = _
  rw [if_neg (Bool.eq_false_iff.1 hsystem)]

/-- A key below `SOFTWARE` is refused exactly when it is not ordinary. -/
theorem refuses_software_iff (below : List Text) :
    (checkRegistryKey (keyOf .hklm ("SOFTWARE".toList :: below)) .none).Refuses ↔
      ¬ IsOrdinaryKey ("SOFTWARE".toList :: below) := by
  change (evaluateMachineKey ("SOFTWARE".toList :: below) .none).Refuses ↔ _
  rw [evaluateMachineKey_software, (evaluateSoftwareKey_returns _).refuses_iff, ne_eq,
    evaluateSoftwareKey_eq_ok_iff]

theorem refuses_classes_iff (below : List Text) :
    (checkRegistryKey (keyOf .hklm (classes below)) .none).Refuses ↔
      below = [] ∨ isRegisteringKey below = true := by
  have hnative : nativeView (classes below) = none := rfl
  have hcontainer := machineContainerKeys_classes below
  rw [classes, refuses_software_iff, not_iff_comm, not_or, Bool.not_eq_true]
  constructor
  · rintro ⟨hne, hother⟩
    refine ⟨fun view hview ↦ ?_, ?_, fun view hview ↦ ?_, by simp⟩
    · obtain rfl := List.mem_singleton.1 hview
      exact machineProtectedKeys_classes below
    · exact hcontainer.trans (by rw [hother, List.isEmpty_eq_false_iff.2 hne]; rfl)
    · cases hview
  · intro hordinary
    have hnot := hcontainer.symm.trans hordinary.notContainer
    rw [Bool.or_eq_false_iff, List.isEmpty_eq_false_iff] at hnot
    exact hnot

/-- The mirror of the classes is protected just as the classes are. -/
theorem refuses_mirrored_classes_iff (below : List Text) :
    (checkRegistryKey (keyOf .hklm (mirrored ("CLASSES".toList :: below))) .none).Refuses ↔
      below = [] ∨ isRegisteringKey below = true := by
  have hnative := nativeView_mirrored ("CLASSES".toList :: below)
  have hcontainer := machineContainerKeys_classes below
  rw [mirrored, refuses_software_iff, not_iff_comm, not_or, Bool.not_eq_true]
  constructor
  · rintro ⟨hne, hother⟩
    refine ⟨fun view hview ↦ ?_, machineContainerKeys_mirrored _, fun view hview _ ↦ ?_, by simp⟩
    · rw [List.mem_cons, Option.mem_toList] at hview
      rcases hview with rfl | hview
      · exact machineProtectedKeys_mirrored _
      · obtain rfl := Option.some.inj (hnative.symm.trans hview)
        exact machineProtectedKeys_classes below
    · obtain rfl := Option.some.inj (hnative.symm.trans hview)
      exact hcontainer.trans (by rw [hother, List.isEmpty_eq_false_iff.2 hne]; rfl)
  · intro hordinary
    have hnot := hcontainer.symm.trans (hordinary.notContainerWow _ hnative
      (Nat.succ_lt_succ (Nat.succ_pos _)))
    rw [Bool.or_eq_false_iff, List.isEmpty_eq_false_iff] at hnot
    exact hnot

/-- Every protection of a key below `SOFTWARE` reaches its mirror. -/
theorem refuses_mirrored {below : List Text} (hmirrored : startsMirrored below = false)
    (h : (checkRegistryKey (keyOf .hklm ("SOFTWARE".toList :: below)) .none).Refuses) :
    (checkRegistryKey (keyOf .hklm (mirrored below)) .none).Refuses := by
  rw [refuses_software_iff] at h
  rw [mirrored, refuses_software_iff]
  refine mt (fun hordinary ↦ ?_) h
  have hne : below ≠ [] := by
    rintro rfl
    exact absurd hordinary.notContainer (by decide)
  have hdeep : 2 ≤ ("SOFTWARE".toList :: below).length := by
    rw [List.length_cons]
    exact Nat.succ_le_succ (List.length_pos_of_ne_nil hne)
  have hview : "SOFTWARE".toList :: below ∈ nativeView (mirrored below) := rfl
  refine ⟨fun view hself ↦ ?_, hordinary.notContainerWow _ hview hdeep, ?_, hdeep⟩
  · rw [nativeView_software hmirrored] at hself
    obtain rfl := List.mem_singleton.1 hself
    exact hordinary.notProtected _ (List.mem_cons_of_mem _ (Option.mem_toList.2 hview))
  · rw [nativeView_software hmirrored]
    rintro view ⟨⟩

/-! ## The other branches -/

theorem refuses_classesRoot_iff (components : List Text) :
    (checkRegistryKey (keyOf .hkcr components) .none).Refuses ↔ components.length < 2 := by
  change (shallowFloor components).Refuses ↔ _
  unfold shallowFloor
  split_ifs with hshallow
  · exact iff_of_true (Outcome.refuses_err _) hshallow
  · exact iff_of_false (Outcome.not_refuses_ok _) hshallow

/-- A user's classes are judged alike in the hive of their own and below `SOFTWARE`. -/
theorem checkRegistryKey_userClasses {sid : Text} (hsid : endsWith sid "_CLASSES".toList = false)
    (below : List Text) :
    (checkRegistryKey (keyOf .hku ((sid ++ "_CLASSES".toList) :: below)) .none).Refuses ↔
      (checkRegistryKey (keyOf .hku (sid :: classes below)) .none).Refuses := by
  have hown : checkRegistryKey (keyOf .hku (sid :: classes below)) .none =
      evaluateUserKey (classes below) := if_neg (Bool.eq_false_iff.1 hsid)
  have hends : endsWith (sid ++ "_CLASSES".toList) "_CLASSES".toList = true :=
    List.isSuffixOf_iff_suffix.2 (List.suffix_append _ _)
  rw [hown]
  cases below with
  | nil =>
    refine iff_of_true (Outcome.refuses_err _) ?_
    rw [(evaluateUserKey_returns _).refuses_iff]
    decide
  | cons first below =>
    have hclasses : checkRegistryKey
        (keyOf .hku ((sid ++ "_CLASSES".toList) :: first :: below)) .none =
          evaluateUserKey (classes (first :: below)) := if_pos hends
    rw [hclasses]

/-! ## One key, one verdict -/

/-- Every name of the key with these components below the classes, below `SOFTWARE` and below a
user's classes gets the protection of the first. -/
structure AliasesAgree (sid : Text) (below : List Text) : Prop where
  classesRoot : (checkRegistryKey (keyOf .hklm (classes below)) .none).Refuses →
    (checkRegistryKey (keyOf .hkcr below) .none).Refuses
  classesRootMirrored :
    (checkRegistryKey (keyOf .hklm (mirrored ("CLASSES".toList :: below))) .none).Refuses →
      (checkRegistryKey (keyOf .hkcr ("WOW6432NODE".toList :: below)) .none).Refuses
  software : startsMirrored below = false →
    (checkRegistryKey (keyOf .hklm ("SOFTWARE".toList :: below)) .none).Refuses →
      (checkRegistryKey (keyOf .hklm (mirrored below)) .none).Refuses
  userClasses :
    (checkRegistryKey (keyOf .hku ((sid ++ "_CLASSES".toList) :: below)) .none).Refuses ↔
      (checkRegistryKey (keyOf .hku (sid :: classes below)) .none).Refuses

/-- The branches agree on every key but the mirrors of the registering keys, which are protected
below `SOFTWARE\WOW6432Node\Classes` and not below `HKCR\WOW6432Node`. -/
theorem aliasesAgree_iff {sid : Text} (hsid : endsWith sid "_CLASSES".toList = false)
    (below : List Text) : AliasesAgree sid below ↔ isRegisteringKey below = false := by
  constructor
  · intro h
    rw [← Bool.not_eq_true]
    intro hregistering
    have hroot := h.classesRootMirrored ((refuses_mirrored_classes_iff below).2 (.inr hregistering))
    rw [refuses_classesRoot_iff] at hroot
    match below, hregistering with
    | [_], _ => exact absurd hroot (by simp)
  · intro hother
    refine ⟨?_, ?_, refuses_mirrored, checkRegistryKey_userClasses hsid below⟩
    · rw [refuses_classes_iff, refuses_classesRoot_iff, hother]
      rintro (rfl | h)
      · exact Nat.two_pos
      · cases h
    · rw [refuses_mirrored_classes_iff, refuses_classesRoot_iff, hother]
      rintro (rfl | h)
      · exact Nat.one_lt_two
      · cases h

theorem aliasesAgree_vendor : endsWith "S-1-5-21".toList "_CLASSES".toList = false ∧
    (AliasesAgree "S-1-5-21".toList ["VENDOR".toList] ↔
      isRegisteringKey ["VENDOR".toList] = false) :=
  ⟨by decide, aliasesAgree_iff (by decide) ["VENDOR".toList]⟩

/-- The 32-bit view of the class registrations is refused by one name and accepted by the other. -/
theorem mirrored_clsid_is_unprotected :
    checkRegistryKey (keyOf .hklm (mirrored (["CLASSES", "CLSID"].map String.toList))) .none =
        .err .protectedRegistryKey ∧
      checkRegistryKey (keyOf .hkcr (["WOW6432NODE", "CLSID"].map String.toList)) .none = .ok () ∧
      ¬ AliasesAgree "S-1-5-21".toList ["CLSID".toList] := by
  refine ⟨by decide, by decide, fun h ↦ ?_⟩
  obtain ⟨error, herror⟩ := h.classesRootMirrored ⟨.protectedRegistryKey, by decide⟩
  rw [show checkRegistryKey (keyOf .hkcr ("WOW6432NODE".toList :: ["CLSID".toList])) .none =
    .ok () by decide] at herror
  cases herror

end WardSweep.Denylist
