import WardSweep.Safety.Rewrites

/-!
# What the deny-list sees of a profile

Whether the deny-list accepts a path on a drive depends neither on the drive letter nor on case, and
below `Users` not on whose profile it is: every pattern that begins with `Users` takes any name
after it.
-/

namespace WardSweep.Denylist

open Utf8 Str Paths

/-- The deny-list accepts a text as a path of the catalog. -/
def Accepts (exceptions : Exceptions) (text : Text) : Prop :=
  ∃ canonical, canonicaliseSyntactic text = .ok canonical ∧
    checkPath canonical exceptions .catalogLoad = .ok ()

/-- The components of the paths that the location rules accept. -/
def AcceptsComponents (exceptions : Exceptions) (components : List Text) : Prop :=
  (∃ file, components = driverFile file ∧ exceptions.allowsDriverFile file = true) ∨
    ∃ top below, components = top :: below ∧ listed protectedTopLevel top = false ∧
      IsOrdinary top below

/-! ## Paths on a drive -/

/-- The segments of what follows the root of a path on a drive. -/
def segmentsBelow (body : Text) : List Text :=
  (trimEndMatches isWhitespace (unify body)).splitOn '\\'

theorem trim_unify_of_drive {letter : Char} (hletter : isAsciiAlphabetic letter.toNat = true)
    (body : Text) :
    trim (unify (letter :: ':' :: '\\' :: body)) =
      letter :: ':' :: '\\' :: trimEndMatches isWhitespace (unify body) := by
  have hblank := not_isWhitespace_of_isAsciiAlphabetic hletter
  have hslash : letter ≠ '/' := by
    rintro rfl
    exact absurd hletter (by decide)
  have hunify : unify (letter :: ':' :: '\\' :: body) = letter :: ':' :: '\\' :: unify body := by
    simp [unify, hslash]
  have hkept : ([letter, ':'] ++ '\\' :: unify body).dropWhile isWhitespace =
      [letter, ':'] ++ '\\' :: unify body := by
    simp [hblank]
  calc trim (unify (letter :: ':' :: '\\' :: body))
      = trimEndMatches isWhitespace
        (([letter, ':'] ++ '\\' :: unify body).dropWhile isWhitespace) := by
        rw [hunify]
        rfl
    _ = [letter, ':'] ++ '\\' :: trimEndMatches isWhitespace (unify body) := by
        rw [hkept, trimEndMatches_append_cons _ _ _ (by decide)]

/-- The deny-list accepts a path on a drive by the components that its segments walk to. -/
theorem accepts_drive_iff {letter : Char} (hletter : isAsciiAlphabetic letter.toNat = true)
    (exceptions : Exceptions) (body : Text) :
    Accepts exceptions (letter :: ':' :: '\\' :: body) ↔
      '\x00' ∉ body ∧
        CutsRoot (letter :: ':' :: '\\' :: trimEndMatches isWhitespace (unify body)) ∧
        ∃ components, normaliseSegments [] .driveRooted (segmentsBelow body) [] false =
          .ok (components, false) ∧ AcceptsComponents exceptions components := by
  have htrim := trim_unify_of_drive hletter body
  have hspells : SpellsDrive letter (trimEndMatches isWhitespace (unify body))
      (letter :: ':' :: '\\' :: trimEndMatches isWhitespace (unify body)) := ⟨hletter, .inl rfl⟩
  have hnul : '\x00' ∈ letter :: ':' :: '\\' :: body ↔ '\x00' ∈ body := by
    have hne : '\x00' ≠ letter := by
      rintro rfl
      exact absurd hletter (by decide)
    simp [hne]
  unfold Accepts
  constructor
  · intro haccepts
    obtain ⟨canonical, hcanonical, hcheck⟩ := haccepts
    obtain ⟨hfree, root, rest, hroot, hwalk, -⟩ := exists_walk_of_canonicalise hcanonical
    rw [htrim] at hroot hwalk
    have hcuts : CutsRoot (letter :: ':' :: '\\' :: trimEndMatches isWhitespace (unify body)) := by
      rw [← splitRoot_returns_iff, hroot]
      exact Outcome.returns_ok _
    rw [splitRoot_of_drive hspells hcuts, Outcome.ok.injEq] at hroot
    obtain ⟨hkind, -, rfl⟩ : PathKind.driveRooted = canonical.kind ∧ [letter.toUpper, ':'] = root ∧
        trimEndMatches isWhitespace (unify body) = rest := by simpa using hroot
    have hupper : IsUpper canonical.components := IsCanonical.upper ⟨_, .inl hcanonical⟩
    obtain ⟨hshort, -, hcomponents⟩ := (evaluateLocation_eq_ok_iff exceptions hupper).mp hcheck
    refine ⟨fun h ↦ hfree (hnul.mpr h), hcuts, canonical.components, ?_, hcomponents⟩
    have hwalk' := normaliseSegments_ok_congr [] hwalk
    rwa [← hkind, hshort] at hwalk'
  · intro hwalks
    obtain ⟨hfree, hcuts, components, hwalk, hcomponents⟩ := hwalks
    have hcanonical := canonicaliseSyntactic_of_walk (fun h ↦ hfree (hnul.mp h))
      (htrim ▸ List.cons_ne_nil _ _) (htrim ▸ splitRoot_of_drive hspells hcuts)
      (normaliseSegments_ok_congr _ hwalk)
    refine ⟨_, hcanonical, ?_⟩
    have hupper := IsCanonical.upper ⟨_, .inl hcanonical⟩
    exact (evaluateLocation_eq_ok_iff exceptions hupper).mpr ⟨rfl, rfl, hcomponents⟩

/-! ## Case -/

theorem trimEnd_unify_toAsciiUppercase (body : Text) :
    trimEndMatches isWhitespace (unify (toAsciiUppercase body)) =
      toAsciiUppercase (trimEndMatches isWhitespace (unify body)) := by
  rw [unify_toAsciiUppercase, trimEndMatches_toAsciiUppercase _ isWhitespace_toUpper]

/-- Paths on drives that differ in case only walk alike. -/
theorem normaliseSegments_segmentsBelow_congr {body body' : Text}
    (hcase : toAsciiUppercase body = toAsciiUppercase body') (original : Text) (kind : PathKind) :
    normaliseSegments original kind (segmentsBelow body) [] false =
      normaliseSegments original kind (segmentsBelow body') [] false := by
  apply normaliseSegments_congr
  have hsegments (text : Text) : (segmentsBelow text).map toAsciiUppercase =
      segmentsBelow (toAsciiUppercase text) := by
    rw [segmentsBelow, segmentsBelow, trimEnd_unify_toAsciiUppercase, splitOn_toAsciiUppercase]
  have hmap : (segmentsBelow body).map toAsciiUppercase =
      (segmentsBelow body').map toAsciiUppercase := by
    rw [hsegments, hsegments, hcase]
  have hequal : List.Forall₂ Eq ((segmentsBelow body).map toAsciiUppercase)
      ((segmentsBelow body').map toAsciiUppercase) := by
    rw [List.forall₂_eq_eq_eq]
    exact hmap
  rw [List.forall₂_map_left_iff, List.forall₂_map_right_iff] at hequal
  exact hequal.imp fun raw raw' h ↦ sameSegment_of_upper h.symm

/-- Case does not matter, as long as the text can be cut where the roots end. -/
theorem Accepts.of_upper {exceptions : Exceptions} {letter letter' : Char} {body body' : Text}
    (h : Accepts exceptions (letter :: ':' :: '\\' :: body))
    (hletter : isAsciiAlphabetic letter.toNat = true)
    (hletter' : isAsciiAlphabetic letter'.toNat = true)
    (hcase : toAsciiUppercase body = toAsciiUppercase body')
    (hcuts : CutsRoot (letter' :: ':' :: '\\' :: trimEndMatches isWhitespace (unify body'))) :
    Accepts exceptions (letter' :: ':' :: '\\' :: body') := by
  obtain ⟨hfree, -, components, hwalk, hcomponents⟩ := (accepts_drive_iff hletter _ _).mp h
  apply (accepts_drive_iff hletter' _ _).mpr
  refine ⟨?_, hcuts, components, ?_, hcomponents⟩
  · rwa [← mem_toAsciiUppercase_iff (by decide), ← hcase, mem_toAsciiUppercase_iff (by decide)]
  · rwa [← normaliseSegments_segmentsBelow_congr hcase]

/-! ## Profiles -/

/-- Components that differ at most in the name after `Users`. -/
def SameBelowProfile (name name' : Text) (components components' : List Text) : Prop :=
  components = components' ∨
    ∃ more, components = "USERS".toList :: name :: more ∧
      components' = "USERS".toList :: name' :: more

namespace SameBelowProfile

variable {name name' : Text} {components components' : List Text}

theorem eq_nil_iff (h : SameBelowProfile name name' components components') :
    components = [] ↔ components' = [] := by
  cases h with
  | inl h => rw [h]
  | inr h =>
    obtain ⟨more, rfl, rfl⟩ := h
    simp

theorem append (h : SameBelowProfile name name' components components') (last : Text) :
    SameBelowProfile name name' (components ++ [last]) (components' ++ [last]) := by
  cases h with
  | inl h => exact .inl (by rw [h])
  | inr h =>
    obtain ⟨more, rfl, rfl⟩ := h
    exact .inr ⟨more ++ [last], rfl, rfl⟩

theorem dropLast (h : SameBelowProfile name name' components components') :
    SameBelowProfile name name' components.dropLast components'.dropLast := by
  cases h with
  | inl h => exact .inl (by rw [h])
  | inr h =>
    obtain ⟨more, rfl, rfl⟩ := h
    cases more with
    | nil => exact .inl rfl
    | cons first more => exact .inr ⟨(first :: more).dropLast, rfl, rfl⟩

end SameBelowProfile

/-- The walk below one profile is the walk below the other. -/
theorem normaliseSegments_otherProfile {name name' original : Text} {kind : PathKind}
    {segments out out' components : List Text} {shortName flag : Bool}
    (hsame : SameBelowProfile name name' out out')
    (h : normaliseSegments original kind segments out shortName = .ok (components, flag)) :
    ∃ components', normaliseSegments original kind segments out' shortName =
      .ok (components', flag) ∧ SameBelowProfile name name' components components' := by
  induction segments generalizing out out' shortName with
  | nil =>
    rw [normaliseSegments_nil, Outcome.ok.injEq, Prod.mk.injEq] at h
    obtain ⟨rfl, rfl⟩ := h
    exact ⟨out', rfl, hsame⟩
  | cons raw segments ih =>
    rcases segment_cases raw with hnoise | rfl | hname
    · rw [normaliseSegments_noise hnoise] at h ⊢
      exact ih hsame h
    · rw [normaliseSegments_up] at h ⊢
      split_ifs at h with hnil
      rw [if_neg fun h' ↦ hnil (hsame.eq_nil_iff.mpr h')]
      exact ih hsame.dropLast h
    · rw [normaliseSegments_name hname] at h ⊢
      split_ifs at h ⊢
      exact ih (hsame.append _) h

/-- A pattern that takes any name after `Users`. -/
def takesAnyProfile (pattern : List Text) : Bool :=
  match pattern with
  | users :: profile :: _ => !wants users "USERS".toList || profile == "*".toList
  | _ => true

theorem takesAnyProfile_containers : ∀ pattern ∈ containers, takesAnyProfile pattern = true := by
  decide

theorem takesAnyProfile_windowsData : ∀ pattern ∈ windowsData, takesAnyProfile pattern = true := by
  decide

/-- A pattern that takes any name after `Users` sees no difference between two profiles. -/
theorem startsWithPattern_otherProfile {pattern : List Text} (h : takesAnyProfile pattern = true)
    (name name' : Text) (more : List Text) :
    startsWithPattern ("USERS".toList :: name :: more) pattern =
      startsWithPattern ("USERS".toList :: name' :: more) pattern := by
  match pattern with
  | [] => rfl
  | [users] => simp [startsWithPattern]
  | users :: profile :: pattern =>
    simp only [takesAnyProfile, Bool.or_eq_true, Bool.not_eq_true', beq_iff_eq] at h
    simp only [startsWithPattern, Tree.startsWith_cons_cons]
    cases h with
    | inl husers => rw [husers, Bool.false_and, Bool.false_and]
    | inr hprofile => simp [wants, hprofile]

theorem equalsPattern_otherProfile {pattern : List Text} (h : takesAnyProfile pattern = true)
    (name name' : Text) (more : List Text) :
    equalsPattern ("USERS".toList :: name :: more) pattern =
      equalsPattern ("USERS".toList :: name' :: more) pattern := by
  change (decide _ && startsWithPattern _ _) = (decide _ && startsWithPattern _ _)
  rw [startsWithPattern_otherProfile h name name']
  rfl

theorem isContainer_profile (name : Text) : isContainer ["USERS".toList, name] = true := by
  have hpattern : equalsPattern ["USERS".toList, name] ["USERS".toList, "*".toList] = true := by
    simp [equalsPattern, wants, eqIgnoreAsciiCase]
  rw [isContainer, Bool.or_eq_true]
  exact .inl (List.any_eq_true.mpr ⟨_, by decide, hpattern⟩)

/-- Tables whose patterns take any name after `Users` hold as much for one profile as for
another. -/
theorem any_otherProfile {table : List (List Text)} {fits : List Text → List Text → Bool}
    {location location' : List Text}
    (h : ∀ pattern ∈ table, fits location pattern = fits location' pattern) :
    table.any (fits location) = table.any (fits location') := by
  rw [Bool.eq_iff_iff, List.any_eq_true, List.any_eq_true]
  apply exists_congr
  intro pattern
  apply and_congr_right
  intro hpattern
  rw [h pattern hpattern]

/-- Below a profile the containers are the same for every profile, except that a profile called
`steamapps` looks like part of a game library. -/
theorem isContainer_otherProfile {name name' : Text} {more : List Text}
    (h : isContainer ("USERS".toList :: name :: more) = false) (hmore : more ≠ [])
    (hsteam : eqIgnoreAsciiCase name' "STEAMAPPS".toList = false) :
    isContainer ("USERS".toList :: name' :: more) = false := by
  have hpatterns := any_otherProfile fun pattern hpattern ↦
    equalsPattern_otherProfile (takesAnyProfile_containers pattern hpattern) name' name more
  obtain ⟨front, leaf, rfl⟩ := (List.eq_nil_or_concat' more).resolve_left hmore
  unfold isContainer at h ⊢
  rw [hpatterns]
  cases front using List.reverseRecOn with
  | nil =>
    simp only [List.nil_append, List.reverse_cons, List.reverse_nil, List.cons_append,
      Bool.or_eq_false_iff] at h ⊢
    exact ⟨h.1, h.2.1, by rw [hsteam, Bool.false_and]⟩
  | append_singleton front above =>
    simp only [List.reverse_cons, List.reverse_append, List.reverse_nil, List.nil_append,
      List.cons_append] at h ⊢
    exact h

/-- What is accepted below one profile is accepted below another. -/
theorem AcceptsComponents.otherProfile {exceptions : Exceptions} {name name' : Text}
    {components components' : List Text} (h : AcceptsComponents exceptions components)
    (hsame : SameBelowProfile name name' components components')
    (hsteam : eqIgnoreAsciiCase name' "STEAMAPPS".toList = false) :
    AcceptsComponents exceptions components' := by
  cases hsame with
  | inl hsame => exact hsame ▸ h
  | inr hsame =>
    obtain ⟨more, rfl, rfl⟩ := hsame
    rcases h with ⟨file, hfile, -⟩ | ⟨top, below, hbelow, htop, hordinary⟩
    · exact absurd (List.cons.inj hfile).1 (by decide)
    obtain ⟨rfl, rfl⟩ := List.cons.inj hbelow
    have hdata := any_otherProfile fun pattern hpattern ↦
      startsWithPattern_otherProfile (takesAnyProfile_windowsData pattern hpattern) name name' more
    cases more with
    | nil =>
      have hcontainer := hordinary.notContainer
      rw [isContainer_profile] at hcontainer
      cases hcontainer
    | cons first more =>
      refine .inr ⟨_, _, rfl, htop, ?_⟩
      exact
        { notContainerTop := fun hbare ↦ (List.cons_ne_nil _ _ hbare.1).elim
          notUserHive := hordinary.notUserHive
          notProgramData := by
            rw [startsWithNames, Tree.startsWith_cons_cons,
              show eqIgnoreAsciiCase "USERS".toList "ProgramData".toList = false by decide,
              Bool.false_and]
          notWindowsData := hdata ▸ hordinary.notWindowsData
          notContainer :=
            isContainer_otherProfile hordinary.notContainer (List.cons_ne_nil _ _) hsteam
          deepEnough := by simp [minComponentsUnderDriveRoot] }

/-! ## Standing in for a profile -/

/-- A text can be cut inside an ASCII text that it begins with. -/
theorem cuts_of_front {front : Text} (hascii : ∀ c ∈ front, c.utf8Size = 1) {offset : ℕ}
    (hoffset : offset ≤ front.length) (rest : Text) : Cuts (front ++ rest) offset := by
  have hlen : byteLen (front.take offset) = offset := by
    rw [byteLen_of_ascii fun c hc ↦ hascii c (List.mem_of_mem_take hc), List.length_take,
      Nat.min_eq_left hoffset]
  have hcuts := cuts_append (front.take offset) (front.drop offset ++ rest)
  rwa [hlen, ← List.append_assoc, List.take_append_drop] at hcuts

/-- A path on a drive can be cut where the roots end when it begins with eight ASCII characters. -/
theorem cutsRoot_of_front {front : Text} (hascii : ∀ c ∈ front, c.utf8Size = 1)
    (hlong : 8 ≤ front.length) {letter : Char} (hletter : front.head? = some letter)
    (hdrive : letter ≠ '\\') (rest : Text) : CutsRoot (front ++ rest) := by
  refine ⟨cuts_of_front hascii hlong rest, fun _ ↦
    ⟨cuts_of_front hascii (Nat.le_trans (by decide) hlong) rest, fun hverbatim ↦ ?_⟩⟩
  rw [beginsWithCi_verbatim_iff] at hverbatim
  obtain ⟨tail, rfl⟩ := List.head?_eq_some_iff.mp hletter
  exact absurd hverbatim (not_prefix_of_ne hdrive _ _)

/-- A name that can stand in for that of a profile. -/
structure IsStandIn (name : Text) : Prop where
  printable : ∀ c ∈ name, IsPrintable c
  noSeparator : '\\' ∉ name ∧ '/' ∉ name
  isName : IsName name
  isPlain : IsPlain .driveRooted name
  notShort : isShort (strip name) = false
  notSteamapps : eqIgnoreAsciiCase (clean name) "STEAMAPPS".toList = false

theorem trimEnd_unify_append_cons {first : Text} (hslash : '/' ∉ first) (more : Text) :
    trimEndMatches isWhitespace (unify (first ++ '\\' :: more)) =
      first ++ '\\' :: trimEndMatches isWhitespace (unify more) := by
  have hunify : unify (first ++ '\\' :: more) = first ++ '\\' :: unify more := by
    rw [unify_append, unify_eq_self hslash]
    rfl
  rw [hunify, trimEndMatches_append_cons _ _ _ (by decide)]

theorem segmentsBelow_append_cons {first : Text} (hfirst : '\\' ∉ first) (hslash : '/' ∉ first)
    (more : Text) : segmentsBelow (first ++ '\\' :: more) = first :: segmentsBelow more := by
  rw [segmentsBelow, trimEnd_unify_append_cons hslash,
    List.splitOn_append_cons_self_of_not_mem hfirst]
  rfl

/-- The walk of a path below a profile, once it has passed the profile. -/
theorem normaliseSegments_users (original profile : Text) (segments : List Text) :
    normaliseSegments original .driveRooted ("Users".toList :: profile :: segments) [] false =
      normaliseSegments original .driveRooted (profile :: segments) ["USERS".toList] false := by
  have hname : IsName "Users".toList := by decide
  have hplain : IsPlain .driveRooted "Users".toList := by decide
  rw [normaliseSegments_plain hname hplain]
  rfl

/-- Nothing at `Users` or directly in it is accepted. -/
theorem not_accepts_profileRoot {exceptions : Exceptions} {profile : Text} {components : List Text}
    {flag : Bool} (h : normaliseSegments [] .driveRooted ["Users".toList, profile] [] false =
      .ok (components, flag)) : ¬ AcceptsComponents exceptions components := by
  have hdeep : ∀ below, components = "USERS".toList :: below → below.length ≤ 1 →
      ¬ AcceptsComponents exceptions components := by
    rintro below rfl hlength haccepts
    rcases haccepts with ⟨file, hfile, -⟩ | ⟨top, below', hbelow, -, hordinary⟩
    · exact absurd (List.cons.inj hfile).1 (by decide)
    obtain ⟨rfl, rfl⟩ := List.cons.inj hbelow
    match below with
    | [] => exact absurd hordinary.deepEnough (by decide)
    | [name] =>
      have hcontainer := hordinary.notContainer
      rw [isContainer_profile] at hcontainer
      cases hcontainer
  rw [normaliseSegments_users] at h
  rcases segment_cases profile with hnoise | rfl | hname
  · rw [normaliseSegments_noise hnoise, normaliseSegments_nil, Outcome.ok.injEq,
      Prod.mk.injEq] at h
    exact hdeep [] h.1.symm (by simp)
  · rw [normaliseSegments_up, if_neg (List.cons_ne_nil _ _), normaliseSegments_nil,
      Outcome.ok.injEq, Prod.mk.injEq] at h
    rw [← h.1]
    rintro (⟨file, hfile, -⟩ | ⟨top, below, hbelow, -⟩)
    · cases hfile
    · cases hbelow
  · rw [normaliseSegments_name hname] at h
    split_ifs at h
    rw [normaliseSegments_nil, Outcome.ok.injEq, Prod.mk.injEq] at h
    exact hdeep [clean profile] h.1.symm (by simp)

/-- A path the deny-list accepts below a profile, it accepts below a stand-in for that profile. -/
theorem Accepts.otherProfile {exceptions : Exceptions} {letter : Char}
    {users profile rest name : Text}
    (h : Accepts exceptions (letter :: ':' :: '\\' :: (users ++ '\\' :: (profile ++ rest))))
    (hletter : isAsciiAlphabetic letter.toNat = true)
    (husers : eqIgnoreAsciiCase users "Users".toList = true)
    (hprofile : IsName profile) (hwhole : '\\' ∉ profile ∧ '/' ∉ profile)
    (hrest : rest = [] ∨ ∃ more, rest = '\\' :: more) (hname : IsStandIn name) :
    Accepts exceptions (r"C:\Users\".toList ++ (name ++ rest)) := by
  obtain ⟨hfree, -, components, hwalk, hcomponents⟩ := (accepts_drive_iff hletter _ _).mp h
  rw [eqIgnoreAsciiCase_iff] at husers
  have hsegments (tail : Text) : segmentsBelow (users ++ '\\' :: tail) =
      users :: segmentsBelow tail := by
    apply segmentsBelow_append_cons
    · rw [← mem_toAsciiUppercase_iff (by decide), husers]
      decide
    · rw [← mem_toAsciiUppercase_iff (by decide), husers]
      decide
  have husersSegment (segments : List Text) :
      normaliseSegments [] .driveRooted (users :: segments) [] false =
        normaliseSegments [] .driveRooted ("Users".toList :: segments) [] false :=
    normaliseSegments_congr (.cons (sameSegment_of_upper husers.symm)
      (forall₂_sameSegment_self segments)) _ _ _ _
  rw [hsegments, husersSegment] at hwalk
  cases hrest with
  | inl hnil =>
    rw [hnil, List.append_nil, segmentsBelow, unify_eq_self hwhole.2,
      List.splitOn_eq_singleton fun hmem ↦ hwhole.1 ((prefix_trimEndMatches _ _).subset hmem)]
      at hwalk
    exact absurd hcomponents (not_accepts_profileRoot hwalk)
  | inr hmore =>
    obtain ⟨more, rfl⟩ := hmore
    rw [segmentsBelow_append_cons hwhole.1 hwhole.2, normaliseSegments_users,
      normaliseSegments_name hprofile] at hwalk
    split_ifs at hwalk
    have hkept : normaliseSegments [] .driveRooted (segmentsBelow more)
        (["Users".toList, profile].map clean) (false || isShort (strip profile)) =
          .ok (components, false) := hwalk
    have hflag := (normaliseSegments_eq_ok hkept).2.2
    have hshort : isShort (strip profile) = false := by
      rw [Bool.false_or] at hflag
      exact (Bool.or_eq_false_iff.mp hflag.symm).1
    have hstart : SameBelowProfile (clean profile) (clean name) ["USERS".toList, clean profile]
        ["USERS".toList, clean name] := .inr ⟨[], rfl, rfl⟩
    rw [hshort] at hwalk
    obtain ⟨components', hwalk', hsame⟩ := normaliseSegments_otherProfile hstart hwalk
    have hbody : segmentsBelow ("Users".toList ++ '\\' :: (name ++ '\\' :: more)) =
        "Users".toList :: name :: segmentsBelow more := by
      rw [segmentsBelow_append_cons (by decide) (by decide),
        segmentsBelow_append_cons hname.noSeparator.1 hname.noSeparator.2]
    apply (accepts_drive_iff (show isAsciiAlphabetic 'C'.toNat = true by decide) exceptions
      ("Users".toList ++ '\\' :: (name ++ '\\' :: more))).mpr
    refine ⟨?_, ?_, components', ?_, hcomponents.otherProfile hsame hname.notSteamapps⟩
    · have hclean : '\x00' ∉ name := fun hmem ↦ by
        have hprintable := (hname.printable _ hmem).1
        exact absurd hprintable (by decide)
      simp only [List.mem_append, List.mem_cons, not_or] at hfree ⊢
      exact ⟨by decide, by decide, hclean, hfree.2.2.2⟩
    · have htrim : trimEndMatches isWhitespace
          (unify ("Users".toList ++ '\\' :: (name ++ '\\' :: more))) =
            "Users".toList ++
              '\\' :: (name ++ '\\' :: trimEndMatches isWhitespace (unify more)) := by
        rw [trimEnd_unify_append_cons (by decide), trimEnd_unify_append_cons hname.noSeparator.2]
      rw [htrim]
      exact cutsRoot_of_front (show ∀ c ∈ r"C:\Users\".toList, c.utf8Size = 1 by decide)
        (by decide) rfl (by decide) _
    · rw [hbody, normaliseSegments_users, normaliseSegments_plain hname.isName hname.isPlain,
        hname.notShort]
      exact hwalk'

end WardSweep.Denylist
