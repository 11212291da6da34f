import Mathlib.Data.Char
import Mathlib.Data.List.Lex
import WardSweep.Catalog.Alone
import WardSweep.Ordered.Join

/-!
# The gate of a catalog

The four checks that a catalog passes before it is signed and again before it is loaded: the field
rules, the references between its entries, the deny-list, and the evidence for every claim that
nothing else shares an anti-cheat.  Together they find nothing exactly in a sound catalog.
-/

namespace WardSweep.Validate

open Utf8 Str Ordered Paths Denylist Schema Expand

/-! ## References -/

/-- Every entry of a catalog by its kind and its id. -/
def namedEntries (catalog : Catalog) : List (String × Text) :=
  (catalog.anticheat.map fun ac ↦ ("anticheat", ac.id)) ++
    (catalog.game.map fun game ↦ ("game", game.id)) ++
    catalog.launcher.map fun launcher ↦ ("launcher", launcher.id)

/-- The ids that are used again, with the entries seen so far, latest first. -/
def checkReused (seen : List (String × Text)) : List (String × Text) → List Problem
  | [] => []
  | entry :: entries =>
    ((seen.find? fun previous ↦ previous.2 == entry.2).toList.map fun previous ↦
      ⟨ownerOf entry.1 entry.2, "id is already used by a ".toList ++ previous.1.toList ++
        " entry; ids are never reused".toList⟩) ++
      checkReused (entry :: seen) entries

/-- The ids of a game's list that no entry has. -/
def checkReferences (game : Game) (field what : String) (referenced known : List Text) :
    List Problem :=
  referenced.flatMap fun id ↦
    problemIf (!known.contains id) (ownerOf "game" game.id ++ '.' :: field.toList)
      ("references unknown ".toList ++ what.toList ++ " id `".toList ++ id ++ ['`'])

/-- Referential integrity: every id referenced exists, and no id is reused. -/
def checkRefs (catalog : Catalog) : List Problem :=
  checkReused [] (namedEntries catalog) ++ catalog.game.flatMap fun game ↦
    checkReferences game "anticheat" "anti-cheat" game.anticheat
      (catalog.anticheat.map AntiCheat.id) ++
      checkReferences game "platforms" "launcher" game.platforms (catalog.launcher.map Launcher.id)

/-! ## Evidence -/

/-- The distinct titles of some evidence, as they are compared. -/
def distinctTitles (evidence : SharedEvidence) : List Text :=
  sortedKeys ((evidence.titlesObserved.map fun title ↦ toAsciiLowercase (trim title)).filter
    fun title ↦ !title.isEmpty)

/-- Whether an entry shows why it claims not to be shared. -/
def checkShared (requireEvidence : Bool) (ac : AntiCheat) : List Problem :=
  if ac.shared then []
  else
    match ac.sharedEvidence with
    | none =>
      problemIf requireEvidence (ownerOf "anticheat" ac.id)
        ("shared = false requires [anticheat.shared_evidence]; leave shared = true unless you can " ++
          "show otherwise").toList
    | some evidence =>
      problemIf (decide ((distinctTitles evidence).length < 2))
          (ownerOf "anticheat" ac.id ++ ".shared_evidence.titles_observed".toList)
          ("shared = false needs at least two distinct observed titles " ++
            "(docs/16-OBSERVATION-HARNESS.md)").toList ++
        problemIf (evidence.observationIds.all fun id ↦ (trim id).isEmpty)
          (ownerOf "anticheat" ac.id ++ ".shared_evidence.observation_ids".toList)
          "must name at least one observation the claim came from".toList

/-- Audit `shared = false` claims. -/
def auditShared (catalog : Catalog) (requireEvidence : Bool) : List Problem :=
  catalog.anticheat.flatMap (checkShared requireEvidence)

/-! ## The gate -/

/-- The four checks of the gate, one after the other. -/
def integrity (catalog : Catalog) : Outcome Empty (List Problem) :=
  (validate catalog).bind fun fields ↦
    (checkDenylist catalog).bind fun denied ↦
      .ok (fields ++ checkRefs catalog ++ denied ++ auditShared catalog true)

/-- What a template in a catalog is written like: it expands to paths that can be reduced. -/
structure PathWritten (template : Text) : Prop where
  noWildcard : '*' ∉ template ∧ '?' ∉ template
  kept : nonCanonicalComponent template = none
  expands : ∃ expansions, expandForValidation template = .ok expansions ∧
    ∀ expansion ∈ expansions, ∃ canonical, canonicaliseSyntactic expansion = .ok canonical

/-- How the vendor's own uninstaller is named. -/
def UninstallValid (uninstall : OfficialUninstall) : Prop :=
  match uninstall.kind with
  | .exe => ∃ command, uninstall.command = some command ∧ trim command ≠ []
  | .msi => ∃ code, uninstall.command = some code ∧ looksLikeProductCode code = true
  | .none => uninstall.command = none

/-- A claim that nothing else shares an anti-cheat is backed by two titles that differ in more than
case and blanks, and by an observation. -/
def SharedShown (ac : AntiCheat) : Prop :=
  ac.shared = false → ∃ evidence, ac.sharedEvidence = some evidence ∧
    (∃ title ∈ evidence.titlesObserved, ∃ other ∈ evidence.titlesObserved,
      trim title ≠ [] ∧ trim other ≠ [] ∧
        eqIgnoreAsciiCase (trim title) (trim other) = false) ∧
    ∃ id ∈ evidence.observationIds, trim id ≠ []

/-- What the checks ask of an anti-cheat entry. -/
structure AntiCheatSound (ac : AntiCheat) : Prop where
  clear : EntryClear ac
  uninstall : ∀ uninstall ∈ ac.officialUninstall, UninstallValid uninstall
  shared : SharedShown ac

/-- What the checks ask of a game: only saves are in the list of saves, and it earns no
carve-out. -/
structure GameSound (game : Game) : Prop where
  kebab : isKebab game.id = true
  notSave : ∀ entry ∈ game.installHints ++ game.residue, entry.pathClass ≠ .save
  save : ∀ entry ∈ game.saves, entry.pathClass = .save
  written : ∀ entry ∈ gamePaths game, PathWritten entry.path
  clear : ∀ entry ∈ gamePaths game, PathClear .none entry
  keys : ∀ entry ∈ game.registry, KeyValid entry ∧ KeyClear .none entry

/-- What the checks ask of a launcher. -/
structure LauncherSound (launcher : Launcher) : Prop where
  kebab : isKebab launcher.id = true
  command : ∀ uninstall ∈ launcher.uninstall, (needsCommand uninstall.kind).isSome →
    uninstall.command.isSome
  detects : ∀ key ∈ launcher.detectRegistry, ∃ canonical, canonicaliseRegKey key = .ok canonical

/-- A catalog that can be relied on: its entries are sound, each id is one entry's, and what a game
refers to is there. -/
structure Sound (catalog : Catalog) : Prop where
  header : checkHeader catalog = []
  anticheat : ∀ ac ∈ catalog.anticheat, AntiCheatSound ac
  game : ∀ game ∈ catalog.game, GameSound game
  launcher : ∀ launcher ∈ catalog.launcher, LauncherSound launcher
  distinct : ((namedEntries catalog).map Prod.snd).Nodup
  anticheatKnown : ∀ game ∈ catalog.game, ∀ id ∈ game.anticheat,
    ∃ ac ∈ catalog.anticheat, ac.id = id
  launcherKnown : ∀ game ∈ catalog.game, ∀ id ∈ game.platforms,
    ∃ launcher ∈ catalog.launcher, launcher.id = id

/-! ## What the checks find nothing in -/

theorem checkReused_eq_nil_iff (seen entries : List (String × Text)) :
    checkReused seen entries = [] ↔
      (entries.map Prod.snd).Nodup ∧
        ∀ entry ∈ entries, ∀ previous ∈ seen, previous.2 ≠ entry.2 := by
  induction entries generalizing seen with
  | nil => simp [checkReused]
  | cons entry entries ih =>
    have hfirst : ((seen.find? fun previous ↦ previous.2 == entry.2).toList.map fun previous ↦
        (⟨ownerOf entry.1 entry.2, "id is already used by a ".toList ++ previous.1.toList ++
          " entry; ids are never reused".toList⟩ : Problem)) = [] ↔
        ∀ previous ∈ seen, previous.2 ≠ entry.2 := by
      rw [List.map_eq_nil_iff, Option.toList_eq_nil_iff, List.find?_eq_none]
      simp
    rw [checkReused, List.append_eq_nil_iff, hfirst, ih, List.map_cons, List.nodup_cons,
      List.forall_mem_cons]
    simp only [List.forall_mem_cons, List.mem_map, not_exists, not_and]
    constructor
    · rintro ⟨hseen, hnodup, hboth⟩
      exact ⟨⟨fun other hother hsame ↦ (hboth other hother).1 hsame.symm, hnodup⟩, hseen,
        fun other hother ↦ (hboth other hother).2⟩
    · rintro ⟨⟨hfresh, hnodup⟩, hseen, hrest⟩
      exact ⟨hseen, hnodup, fun other hother ↦
        ⟨fun hsame ↦ hfresh other hother hsame.symm, hrest other hother⟩⟩

theorem checkReferences_eq_nil_iff (game : Game) (field what : String)
    (referenced known : List Text) :
    checkReferences game field what referenced known = [] ↔ ∀ id ∈ referenced, id ∈ known := by
  rw [checkReferences, List.flatMap_eq_nil_iff]
  simp only [problemIf_eq_nil_iff, Bool.not_eq_false', List.contains_iff_mem]

theorem checkRefs_eq_nil_iff (catalog : Catalog) :
    checkRefs catalog = [] ↔
      ((namedEntries catalog).map Prod.snd).Nodup ∧
        (∀ game ∈ catalog.game, ∀ id ∈ game.anticheat, ∃ ac ∈ catalog.anticheat, ac.id = id) ∧
        ∀ game ∈ catalog.game, ∀ id ∈ game.platforms,
          ∃ launcher ∈ catalog.launcher, launcher.id = id := by
  rw [checkRefs, List.append_eq_nil_iff, checkReused_eq_nil_iff, List.flatMap_eq_nil_iff]
  simp only [List.append_eq_nil_iff, checkReferences_eq_nil_iff, List.mem_map, List.not_mem_nil,
    false_implies, implies_true, and_true, forall_and]

theorem two_le_length_iff {α : Type*} {elements : List α} (h : elements.Nodup) :
    2 ≤ elements.length ↔ ∃ element ∈ elements, ∃ other ∈ elements, element ≠ other := by
  constructor
  · intro hlong
    match elements, hlong with
    | first :: second :: rest, _ =>
      obtain ⟨hfirst, -⟩ := List.nodup_cons.mp h
      exact ⟨first, List.mem_cons_self, second, List.mem_cons_of_mem _ List.mem_cons_self,
        fun heq ↦ hfirst (heq ▸ List.mem_cons_self)⟩
  · rintro ⟨element, helement, other, hother, hne⟩
    by_contra! hshort
    match elements, hshort with
    | [], _ => cases helement
    | [only], _ =>
      exact hne ((List.mem_singleton.mp helement).trans (List.mem_singleton.mp hother).symm)

theorem two_le_distinctTitles_iff (evidence : SharedEvidence) :
    2 ≤ (distinctTitles evidence).length ↔
      ∃ title ∈ evidence.titlesObserved, ∃ other ∈ evidence.titlesObserved,
        trim title ≠ [] ∧ trim other ≠ [] ∧
          eqIgnoreAsciiCase (trim title) (trim other) = false := by
  have hnil (title : Text) : toAsciiLowercase (trim title) ≠ [] ↔ trim title ≠ [] := by
    rw [ne_eq, toAsciiLowercase, List.map_eq_nil_iff]
  have hmem (lowered : Text) : lowered ∈ distinctTitles evidence ↔
      ∃ title ∈ evidence.titlesObserved, trim title ≠ [] ∧
        toAsciiLowercase (trim title) = lowered := by
    rw [distinctTitles, mem_sortedKeys, List.mem_filter, List.mem_map, Bool.not_eq_true',
      List.isEmpty_eq_false_iff]
    constructor
    · rintro ⟨⟨title, htitle, rfl⟩, hne⟩
      exact ⟨title, htitle, (hnil title).mp hne, rfl⟩
    · rintro ⟨title, htitle, hne, rfl⟩
      exact ⟨⟨title, htitle, rfl⟩, (hnil title).mpr hne⟩
  have hdiffer (title other : Text) : eqIgnoreAsciiCase (trim title) (trim other) = false ↔
      toAsciiLowercase (trim title) ≠ toAsciiLowercase (trim other) := by
    rw [Bool.eq_false_iff, ne_eq, eqIgnoreAsciiCase_eq_true_iff]
  have hnodup : (distinctTitles evidence).Nodup := nodup_sortedKeys _
  rw [two_le_length_iff hnodup]
  constructor
  · rintro ⟨lowered, hlowered, lowered', hlowered', hne⟩
    obtain ⟨title, htitle, hnamed, rfl⟩ := (hmem lowered).mp hlowered
    obtain ⟨other, hother, hnamed', rfl⟩ := (hmem lowered').mp hlowered'
    exact ⟨title, htitle, other, hother, hnamed, hnamed', (hdiffer _ _).mpr hne⟩
  · rintro ⟨title, htitle, other, hother, hnamed, hnamed', hne⟩
    exact ⟨_, (hmem _).mpr ⟨title, htitle, hnamed, rfl⟩, _,
      (hmem _).mpr ⟨other, hother, hnamed', rfl⟩,
      (hdiffer _ _).mp hne⟩

theorem checkShared_eq_nil_iff (ac : AntiCheat) : checkShared true ac = [] ↔ SharedShown ac := by
  unfold checkShared SharedShown
  cases hshared : ac.shared with
  | true => simp
  | false =>
    rw [if_neg Bool.false_ne_true]
    cases ac.sharedEvidence with
    | none => simp [problemIf]
    | some evidence =>
      have hids : (evidence.observationIds.all fun id ↦ (trim id).isEmpty) = false ↔
          ∃ id ∈ evidence.observationIds, trim id ≠ [] := by
        simp [List.all_eq_false]
      simp only [List.append_eq_nil_iff, problemIf_eq_nil_iff, decide_eq_false_iff_not, not_lt,
        two_le_distinctTitles_iff, hids, Option.some.injEq, exists_eq_left', true_implies]

theorem auditShared_eq_nil_iff (catalog : Catalog) :
    auditShared catalog true = [] ↔ ∀ ac ∈ catalog.anticheat, SharedShown ac := by
  rw [auditShared, List.flatMap_eq_nil_iff]
  simp only [checkShared_eq_nil_iff]

theorem checkPathEntry_save_eq_nil_iff (place : Text) (entry : PathEntry) :
    checkPathEntry place true entry = .ok [] ↔ entry.pathClass = .save ∧
      PathWritten entry.path := by
  have hcontains (c : Char) : entry.path.contains c = false ↔ c ∉ entry.path := by
    rw [Bool.eq_false_iff, ne_eq, List.contains_iff_mem]
  constructor
  · intro h
    obtain ⟨expanded, hexpanded, hproblems⟩ := (Outcome.bind_eq_ok_iff _ _ _).mp h
    have hnil := Outcome.ok.inj hproblems
    simp only [List.append_eq_nil_iff, problemIf_eq_nil_iff, List.map_eq_nil_iff,
      Option.toList_eq_nil_iff, Bool.or_eq_false_iff, hcontains] at hnil
    obtain ⟨⟨⟨⟨hsave, -⟩, hwildcard⟩, hkept⟩, rfl⟩ := hnil
    exact ⟨by simpa using hsave, hwildcard, hkept, (checkExpansions_eq_nil_iff _ _).mp hexpanded⟩
  · intro h
    rw [checkPathEntry, (checkExpansions_eq_nil_iff place _).mpr h.2.expands]
    have hsave : (true && entry.pathClass != .save) = false := by simpa using h.1
    have hwildcard : (entry.path.contains '*' || entry.path.contains '?') = false := by
      rw [Bool.or_eq_false_iff, hcontains, hcontains]
      exact h.2.noWildcard
    rw [Outcome.bind_ok, hsave, hwildcard, h.2.kept]
    rfl

theorem pathValid_iff (entry : PathEntry) :
    PathValid entry ↔ entry.pathClass ≠ .save ∧ PathWritten entry.path :=
  ⟨fun h ↦ ⟨h.notSave, h.noWildcard, h.kept, h.expands⟩,
    fun h ↦ ⟨h.1, h.2.noWildcard, h.2.kept, h.2.expands⟩⟩

theorem checkOfficialUninstall_eq_nil_iff (place : Text) (uninstall : OfficialUninstall) :
    checkOfficialUninstall place uninstall = [] ↔ UninstallValid uninstall := by
  obtain ⟨kind, command, args, timeout⟩ := uninstall
  cases kind <;> cases command <;>
    simp [checkOfficialUninstall, UninstallValid, problemIf_eq_nil_iff]

theorem validateAnticheat_uninstall_eq_nil_iff (place : Text) (ac : AntiCheat) :
    validateAnticheat place ac = .ok [] ↔ FieldsValid ac ∧ (∀ entry ∈ ac.paths, PathValid entry) ∧
      (∀ entry ∈ ac.registry, KeyValid entry) ∧
        ∀ uninstall ∈ ac.officialUninstall, UninstallValid uninstall := by
  have hwithout := @validateAnticheat_eq_nil_iff { ac with officialUninstall := none } place rfl
  have huninstall : ac.officialUninstall.elim []
      (checkOfficialUninstall (place ++ ".official_uninstall".toList)) = [] ↔
        ∀ uninstall ∈ ac.officialUninstall, UninstallValid uninstall := by
    cases ac.officialUninstall with
    | none => simp
    | some uninstall => simp [checkOfficialUninstall_eq_nil_iff]
  have hsplit : validateAnticheat place ac =
      (validateAnticheat place { ac with officialUninstall := none }).bind fun found ↦
        .ok (found ++ ac.officialUninstall.elim []
          (checkOfficialUninstall (place ++ ".official_uninstall".toList))) := by
    change (checkPaths place "paths" ac.paths false).bind _ =
      ((checkPaths place "paths" ac.paths false).bind _).bind _
    cases checkPaths place "paths" ac.paths false with
    | ok paths =>
      rw [Outcome.bind_ok, Outcome.bind_ok]
      change (checkRegistry place ac.registry).bind _ =
        ((checkRegistry place ac.registry).bind _).bind _
      cases checkRegistry place ac.registry with
      | ok registry => simp only [Outcome.bind_ok, Option.elim_none, List.append_nil]; rfl
      | err error => rfl
      | panic => rfl
    | err error => rfl
    | panic => rfl
  rw [hsplit, Outcome.bind_eq_ok_iff]
  constructor
  · rintro ⟨found, hfound, hboth⟩
    obtain ⟨rfl, hnone⟩ := List.append_eq_nil_iff.mp (Outcome.ok.inj hboth)
    obtain ⟨hfields, hpaths, hkeys⟩ := hwithout.mp hfound
    exact ⟨⟨hfields.display, hfields.kernel, hfields.critical, hfields.drivers, hfields.hashes,
      hfields.services⟩, hpaths, hkeys, huninstall.mp hnone⟩
  · rintro ⟨hfields, hpaths, hkeys, hnone⟩
    refine ⟨[], hwithout.mpr ⟨⟨hfields.display, hfields.kernel, hfields.critical, hfields.drivers,
      hfields.hashes, hfields.services⟩, hpaths, hkeys⟩, ?_⟩
    rw [huninstall.mpr hnone]
    rfl

/-! ## Entries -/

theorem validateGame_eq_nil_iff (place : Text) (game : Game) :
    validateGame place game = .ok [] ↔
      (∀ entry ∈ game.installHints ++ game.residue, PathValid entry) ∧
        (∀ entry ∈ game.saves, entry.pathClass = .save ∧ PathWritten entry.path) ∧
          ∀ entry ∈ game.registry, KeyValid entry := by
  have hpaths (field : String) (entries : List PathEntry) :
      checkPaths place field entries false = .ok [] ↔ ∀ entry ∈ entries, PathValid entry :=
    flatTraverse_zipIdx_eq_nil_iff (fun entry index ↦ checkPathEntry_eq_nil_iff _ entry) entries
  have hsaves : checkPaths place "saves" game.saves true = .ok [] ↔
      ∀ entry ∈ game.saves, entry.pathClass = .save ∧ PathWritten entry.path :=
    flatTraverse_zipIdx_eq_nil_iff
      (fun entry index ↦ checkPathEntry_save_eq_nil_iff _ entry) game.saves
  have hkeys : checkRegistry place game.registry = .ok [] ↔
      ∀ entry ∈ game.registry, KeyValid entry :=
    flatTraverse_zipIdx_eq_nil_iff (fun entry index ↦ checkRegistryEntry_eq_nil_iff _ entry)
      game.registry
  rw [List.forall_mem_append, ← hpaths "install_hints", ← hpaths "residue", ← hsaves, ← hkeys]
  constructor
  · intro h
    obtain ⟨hints, hhints, h⟩ := (Outcome.bind_eq_ok_iff _ _ _).mp h
    obtain ⟨residue, hresidue, h⟩ := (Outcome.bind_eq_ok_iff _ _ _).mp h
    obtain ⟨saves, hsave, h⟩ := (Outcome.bind_eq_ok_iff _ _ _).mp h
    obtain ⟨keys, hkey, h⟩ := (Outcome.bind_eq_ok_iff _ _ _).mp h
    have hnil := Outcome.ok.inj h
    simp only [List.append_eq_nil_iff] at hnil
    obtain ⟨⟨⟨rfl, rfl⟩, rfl⟩, rfl⟩ := hnil
    exact ⟨⟨hhints, hresidue⟩, hsave, hkey⟩
  · intro h
    rw [validateGame, h.1.1, h.1.2, h.2.1, h.2.2]
    rfl

theorem checkDenylistGame_eq_nil_iff (game : Game) :
    checkDenylistGame game = .ok [] ↔ (∀ entry ∈ gamePaths game, PathClear .none entry) ∧
      ∀ entry ∈ game.registry, KeyClear .none entry := by
  constructor
  · exact clear_of_checkDenylistGame
  · intro h
    have hpaths := h.1
    simp only [gamePaths, List.forall_mem_append] at hpaths
    obtain ⟨⟨hhints, hresidue⟩, hsaves⟩ := hpaths
    rw [checkDenylistGame, (checkDenylistPaths_eq_nil_iff _ _ _ _).mpr hhints,
      (checkDenylistPaths_eq_nil_iff _ _ _ _).mpr hresidue,
      (checkDenylistPaths_eq_nil_iff _ _ _ _).mpr hsaves,
      (checkDenylistKeys_eq_nil_iff _ _ _).mpr h.2]
    rfl

/-- What is wrong with a launcher's way to uninstall. -/
def launcherUninstall (place : Text) (launcher : Launcher) : List Problem :=
  launcher.uninstall.elim [] fun uninstall ↦ (needsCommand uninstall.kind).elim [] fun kind ↦
    problemIf uninstall.command.isNone (place ++ ".uninstall".toList)
      ("kind = ".toList ++ kind ++ " requires a `command`".toList)

theorem validateLauncher_eq (place : Text) (launcher : Launcher) :
    validateLauncher place launcher =
      launcher.detectRegistry.elim (.ok (launcherUninstall place launcher)) fun key ↦
        (canonicaliseRegKey key).handle (fun _ ↦ .ok (launcherUninstall place launcher)) fun _ ↦
          .ok (launcherUninstall place launcher ++ [⟨place ++ ".detect_registry".toList,
            "not a recognisable registry key: ".toList ++ key⟩]) := by
  obtain ⟨id, display, detectRegistry, libraryIndex, manifestGlob, uninstall⟩ := launcher
  cases uninstall with
  | none => cases detectRegistry <;> rfl
  | some uninstall =>
    obtain ⟨kind, command, silent⟩ := uninstall
    cases kind <;> cases detectRegistry <;> rfl

theorem validateLauncher_eq_nil_iff (place : Text) (launcher : Launcher) :
    validateLauncher place launcher = .ok [] ↔
      (∀ uninstall ∈ launcher.uninstall, (needsCommand uninstall.kind).isSome →
        uninstall.command.isSome) ∧
      ∀ key ∈ launcher.detectRegistry, ∃ canonical, canonicaliseRegKey key = .ok canonical := by
  have huninstall : launcherUninstall place launcher = [] ↔
      ∀ uninstall ∈ launcher.uninstall, (needsCommand uninstall.kind).isSome →
        uninstall.command.isSome := by
    unfold launcherUninstall
    cases launcher.uninstall with
    | none => simp
    | some uninstall =>
      cases hkind : needsCommand uninstall.kind with
      | none => simp [hkind]
      | some kind => simp [hkind, problemIf_eq_nil_iff, Option.isSome_iff_ne_none]
  rw [← huninstall, validateLauncher_eq]
  cases launcher.detectRegistry with
  | none => simp
  | some key =>
    simp only [Option.elim_some, Option.mem_def, Option.some.injEq, forall_eq']
    cases canonicaliseRegKey key with
    | ok canonical => simp
    | err error => simp
    | panic => simp [Outcome.handle]

/-! ## The whole gate -/

theorem checked_eq_nil_iff {place id : Text} {found : Outcome Empty (List Problem)} :
    (found.bind fun problems ↦ .ok (checkId place id ++ problems)) = .ok [] ↔
      isKebab id = true ∧ found = .ok [] := by
  rw [Outcome.bind_eq_ok_iff]
  simp only [Outcome.ok.injEq, List.append_eq_nil_iff, checkId, problemIf_eq_nil_iff,
    Bool.not_eq_false']
  constructor
  · rintro ⟨problems, hproblems, hkebab, rfl⟩
    exact ⟨hkebab, hproblems⟩
  · exact fun h ↦ ⟨[], h.2, h.1, rfl⟩

/-- The entries of one kind pass when each has a good id and passes its own check. -/
theorem checkedEntries_eq_nil_iff {α : Type*} (kind : String) (idOf : α → Text)
    {check : Text → α → Outcome Empty (List Problem)} {clear : α → Prop}
    (hcheck : ∀ place entry, check place entry = .ok [] ↔ clear entry) (entries : List α) :
    Outcome.flatTraverse (fun entry : α × ℕ ↦
      (check (entryAt kind entry.2 (idOf entry.1)) entry.1).bind fun problems ↦
        .ok (checkId (entryAt kind entry.2 (idOf entry.1)) (idOf entry.1) ++ problems))
      entries.zipIdx = .ok [] ↔ ∀ entry ∈ entries, isKebab (idOf entry) = true ∧ clear entry := by
  apply flatTraverse_zipIdx_eq_nil_iff
  intro entry index
  exact checked_eq_nil_iff.trans (and_congr_right' (hcheck _ entry))

/-- The checks of validation, one kind of entry after the other. -/
theorem validate_eq_nil_iff (catalog : Catalog) :
    validate catalog = .ok [] ↔ checkHeader catalog = [] ∧
      (∀ ac ∈ catalog.anticheat, isKebab ac.id = true ∧ FieldsValid ac ∧
        (∀ entry ∈ ac.paths, PathValid entry) ∧ (∀ entry ∈ ac.registry, KeyValid entry) ∧
          ∀ uninstall ∈ ac.officialUninstall, UninstallValid uninstall) ∧
      (∀ game ∈ catalog.game, isKebab game.id = true ∧
        (∀ entry ∈ game.installHints ++ game.residue, PathValid entry) ∧
          (∀ entry ∈ game.saves, entry.pathClass = .save ∧ PathWritten entry.path) ∧
            ∀ entry ∈ game.registry, KeyValid entry) ∧
      ∀ launcher ∈ catalog.launcher, isKebab launcher.id = true ∧
        (∀ uninstall ∈ launcher.uninstall, (needsCommand uninstall.kind).isSome →
          uninstall.command.isSome) ∧
        ∀ key ∈ launcher.detectRegistry, ∃ canonical, canonicaliseRegKey key = .ok canonical := by
  rw [← checkedEntries_eq_nil_iff "anticheat" AntiCheat.id validateAnticheat_uninstall_eq_nil_iff,
    ← checkedEntries_eq_nil_iff "game" Game.id validateGame_eq_nil_iff,
    ← checkedEntries_eq_nil_iff "launcher" Launcher.id validateLauncher_eq_nil_iff]
  constructor
  · intro h
    obtain ⟨anticheat, hanticheat, h⟩ := (Outcome.bind_eq_ok_iff _ _ _).mp h
    obtain ⟨game, hgame, h⟩ := (Outcome.bind_eq_ok_iff _ _ _).mp h
    obtain ⟨launcher, hlauncher, h⟩ := (Outcome.bind_eq_ok_iff _ _ _).mp h
    have hnil := Outcome.ok.inj h
    simp only [List.append_eq_nil_iff] at hnil
    obtain ⟨⟨⟨hheader, rfl⟩, rfl⟩, rfl⟩ := hnil
    exact ⟨hheader, hanticheat, hgame, hlauncher⟩
  · intro h
    obtain ⟨hheader, hanticheat, hgame, hlauncher⟩ := h
    rw [validate, hanticheat, Outcome.bind_ok, hgame, Outcome.bind_ok, hlauncher, Outcome.bind_ok,
      hheader]
    rfl

theorem checkDenylist_eq_nil_iff (catalog : Catalog) :
    checkDenylist catalog = .ok [] ↔
      (∀ ac ∈ catalog.anticheat, checkDenylistAnticheat ac = .ok []) ∧
        ∀ game ∈ catalog.game, checkDenylistGame game = .ok [] := by
  rw [checkDenylist, bind_append_eq_nil_iff, Outcome.flatTraverse_eq_nil_iff,
    Outcome.flatTraverse_eq_nil_iff]

theorem integrity_eq_nil_iff_checks (catalog : Catalog) :
    integrity catalog = .ok [] ↔ validate catalog = .ok [] ∧ checkRefs catalog = [] ∧
      checkDenylist catalog = .ok [] ∧ auditShared catalog true = [] := by
  constructor
  · intro h
    obtain ⟨fields, hfields, h⟩ := (Outcome.bind_eq_ok_iff _ _ _).mp h
    obtain ⟨denied, hdenied, h⟩ := (Outcome.bind_eq_ok_iff _ _ _).mp h
    have hnil := Outcome.ok.inj h
    simp only [List.append_eq_nil_iff] at hnil
    obtain ⟨⟨⟨rfl, hrefs⟩, rfl⟩, hshared⟩ := hnil
    exact ⟨hfields, hrefs, hdenied, hshared⟩
  · intro h
    obtain ⟨hfields, hrefs, hdenied, hshared⟩ := h
    rw [integrity, hfields, Outcome.bind_ok, hdenied, Outcome.bind_ok, hrefs, hshared]
    rfl

/-- The gate finds nothing exactly in a sound catalog. -/
theorem integrity_eq_nil_iff (catalog : Catalog) : integrity catalog = .ok [] ↔ Sound catalog := by
  rw [integrity_eq_nil_iff_checks, validate_eq_nil_iff, checkRefs_eq_nil_iff,
    checkDenylist_eq_nil_iff, auditShared_eq_nil_iff]
  simp only [checkDenylistAnticheat_eq_nil_iff, checkDenylistGame_eq_nil_iff]
  constructor
  · intro h
    obtain ⟨⟨hheader, hfields, hgames, hlaunchers⟩, ⟨hdistinct, hanticheat, hlauncher⟩,
      ⟨hdenied, hgameDenied⟩, hshared⟩ := h
    refine ⟨hheader, ?_, ?_, ?_, hdistinct, hanticheat, hlauncher⟩
    · intro ac hac
      obtain ⟨hkebab, hvalid, hpaths, hkeys, huninstall⟩ := hfields ac hac
      obtain ⟨⟨hdrivers, hservices⟩, hclear, hkeysClear⟩ := hdenied ac hac
      exact ⟨⟨hkebab, hvalid, fun entry hentry ↦ ⟨hpaths entry hentry, hclear entry hentry⟩,
        fun entry hentry ↦ ⟨hkeys entry hentry, hkeysClear entry hentry⟩, hdrivers, hservices⟩,
        huninstall, hshared ac hac⟩
    · intro game hgame
      obtain ⟨hkebab, hplain, hsaves, hkeys⟩ := hgames game hgame
      obtain ⟨hclear, hkeysClear⟩ := hgameDenied game hgame
      refine ⟨hkebab, fun entry hentry ↦ (hplain entry hentry).notSave,
        fun entry hentry ↦ (hsaves entry hentry).1, ?_, hclear,
        fun entry hentry ↦ ⟨hkeys entry hentry, hkeysClear entry hentry⟩⟩
      intro entry hentry
      rcases List.mem_append.mp hentry with hfront | hsave
      · exact ((pathValid_iff entry).mp (hplain entry hfront)).2
      · exact (hsaves entry hsave).2
    · intro launcher hmem
      obtain ⟨hkebab, hcommand, hdetects⟩ := hlaunchers launcher hmem
      exact ⟨hkebab, hcommand, hdetects⟩
  · intro h
    refine ⟨⟨h.header, ?_, ?_, ?_⟩, ⟨h.distinct, h.anticheatKnown, h.launcherKnown⟩, ⟨?_, ?_⟩, ?_⟩
    · intro ac hac
      obtain ⟨hclear, huninstall, -⟩ := h.anticheat ac hac
      exact ⟨hclear.kebab, hclear.fields, fun entry hentry ↦ (hclear.paths entry hentry).1,
        fun entry hentry ↦ (hclear.keys entry hentry).1, huninstall⟩
    · intro game hgame
      have hsound := h.game game hgame
      refine ⟨hsound.kebab, fun entry hentry ↦ (pathValid_iff entry).mpr
        ⟨hsound.notSave entry hentry, hsound.written entry (List.mem_append_left _ hentry)⟩,
        fun entry hentry ↦ ⟨hsound.save entry hentry,
          hsound.written entry (List.mem_append_right _ hentry)⟩,
        fun entry hentry ↦ (hsound.keys entry hentry).1⟩
    · intro launcher hmem
      have hsound := h.launcher launcher hmem
      exact ⟨hsound.kebab, hsound.command, hsound.detects⟩
    · intro ac hac
      have hclear := (h.anticheat ac hac).clear
      exact ⟨⟨hclear.drivers, hclear.services⟩, fun entry hentry ↦ (hclear.paths entry hentry).2,
        fun entry hentry ↦ (hclear.keys entry hentry).2⟩
    · intro game hgame
      have hsound := h.game game hgame
      exact ⟨hsound.clear, fun entry hentry ↦ (hsound.keys entry hentry).2⟩
    · exact fun ac hac ↦ (h.anticheat ac hac).shared

end WardSweep.Validate
