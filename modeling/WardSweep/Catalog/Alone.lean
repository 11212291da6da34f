import WardSweep.Catalog.Plain
import WardSweep.Rust.Matches

/-!
# A catalog of one entry

An anti-cheat entry by itself passes the integrity checks and the deny-list exactly when its header,
its id, its fields and each of its locations do.
-/

namespace WardSweep.Validate

open Utf8 Str Paths Denylist Schema Expand

/-! ## Places in a list -/

theorem problemIf_eq_nil_iff {wrong : Bool} {place message : Text} :
    problemIf wrong place message = [] ↔ wrong = false := by
  cases wrong <;> simp [problemIf]

/-- A check that looks at each entry with its place finds nothing exactly when it finds nothing in
any entry. -/
theorem flatMap_zipIdx_eq_nil_iff {α β : Type*} {check : α × ℕ → List β} {clear : α → Prop}
    (hcheck : ∀ entry index, check (entry, index) = [] ↔ clear entry) (entries : List α) :
    entries.zipIdx.flatMap check = [] ↔ ∀ entry ∈ entries, clear entry := by
  rw [List.flatMap_eq_nil_iff]
  constructor
  · intro h entry hentry
    obtain ⟨index, hindex⟩ := exists_mem_zipIdx hentry
    exact (hcheck entry index).mp (h _ hindex)
  · intro h numbered hnumbered
    exact (hcheck numbered.1 numbered.2).mpr (h _ (List.fst_mem_of_mem_zipIdx hnumbered))

/-! ## Locations -/

/-- A path entry outside `saves` that is well written: it expands to paths that can be reduced. -/
structure PathValid (entry : PathEntry) : Prop where
  notSave : entry.pathClass ≠ .save
  noWildcard : '*' ∉ entry.path ∧ '?' ∉ entry.path
  kept : nonCanonicalComponent entry.path = none
  expands : ∃ expansions, expandForValidation entry.path = .ok expansions ∧
    ∀ expansion ∈ expansions, ∃ canonical, canonicaliseSyntactic expansion = .ok canonical

/-- A registry entry with a hive, of a class that a key can have. -/
structure KeyValid (entry : RegistryEntry) : Prop where
  notSave : entry.keyClass ≠ .save
  reduces : ∃ canonical, canonicaliseRegKey entry.key = .ok canonical

theorem checkExpansion_eq_nil_iff (place template expansion : Text) :
    checkExpansion place template expansion = .ok [] ↔
      ∃ canonical, canonicaliseSyntactic expansion = .ok canonical := by
  unfold checkExpansion
  cases canonicaliseSyntactic expansion <;> simp [Outcome.handle]

theorem checkExpansions_eq_nil_iff (place template : Text) :
    checkExpansions place template = .ok [] ↔
      ∃ expansions, expandForValidation template = .ok expansions ∧
        ∀ expansion ∈ expansions, ∃ canonical, canonicaliseSyntactic expansion = .ok canonical := by
  unfold checkExpansions
  cases expandForValidation template with
  | error error => simp
  | ok expansions =>
    dsimp only
    rw [Outcome.flatTraverse_eq_nil_iff]
    simp only [checkExpansion_eq_nil_iff, Except.ok.injEq, exists_eq_left']

theorem checkPathEntry_eq_nil_iff (place : Text) (entry : PathEntry) :
    checkPathEntry place false entry = .ok [] ↔ PathValid entry := by
  have hcontains (c : Char) : entry.path.contains c = false ↔ c ∉ entry.path := by
    rw [Bool.eq_false_iff, ne_eq, List.contains_iff_mem]
  constructor
  · intro h
    obtain ⟨expanded, hexpanded, hproblems⟩ := (Outcome.bind_eq_ok_iff _ _ _).mp h
    have hnil := Outcome.ok.inj hproblems
    simp only [List.append_eq_nil_iff, problemIf_eq_nil_iff, List.map_eq_nil_iff,
      Option.toList_eq_nil_iff, Bool.or_eq_false_iff, hcontains] at hnil
    obtain ⟨⟨⟨⟨-, hsave⟩, hwildcard⟩, hkept⟩, rfl⟩ := hnil
    exact ⟨by simpa using hsave, hwildcard, hkept, (checkExpansions_eq_nil_iff _ _).mp hexpanded⟩
  · intro h
    rw [checkPathEntry, (checkExpansions_eq_nil_iff place _).mpr h.expands]
    have hsave : (!false && entry.pathClass == .save) = false := by simpa using h.notSave
    have hwildcard : (entry.path.contains '*' || entry.path.contains '?') = false := by
      rw [Bool.or_eq_false_iff, hcontains, hcontains]
      exact h.noWildcard
    rw [Outcome.bind_ok, hsave, hwildcard, h.kept]
    rfl

theorem checkRegistryEntry_eq_nil_iff (place : Text) (entry : RegistryEntry) :
    checkRegistryEntry place entry = .ok [] ↔ KeyValid entry := by
  have hsave : (entry.keyClass == .save) = false ↔ entry.keyClass ≠ .save := by simp
  unfold checkRegistryEntry
  cases hreduces : canonicaliseRegKey entry.key with
  | ok canonical =>
    rw [Outcome.handle_ok, Outcome.ok.injEq, problemIf_eq_nil_iff, hsave]
    exact ⟨fun h ↦ ⟨h, canonical, hreduces⟩, fun h ↦ h.notSave⟩
  | err error =>
    rw [Outcome.handle_err]
    refine ⟨fun h ↦ absurd (Outcome.ok.inj h) (List.cons_ne_nil _ _), fun h ↦ ?_⟩
    obtain ⟨canonical, hcanonical⟩ := h.reduces
    cases hreduces.symm.trans hcanonical
  | panic =>
    refine ⟨(nomatch ·), fun h ↦ ?_⟩
    obtain ⟨canonical, hcanonical⟩ := h.reduces
    cases hreduces.symm.trans hcanonical

/-! ## Fields -/

/-- The fields of an anti-cheat entry agree with one another and are filled in. -/
structure FieldsValid (ac : AntiCheat) : Prop where
  display : trim ac.display ≠ []
  kernel : ac.kind = .kernel → ac.drivers ≠ []
  critical : ac.risk = .critical → ac.kind ≠ .usermode
  drivers : ∀ driver ∈ ac.drivers, ('\\' ∉ driver ∧ '/' ∉ driver) ∧ isSysName driver = true
  hashes : ∀ hash ∈ ac.fileHashes, byteLen hash = 64 ∧ hash.all fun c ↦ isAsciiHexdigit c.toNat
  services : ∀ name ∈ ac.services, trim name ≠ []

theorem checkDriver_eq_nil_iff (place driver : Text) :
    checkDriver place driver = [] ↔ ('\\' ∉ driver ∧ '/' ∉ driver) ∧ isSysName driver = true := by
  rw [checkDriver, List.append_eq_nil_iff, problemIf_eq_nil_iff, problemIf_eq_nil_iff,
    Bool.or_eq_false_iff, Bool.eq_false_iff, Bool.eq_false_iff, ne_eq, ne_eq, List.contains_iff_mem,
    List.contains_iff_mem, Bool.not_eq_false']

theorem checkFields_eq_nil_iff (place : Text) (ac : AntiCheat) :
    checkFields place ac = [] ↔ FieldsValid ac := by
  have hdrivers : (ac.drivers.zipIdx.flatMap fun driver ↦
      checkDriver (indexed place "drivers" driver.2) driver.1) = [] ↔
        ∀ driver ∈ ac.drivers, ('\\' ∉ driver ∧ '/' ∉ driver) ∧ isSysName driver = true :=
    flatMap_zipIdx_eq_nil_iff (fun driver index ↦ checkDriver_eq_nil_iff _ driver) ac.drivers
  have hhashes : (ac.fileHashes.zipIdx.flatMap fun hash ↦
      problemIf (!(byteLen hash.1 == 64 && hash.1.all fun c ↦ isAsciiHexdigit c.toNat))
        (indexed place "file_hashes" hash.2) "must be 64 hex characters (SHA-256)".toList) = [] ↔
        ∀ hash ∈ ac.fileHashes, byteLen hash = 64 ∧
          (hash.all fun c ↦ isAsciiHexdigit c.toNat) = true :=
    flatMap_zipIdx_eq_nil_iff (fun hash index ↦ by
      rw [problemIf_eq_nil_iff, Bool.not_eq_false', Bool.and_eq_true, beq_iff_eq]) ac.fileHashes
  have hservices : (ac.services.any fun name ↦ (trim name).isEmpty) = false ↔
      ∀ name ∈ ac.services, trim name ≠ [] := by
    simp [List.any_eq_false]
  simp only [checkFields, List.append_eq_nil_iff, problemIf_eq_nil_iff, hdrivers,
    hhashes, hservices]
  constructor
  · intro h
    obtain ⟨⟨⟨⟨⟨hdisplay, hkernel⟩, hcritical⟩, hdrivers⟩, hhashes⟩, hservices⟩ := h
    exact ⟨by simpa using hdisplay, by simpa using hkernel, by simpa using hcritical, hdrivers,
      hhashes, hservices⟩
  · intro h
    exact ⟨⟨⟨⟨⟨by simpa using h.display, by simpa using h.kernel⟩, by simpa using h.critical⟩,
      h.drivers⟩, h.hashes⟩, h.services⟩

/-! ## Names in any case -/

/-- A name that an entry may list as a driver: the bare name of a file that is not of Windows. -/
structure IsDriverName (name : Text) : Prop where
  bare : '\\' ∉ name ∧ '/' ∉ name
  sys : isSysName name = true
  notInbox : isInboxDriver name = false

/-- Lower-casing neither makes nor unmakes a text without letters. -/
theorem toAsciiLowercase_eq_iff {fixed : Text}
    (hfixed : ∀ c ∈ fixed, isAsciiAlphabetic c.toNat = false) {text : Text} :
    toAsciiLowercase text = fixed ↔ text = fixed := by
  induction text generalizing fixed with
  | nil => rfl
  | cons c text ih =>
    cases fixed with
    | nil => simp [toAsciiLowercase]
    | cons d fixed =>
      rw [List.forall_mem_cons] at hfixed
      rw [toAsciiLowercase_cons, List.cons.injEq, List.cons.injEq, toLower_eq_iff hfixed.1,
        ih hfixed.2]

theorem isAsciiAlphabetic_toLower (c : Char) :
    isAsciiAlphabetic c.toLower.toNat = isAsciiAlphabetic c.toNat := by
  rw [toNat_toLower, isAsciiAlphabetic, isAsciiAlphabetic, Bool.eq_iff_iff]
  simp only [Bool.or_eq_true, Bool.and_eq_true, decide_eq_true_eq]
  split_ifs <;> omega

/-- A path without its drive. -/
def besidesDrive (path : Text) : Text :=
  if (path.head?.any fun letter ↦ isAsciiAlphabetic letter.toNat) ∧ path[1]? = some ':' then
    path.drop 2
  else path

theorem pathFileName_eq (path : Text) :
    pathFileName path = (((((besidesDrive path).splitOnP isSeparator).filter fun part ↦
      part != [] && part != ".".toList).getLast?).filter fun name ↦ name != "..".toList) := by
  unfold pathFileName
  match path with
  | [] => rfl
  | [_] =>
    simp [besidesDrive]
    rfl
  | letter :: c :: rest =>
    by_cases hc : c = ':'
    · subst hc
      simp [besidesDrive]
      rfl
    · simp [besidesDrive, hc]
      rfl

theorem besidesDrive_toAsciiLowercase (path : Text) :
    besidesDrive (toAsciiLowercase path) = toAsciiLowercase (besidesDrive path) := by
  have hcolon : (toAsciiLowercase path)[1]? = some ':' ↔ path[1]? = some ':' := by
    rw [toAsciiLowercase, List.getElem?_map, Option.map_eq_some_iff]
    simp only [@toLower_eq_iff _ ':' (by decide), exists_eq_right]
  have hletter : ((toAsciiLowercase path).head?.any fun letter ↦ isAsciiAlphabetic letter.toNat) =
      path.head?.any fun letter ↦ isAsciiAlphabetic letter.toNat := by
    cases path with
    | nil => rfl
    | cons c path => exact isAsciiAlphabetic_toLower c
  unfold besidesDrive
  simp only [hcolon, hletter]
  split_ifs
  · exact List.map_drop.symm
  · rfl

theorem pathFileName_toAsciiLowercase (path : Text) :
    pathFileName (toAsciiLowercase path) = (pathFileName path).map toAsciiLowercase := by
  have hnamed (fixed : Text) (hfixed : ∀ c ∈ fixed, isAsciiAlphabetic c.toNat = false)
      (part : Text) : (toAsciiLowercase part != fixed) = (part != fixed) := by
    rw [Bool.eq_iff_iff, bne_iff_ne, bne_iff_ne, ne_eq, ne_eq, toAsciiLowercase_eq_iff hfixed]
  have hkept : ((fun part ↦ part != [] && part != ".".toList) ∘ toAsciiLowercase) =
      fun part ↦ part != [] && part != ".".toList := by
    funext part
    rw [Function.comp_apply, hnamed [] (by decide), hnamed ".".toList (by decide)]
  have hparent : ((fun name ↦ name != "..".toList) ∘ toAsciiLowercase) =
      fun name ↦ name != "..".toList := by
    funext name
    exact hnamed "..".toList (by decide) name
  rw [pathFileName_eq, pathFileName_eq, besidesDrive_toAsciiLowercase, splitOnP_toAsciiLowercase,
    List.filter_map, hkept, List.getLast?_map, Option.filter_map, hparent]

theorem extension_toAsciiLowercase (path : Text) :
    extension (toAsciiLowercase path) = (extension path).map toAsciiLowercase := by
  have hdot (c : Char) : c.toLower = '.' ↔ c = '.' := toLower_eq_iff (by decide)
  unfold extension
  rw [pathFileName_toAsciiLowercase]
  cases pathFileName path with
  | none => rfl
  | some name =>
    rw [Option.map_some, Option.bind_some, Option.bind_some, toAsciiLowercase, rsplitOnce_map hdot]
    cases rsplitOnce name ['.'] with
    | none => rfl
    | some parts =>
      obtain ⟨stem, extension⟩ := parts
      rw [Option.map_some, Option.bind_some, Option.bind_some, Prod.map_apply]
      dsimp only
      by_cases hstem : stem = []
      · rw [if_pos hstem, if_pos (by rw [hstem, List.map_nil])]
        rfl
      · rw [if_neg hstem, if_neg (mt List.map_eq_nil_iff.mp hstem)]
        rfl

/-- Whether a name may be listed does not depend on its case. -/
theorem IsDriverName.of_lower {name other : Text} (h : IsDriverName name)
    (hcase : toAsciiLowercase other = toAsciiLowercase name) : IsDriverName other := by
  have hmem (c : Char) (hc : isAsciiAlphabetic c.toNat = false) : c ∈ other ↔ c ∈ name := by
    rw [← mem_toAsciiLowercase_iff hc, hcase, mem_toAsciiLowercase_iff hc]
  have heq (left right : Text) (hsame : toAsciiLowercase left = toAsciiLowercase right)
      (want : Text) : eqIgnoreAsciiCase left want = eqIgnoreAsciiCase right want := by
    rw [Bool.eq_iff_iff, eqIgnoreAsciiCase_eq_true_iff, eqIgnoreAsciiCase_eq_true_iff, hsame]
  have hextension : (extension other).map toAsciiLowercase =
      (extension name).map toAsciiLowercase := by
    rw [← extension_toAsciiLowercase, hcase, extension_toAsciiLowercase]
  have htrim : toAsciiLowercase (trim other) = toAsciiLowercase (trim name) := by
    have hlower (text : Text) : trim (toAsciiLowercase text) = toAsciiLowercase (trim text) :=
      trimMatches_map isWhitespace isWhitespace_toLower text
    rw [← hlower, hcase, hlower]
  refine ⟨⟨mt (hmem _ (by decide)).mp h.bare.1, mt (hmem _ (by decide)).mp h.bare.2⟩, ?_, ?_⟩
  · have hsys := h.sys
    unfold isSysName at hsys ⊢
    cases hname : extension name with
    | none =>
      rw [hname] at hsys
      cases hsys
    | some found =>
      rw [hname] at hsys hextension
      obtain ⟨same, hsame, hlower⟩ := Option.map_eq_some_iff.mp hextension
      rw [hsame]
      exact (heq same found hlower _).trans hsys
  · have hinbox := h.notInbox
    unfold isInboxDriver at hinbox ⊢
    rw [List.any_eq_false] at hinbox ⊢
    intro inbox hmem hsame
    apply hinbox inbox hmem
    rw [eqIgnoreAsciiCase_eq_true_iff] at hsame ⊢
    rw [hsame, htrim]

/-! ## An entry alone -/

/-- A catalog with one anti-cheat entry and nothing else. -/
def alone (header : Catalog) (ac : AntiCheat) : Catalog :=
  { header with anticheat := [ac], game := [], launcher := [] }

/-- What the checks ask of an entry whose own uninstaller is not known. -/
structure EntryClear (ac : AntiCheat) : Prop where
  kebab : isKebab ac.id = true
  fields : FieldsValid ac
  paths : ∀ entry ∈ ac.paths, PathValid entry ∧ PathClear (exceptionsFor ac) entry
  keys : ∀ entry ∈ ac.registry, KeyValid entry ∧ KeyClear (exceptionsFor ac) entry
  drivers : ∀ driver ∈ ac.drivers, isInboxDriver driver = false
  services : ∀ name ∈ ac.services, isInboxService name = false

theorem validateAnticheat_eq_nil_iff {ac : AntiCheat} (place : Text)
    (huninstall : ac.officialUninstall = none) :
    validateAnticheat place ac = .ok [] ↔
      FieldsValid ac ∧ (∀ entry ∈ ac.paths, PathValid entry) ∧
        ∀ entry ∈ ac.registry, KeyValid entry := by
  have hpaths : checkPaths place "paths" ac.paths false = .ok [] ↔
      ∀ entry ∈ ac.paths, PathValid entry :=
    flatTraverse_zipIdx_eq_nil_iff (fun entry index ↦ checkPathEntry_eq_nil_iff _ entry) ac.paths
  have hkeys : checkRegistry place ac.registry = .ok [] ↔ ∀ entry ∈ ac.registry, KeyValid entry :=
    flatTraverse_zipIdx_eq_nil_iff (fun entry index ↦ checkRegistryEntry_eq_nil_iff _ entry)
      ac.registry
  rw [← checkFields_eq_nil_iff place, ← hpaths, ← hkeys, validateAnticheat, huninstall]
  constructor
  · intro h
    obtain ⟨paths, hpaths, hmore⟩ := (Outcome.bind_eq_ok_iff _ _ _).mp h
    obtain ⟨registry, hregistry, hall⟩ := (Outcome.bind_eq_ok_iff _ _ _).mp hmore
    have hnil := Outcome.ok.inj hall
    simp only [List.append_eq_nil_iff] at hnil
    obtain ⟨⟨⟨hfields, rfl⟩, rfl⟩, -⟩ := hnil
    exact ⟨hfields, hpaths, hregistry⟩
  · intro h
    rw [h.1, h.2.1, h.2.2]
    rfl

theorem checkInbox_eq_nil_iff (isInbox : Text → Bool) (owner : Text) (field : String)
    (names : List Text) :
    checkInbox isInbox owner field names = [] ↔ ∀ name ∈ names, isInbox name = false :=
  flatMap_zipIdx_eq_nil_iff (fun _ _ ↦ problemIf_eq_nil_iff) names

theorem checkDenylistAnticheat_eq_nil_iff (ac : AntiCheat) :
    checkDenylistAnticheat ac = .ok [] ↔
      ((∀ driver ∈ ac.drivers, isInboxDriver driver = false) ∧
        ∀ name ∈ ac.services, isInboxService name = false) ∧
      (∀ entry ∈ ac.paths, PathClear (exceptionsFor ac) entry) ∧
        ∀ entry ∈ ac.registry, KeyClear (exceptionsFor ac) entry := by
  rw [← checkInbox_eq_nil_iff isInboxDriver (ownerOf "anticheat" ac.id) "drivers",
    ← checkInbox_eq_nil_iff isInboxService (ownerOf "anticheat" ac.id) "services",
    ← checkDenylistPaths_eq_nil_iff (ownerOf "anticheat" ac.id) "paths",
    ← checkDenylistKeys_eq_nil_iff (ownerOf "anticheat" ac.id)]
  constructor
  · intro h
    obtain ⟨paths, hpaths, hmore⟩ := (Outcome.bind_eq_ok_iff _ _ _).mp h
    obtain ⟨keys, hkeys, hall⟩ := (Outcome.bind_eq_ok_iff _ _ _).mp hmore
    have hnil := Outcome.ok.inj hall
    simp only [List.append_eq_nil_iff] at hnil
    obtain ⟨⟨hinbox, rfl⟩, rfl⟩ := hnil
    exact ⟨hinbox, hpaths, hkeys⟩
  · intro h
    rw [checkDenylistAnticheat, h.2.1, h.2.2]
    simp only [Outcome.bind_ok, h.1.1, h.1.2]
    rfl

theorem validate_alone_eq_nil_iff {header : Catalog} (hheader : checkHeader header = [])
    {ac : AntiCheat} (huninstall : ac.officialUninstall = none) :
    validate (alone header ac) = .ok [] ↔ isKebab ac.id = true ∧ FieldsValid ac ∧
      (∀ entry ∈ ac.paths, PathValid entry) ∧ ∀ entry ∈ ac.registry, KeyValid entry := by
  have hentry : (validateAnticheat (entryAt "anticheat" 0 ac.id) ac).bind (fun problems ↦
      .ok (checkId (entryAt "anticheat" 0 ac.id) ac.id ++ problems)) = .ok [] ↔
        isKebab ac.id = true ∧ validateAnticheat (entryAt "anticheat" 0 ac.id) ac = .ok [] := by
    rw [Outcome.bind_eq_ok_iff]
    simp only [Outcome.ok.injEq, List.append_eq_nil_iff, checkId, problemIf_eq_nil_iff,
      Bool.not_eq_false']
    constructor
    · rintro ⟨problems, hproblems, hkebab, rfl⟩
      exact ⟨hkebab, hproblems⟩
    · exact fun h ↦ ⟨[], h.2, h.1, rfl⟩
  rw [← validateAnticheat_eq_nil_iff (entryAt "anticheat" 0 ac.id) huninstall, ← hentry]
  have hall : validate (alone header ac) =
      (Outcome.flatTraverse (fun entry : AntiCheat × ℕ ↦
        (validateAnticheat (entryAt "anticheat" entry.2 entry.1.id) entry.1).bind fun problems ↦
          .ok (checkId (entryAt "anticheat" entry.2 entry.1.id) entry.1.id ++ problems))
        [(ac, 0)]).bind fun anticheat ↦ .ok (checkHeader header ++ anticheat ++ [] ++ []) := rfl
  have hbind (found : Outcome Empty (List Problem)) :
      (found.bind fun anticheat ↦ .ok (checkHeader header ++ anticheat ++ [] ++ [])) = .ok [] ↔
        found = .ok [] := by
    cases found <;> simp [hheader, Outcome.bind]
  rw [hall, hbind, Outcome.flatTraverse_eq_nil_iff, List.forall_mem_singleton]

/-- Alone under a good header, an entry passes when it is clear. -/
theorem alone_eq_nil_iff {header : Catalog} (hheader : checkHeader header = []) {ac : AntiCheat}
    (huninstall : ac.officialUninstall = none) :
    validate (alone header ac) = .ok [] ∧ checkDenylist (alone header ac) = .ok [] ↔
      EntryClear ac := by
  have hdenylist : checkDenylist (alone header ac) = .ok [] ↔
      checkDenylistAnticheat ac = .ok [] := by
    rw [checkDenylist, bind_append_eq_nil_iff, Outcome.flatTraverse_eq_nil_iff,
      Outcome.flatTraverse_eq_nil_iff]
    change (∀ entry ∈ [ac], _) ∧ (∀ entry ∈ [], _) ↔ _
    rw [List.forall_mem_singleton]
    exact and_iff_left (List.forall_mem_nil _)
  rw [validate_alone_eq_nil_iff hheader huninstall, hdenylist, checkDenylistAnticheat_eq_nil_iff]
  constructor
  · intro h
    obtain ⟨⟨hkebab, hfields, hpaths, hkeys⟩, ⟨hdrivers, hservices⟩, hclear, hkeysClear⟩ := h
    exact ⟨hkebab, hfields, fun entry hentry ↦ ⟨hpaths entry hentry, hclear entry hentry⟩,
      fun entry hentry ↦ ⟨hkeys entry hentry, hkeysClear entry hentry⟩, hdrivers, hservices⟩
  · intro h
    exact ⟨⟨h.kebab, h.fields, fun entry hentry ↦ (h.paths entry hentry).1,
      fun entry hentry ↦ (h.keys entry hentry).1⟩, ⟨h.drivers, h.services⟩,
      fun entry hentry ↦ (h.paths entry hentry).2, fun entry hentry ↦ (h.keys entry hentry).2⟩

end WardSweep.Validate
