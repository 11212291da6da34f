import WardSweep.Safety.Denylist
import WardSweep.Catalog.Schema
import WardSweep.Suggest.Review

/-!
# The entries of a draft

The directories that gained attributed files, the attributed keys that were added, and the event
sources they register.  A directory or a key the deny-list refuses is left out.  Every function also
gives the notes it adds for the reviewer.
-/

namespace WardSweep.Suggest

open Utf8 Str Observe Ordered Paths Denylist Schema

/-- Whether some proper ancestor of a path or key is listed as well. -/
def hasListedAncestor (candidate : Text) (listed : List Text) : Bool :=
  (matchIndices candidate ['\\']).any fun offset ↦ listed.contains (candidate.take offset)

/-! ## Paths -/

/-- The added files of both diffs that the evidence does not claim, or the other ones. -/
def gathered (footprint : Diff) (residue : Option Diff) (attribution : Attribution)
    (claimed : Bool) : List FileChange :=
  (addedFiles footprint residue).filter fun change ↦
    attribution.claimsPath (toAsciiLowercase change.path) == claimed

/-- The directories that gained files, in order. -/
def gainedDirectories (footprint : Diff) (residue : Option Diff) (attribution : Attribution) :
    List Text :=
  sortedKeys ((gathered footprint residue attribution true).filterMap fun change ↦
    parentOf change.path)

/-- Those of some paths or keys that have no ancestor among them. -/
def collapsed (listed : List Text) : List Text :=
  listed.filter fun candidate ↦ !hasListedAncestor candidate listed

/-- Whether the deny-list the broker enforces allows a path. -/
def allowsPath (exceptions : Exceptions) (path : Text) : Outcome Empty Bool :=
  (canonicaliseSyntactic path).handle
    (fun canonical ↦ (checkPath canonical exceptions .catalogLoad).handle
      (fun _ ↦ .ok true) fun _ ↦ .ok false)
    fun _ ↦ .ok false

/-- Each of some texts with the answer to a question about it. -/
def judged (asks : Text → Outcome Empty Bool) (texts : List Text) :
    Outcome Empty (List (Text × Bool)) :=
  Outcome.traverse (fun text ↦ (asks text).bind fun answer ↦ .ok (text, answer)) texts

theorem allowsPath_eq_true_iff (exceptions : Exceptions) (path : Text) :
    allowsPath exceptions path = .ok true ↔
      ∃ canonical, canonicaliseSyntactic path = .ok canonical ∧
        checkPath canonical exceptions .catalogLoad = .ok () := by
  unfold allowsPath
  cases canonicaliseSyntactic path with
  | ok canonical =>
    rw [Outcome.handle_ok]
    cases hcheck : checkPath canonical exceptions .catalogLoad <;> simp [Outcome.handle, hcheck]
  | err error => simp
  | panic => simp [Outcome.handle]

theorem judged_eq_ok {asks : Text → Outcome Empty Bool} {texts : List Text}
    {verdicts : List (Text × Bool)} (h : judged asks texts = .ok verdicts) :
    List.Forall₂ (fun text verdict ↦ verdict.1 = text ∧ asks text = .ok verdict.2) texts
      verdicts := by
  apply List.Forall₂.imp _ ((Outcome.traverse_eq_ok_iff _ _ _).mp h)
  intro text verdict hverdict
  obtain ⟨answer, hanswer, hpair⟩ := (Outcome.bind_eq_ok_iff _ _ _).mp hverdict
  obtain rfl := Outcome.ok.inj hpair
  exact ⟨rfl, hanswer⟩

/-- What is kept of some texts is what the question is answered yes for. -/
theorem map_filter_judged {asks : Text → Outcome Empty Bool} {texts : List Text}
    {verdicts : List (Text × Bool)} (h : judged asks texts = .ok verdicts) :
    (verdicts.filter Prod.snd).map Prod.fst = texts.filter fun text ↦ asks text = .ok true := by
  have hall := judged_eq_ok h
  clear h
  induction hall with
  | nil => rfl
  | @cons text verdict texts verdicts hverdict _ ih =>
    obtain ⟨rfl, hanswer⟩ := hverdict
    cases hkept : verdict.2 with
    | true => simp [hkept, hanswer, ih]
    | false => simp [hkept, hanswer, ih]

/-- The entry of a directory.  Every path starts as `data`. -/
def pathEntry (path : Text) : PathEntry := ⟨templated path, .data⟩

/-- What the reviewer is told about the directories. -/
def pathNotes (unclaimed : ℕ) (verdicts : List (Text × Bool)) : List Text :=
  (if 0 < unclaimed then
    [decimal unclaimed ++
      (" added file(s) could not be attributed to this publisher and were left " ++
      "out. That is ordinary machine churn between the two snapshots; check the diff if the " ++
      "footprint looks short.").toList]
  else []) ++
  (if 12 < verdicts.length then
    [decimal verdicts.length ++
      (" directories gained files. That is more than one product usually " ++
      "installs — check whether the snapshots span something else as well.").toList]
  else []) ++
  (verdicts.filter fun verdict ↦ !verdict.2).map fun verdict ↦
    '`' :: verdict.1 ++ ("` was dropped: the deny-list refuses it. A driver there belongs in " ++
      "`drivers = [...]` by file name, never as a path.").toList

/-- Directories that gained files, as entries. -/
def pathEntries (footprint : Diff) (residue : Option Diff) (attribution : Attribution)
    (exceptions : Exceptions) : Outcome Empty (List PathEntry × List Text) :=
  (judged (allowsPath exceptions)
      (collapsed (gainedDirectories footprint residue attribution))).bind fun verdicts ↦
    .ok ((verdicts.filter Prod.snd).map fun verdict ↦ pathEntry verdict.1,
      pathNotes (gathered footprint residue attribution false).length verdicts)

/-- The directories of the entries: those that nothing listed contains and the deny-list allows. -/
def allowedDirectories (footprint : Diff) (residue : Option Diff) (attribution : Attribution)
    (exceptions : Exceptions) : List Text :=
  (collapsed (gainedDirectories footprint residue attribution)).filter fun path ↦
    allowsPath exceptions path = .ok true

theorem pathEntries_eq_ok {footprint : Diff} {residue : Option Diff} {attribution : Attribution}
    {exceptions : Exceptions} {result : List PathEntry × List Text}
    (h : pathEntries footprint residue attribution exceptions = .ok result) :
    result.1 =
      (allowedDirectories footprint residue attribution exceptions).map pathEntry := by
  obtain ⟨verdicts, hverdicts, hresult⟩ := (Outcome.bind_eq_ok_iff _ _ _).mp h
  obtain rfl := Outcome.ok.inj hresult
  rw [allowedDirectories, ← map_filter_judged hverdicts, List.map_map]
  rfl

/-! ## Registry keys -/

/-- The 32-bit view's own name in the 64-bit view. -/
def wowAlias : Text := r"HKLM\SOFTWARE\WOW6432Node\".toList

/-- A registry key as the native view names it, and that view. -/
def nativeKey (key view : Text) : Text × Text :=
  match belowKey wowAlias key with
  | some below =>
    if view = "64".toList ∧ below ≠ [] then (r"HKLM\SOFTWARE\".toList ++ below, "32".toList)
    else (key, view)
  | none => (key, view)

/-- The added keys the evidence does not claim, or the other ones. -/
def addedKeys (footprint : Diff) (attribution : Attribution) (claimed : Bool) :
    List RegistryChange :=
  footprint.registry.filter fun change ↦ decide (change.kind = .added) &&
    attribution.claimsKey (toAsciiLowercase change.key) == claimed

/-- The attributed keys with the views they were seen in. -/
def seenKeys (footprint : Diff) (attribution : Attribution) : List (Text × Text) :=
  (addedKeys footprint attribution true).map fun change ↦ nativeKey change.key change.view

/-- Whether the deny-list allows a registry key. -/
def allowsKey (exceptions : Exceptions) (key : Text) : Outcome Empty Bool :=
  (canonicaliseRegKey key).handle
    (fun canonical ↦ (checkRegistryKey canonical exceptions).handle
      (fun _ ↦ .ok true) fun _ ↦ .ok false)
    fun _ ↦ .ok false

theorem allowsKey_eq_true_iff (exceptions : Exceptions) (key : Text) :
    allowsKey exceptions key = .ok true ↔
      ∃ canonical, canonicaliseRegKey key = .ok canonical ∧
        checkRegistryKey canonical exceptions = .ok () := by
  unfold allowsKey
  cases canonicaliseRegKey key with
  | ok canonical =>
    rw [Outcome.handle_ok]
    cases hcheck : checkRegistryKey canonical exceptions <;> simp [Outcome.handle, hcheck]
  | err error => simp
  | panic => simp [Outcome.handle]

/-- The views a key, or a key below it, was seen in. -/
def viewsSeen (seen : List (Text × Text)) (key : Text) : List Text :=
  (seen.filter fun record ↦
    record.1 == key || (key ++ ['\\']).isPrefixOf record.1).map Prod.snd

/-- The entry of a key: it covers the views of every key folded into it. -/
def registryEntry (seen : List (Text × Text)) (key : Text) : RegistryEntry where
  key := key
  view :=
    match (viewsSeen seen key).contains "32".toList, (viewsSeen seen key).contains "64".toList with
    | true, true => .both
    | true, false => .bits32
    | false, true => .bits64
    | false, false => .both
  keyClass := .config

/-- A key whose entry names one view. -/
def narrowedNote (entry : RegistryEntry) : Option Text :=
  match entry.view with
  | .bits32 => some ('`' :: entry.key ++ "` (32-bit view only)".toList)
  | .bits64 => some ('`' :: entry.key ++ "` (64-bit view only)".toList)
  | .both => none

/-- A key without a view the program recognises, whose entry names both. -/
def undeterminedNote (seen : List (Text × Text)) (key : Text) : Option Text :=
  if (viewsSeen seen key).contains "32".toList ||
    (viewsSeen seen key).contains "64".toList then none
  else some ('`' :: key ++ ['`'])

/-- What the reviewer is told about the keys. -/
def registryNotes (unclaimed : ℕ) (seen : List (Text × Text)) (verdicts : List (Text × Bool)) :
    List Text :=
  let kept := (verdicts.filter Prod.snd).map Prod.fst
  let narrowed := kept.filterMap fun key ↦ narrowedNote (registryEntry seen key)
  let undetermined := kept.filterMap (undeterminedNote seen)
  (if 0 < unclaimed then
    [decimal unclaimed ++
      (" added registry key(s) could not be attributed to this anti-cheat and " ++
      "were left out.").toList]
  else []) ++
  ((verdicts.filter fun verdict ↦ !verdict.2).map fun verdict ↦
    '`' :: verdict.1 ++ "` was dropped: the deny-list refuses it.".toList) ++
  (if narrowed = [] then []
  else
    [decimal narrowed.length ++
      (" key(s) were seen in one WOW64 view only and are recorded that way " ++
      "rather than as `both`: ").toList ++ ", ".toList.intercalate narrowed ++
      (r". `HKLM\SOFTWARE` is redirected and `HKLM\SYSTEM` is not, so a single view is usually a " ++
      "fact about redirection — but confirm it, because widening to `both` claims a key the " ++
      "observation never saw.").toList]) ++
  (if undetermined = [] then []
  else
    [decimal undetermined.length ++ (" key(s) carried no recognised WOW64 view and defaulted to " ++
      "`both`, which is the wider claim: ").toList ++ ", ".toList.intercalate undetermined ++
      ". Check the diff before submitting.".toList])

/-- Registry keys that were added, as entries. -/
def registryEntries (footprint : Diff) (attribution : Attribution) (exceptions : Exceptions) :
    Outcome Empty (List RegistryEntry × List Text) :=
  let seen := seenKeys footprint attribution
  (judged (allowsKey exceptions) (collapsed (sortedKeys (seen.map Prod.fst)))).bind fun verdicts ↦
    .ok ((verdicts.filter Prod.snd).map fun verdict ↦ registryEntry seen verdict.1,
      registryNotes (addedKeys footprint attribution false).length seen verdicts)

/-- The keys of the entries: those that nothing listed contains and the deny-list allows. -/
def allowedKeys (footprint : Diff) (attribution : Attribution) (exceptions : Exceptions) :
    List Text :=
  (collapsed (sortedKeys ((seenKeys footprint attribution).map Prod.fst))).filter fun key ↦
    allowsKey exceptions key = .ok true

theorem registryEntries_eq_ok {footprint : Diff} {attribution : Attribution}
    {exceptions : Exceptions} {result : List RegistryEntry × List Text}
    (h : registryEntries footprint attribution exceptions = .ok result) :
    result.1 = (allowedKeys footprint attribution exceptions).map
      (registryEntry (seenKeys footprint attribution)) := by
  obtain ⟨verdicts, hverdicts, hresult⟩ := (Outcome.bind_eq_ok_iff _ _ _).mp h
  obtain rfl := Outcome.ok.inj hresult
  rw [allowedKeys, ← map_filter_judged hverdicts, List.map_map]
  rfl

/-! ## Event sources -/

/-- What every event source's key begins with. -/
def eventLogKey : Text := r"HKLM\SYSTEM\CurrentControlSet\Services\EventLog\".toList

/-- An event source as its added key registers it: its log and its name. -/
structure EventSource where
  log : Text
  source : Text
  key : Text
  deriving DecidableEq, Repr

/-- The event source an added key is for, when it is exactly that. -/
def eventSource (change : RegistryChange) : Option EventSource :=
  if change.kind ≠ .added then none
  else
    ((belowKey eventLogKey change.key).bind fun below ↦ splitOnce below ['\\']).bind
      fun (log, source) ↦
        if source.isEmpty || source.contains '\\' then none else some ⟨log, source, change.key⟩

/-- The source as the reviewer is told of it. -/
def EventSource.place (source : EventSource) : Text := source.log ++ '\\' :: source.source

/-- What the attributed services call themselves, lower-cased. -/
def serviceDescriptions (services : List ServiceChange) : List Text :=
  ((services.filterMap ServiceChange.after).flatMap fun record ↦
    [record.description, record.displayName].map fun text ↦ toAsciiLowercase (trim text)).filter
      fun text ↦ !text.isEmpty

/-- Whether an event source is this anti-cheat's, by its name. -/
def Attribution.claimsSource (attribution : Attribution) (descriptions : List Text)
    (publisher : Option Text) (source : EventSource) : Bool :=
  let lowered := toAsciiLowercase source.source
  descriptions.contains lowered ||
    attribution.inScope (toAsciiLowercase source.key) &&
      (attribution.tokens.any (containsToken lowered) || publisher.any (contains lowered))

/-- The event sources of a footprint that are claimed, or those that are not, one for each name. -/
def sourcesOf (footprint : Diff) (claims : EventSource → Bool) : List EventSource :=
  firstOfEach (fun source ↦ toAsciiLowercase source.source)
    ((footprint.registry.filterMap eventSource).filter claims)

/-- Event log sources the footprint registered, and a note for each that is left out. -/
def eventSources (footprint : Diff) (attribution : Attribution) (descriptions : List Text)
    (signer : Option Text) : List Text × List Text :=
  let claims := attribution.claimsSource descriptions (signer.bind publisherName)
  let kept := sourcesOf footprint claims
  (kept.map fun source ↦ (splitOnce source.place ['\\']).elim source.place Prod.snd,
    ((sourcesOf footprint fun source ↦ !claims source).filter fun source ↦
      !kept.any fun other ↦ toAsciiLowercase other.source == toAsciiLowercase source.source).map
        fun source ↦
          "event log source `".toList ++ source.place ++
            ("` was registered and nothing ties its name " ++
            "to this anti-cheat, so it is not in `event_sources`. Add it if it is this " ++
            "anti-cheat's.").toList)

end WardSweep.Suggest
