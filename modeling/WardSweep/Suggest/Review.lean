import WardSweep.Suggest.Attribution

/-!
# What the reviewer of a draft is told

Everything the drafter could not decide, one note each: which publisher was chosen, which files are
a game's, which products the publisher ships, which services and drivers were left out, and which
drivers are named after one title.
-/

namespace WardSweep.Suggest

open Utf8 Str Observe Ordered Libraries

/-- Texts in backquotes, one after the other. -/
def quoted (separator : String) (texts : List Text) : Text :=
  separator.toList.intercalate (texts.map fun text ↦ '`' :: text ++ ['`'])

/-! ## The publisher -/

/-- The signers of a diff, most files first. -/
def rankedSigners (footprint : Diff) : List (Text × ℕ) :=
  footprint.signers.insertionSort fun a b ↦ b.2 < a.2 ∨ b.2 = a.2 ∧ a.1 ≤ b.1

/-- The publisher a draft is attributed to: the one given, or the one that signed the most files. -/
def chosenSigner (footprint : Diff) (signer : Option Text) : Option Text :=
  signer.or ((rankedSigners footprint).head?.map Prod.fst)

def signerNotes (footprint : Diff) (signer : Option Text) : List Text :=
  if signer.isNone ∧ 1 < (rankedSigners footprint).length then
    ["several publishers appear in this diff (".toList ++
      ", ".toList.intercalate ((rankedSigners footprint).map fun entry ↦
        entry.1 ++ " ×".toList ++ decimal entry.2) ++
      "); the draft attributes it to `".toList ++ (chosenSigner footprint signer).getD [] ++
      ("` because it signed the most files. Re-run with --signer to choose another.").toList]
  else []

/-! ## The files of games -/

/-- A file set aside because it is inside a game library: the title folder it is in, and who signed
it. -/
structure GameFile where
  title : Text
  signer : Option Text
  deriving DecidableEq, Repr

/-- What marks a Steam library wherever it is. -/
def steamGames : Text := r"\steamapps\common\".toList

/-- What is below the games folder in a lower-cased path, when the path is inside a library. -/
def belowGames (libraries : List Library) (lowered : Text) : Option Text :=
  ((libraries.map fun library ↦ toAsciiLowercase library.games ++ ['\\']).findSome?
    (stripPrefix lowered)).or ((splitOnce lowered steamGames).map Prod.snd)

/-- The folder of the title a path is in, in the path's own spelling. -/
def titleOf (path below : Text) : Text :=
  (path.drop (path.length - below.length)).takeWhile (· != '\\')

/-- Whether a change is of a file inside a game library, and of which title. -/
def gameFile (libraries : List Library) (change : FileChange) : Option GameFile :=
  (belowGames libraries (toAsciiLowercase change.path)).map fun below ↦
    ⟨titleOf change.path below, change.signer⟩

/-- The diff without the files inside game libraries, and those files. -/
def withoutGameFiles (diff : Diff) : Diff × List GameFile :=
  ({ diff with files := diff.files.filter fun change ↦ (gameFile diff.libraries change).isNone },
    diff.files.filterMap (gameFile diff.libraries))

def gameNotes (setAside : List GameFile) (signer : Option Text) : List Text :=
  if setAside = [] then []
  else
    let titles := sortedKeys ((setAside.map GameFile.title).filter fun title ↦ !title.isEmpty)
    let byPublisher := match signer with
      | none => []
      | some publisher =>
        let count := setAside.countP fun file ↦
          file.signer.any fun signer ↦ eqIgnoreAsciiCase signer publisher
        if 0 < count then
          ", ".toList ++ decimal count ++ " of them signed by ".toList ++ publisher
        else []
    [decimal setAside.length ++ " file(s) inside game libraries were left out".toList ++
      byPublisher ++
        (": a game's own files, its copy of the anti-cheat included, are the game's " ++
        "footprint, and an anti-cheat entry must not claim them. Title folders: ").toList ++
      quoted ", " titles ++ ".".toList]

/-! ## The scope -/

/-- The folder of the product a file belongs to, when it lies below one.  The original spelling is
cut by the length of the components below that folder, which can end inside a character. -/
def productFolder (path : Text) : Outcome Empty (Option Text) :=
  match belowRoot (toAsciiLowercase path) with
  | first :: second :: more =>
    let depth := if byteLen first < 4 || sharedDirectories.contains first then 2 else 1
    if (first :: second :: more).length ≤ depth then .ok none
    else
      (sliceTo path (byteLen path -
        (((first :: second :: more).drop depth).map fun part ↦ byteLen part + 1).sum)).bind
          fun folder ↦ .ok (some folder)
  | _ => .ok none

/-- Point out a publisher whose signed files span several products. -/
def productNotes (footprint : Diff) (residue : Option Diff) (signer : Option Text) :
    Outcome Empty (List Text) :=
  match signer with
  | none => .ok []
  | some publisher =>
    (Outcome.traverse (fun change ↦ productFolder change.path)
      ((addedFiles footprint residue).filter (signedBy signer))).bind fun folders ↦
      let products := firstOfEach toAsciiLowercase (folders.filterMap id)
      if 1 < products.length then
        .ok [publisher ++ " signed files in ".toList ++ decimal products.length ++
          " separate product folders: ".toList ++ quoted ", " (products.map templated) ++
          (". One publisher often ships a launcher beside its anti-cheat, and a signature cannot " ++
            "tell them apart; if any of these is not the anti-cheat, re-run with --only naming " ++
            "the anti-cheat's folder or service.").toList]
      else .ok []

/-- Say how far attribution reached. -/
def scopeNotes (footprint : Diff) (residue : Option Diff) (signer : Option Text)
    (only : List Text) : Outcome Empty (List Text) :=
  if only = [] then productNotes footprint residue signer
  else
    .ok ["attribution was limited with --only to what mentions ".toList ++ quoted " or " only ++
      (". Everything else this publisher signed was left out on purpose; check that nothing of " ++
        "the anti-cheat's was among it.").toList]

/-! ## Services and drivers -/

/-- The publisher as a note names it. -/
def publisherOr (signer : Option Text) : Text := signer.getD "the chosen publisher".toList

/-- Name every service and driver file that was left out. -/
def leftOutNotes (services : List ServiceChange) (drivers : List Text) (signer : Option Text) :
    List Text :=
  (services.map fun change ↦
    (if change.isDriver then "KERNEL DRIVER service".toList else "service".toList) ++
      " `".toList ++ change.name ++ "` (image `".toList ++
      (change.after.elim [] fun record ↦ normaliseImage record.binaryPath) ++
      "`) was added but nothing ties it to ".toList ++ publisherOr signer ++
      ", so it was left out. Add it back only if it is this anti-cheat's.".toList) ++
  drivers.map fun path ↦
    "driver file `".toList ++ path ++ "` was added but nothing ties it to ".toList ++
      publisherOr signer ++
      ", so it was left out. Add it to `drivers` only if it is this anti-cheat's.".toList

/-- Name every driver found only in the registry, kept or not. -/
def registryDriverNotes (kept leftOut : List RegistryDriver) (signer : Option Text) : List Text :=
  (kept.map fun driver ↦
    '`' :: driver.name ++ "` is a driver registered in the registry (`".toList ++ driver.key ++
      "`, image `".toList ++ driver.image ++
      ("`) that the service control manager does not list, so a scan that trusts SCM alone never " ++
        "finds it (docs/05). It is in `services` and `drivers` so the entry names it; confirm it " ++
        "is this anti-cheat's.").toList) ++
  leftOut.map fun driver ↦
    "driver `".toList ++ driver.name ++ "` is registered in the registry only (`".toList ++
      driver.key ++ "`, image `".toList ++ driver.image ++
      "`), unknown to the service control manager, and nothing ties it to ".toList ++
      publisherOr signer ++
        (", so it was left out. Add it to `services` and `drivers` only if it " ++
        "is this anti-cheat's.").toList

/-- The notes that go with the inferred kind. -/
def kindNotes (hasDriver bootStart leftOutDriver : Bool) : List Text :=
  (if !hasDriver && leftOutDriver then
    [("no driver could be attributed to this publisher, so `kind` is `usermode` — but a driver " ++
      "*was* added and left out, named above. If it is this anti-cheat's, add it and make " ++
      "`kind` \"kernel\".").toList]
  else if !hasDriver then
    [("no driver was observed, so `kind` is `usermode`. Confirm the anti-cheat really has no " ++
      "kernel component on this title before trusting it.").toList]
  else []) ++
  if hasDriver && !bootStart then
    [("a driver was observed but not at boot start. Vanguard has been seen configured either way, " ++
      "so confirm the start type rather than assuming this one generalises.").toList]
  else []

/-! ## Drivers named after one title -/

/-- A file name without its extension. -/
def stemOf (name : Text) : Text := (rsplitOnce name ['.']).elim name Prod.fst

/-- The run of digits a name ends in. -/
def trailingDigits (stem : Text) : Text := stem.rtakeWhile fun c ↦ isAsciiDigit c.toNat

/-- An id without its leading zeros. -/
def withoutZeros (digits : Text) : Text := digits.dropWhile (· == '0')

/-- The numeric components of the keys this anti-cheat owns, each with the first key that has it. -/
def titleIds (footprint : Diff) (attribution : Attribution) : List (Text × Text) :=
  firstOfEach Prod.fst
    ((footprint.registry.filter fun change ↦ decide (change.kind = .added) &&
        attribution.claimsKey (toAsciiLowercase change.key)).flatMap fun change ↦
      ((change.key.splitOn '\\').filter fun part ↦
        decide (4 ≤ byteLen part) && part.all fun c ↦ isAsciiDigit c.toNat).map fun part ↦
          (withoutZeros part, change.key))

/-- The id a driver is named after: that of the longest end of its digits that is one. -/
def titleIdOf (ids : List (Text × Text)) (name : Text) : Option (Text × Text) :=
  let digits := trailingDigits (stemOf name)
  (List.range digits.length).findSome? fun start ↦
    let candidate := withoutZeros (digits.drop start)
    if 4 ≤ byteLen candidate then ids.find? fun entry ↦ entry.1 == candidate else none

/-- What a driver shares with the other driver of its title: the name before the digits, and the
digits after the first. -/
def pairOf (name : Text) : Option (Text × Text) :=
  let stem := stemOf name
  let digits := trailingDigits stem
  let lead := stem.take (stem.length - digits.length)
  if digits = [] then none
  else if 4 ≤ byteLen (withoutZeros (digits.drop 1)) ∧ lead ≠ [] then
    some (toAsciiLowercase lead, withoutZeros (digits.drop 1))
  else none

/-- Point out drivers named after a title's id that no key carries: two names that differ only in
the digit after a shared stem. -/
def pairNotes (names : List Text) : List Text :=
  (sortedKeys ((names.filterMap pairOf).map toLex)).filterMap fun pair ↦
    let alike := names.filter fun name ↦ pairOf name == some (ofLex pair)
    if alike.length < 2 then none
    else
      let stem := stemOf (alike.headD [])
      some (quoted " and " alike ++ " differ only in the digit after `".toList ++
        stem.take (stem.length - (trailingDigits stem).length) ++
        "` and end in the same id, `".toList ++ (ofLex pair).2 ++
        ("`, which no key in this footprint carries: per-title drivers. Another title installs its " ++
          "own under its own id, and the catalog lists drivers by exact name, so an entry " ++
          "covering every title needs a pattern the schema does not have (docs/04) — a " ++
          "maintainer's decision, not a draft's.").toList)

/-- Point out drivers named after one title: a run of digits in the file name that also names one of
the anti-cheat's own keys. -/
def perTitleNotes (footprint : Diff) (attribution : Attribution) (drivers : List Text) :
    List Text :=
  let ids := titleIds footprint attribution
  (firstOfEach Prod.fst (drivers.filterMap (titleIdOf ids))).map (fun entry ↦
    let names := drivers.filter fun name ↦ titleIdOf ids name == some entry
    quoted " and " names ++ " carr".toList ++
      (if names.length = 1 then "ies".toList else "y".toList) ++ " the id `".toList ++ entry.1 ++
      "`, which also names `".toList ++ entry.2 ++
      ("`: per-title drivers. Another title installs its own under its own id, and the catalog " ++
        "lists drivers by exact name, so an entry covering every title needs a pattern the schema " ++
        "does not have (docs/04) — a maintainer's decision, not a draft's.").toList) ++
  pairNotes (drivers.filter fun name ↦ (titleIdOf ids name).isNone)

end WardSweep.Suggest
