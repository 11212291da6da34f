import WardSweep.Catalog.Signing
import WardSweep.Cli.Version

/-!
# Loading a catalog

The program reads a catalog only when its signature verifies under the key it was built with, and
then only when the gate finds nothing in it.  The gate in continuous integration passes exactly the
catalogs that are loaded, and what the maintainer's tool signs is loaded by a program that was built
with the public key of the pair.
-/

namespace WardSweep.Cli

open Utf8 Str Schema Validate Verify Signing

/-! ## Exit codes -/

def exitNothing : UInt8 := 1

def exitScanError : UInt8 := 2

def exitPartial : UInt8 := 3

def exitUsage : UInt8 := 64

/-! ## Loading -/

/-- The detached signature beside a catalog: the catalog's own name and `.sig`. -/
def signaturePath (catalog : Text) : Text := catalog ++ ".sig".toList

/-- A catalog that may be used, and where it was. -/
structure Loaded where
  catalog : Catalog
  path : Text

/-- Why a catalog is not used. -/
inductive Refusal where
  | noCatalog (path : Text)
  | noSignature (path : Text)
  | invalid (error : VerifyError)
  | unparsed (error : ParseError)
  | unsound (problems : List Problem)
  deriving DecidableEq, Repr

/-- The code the program exits with for a catalog it does not use. -/
def Refusal.code : Refusal → UInt8
  | .noCatalog _ => exitNothing
  | _ => exitCatalogFailed

/-- What is said about the version a catalog expects. -/
inductive Warning where
  | expectsLater (required running : Text)
  | cannotCompare (required running : Text)
  deriving DecidableEq, Repr

def versionWarning (required running : Text) : Option Warning :=
  match requiresNewer required running with
  | some true => some (.expectsLater required running)
  | some false => none
  | none => some (.cannotCompare required running)

section

variable {Key : Type} (crates : Crates Key)

/-- Read and verify a catalog under the key the program was built with. -/
def loadVerified (trusted running : Text) (disk : Disk) (path : Text) :
    Outcome Refusal (Loaded × Option Warning) :=
  match disk.read path with
  | none => .err (.noCatalog path)
  | some body =>
    match disk.read (signaturePath path) with
    | none => .err (.noSignature (signaturePath path))
    | some signature =>
      match verifyDetached crates body signature trusted with
      | .error error => .err (.invalid error)
      | .ok () =>
        match parseBytes crates body with
        | .error error => .err (.unparsed error)
        | .ok catalog =>
          (integrity catalog).handle
            (fun problems ↦
              if problems.isEmpty then
                .ok (⟨catalog, path⟩, versionWarning catalog.minimumAppVersion running)
              else .err (.unsound problems))
            fun error ↦ nomatch error

/-- The steps of the gate in continuous integration, in their order. -/
def gate (toml pubkey : Text) : List Command :=
  [.validate toml, .verify toml (signaturePath toml) pubkey, .checkDenylist toml, .checkRefs toml,
    .auditShared toml true]

/-- A step of the gate passes. -/
def Passes (disk : Disk) (command : Command) : Prop :=
  exitCode (run crates disk none command).1 = exitOk

end

/-! ## What is loaded -/

section

variable {Key : Type} {crates : Crates Key} {disk : Disk}

/-- The catalog in a file, when it can be read and parsed. -/
def Holds (crates : Crates Key) (disk : Disk) (toml : Text) (body : List UInt8)
    (catalog : Catalog) : Prop :=
  disk.read toml = some body ∧ parseBytes crates body = .ok catalog

/-- A catalog is loaded exactly when its signature verifies over the bytes it is parsed from and it
is sound. -/
theorem loadVerified_eq_ok_iff {trusted running path : Text} {loaded : Loaded}
    {warning : Option Warning} :
    loadVerified crates trusted running disk path = .ok (loaded, warning) ↔
      ∃ body signature catalog, Holds crates disk path body catalog ∧
        disk.read (signaturePath path) = some signature ∧
          verifyDetached crates body signature trusted = .ok () ∧ Sound catalog ∧
            loaded = ⟨catalog, path⟩ ∧
              warning = versionWarning catalog.minimumAppVersion running := by
  simp only [← integrity_eq_nil_iff]
  unfold loadVerified Holds
  cases hbody : disk.read path with
  | none => simp
  | some body =>
    cases hsignature : disk.read (signaturePath path) with
    | none => simp
    | some signature =>
      cases hverify : verifyDetached crates body signature trusted with
      | error error => simp [hverify]
      | ok verified =>
        cases hparse : parseBytes crates body with
        | error error => simp [hverify, hparse]
        | ok catalog =>
          cases hintegrity : integrity catalog with
          | panic => simp [hverify, hparse, hintegrity, Outcome.handle]
          | err error => exact error.elim
          | ok problems =>
            cases problems with
            | nil => simp [hverify, hparse, hintegrity, Outcome.handle, eq_comm]
            | cons problem problems => simp [hverify, hparse, hintegrity, Outcome.handle]

/-! ## The gate -/

theorem exitCode_eq_exitOk_iff {outcome : Outcome ToolError UInt8} :
    exitCode outcome = exitOk ↔ outcome = .ok exitOk := by
  cases outcome with
  | ok code => simp [exitCode]
  | err error => simp [exitCode, exitCatalogFailed, exitOk]
  | panic => simp [exitCode, exitPanicked, exitOk]

theorem report_eq_exitOk_iff {problems : List Problem} :
    report problems = exitOk ↔ problems = [] := by
  cases problems <;> simp [report, exitOk, exitCatalogFailed]

theorem load_eq_ok_iff {toml : Text} {catalog : Catalog} :
    load crates disk toml = .ok catalog ↔ ∃ body, Holds crates disk toml body catalog := by
  unfold load Holds
  cases hbody : disk.read toml with
  | none => simp
  | some body => cases hparse : parseBytes crates body <;> simp [hparse]

theorem found_eq_ok_iff {problems : Outcome Empty (List Problem)} :
    (found problems fun problems ↦ .ok (report problems)) = .ok exitOk ↔ problems = .ok [] := by
  cases problems with
  | ok problems => simp [found, report_eq_exitOk_iff]
  | err error => exact error.elim
  | panic => simp [found, Outcome.handle]

theorem verifySignature_eq_ok_iff {toml sig pubkey : Text} :
    verifySignature crates disk toml sig pubkey = .ok exitOk ↔
      ∃ body signature key catalog, Holds crates disk toml body catalog ∧
        disk.read sig = some signature ∧ disk.readToString pubkey = some key ∧
          verifyDetached crates body signature key = .ok () := by
  unfold verifySignature Holds
  cases hbody : disk.read toml with
  | none => simp
  | some body =>
    cases hsignature : disk.read sig with
    | none => simp
    | some signature =>
      cases hkey : disk.readToString pubkey with
      | none => simp
      | some key =>
        cases hverify : verifyDetached crates body signature key with
        | error error => simp [hverify, exitOk, exitCatalogFailed]
        | ok verified => cases hparse : parseBytes crates body <;> simp [hverify, hparse]

theorem Holds.unique {toml : Text} {body body' : List UInt8} {catalog catalog' : Catalog}
    (h : Holds crates disk toml body catalog) (h' : Holds crates disk toml body' catalog') :
    body = body' ∧ catalog = catalog' := by
  have hbody : body = body' := Option.some.inj (h.1.symm.trans h'.1)
  subst hbody
  exact ⟨rfl, Except.ok.inj (h.2.symm.trans h'.2)⟩

/-- A check that passes on the catalog in a file passes on the one it holds. -/
theorem passes_check_iff {toml : Text} {check : Catalog → Outcome ToolError UInt8}
    {clear : Catalog → Prop} (hcheck : ∀ catalog, check catalog = .ok exitOk ↔ clear catalog) :
    exitCode ((load crates disk toml).bind check) = exitOk ↔
      ∃ body catalog, Holds crates disk toml body catalog ∧ clear catalog := by
  rw [exitCode_eq_exitOk_iff, Outcome.bind_eq_ok_iff]
  simp only [load_eq_ok_iff, hcheck]
  exact ⟨fun ⟨catalog, ⟨body, hbody⟩, hclear⟩ ↦ ⟨body, catalog, hbody, hclear⟩,
    fun ⟨body, catalog, hbody, hclear⟩ ↦ ⟨catalog, ⟨body, hbody⟩, hclear⟩⟩

/-- The whole gate passes exactly when the signature verifies and the catalog is sound. -/
theorem gate_passes_iff {toml pubkey : Text} :
    (∀ command ∈ gate toml pubkey, Passes crates disk command) ↔
      ∃ body signature key catalog, Holds crates disk toml body catalog ∧
        disk.read (signaturePath toml) = some signature ∧ disk.readToString pubkey = some key ∧
          verifyDetached crates body signature key = .ok () ∧ Sound catalog := by
  have hvalidate : Passes crates disk (.validate toml) ↔ _ :=
    passes_check_iff fun catalog ↦ @found_eq_ok_iff (validate catalog)
  have hdenylist : Passes crates disk (.checkDenylist toml) ↔ _ :=
    passes_check_iff fun catalog ↦ @found_eq_ok_iff (checkDenylist catalog)
  have hreport (check : Catalog → List Problem) (catalog : Catalog) :
      (.ok (report (check catalog)) : Outcome ToolError UInt8) = .ok exitOk ↔
        check catalog = [] := by
    rw [Outcome.ok.injEq, report_eq_exitOk_iff]
  have hrefs : Passes crates disk (.checkRefs toml) ↔ _ := passes_check_iff (hreport checkRefs)
  have hshared : Passes crates disk (.auditShared toml true) ↔ _ :=
    passes_check_iff (hreport (auditShared · true))
  have hverify : Passes crates disk (.verify toml (signaturePath toml) pubkey) ↔ _ :=
    exitCode_eq_exitOk_iff.trans verifySignature_eq_ok_iff
  simp only [gate, List.forall_mem_cons, hvalidate, hverify, hdenylist, hrefs, hshared,
    List.not_mem_nil, false_implies, implies_true, and_true, ← integrity_eq_nil_iff,
    integrity_eq_nil_iff_checks]
  constructor
  · rintro ⟨⟨body, catalog, hholds, hfields⟩, ⟨body', signature, key, catalog', hholds', hverified⟩,
      ⟨body₂, catalog₂, hholds₂, hdenied⟩, ⟨body₃, catalog₃, hholds₃, hrefs⟩,
      ⟨body₄, catalog₄, hholds₄, hevidence⟩⟩
    obtain ⟨rfl, rfl⟩ := hholds.unique hholds'
    obtain ⟨-, rfl⟩ := hholds.unique hholds₂
    obtain ⟨-, rfl⟩ := hholds.unique hholds₃
    obtain ⟨-, rfl⟩ := hholds.unique hholds₄
    exact ⟨body, signature, key, catalog, hholds, hverified.1, hverified.2.1, hverified.2.2,
      hfields, hrefs, hdenied, hevidence⟩
  · rintro ⟨body, signature, key, catalog, hholds, hsignature, hkey, hverified, hfields, hrefs,
      hdenied, hevidence⟩
    exact ⟨⟨body, catalog, hholds, hfields⟩,
      ⟨body, signature, key, catalog, hholds, hsignature, hkey, hverified⟩,
      ⟨body, catalog, hholds, hdenied⟩, ⟨body, catalog, hholds, hrefs⟩,
      ⟨body, catalog, hholds, hevidence⟩⟩

/-- The gate in continuous integration passes exactly the catalogs that a program built with the
same key loads. -/
theorem gate_passes_iff_loads (crates : Crates Key) (disk : Disk) (toml pubkey running : Text) :
    (∀ command ∈ gate toml pubkey, Passes crates disk command) ↔
      ∃ trusted loaded, disk.readToString pubkey = some trusted ∧
        loadVerified crates trusted running disk toml = .ok loaded := by
  rw [gate_passes_iff]
  simp only [Prod.exists, loadVerified_eq_ok_iff]
  constructor
  · rintro ⟨body, signature, key, catalog, hholds, hsignature, hkey, hverified, hsound⟩
    exact ⟨key, _, _, hkey, body, signature, catalog, hholds, hsignature, hverified,
      hsound, rfl, rfl⟩
  · rintro ⟨key, loaded, warning, hkey, body, signature, catalog, hholds, hsignature, hverified,
      hsound, -, -⟩
    exact ⟨body, signature, key, catalog, hholds, hsignature, hkey, hverified, hsound⟩

/-! ## Signing -/

theorem signatureOf_eq_ok_iff {toml secret : Text} {seed : Octets 32}
    (hseed : readSeed crates disk secret = .ok seed) {signature : Octets 64} :
    signatureOf crates disk toml secret = .ok signature ↔ ∃ body catalog,
      Holds crates disk toml body catalog ∧ Sound catalog ∧ signature = crates.sign seed body := by
  simp only [← integrity_eq_nil_iff]
  unfold signatureOf Holds
  cases hbody : disk.read toml with
  | none => simp
  | some body =>
    cases hparse : parseBytes crates body with
    | error error => simp [hparse]
    | ok catalog =>
      cases hintegrity : integrity catalog with
      | panic => simp [hparse, hintegrity, found, Outcome.handle]
      | err error => exact error.elim
      | ok problems =>
        cases problems with
        | nil =>
          simp only [hparse, hintegrity, found, hseed, Outcome.handle_ok, List.isEmpty_nil, if_true,
            Outcome.bind_ok, Outcome.ok.injEq, Option.some.injEq]
          constructor
          · rintro rfl
            exact ⟨body, catalog, ⟨rfl, hparse⟩, hintegrity, rfl⟩
          · rintro ⟨-, -, ⟨rfl, -⟩, -, rfl⟩
            rfl
        | cons problem problems => simp [hparse, hintegrity, found]

theorem sign_fst_eq_ok_iff {toml secret out : Text} (hout : disk.writable out = true) :
    (sign crates disk toml secret out).1 = .ok exitOk ↔
      ∃ signature, signatureOf crates disk toml secret = .ok signature := by
  unfold sign
  cases signatureOf crates disk toml secret <;> simp [hout]

/-- Signing writes the signature and nothing else. -/
theorem sign_snd_of_ok {toml secret out : Text} (hout : disk.writable out = true)
    {signature : Octets 64} (h : signatureOf crates disk toml secret = .ok signature) :
    (sign crates disk toml secret out).2 = disk.write out signature.val := by
  simp only [sign, h, if_pos hout]

/-- A command that signs nothing leaves the files as they are. -/
theorem sign_snd_of_not_ok {toml secret out : Text}
    (h : (sign crates disk toml secret out).1 ≠ .ok exitOk) :
    (sign crates disk toml secret out).2 = disk := by
  unfold sign at h ⊢
  cases hsignature : signatureOf crates disk toml secret with
  | ok signature =>
    rw [hsignature] at h
    by_cases hout : disk.writable out = true
    · simp [hout] at h
    · simp [hout]
  | err error => rfl
  | panic => rfl

theorem signaturePath_ne (toml : Text) : toml ≠ signaturePath toml := by
  intro h
  have hlength := congrArg List.length h
  rw [signaturePath, List.length_append] at hlength
  exact absurd hlength (by simp)

/-- What a signature is read from beside the catalog it was written for. -/
theorem hexLine_eq (crates : Crates Key) (raw : List UInt8) :
    hexLine crates raw = [] ++ crates.hexEncode raw ++ ['\n'] := rfl

theorem isWhitespace_newline : ∀ c ∈ ['\n'], isWhitespace c = true := by decide

/-- The files of a fresh key pair hold the seed and the public key of it. -/
theorem keygen_reads (hlawful : crates.Lawful) {disk' : Disk} {seed : Octets 32}
    {secret pubkey : Text}
    (hkeys : keygen crates disk (some seed) secret pubkey = (.ok exitOk, disk'))
    (hapart : secret ≠ pubkey) (hsecret : disk.readable secret = true)
    (hpubkey : disk.readable pubkey = true) :
    readSeed crates disk' secret = .ok seed ∧
      disk'.readToString pubkey =
        some (hexLine crates (crates.toBytes (crates.verifyingKey seed)).val) ∧
      disk'.readable = disk.readable ∧ disk'.writable = disk.writable := by
  unfold keygen at hkeys
  simp only at hkeys
  split at hkeys
  · cases hkeys
  · split at hkeys
    · split at hkeys
      · obtain ⟨-, rfl⟩ := Prod.mk.inj hkeys
        have hread := ((disk.write secret (bytes (hexLine crates seed.val))).read_write_of_ne hapart
          (bytes (hexLine crates (crates.toBytes (crates.verifyingKey seed)).val))).trans
          (disk.read_write_self hsecret _)
        have htrim := hexOctets?_between hlawful seed (List.forall_mem_nil _) isWhitespace_newline
        refine ⟨?_, ?_, rfl, rfl⟩
        · obtain ⟨raw, hraw, harray⟩ := Option.bind_eq_some_iff.mp htrim
          rw [readSeed, Disk.readToString, hread, Option.bind_some, fromUtf8_bytes]
          simp only [hexLine_eq, hraw, harray, Option.elim_some]
        · rw [Disk.readToString, Disk.read_write_self _ (by exact hpubkey), Option.bind_some,
            fromUtf8_bytes]
      · cases hkeys
    · cases hkeys

theorem Holds.write_of_ne {toml out : Text} (h : toml ≠ out) (raw body : List UInt8)
    (catalog : Catalog) :
    Holds crates (disk.write out raw) toml body catalog ↔ Holds crates disk toml body catalog := by
  rw [Holds, Holds, Disk.read_write_of_ne disk h]

/-- A maintainer who has made a key pair signs exactly the catalogs that a program built with the
public key then loads: a catalog that is not signed is not loaded either, whatever signature is
beside it. -/
theorem sign_ok_iff_loads (hlawful : crates.Lawful) {disk' : Disk} {seed : Octets 32}
    {toml secret pubkey : Text} (running : Text)
    (hkeys : keygen crates disk (some seed) secret pubkey = (.ok exitOk, disk'))
    (hapart : secret ≠ pubkey) (hbeside : pubkey ≠ signaturePath toml)
    (hsecret : disk.readable secret = true) (hpubkey : disk.readable pubkey = true)
    (hreadable : disk.readable (signaturePath toml) = true)
    (hwritable : disk.writable (signaturePath toml) = true) :
    (sign crates disk' toml secret (signaturePath toml)).1 = .ok exitOk ↔
      ∃ trusted loaded, (sign crates disk' toml secret (signaturePath toml)).2.readToString pubkey =
          some trusted ∧
        loadVerified crates trusted running (sign crates disk' toml secret (signaturePath toml)).2
          toml = .ok loaded := by
  obtain ⟨hseed, hkey, hreads, hwrites⟩ := keygen_reads hlawful hkeys hapart hsecret hpubkey
  rw [← hwrites] at hwritable
  rw [← hreads] at hreadable
  have htoml := signaturePath_ne toml
  constructor
  · intro h
    obtain ⟨signature, hsignature⟩ := (sign_fst_eq_ok_iff hwritable).mp h
    have hdisk := sign_snd_of_ok hwritable hsignature
    obtain ⟨body, catalog, hholds, hsound, rfl⟩ := (signatureOf_eq_ok_iff hseed).mp hsignature
    have hpublic := parsePublicKey_between hlawful (crates.verifyingKey seed)
      (List.forall_mem_nil _) isWhitespace_newline
    rw [hdisk]
    refine ⟨hexLine crates (crates.toBytes (crates.verifyingKey seed)).val,
      (⟨catalog, toml⟩, _), ?_,
      loadVerified_eq_ok_iff.mpr ⟨body, (crates.sign seed body).val, catalog,
        (Holds.write_of_ne htoml _ body catalog).mpr hholds, Disk.read_write_self _ hreadable _, ?_,
        hsound, rfl, rfl⟩⟩
    · rw [Disk.readToString, Disk.read_write_of_ne _ hbeside]
      exact hkey
    · exact (verifyDetached_eq_ok_iff _ _ _).mpr ⟨_, _, hpublic, parseSignature_raw _,
        hlawful.verifyStrict_sign seed body⟩
  · rintro ⟨trusted, ⟨loaded, warning⟩, -, hloaded⟩
    by_contra hnot
    rw [sign_snd_of_not_ok hnot] at hloaded
    obtain ⟨body, -, catalog, hholds, -, -, hsound, -, -⟩ := loadVerified_eq_ok_iff.mp hloaded
    have hsigned := (signatureOf_eq_ok_iff hseed).mpr ⟨body, catalog, hholds, hsound, rfl⟩
    exact hnot ((sign_fst_eq_ok_iff hwritable).mpr ⟨_, hsigned⟩)

end

/-! ## A catalog that is signed -/

theorem sign_ok_iff_loads_sample :
    (sign sampleCrates sampleKeys "catalog.toml".toList "secret.hex".toList
        (signaturePath "catalog.toml".toList)).1 = .ok exitOk ↔
      ∃ trusted loaded,
        (sign sampleCrates sampleKeys "catalog.toml".toList "secret.hex".toList
          (signaturePath "catalog.toml".toList)).2.readToString "pubkey.hex".toList = some trusted ∧
        loadVerified sampleCrates trusted "0.1.0".toList
          (sign sampleCrates sampleKeys "catalog.toml".toList "secret.hex".toList
            (signaturePath "catalog.toml".toList)).2 "catalog.toml".toList = .ok loaded :=
  sign_ok_iff_loads lawful_sampleCrates "0.1.0".toList
    (show keygen sampleCrates sampleDisk (some sampleSeed) _ _ = (.ok exitOk, sampleKeys) from rfl)
    (by decide) (by decide) rfl rfl rfl rfl

end WardSweep.Cli
