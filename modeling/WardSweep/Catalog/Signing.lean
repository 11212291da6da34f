import WardSweep.Catalog.Verify

/-!
# The catalog tool

The commands that gate a catalog in continuous integration, and the two that a maintainer uses: one
makes a key pair and one signs.  A catalog is signed only when the whole gate finds nothing in it,
and a secret key is never written over.
-/

namespace WardSweep.Signing

open Utf8 Str Schema Validate Verify

/-! ## Files -/

/-- The files of a machine, by path. -/
structure Disk where
  content : Text → Option (List UInt8)
  readable : Text → Bool
  writable : Text → Bool

namespace Disk

/-- `std::fs::read`. -/
def read (disk : Disk) (path : Text) : Option (List UInt8) :=
  if disk.readable path then disk.content path else none

/-- `std::fs::read_to_string`. -/
def readToString (disk : Disk) (path : Text) : Option Text := (disk.read path).bind fromUtf8

/-- The files after one of them has been written. -/
def write (disk : Disk) (path : Text) (body : List UInt8) : Disk :=
  { disk with content := Function.update disk.content path (some body) }

@[simp] theorem readable_write (disk : Disk) (path : Text) (body : List UInt8) :
    (disk.write path body).readable = disk.readable := rfl

@[simp] theorem writable_write (disk : Disk) (path : Text) (body : List UInt8) :
    (disk.write path body).writable = disk.writable := rfl

theorem read_write_self (disk : Disk) {path : Text} (h : disk.readable path = true)
    (body : List UInt8) : (disk.write path body).read path = some body := by
  rw [read, readable_write, if_pos h]
  exact Function.update_self _ _ _

@[simp] theorem content_write_of_ne (disk : Disk) {path other : Text} (h : other ≠ path)
    (body : List UInt8) : (disk.write path body).content other = disk.content other :=
  Function.update_of_ne h _ _

theorem read_write_of_ne (disk : Disk) {path other : Text} (h : other ≠ path) (body : List UInt8) :
    (disk.write path body).read other = disk.read other := by
  rw [read, read, readable_write, content_write_of_ne disk h]

end Disk

/-! ## Commands -/

def exitOk : UInt8 := 0

def exitCatalogFailed : UInt8 := 9

/-- What a thread that panics leaves as the code of its process. -/
def exitPanicked : UInt8 := 101

/-- Why a command ended without a verdict. -/
inductive ToolError where
  | cannotRead (path : Text)
  | parse (error : ParseError)
  | refused (problems : List Problem)
  | secretNotHex
  | secretNotSeed
  | noRandomness
  | keyExists (path : Text)
  | cannotCreate (path : Text)
  | cannotWrite (path : Text)
  deriving DecidableEq, Repr

/-- The commands of the tool. -/
inductive Command where
  | validate (toml : Text)
  | verify (toml sig pubkey : Text)
  | checkDenylist (toml : Text)
  | checkRefs (toml : Text)
  | auditShared (toml : Text) (requireEvidence : Bool)
  | keygen (outSecret outPublic : Text)
  | sign (toml secret out : Text)
  deriving DecidableEq, Repr

section

variable {Key : Type} (crates : Crates Key) (disk : Disk)

/-- The catalog in a file. -/
def load (path : Text) : Outcome ToolError Catalog :=
  match disk.read path with
  | none => .err (.cannotRead path)
  | some raw =>
    match parseBytes crates raw with
    | .error error => .err (.parse error)
    | .ok catalog => .ok catalog

/-- The exit code for what a check found. -/
def report (problems : List Problem) : UInt8 :=
  if problems.isEmpty then exitOk else exitCatalogFailed

/-- Go on with what a check that may panic found. -/
def found {α : Type} (problems : Outcome Empty (List Problem))
    (next : List Problem → Outcome ToolError α) : Outcome ToolError α :=
  problems.handle next fun error ↦ nomatch error

def verifySignature (toml sig pubkey : Text) : Outcome ToolError UInt8 :=
  match disk.read toml with
  | none => .err (.cannotRead toml)
  | some body =>
    match disk.read sig with
    | none => .err (.cannotRead sig)
    | some signature =>
      match disk.readToString pubkey with
      | none => .err (.cannotRead pubkey)
      | some key =>
        match verifyDetached crates body signature key with
        | .error _ => .ok exitCatalogFailed
        | .ok () =>
          match parseBytes crates body with
          | .error error => .err (.parse error)
          | .ok _ => .ok exitOk

/-- The line of a file that holds bytes as hexadecimal text. -/
def hexLine (raw : List UInt8) : Text := crates.hexEncode raw ++ ['\n']

/-- Make a key pair of a seed from the system's randomness.  The file of the secret is created,
never written over; that of the public key is written whatever was there. -/
def keygen (seed : Option (Octets 32)) (outSecret outPublic : Text) :
    Outcome ToolError UInt8 × Disk :=
  match seed with
  | none => (.err .noRandomness, disk)
  | some seed =>
    if (disk.content outSecret).isSome then (.err (.keyExists outSecret), disk)
    else if disk.writable outSecret then
      let created := disk.write outSecret (bytes (hexLine crates seed.val))
      if disk.writable outPublic then
        (.ok exitOk, created.write outPublic
          (bytes (hexLine crates (crates.toBytes (crates.verifyingKey seed)).val)))
      else (.err (.cannotWrite outPublic), created)
    else (.err (.cannotCreate outSecret), disk)

/-- The seed in the file of a secret key. -/
def readSeed (secret : Text) : Outcome ToolError (Octets 32) :=
  match disk.readToString secret with
  | none => .err (.cannotRead secret)
  | some seedHex =>
    match crates.hexDecode (trim seedHex) with
    | none => .err .secretNotHex
    | some raw => (octets? 32 raw).elim (.err .secretNotSeed) .ok

/-- The signature of a catalog in which the gate finds nothing. -/
def signatureOf (toml secret : Text) : Outcome ToolError (Octets 64) :=
  match disk.read toml with
  | none => .err (.cannotRead toml)
  | some body =>
    match parseBytes crates body with
    | .error error => .err (.parse error)
    | .ok parsed =>
      found (integrity parsed) fun problems ↦
        if problems.isEmpty then
          (readSeed crates disk secret).bind fun seed ↦ .ok (crates.sign seed body)
        else .err (.refused problems)

/-- Sign a catalog, raw. -/
def sign (toml secret out : Text) : Outcome ToolError UInt8 × Disk :=
  match signatureOf crates disk toml secret with
  | .ok signature =>
    if disk.writable out then (.ok exitOk, disk.write out signature.val)
    else (.err (.cannotWrite out), disk)
  | .err error => (.err error, disk)
  | .panic => (.panic, disk)

/-- Run a command. -/
def run (seed : Option (Octets 32)) : Command → Outcome ToolError UInt8 × Disk
  | .validate toml =>
    ((load crates disk toml).bind fun catalog ↦
      found (validate catalog) fun problems ↦ .ok (report problems), disk)
  | .checkRefs toml =>
    ((load crates disk toml).bind fun catalog ↦ .ok (report (checkRefs catalog)), disk)
  | .checkDenylist toml =>
    ((load crates disk toml).bind fun catalog ↦
      found (checkDenylist catalog) fun problems ↦ .ok (report problems), disk)
  | .auditShared toml requireEvidence =>
    ((load crates disk toml).bind fun catalog ↦
      .ok (report (auditShared catalog requireEvidence)), disk)
  | .verify toml sig pubkey => (verifySignature crates disk toml sig pubkey, disk)
  | .keygen outSecret outPublic => keygen crates disk seed outSecret outPublic
  | .sign toml secret out => sign crates disk toml secret out

end

/-- The code the tool exits with. -/
def exitCode : Outcome ToolError UInt8 → UInt8
  | .ok code => code
  | .err _ => exitCatalogFailed
  | .panic => exitPanicked

/-! ## What is written over -/

/-- The files that a command writes over when they are there already. -/
def Command.overwrites : Command → List Text
  | .keygen _ outPublic => [outPublic]
  | .sign _ _ out => [out]
  | _ => []

section

variable {Key : Type} (crates : Crates Key)

/-- The files after some commands, each with the randomness it draws. -/
def runAll (disk : Disk) : List (Option (Octets 32) × Command) → Disk
  | [] => disk
  | (seed, command) :: commands => runAll (run crates disk seed command).2 commands

variable {crates} {disk : Disk} {path : Text}

theorem content_keygen (h : (disk.content path).isSome = true) {seed : Option (Octets 32)}
    {outSecret outPublic : Text} (hpublic : path ≠ outPublic) :
    (keygen crates disk seed outSecret outPublic).2.content path = disk.content path := by
  unfold keygen
  cases seed with
  | none => rfl
  | some seed =>
    by_cases hexists : (disk.content outSecret).isSome = true
    · simp [hexists]
    · have hne : path ≠ outSecret := by
        rintro rfl
        exact hexists h
      by_cases hsecret : disk.writable outSecret = true
      · by_cases hwritable : disk.writable outPublic = true
        · simp [hexists, hsecret, hwritable, hne, hpublic]
        · simp [hexists, hsecret, hwritable, hne]
      · simp [hexists, hsecret]

theorem content_sign {toml secret out : Text} (hout : path ≠ out) :
    (sign crates disk toml secret out).2.content path = disk.content path := by
  unfold sign
  cases signatureOf crates disk toml secret with
  | ok signature =>
    by_cases hwritable : disk.writable out = true
    · simp [hwritable, hout]
    · simp [hwritable]
  | err error => rfl
  | panic => rfl

/-- A command leaves a file that is there alone unless it writes over it. -/
theorem content_run (h : (disk.content path).isSome = true) {seed : Option (Octets 32)}
    {command : Command} (hpath : path ∉ command.overwrites) :
    (run crates disk seed command).2.content path = disk.content path := by
  cases command with
  | keygen outSecret outPublic => exact content_keygen h (by simpa [Command.overwrites] using hpath)
  | sign toml secret out => exact content_sign (by simpa [Command.overwrites] using hpath)
  | _ => rfl

theorem content_runAll {commands : List (Option (Octets 32) × Command)}
    (h : (disk.content path).isSome = true)
    (hpath : ∀ step ∈ commands, path ∉ step.2.overwrites) :
    (runAll crates disk commands).content path = disk.content path := by
  induction commands generalizing disk with
  | nil => rfl
  | cons step commands ih =>
    have hstep := @content_run _ crates _ _ h step.1 _ (hpath step List.mem_cons_self)
    rw [runAll, ih (by rw [hstep]; exact h) fun other hother ↦
      hpath other (List.mem_cons_of_mem _ hother), hstep]

/-- A secret key survives every run of the tool in which no command names its file as the one to put
a public key or a signature in: another key pair is refused that file. -/
theorem key_survives {secret : Text} {body : List UInt8} (h : disk.content secret = some body)
    {commands : List (Option (Octets 32) × Command)}
    (hsecret : ∀ step ∈ commands, secret ∉ step.2.overwrites) :
    (runAll crates disk commands).content secret = some body ∧
      ∀ seed outPublic, keygen crates (runAll crates disk commands) (some seed) secret outPublic =
        (.err (.keyExists secret), runAll crates disk commands) := by
  have hkept := (@content_runAll _ crates _ _ _ (Option.isSome_of_eq_some h) hsecret).trans h
  refine ⟨hkept, fun seed outPublic ↦ ?_⟩
  simp [keygen, hkept]

end

/-- The files before there is a key: a catalog and nothing else. -/
def sampleDisk : Disk where
  content path := if path = "catalog.toml".toList then some (bytes sampleText) else none
  readable _ := true
  writable _ := true

/-- The files of the sample with a fresh key pair. -/
def sampleKeys : Disk :=
  (keygen sampleCrates sampleDisk (some sampleSeed) "secret.hex".toList "pubkey.hex".toList).2

theorem key_survives_sample :
    let commands : List (Option (Octets 32) × Command) :=
      [(some samplePublic, .keygen "other.hex".toList "pubkey.hex".toList),
        (some samplePublic, .keygen "secret.hex".toList "pubkey.hex".toList),
        (none, .sign "catalog.toml".toList "secret.hex".toList "catalog.toml.sig".toList)]
    (runAll sampleCrates sampleKeys commands).content "secret.hex".toList =
        some (bytes (hexLine sampleCrates sampleSeed.val)) ∧
      ∀ seed outPublic,
        keygen sampleCrates (runAll sampleCrates sampleKeys commands) (some seed)
            "secret.hex".toList outPublic =
          (.err (.keyExists "secret.hex".toList), runAll sampleCrates sampleKeys commands) :=
  key_survives rfl (by decide)

end WardSweep.Signing
