import WardSweep.Cli.Load
import WardSweep.Scan.Present
import WardSweep.Scan.Unread

/-!
# Scanning

A scan audits the machine against a verified catalog, writes the report and ends with a code that
says how it went.  That nothing was found is said only when a sound catalog was signed, everything
the audit records could be read, and nothing an entry names is there.
-/

namespace WardSweep.Cli

open Utf8 Str Schema Validate Verify Signing Scan

/-! ## The report in words -/

namespace Output

/-- Findings 0, nothing 1, partial 3.  Partial wins: a scan that could not read everything has not
found everything. -/
def exitCode (report : Report) : UInt8 :=
  if report.isPartial then exitPartial
  else if report.findings.isEmpty then exitNothing
  else exitOk

/-- How many findings are this sure. -/
def count (report : Report) (classification : Classification) : ℕ :=
  (report.findings.filter fun finding ↦ finding.classification == classification).length

def classificationName : Classification → Text
  | .confirmed => "confirmed".toList
  | .probable => "probable".toList
  | .suspicious => "suspicious".toList

/-- A text in a column of some width. -/
def padded (width : ℕ) (text : Text) : Text := text ++ List.replicate (width - text.length) ' '

def describe : Artifact → Text
  | .service name _ registryOnly =>
    if registryOnly then "service ".toList ++ name ++ ", in the registry only".toList
    else "service ".toList ++ name
  | .driver file service _ imagePresent =>
    "driver ".toList ++ file ++ service.elim [] (", registered as ".toList ++ ·) ++
      if imagePresent then [] else ", image not on disk".toList
  | .registryKey key .bits64 => "key ".toList ++ key ++ ", 64-bit view".toList
  | .registryKey key .bits32 => "key ".toList ++ key ++ ", 32-bit view".toList
  | .path path directory => (if directory then "folder " else "file ").toList ++ path

/-- One line on how the scan went. -/
def verdict (report : Report) : Text :=
  let found := decimal report.findings.length ++ " finding(s): ".toList ++
    decimal (count report .confirmed) ++ " confirmed, ".toList ++
    decimal (count report .probable) ++ " probable, ".toList ++
    decimal (count report .suspicious) ++ " suspicious".toList
  if report.isPartial then
    found ++ ". Partial: ".toList ++ decimal report.unreadable.length ++
      " item(s) could not be read; run elevated for a complete picture".toList
  else found ++ ['.']

def line (text : Text) : Text := text ++ ['\n']

/-- The heading of an entry's findings: its display name, or its id when the catalog has none. -/
def heading (catalog : Catalog) (id : Text) : Text :=
  line (((catalog.anticheat.find? fun entry ↦ entry.id == id).elim id AntiCheat.display) ++
    " (".toList ++ id ++ [')'])

/-- The findings under their headings.  A finding of another entry than the last one starts a new
heading. -/
def renderFindings (catalog : Catalog) (current : Option Text) : List Finding → Text
  | [] => []
  | finding :: findings =>
    (if current ≠ some finding.anticheat then heading catalog finding.anticheat else []) ++
      line ("  ".toList ++ padded 11 (classificationName finding.classification) ++ [' '] ++
        describe finding.artifact) ++
      (finding.evidence.flatMap fun evidence ↦ line ("              ".toList ++ evidence)) ++
      renderFindings catalog (some finding.anticheat) findings

/-- The report for a person. -/
def render (report : Report) (catalog : Catalog) : Text :=
  renderFindings catalog none report.findings ++
    (report.protectedTargets.flatMap fun item ↦
      line ("protected   ".toList ++ item.target ++ " (".toList ++ item.anticheat ++ "): ".toList ++
        item.reason)) ++
    (report.disbelieved.flatMap fun item ↦
      line ("disbelieved ".toList ++ item.item ++ " (".toList ++ item.anticheat ++ "): ".toList ++
        item.reason)) ++
    (report.unreadable.flatMap fun item ↦
      line ("unreadable  ".toList ++ item.item ++ ": ".toList ++ item.reason)) ++
    line (verdict report)

end Output

/-! ## The command -/

/-- What `scan` looks for. -/
inductive Mode where
  | audit
  | orphan
  | full
  deriving DecidableEq, Repr

/-- How a command that came back left things. -/
structure Ran where
  code : UInt8
  stdout : Text
  disk : Disk

section

variable {Key : Type} (crates : Crates Key) (ndjson : Report → Option Text) (trusted running : Text)
  (machine : MachineView) (environment : Environment) (disk : Disk)

/-- Audit this machine, write the report, and say how the scan went. -/
def runScan (loaded : Loaded) (json : Bool) (file : Option Text) : Outcome Empty Ran :=
  (audit loaded.catalog machine environment).bind fun report ↦
    .ok (match if json then ndjson report else some (Output.render report loaded.catalog) with
      | none => ⟨exitScanError, [], disk⟩
      | some text =>
        match file with
        | none => ⟨Output.exitCode report, text, disk⟩
        | some path =>
          if disk.writable path then ⟨Output.exitCode report, [], disk.write path (bytes text)⟩
          else ⟨exitScanError, [], disk⟩)

/-- `wardsweep scan`. -/
def scan (mode : Mode) (json : Bool) (file : Option Text) (path : Text) : Outcome Empty Ran :=
  if mode ≠ .audit then .ok ⟨exitUsage, [], disk⟩
  else
    (loadVerified crates trusted running disk path).handle
      (fun loaded ↦ runScan ndjson machine environment disk loaded.1 json file)
      fun refusal ↦
        -- A scan with no catalog looked for nothing: an error, never "nothing found".
        .ok ⟨if refusal.code = exitNothing then exitScanError else refusal.code, [], disk⟩

/-! ## What the code says -/

/-- A catalog that is signed under a key, and sound. -/
def Trusts (path : Text) (catalog : Catalog) : Prop :=
  ∃ body signature, Holds crates disk path body catalog ∧
    disk.read (signaturePath path) = some signature ∧
      verifyDetached crates body signature trusted = .ok () ∧ Sound catalog

/-- A report reaches the file or the screen it is meant for. -/
def Told (json : Bool) (file : Option Text) (report : Report) : Prop :=
  (json = true → ∃ text, ndjson report = some text) ∧ ∀ path ∈ file, disk.writable path = true

/-- What the report of a catalog's audit says, and the code for it. -/
inductive Tells (json : Bool) (file : Option Text) (catalog : Catalog) (report : Report) :
    UInt8 → Prop where
  | untold (h : ¬ Told ndjson disk json file report) :
    Tells json file catalog report exitScanError
  | partly (htold : Told ndjson disk json file report)
    (hfails : RecordedFails catalog machine environment) :
    Tells json file catalog report exitPartial
  | nothing (htold : Told ndjson disk json file report)
    (hread : ¬ RecordedFails catalog machine environment)
    (hnothing : ∀ entry ∈ catalog.anticheat, ¬ (auditOf machine environment entry).Present) :
    Tells json file catalog report exitNothing
  | found (htold : Told ndjson disk json file report)
    (hread : ¬ RecordedFails catalog machine environment)
    (hfound : ∃ entry ∈ catalog.anticheat, (auditOf machine environment entry).Present) :
    Tells json file catalog report exitOk

/-- How a scan ends, and the code for it. -/
inductive Ends (mode : Mode) (json : Bool) (file : Option Text) (path : Text) : UInt8 → Prop where
  | usage (hmode : mode ≠ .audit) : Ends mode json file path exitUsage
  | noCatalog (hmode : mode = .audit) (hnone : disk.read path = none) :
    Ends mode json file path exitScanError
  | untrusted (hmode : mode = .audit) (hthere : disk.read path ≠ none)
    (huntrusted : ∀ catalog, ¬ Trusts crates trusted disk path catalog) :
    Ends mode json file path exitCatalogFailed
  | audited {catalog report code} (hmode : mode = .audit)
    (htrusts : Trusts crates trusted disk path catalog)
    (haudit : audit catalog machine environment = .ok report)
    (htells : Tells ndjson machine environment disk json file catalog report code) :
    Ends mode json file path code

end

section

variable {Key : Type} {crates : Crates Key} {ndjson : Report → Option Text} {trusted running : Text}
  {machine : MachineView} {environment : Environment} {disk : Disk} {mode : Mode} {json : Bool}
  {file : Option Text} {path : Text}

theorem loadVerified_of_trusts {catalog : Catalog} (h : Trusts crates trusted disk path catalog) :
    loadVerified crates trusted running disk path =
      .ok (⟨catalog, path⟩, versionWarning catalog.minimumAppVersion running) := by
  obtain ⟨body, signature, hholds, hsignature, hverified, hsound⟩ := h
  exact loadVerified_eq_ok_iff.mpr
    ⟨body, signature, catalog, hholds, hsignature, hverified, hsound, rfl, rfl⟩

theorem Trusts.unique {catalog catalog' : Catalog} (h : Trusts crates trusted disk path catalog)
    (h' : Trusts crates trusted disk path catalog') : catalog = catalog' := by
  obtain ⟨body, -, hholds, -⟩ := h
  obtain ⟨body', -, hholds', -⟩ := h'
  exact (hholds.unique hholds').2

theorem Trusts.read_ne_none {catalog : Catalog} (h : Trusts crates trusted disk path catalog) :
    disk.read path ≠ none := by
  obtain ⟨body, -, hholds, -⟩ := h
  rw [hholds.1]
  exact Option.some_ne_none body

/-- Only a catalog that is not there is refused with the code for nothing. -/
theorem code_of_loadVerified {refusal : Refusal}
    (h : loadVerified crates trusted running disk path = .err refusal) :
    disk.read path = none ∧ refusal.code = exitNothing ∨
      disk.read path ≠ none ∧ refusal.code = exitCatalogFailed := by
  unfold loadVerified at h
  cases hbody : disk.read path with
  | none =>
    rw [hbody] at h
    cases h
    exact .inl ⟨rfl, rfl⟩
  | some body =>
    refine .inr ⟨Option.some_ne_none body, ?_⟩
    rw [hbody] at h
    dsimp only at h
    split at h
    · cases h
      rfl
    · split at h
      · cases h
        rfl
      · split at h
        · cases h
          rfl
        · rename_i catalog _
          cases hintegrity : integrity catalog with
          | ok problems =>
            rw [hintegrity, Outcome.handle_ok] at h
            split at h
            · cases h
            · cases h
              rfl
          | err error => nomatch error
          | panic =>
            rw [hintegrity] at h
            cases h

/-- What a scan does with a verified catalog. -/
theorem runScan_tells {catalog : Catalog} {ran : Ran}
    (h : runScan ndjson machine environment disk ⟨catalog, path⟩ json file = .ok ran) :
    ∃ report, audit catalog machine environment = .ok report ∧
      Tells ndjson machine environment disk json file catalog report ran.code := by
  obtain ⟨report, haudit, h⟩ := (Outcome.bind_eq_ok_iff _ _ _).mp h
  obtain rfl := Outcome.ok.inj h
  refine ⟨report, haudit, ?_⟩
  have hcode (htold : Told ndjson disk json file report) :
      Tells ndjson machine environment disk json file catalog report (Output.exitCode report) := by
    by_cases hpartial : report.isPartial = true
    · rw [Output.exitCode, if_pos hpartial]
      exact .partly htold ((isPartial_iff haudit).mp hpartial)
    · have hread := fun hfails ↦ hpartial ((isPartial_iff haudit).mpr hfails)
      rw [Output.exitCode, if_neg hpartial]
      by_cases hfindings : report.findings = []
      · rw [if_pos (List.isEmpty_iff.mpr hfindings)]
        exact .nothing htold hread ((findings_eq_nil_iff haudit).mp hfindings)
      · rw [if_neg (fun hempty ↦ hfindings (List.isEmpty_iff.mp hempty))]
        refine .found htold hread ?_
        by_contra! hnothing
        exact hfindings ((findings_eq_nil_iff haudit).mpr hnothing)
  have hjson {text : Text}
      (htext : (if json then ndjson report else some (Output.render report catalog)) = some text)
      (hjson : json = true) : ∃ text, ndjson report = some text := by
    rw [if_pos hjson] at htext
    exact ⟨text, htext⟩
  split
  · rename_i hnone
    refine .untold fun htold ↦ ?_
    cases hkind : json with
    | false => simp [hkind] at hnone
    | true =>
      obtain ⟨text, htext⟩ := htold.1 hkind
      simp [hkind, htext] at hnone
  · rename_i text htext
    cases file with
    | none => exact hcode ⟨hjson htext, fun _ hnone ↦ nomatch hnone⟩
    | some out =>
      by_cases hwritable : disk.writable out = true
      · simp only [if_pos hwritable]
        exact hcode ⟨hjson htext, fun other hother ↦ Option.some.inj hother ▸ hwritable⟩
      · simp only [if_neg hwritable]
        exact .untold fun htold ↦ hwritable (htold.2 out rfl)

theorem scan_ends {ran : Ran}
    (h : scan crates ndjson trusted running machine environment disk mode json file path =
      .ok ran) :
    Ends crates ndjson trusted machine environment disk mode json file path ran.code := by
  unfold scan at h
  by_cases hmode : mode = .audit
  · rw [if_neg (not_not.mpr hmode)] at h
    cases hload : loadVerified crates trusted running disk path with
    | ok loaded =>
      rw [hload, Outcome.handle_ok] at h
      obtain ⟨loaded, warning⟩ := loaded
      obtain ⟨body, signature, catalog, hholds, hsignature, hverified, hsound, rfl, -⟩ :=
        loadVerified_eq_ok_iff.mp hload
      obtain ⟨report, haudit, htells⟩ := runScan_tells h
      exact .audited hmode ⟨body, signature, hholds, hsignature, hverified, hsound⟩ haudit htells
    | err refusal =>
      rw [hload, Outcome.handle_err] at h
      obtain rfl := Outcome.ok.inj h
      rcases code_of_loadVerified hload with ⟨hnone, hcode⟩ | ⟨hthere, hcode⟩
      · rw [if_pos hcode]
        exact .noCatalog hmode hnone
      · rw [hcode, if_neg (by decide)]
        refine .untrusted hmode hthere fun catalog htrusts ↦ ?_
        rw [loadVerified_of_trusts htrusts] at hload
        cases hload
    | panic =>
      rw [hload] at h
      cases h
  · rw [if_pos hmode] at h
    obtain rfl := Outcome.ok.inj h
    exact .usage hmode

theorem Tells.unique {catalog : Catalog} {report : Report} {code code' : UInt8}
    (h : Tells ndjson machine environment disk json file catalog report code)
    (h' : Tells ndjson machine environment disk json file catalog report code') : code = code' := by
  cases h with
  | untold huntold =>
    cases h' with
    | untold => rfl
    | partly htold | nothing htold | found htold => exact absurd htold huntold
  | partly htold hfails =>
    cases h' with
    | untold huntold => exact absurd htold huntold
    | partly => rfl
    | nothing _ hread | found _ hread => exact absurd hfails hread
  | nothing htold hread hnothing =>
    cases h' with
    | untold huntold => exact absurd htold huntold
    | partly _ hfails => exact absurd hfails hread
    | nothing => rfl
    | found _ _ hfound =>
      obtain ⟨entry, hentry, hpresent⟩ := hfound
      exact absurd hpresent (hnothing entry hentry)
  | found htold hread hfound =>
    cases h' with
    | untold huntold => exact absurd htold huntold
    | partly _ hfails => exact absurd hfails hread
    | nothing _ _ hnothing =>
      obtain ⟨entry, hentry, hpresent⟩ := hfound
      exact absurd hpresent (hnothing entry hentry)
    | found => rfl

/-- A scan ends in one way only. -/
theorem Ends.unique {code code' : UInt8}
    (h : Ends crates ndjson trusted machine environment disk mode json file path code)
    (h' : Ends crates ndjson trusted machine environment disk mode json file path code') :
    code = code' := by
  cases h with
  | usage hmode =>
    cases h' with
    | usage => rfl
    | noCatalog hmode' | untrusted hmode' | audited hmode' => exact absurd hmode' hmode
  | noCatalog hmode hnone =>
    cases h' with
    | usage hmode' => exact absurd hmode hmode'
    | noCatalog => rfl
    | untrusted _ hthere => exact absurd hnone hthere
    | audited _ htrusts => exact absurd hnone htrusts.read_ne_none
  | untrusted hmode hthere huntrusted =>
    cases h' with
    | usage hmode' => exact absurd hmode hmode'
    | noCatalog _ hnone => exact absurd hnone hthere
    | untrusted => rfl
    | audited _ htrusts => exact absurd htrusts (huntrusted _)
  | audited hmode htrusts haudit htells =>
    cases h' with
    | usage hmode' => exact absurd hmode hmode'
    | noCatalog _ hnone => exact absurd hnone htrusts.read_ne_none
    | untrusted _ _ huntrusted => exact absurd htrusts (huntrusted _)
    | audited _ htrusts' haudit' htells' =>
      obtain rfl := htrusts.unique htrusts'
      obtain rfl := Outcome.ok.inj (haudit.symm.trans haudit')
      exact htells.unique htells'

/-- The code of a scan says how it went: that nothing was found, only when the catalog is signed and
sound, everything the audit records was read, and nothing that an entry names is there. -/
theorem scan_code_iff {ran : Ran}
    (h : scan crates ndjson trusted running machine environment disk mode json file path = .ok ran)
    (code : UInt8) : ran.code = code ↔
      Ends crates ndjson trusted machine environment disk mode json file path code :=
  ⟨fun hcode ↦ hcode ▸ scan_ends h, (scan_ends h).unique⟩

end

/-! ## A machine with an anti-cheat -/

/-- The sample catalog with one entry. -/
def acmeText : Text :=
  sampleText ++ ("\n[[anticheat]]\nid = \"acme\"\ndisplay = \"Acme\"\nkind = \"usermode\"\n" ++
    "shared = true\nrisk = \"medium\"\nauthenticode_cn = [\"Acme\"]\n" ++
    "services = [\"AcmeGuard\"]\n").toList

/-- The signature of this text under the sample seed. -/
def acmeSignature : Octets 64 :=
  ⟨[
    239, 128, 229, 169, 127, 242, 135, 35, 66, 73, 140, 206, 100, 143, 215, 89, 113, 159, 201, 95,
    122, 236, 57, 176, 219, 92, 115, 234, 13, 91, 44, 150, 63, 83, 251, 137, 32, 3, 41, 27, 10,
    245, 7, 2, 238, 54, 61, 31, 146, 181, 135, 184, 192, 79, 105, 33, 136, 30, 99, 220, 54, 115,
    62, 5], by decide⟩

def acmeCatalog : Catalog :=
  { sampleCatalog with
    anticheat := [{
      id := "acme".toList, display := "Acme".toList, vendor := none, kind := .usermode
      shared := true, sharedEvidence := none, risk := .medium
      authenticodeCn := ["Acme".toList], fileHashes := []
      services := ["AcmeGuard".toList], drivers := [], paths := [], registry := [], tasks := []
      firewallRules := [], eventSources := [], officialUninstall := none }] }

/-- What the curve makes of the sample seed and this text, and zeros of everything else. -/
def acmeCrates : Crates (Octets 32) :=
  { sampleCrates with
    verifyStrict key body signature :=
      signature == if key = samplePublic ∧ body = bytes acmeText then acmeSignature else zeros 64
    sign seed body :=
      if seed = sampleSeed ∧ body = bytes acmeText then acmeSignature else zeros 64
    toml text := if text = acmeText then .ok acmeCatalog else .error [] }

/-- A machine on which the service of the entry is installed, and nothing else it is asked about. -/
def acmeMachine : MachineView where
  service name :=
    if name = "AcmeGuard".toList then .found ⟨r"C:\Acme\guard.exe".toList, false⟩ else .absent
  serviceKey _ := .absent
  driverKeys := .found ⟨[], []⟩
  registryKey _ _ := .absent
  path path := if path = r"C:\Acme\guard.exe".toList then .found .file else .absent
  signature path :=
    if path = r"C:\Acme\guard.exe".toList then .verified "Acme".toList else .unsigned

def acmeEnvironment : Environment where
  values _ := none
  unreadable := []

/-- The catalog and its signature. -/
def acmeDisk : Disk where
  content path :=
    if path = "catalog.toml".toList then some (bytes acmeText)
    else if path = "catalog.toml.sig".toList then some acmeSignature.val
    else none
  readable _ := true
  writable _ := true

theorem trusts_acme : Trusts acmeCrates (acmeCrates.hexEncode samplePublic.val) acmeDisk
    "catalog.toml".toList acmeCatalog := by
  have hkey : parsePublicKey acmeCrates (acmeCrates.hexEncode samplePublic.val) =
      .ok samplePublic := by
    have hsame : parsePublicKey acmeCrates = parsePublicKey sampleCrates := by
      unfold parsePublicKey hexOctets?
      simp only [acmeCrates]
    have hplain := parsePublicKey_between lawful_sampleCrates samplePublic
      (List.forall_mem_nil _) (List.forall_mem_nil _)
    rw [List.nil_append, List.append_nil] at hplain
    rw [hsame]
    exact hplain
  have htoml : acmeCrates.toml acmeText = .ok acmeCatalog := by
    simp only [acmeCrates, ↓reduceIte]
  have hverified : acmeCrates.verifyStrict samplePublic (bytes acmeText) acmeSignature = true := by
    simp only [acmeCrates, and_self, if_true, beq_self_eq_true]
  refine ⟨bytes acmeText, acmeSignature.val, ⟨rfl, ?_⟩, rfl, ?_, ?_⟩
  · rw [parseBytes, fromUtf8_bytes]
    simp only [htoml]
    rfl
  · exact (verifyDetached_eq_ok_iff _ _ _).mpr
      ⟨samplePublic, acmeSignature, hkey, parseSignature_raw _, hverified⟩
  · exact (integrity_eq_nil_iff acmeCatalog).mp (by decide +kernel)

/-- What the audit of that machine reports. -/
def acmeReport : Report where
  v := 1
  findings := [{
    anticheat := "acme".toList
    risk := .medium
    artifact := .service "AcmeGuard".toList (some r"C:\Acme\guard.exe".toList) false
    classification := .confirmed
    evidence := ["the service control manager lists it",
      r"image `C:\Acme\guard.exe`: signed by Acme"].map String.toList }]
  protectedTargets := []
  disbelieved := []
  unreadable := []

/-- What a scan of that machine prints. -/
def acmeRan : Ran where
  code := exitOk
  stdout := Output.render acmeReport acmeCatalog
  disk := acmeDisk

theorem scan_acme : scan acmeCrates (fun _ ↦ none) (acmeCrates.hexEncode samplePublic.val)
    "0.1.0".toList acmeMachine acmeEnvironment acmeDisk .audit false none
    "catalog.toml".toList = .ok acmeRan := by
  have haudit : audit acmeCatalog acmeMachine acmeEnvironment = .ok acmeReport := by decide +kernel
  rw [scan, if_neg (not_not.mpr rfl), loadVerified_of_trusts trusts_acme,
    Outcome.handle_ok, runScan,
    haudit]
  rfl

theorem scan_code_iff_acme :
    acmeRan.code = exitOk ↔ Ends acmeCrates (fun _ ↦ none) (acmeCrates.hexEncode samplePublic.val)
      acmeMachine acmeEnvironment acmeDisk .audit false none "catalog.toml".toList exitOk :=
  scan_code_iff scan_acme exitOk

end WardSweep.Cli
