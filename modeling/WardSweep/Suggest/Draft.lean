import WardSweep.Suggest.Entries

/-!
# Draft entries

A diff turned into a draft catalog entry, with the notes a reviewer needs beside it.  What is not
known resolves to the answer that removes less.
-/

namespace WardSweep.Suggest

open Utf8 Str Observe Denylist Schema

/-- A draft entry and the notes that go with it. -/
structure Draft where
  entry : AntiCheat
  signers : List (Text × ℕ)
  review : List Text
  deriving DecidableEq, Repr

/-- The scope as it is compared: trimmed, lower-cased and without blanks. -/
def scopeTerms (only : List Text) : List Text :=
  (only.map fun text ↦ toAsciiLowercase (trim text)).filter fun text ↦ !text.isEmpty

/-- What a draft is made of: the two diffs without the files of games, the publisher, and what the
evidence attributes to it. -/
structure Selection where
  footprint : Diff
  residue : Option Diff
  setAside : List GameFile
  only : List Text
  chosen : Option Text
  attribution : Attribution
  services : List ServiceChange
  unattributed : List ServiceChange
  registryKept : List RegistryDriver
  registryLeftOut : List RegistryDriver

/-- The services a footprint adds. -/
def addedServices (footprint : Diff) : List ServiceChange :=
  footprint.services.filter fun change ↦ decide (change.kind = .added)

/-- Choose a publisher and attribute services, and then drivers that only the registry lists: the
services are evidence for the drivers, and both are evidence for everything after them. -/
def select (footprint : Diff) (residue : Option Diff) (signer : Option Text) (only : List Text) :
    Selection :=
  let chosen := chosenSigner footprint signer
  let kept := (withoutGameFiles footprint).1
  let keptResidue := residue.map fun diff ↦ (withoutGameFiles diff).1
  let signed := Attribution.fromSignedFiles kept keptResidue chosen (scopeTerms only)
  let services := (addedServices kept).filter signed.claimsService
  let serviced := signed.addServices services
  let claims := fun driver ↦ serviced.claimsRegistryDriver driver chosen
  let registryKept := (registryOnlyDrivers kept).filter claims
  { footprint := kept
    residue := keptResidue
    setAside := (withoutGameFiles footprint).2 ++
      residue.elim [] fun diff ↦ (withoutGameFiles diff).2
    only := scopeTerms only
    chosen := chosen
    attribution :=
      { serviced with
        tokens := serviced.tokens ++ registryKept.map fun driver ↦ toAsciiLowercase driver.name }
    services := services
    unattributed := (addedServices kept).filter fun change ↦ !signed.claimsService change
    registryKept := registryKept
    registryLeftOut := (registryOnlyDrivers kept).filter fun driver ↦ !claims driver }

namespace Selection

variable (selection : Selection)

/-- The driver file names the draft lists. -/
def drivers : List Text :=
  driverFiles selection.footprint selection.attribution selection.services selection.registryKept

/-- The added driver files that nothing attributes. -/
def driversLeftOut : List Text :=
  ((driverImages selection.footprint).filter fun change ↦
    !selection.attribution.claimsDriver change).map FileChange.path

/-- The service names the draft lists. -/
def serviceNames : List Text :=
  (selection.services.map ServiceChange.name) ++ selection.registryKept.map RegistryDriver.name

/-- Whether anything attributed is a driver. -/
def hasDriver : Bool :=
  selection.services.any ServiceChange.isDriver || !selection.drivers.isEmpty ||
    !selection.registryKept.isEmpty

/-- Whether anything attributed starts at boot. -/
def bootStart : Bool :=
  selection.services.any ServiceChange.isBootStart ||
    selection.registryKept.any RegistryDriver.bootStart

/-- Whether a driver was added that nothing attributes. -/
def leftOutDriver : Bool :=
  !selection.driversLeftOut.isEmpty || !selection.registryLeftOut.isEmpty ||
    selection.unattributed.any ServiceChange.isDriver

def kind : Kind := if selection.hasDriver then .kernel else .usermode

def risk : Risk :=
  if selection.bootStart then .critical else if selection.hasDriver then .high else .medium

/-- The carve-outs the draft's own fields unlock at run time. -/
def exceptions : Exceptions := Exceptions.new selection.drivers selection.serviceNames

/-- The entry with its locations. -/
def entry (paths : List PathEntry) (registry : List RegistryEntry) : AntiCheat where
  id := "REVIEW-me".toList
  display := (selection.chosen.elim "REVIEW: unknown publisher".toList fun name ↦
    "REVIEW: ".toList ++ name)
  vendor := selection.chosen
  kind := selection.kind
  shared := true
  sharedEvidence := none
  risk := selection.risk
  authenticodeCn := selection.chosen.toList
  fileHashes := []
  services := selection.serviceNames
  drivers := selection.drivers
  paths := paths
  registry := registry
  tasks := []
  firewallRules := []
  eventSources := (Suggest.eventSources selection.footprint selection.attribution
    (serviceDescriptions selection.services) selection.chosen).1
  officialUninstall := none

/-- The entry with the directories and keys that the deny-list allows. -/
def draftEntry : AntiCheat :=
  selection.entry
    ((allowedDirectories selection.footprint selection.residue selection.attribution
      selection.exceptions).map pathEntry)
    ((allowedKeys selection.footprint selection.attribution selection.exceptions).map
      (registryEntry (seenKeys selection.footprint selection.attribution)))

/-- The notes that need nothing but the selection, up to those about locations. -/
def attributionNotes : List Text :=
  leftOutNotes selection.unattributed selection.driversLeftOut selection.chosen ++
    registryDriverNotes selection.registryKept selection.registryLeftOut selection.chosen ++
    kindNotes selection.hasDriver selection.bootStart selection.leftOutDriver

/-- The notes after those about locations. -/
def closingNotes : List Text :=
  perTitleNotes selection.footprint selection.attribution selection.drivers ++
    (Suggest.eventSources selection.footprint selection.attribution
      (serviceDescriptions selection.services) selection.chosen).2 ++
    (if selection.residue.isNone then
      [("no residue diff was given, so every path is classified from the install diff alone. " ++
        "docs/16 calls the residue diff the more valuable of the two — it is the exact set of " ++
        "things the vendor's uninstaller leaves behind.").toList]
    else []) ++
    [("`shared` is `true` and must stay so until at least two titles have been observed. docs/04: " ++
        "a wrong `shared = false` is the G1 violation this project exists to prevent.").toList,
      ("verify every signer with `signtool verify /v /pa <file>` and paste the output into the " ++
        "pull request, per the docs/16 checklist.").toList]

end Selection

/-- A draft, limited to what mentions one of `only` when any are given. -/
def draftScoped (footprint : Diff) (residue : Option Diff) (signer : Option Text)
    (only : List Text) : Outcome Empty Draft :=
  let selection := select footprint residue signer only
  (scopeNotes selection.footprint selection.residue selection.chosen selection.only).bind
    fun scope ↦
      (pathEntries selection.footprint selection.residue selection.attribution
        selection.exceptions).bind fun paths ↦
          (registryEntries selection.footprint selection.attribution selection.exceptions).bind
            fun registry ↦
              .ok
                { entry := selection.entry paths.1 registry.1
                  signers := rankedSigners footprint
                  review := signerNotes footprint signer ++
                    gameNotes selection.setAside selection.chosen ++ scope ++
                    selection.attributionNotes ++ paths.2 ++ registry.2 ++
                    selection.closingNotes }

/-- The entry of a draft: its locations are the directories and keys of the selection that the
deny-list allows under the draft's own carve-outs. -/
theorem entry_of_draftScoped {footprint : Diff} {residue : Option Diff} {signer : Option Text}
    {only : List Text} {draft : Draft} (h : draftScoped footprint residue signer only = .ok draft) :
    draft.entry = (select footprint residue signer only).draftEntry := by
  unfold draftScoped at h
  obtain ⟨scope, -, h⟩ := (Outcome.bind_eq_ok_iff _ _ _).mp h
  obtain ⟨paths, hpaths, h⟩ := (Outcome.bind_eq_ok_iff _ _ _).mp h
  obtain ⟨registry, hregistry, h⟩ := (Outcome.bind_eq_ok_iff _ _ _).mp h
  obtain rfl := Outcome.ok.inj h
  rw [Selection.draftEntry, ← pathEntries_eq_ok hpaths, ← registryEntries_eq_ok hregistry]

end WardSweep.Suggest
