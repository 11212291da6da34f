import WardSweep.Safety.CarveOuts
import WardSweep.Suggest.Draft

/-!
# What the same evidence claims without a scope

A scope only takes claims away, and whatever is admitted becomes evidence for what is judged after
it.  So without the scope each step claims at least as much, and lists at least the same services,
drivers and event sources.
-/

namespace WardSweep.Suggest

open Utf8 Str Observe Ordered Paths Denylist

/-- Each of some names is among others, in some case. -/
def AmongIgnoringCase (names others : List Text) : Prop :=
  ∀ name ∈ names, ∃ other ∈ others, eqIgnoreAsciiCase name other = true

instance (names others : List Text) : Decidable (AmongIgnoringCase names others) :=
  inferInstanceAs
    (Decidable (∀ name ∈ names, ∃ other ∈ others, eqIgnoreAsciiCase name other = true))

theorem AmongIgnoringCase.of_subset {names others : List Text} (h : names ⊆ others) :
    AmongIgnoringCase names others :=
  fun name hname ↦ ⟨name, h hname, eqIgnoreAsciiCase_eq_true_iff.mpr rfl⟩

/-- The first of each name, in whichever case, is among the first of more names. -/
theorem AmongIgnoringCase.firstOfEach {names others : List Text} (h : names ⊆ others) :
    AmongIgnoringCase (firstOfEach toAsciiLowercase names)
      (firstOfEach toAsciiLowercase others) := by
  intro name hname
  have hfirst : ∃ other ∈ Ordered.firstOfEach toAsciiLowercase others,
      toAsciiLowercase other = toAsciiLowercase name :=
    exists_mem_firstOfEach (h (mem_of_mem_firstOfEach hname))
  obtain ⟨other, hother, hsame⟩ := hfirst
  exact ⟨other, hother, eqIgnoreAsciiCase_eq_true_iff.mpr hsame.symm⟩

theorem append_mono {α : Type*} {left right left' right' : List α} (hleft : left ⊆ left')
    (hright : right ⊆ right') : left ++ right ⊆ left' ++ right' :=
  List.append_subset.mpr
    ⟨List.subset_append_of_subset_left _ hleft, List.subset_append_of_subset_right _ hright⟩

/-! ## Evidence -/

namespace Attribution

/-- Evidence is part of other evidence that has no scope. -/
structure PartOf (narrow wide : Attribution) : Prop where
  files : narrow.files ⊆ wide.files
  directories : narrow.directories ⊆ wide.directories
  products : narrow.products ⊆ wide.products
  names : narrow.names ⊆ wide.names
  tokens : narrow.tokens ⊆ wide.tokens
  unscoped : wide.only = []

namespace PartOf

variable {narrow wide : Attribution}

theorem inScope (h : PartOf narrow wide) (lowered : Text) : wide.inScope lowered = true := by
  rw [Attribution.inScope, h.unscoped]
  rfl

theorem tokens_any (h : PartOf narrow wide) {claims : Text → Bool}
    (hclaims : narrow.tokens.any claims = true) : wide.tokens.any claims = true := by
  obtain ⟨token, htoken, hclaim⟩ := List.any_eq_true.mp hclaims
  exact List.any_eq_true.mpr ⟨token, h.tokens htoken, hclaim⟩

theorem names_contains (h : PartOf narrow wide) {name : Text}
    (hname : narrow.names.contains name = true) : wide.names.contains name = true := by
  rw [List.contains_iff_mem] at hname ⊢
  exact h.names hname

theorem claimsUnscoped (h : PartOf narrow wide) {lowered : Text}
    (hclaims : narrow.claimsUnscoped lowered = true) : wide.claimsUnscoped lowered = true := by
  unfold Attribution.claimsUnscoped at hclaims ⊢
  simp only [Bool.or_eq_true, List.contains_iff_mem, Option.any_eq_true] at hclaims ⊢
  rcases hclaims with (hfile | ⟨parent, hparent, hmem⟩) | htoken
  · exact .inl (.inl (h.files hfile))
  · exact .inl (.inr ⟨parent, hparent, h.directories hmem⟩)
  · exact .inr (h.tokens_any htoken)

theorem claimsPath (h : PartOf narrow wide) {lowered : Text}
    (hclaims : narrow.claimsPath lowered = true) : wide.claimsPath lowered = true := by
  rw [Attribution.claimsPath, Bool.and_eq_true] at hclaims ⊢
  exact ⟨h.inScope lowered, h.claimsUnscoped hclaims.2⟩

theorem claimsKey (h : PartOf narrow wide) {lowered : Text}
    (hclaims : narrow.claimsKey lowered = true) : wide.claimsKey lowered = true := by
  unfold Attribution.claimsKey at hclaims ⊢
  rw [Bool.and_eq_true, Bool.or_eq_true] at hclaims ⊢
  refine ⟨h.inScope lowered, ?_⟩
  cases hclaims.2 with
  | inl hpath => exact .inl (h.claimsUnscoped hpath)
  | inr hproduct =>
    obtain ⟨below, hbelow, hany⟩ := (Option.any_eq_true _ _).mp hproduct
    obtain ⟨product, hmem, hat⟩ := List.any_eq_true.mp hany
    exact .inr ((Option.any_eq_true _ _).mpr
      ⟨below, hbelow, List.any_eq_true.mpr ⟨product, h.products hmem, hat⟩⟩)

theorem claimsService (h : PartOf narrow wide) {change : ServiceChange}
    (hclaims : narrow.claimsService change = true) : wide.claimsService change = true := by
  unfold Attribution.claimsService at hclaims ⊢
  simp only [Bool.and_eq_true, Bool.or_eq_true, Option.any_eq_true] at hclaims ⊢
  refine ⟨.inl (h.inScope _), ?_⟩
  rcases hclaims.2 with hname | ⟨image, himage, hpath | hfile⟩
  · exact .inl (h.tokens_any hname)
  · exact .inr ⟨image, himage, .inl (h.claimsUnscoped hpath)⟩
  · exact .inr ⟨image, himage, .inr (h.names_contains hfile)⟩

theorem claimsRegistryDriver (h : PartOf narrow wide) {driver : RegistryDriver}
    {publisher : Option Text} (hclaims : narrow.claimsRegistryDriver driver publisher = true) :
    wide.claimsRegistryDriver driver publisher = true := by
  unfold Attribution.claimsRegistryDriver at hclaims ⊢
  simp only [Bool.and_eq_true, Bool.or_eq_true] at hclaims ⊢
  refine ⟨.inl (.inl (h.inScope _)), ?_⟩
  rcases hclaims.2 with ((hkey | himage) | hfile) | hdescribes
  · exact .inl (.inl (.inl (h.claimsUnscoped hkey)))
  · exact .inl (.inl (.inr (h.claimsUnscoped himage)))
  · exact .inl (.inr (h.names_contains hfile))
  · exact .inr hdescribes

theorem claimsDriver (h : PartOf narrow wide) {change : FileChange}
    (hclaims : narrow.claimsDriver change = true) : wide.claimsDriver change = true := by
  rw [Attribution.claimsDriver, Bool.or_eq_true] at hclaims ⊢
  exact hclaims.imp h.claimsPath h.names_contains

theorem claimsSource (h : PartOf narrow wide) {descriptions descriptions' : List Text}
    (hdescriptions : descriptions ⊆ descriptions') {publisher : Option Text} {source : EventSource}
    (hclaims : narrow.claimsSource descriptions publisher source = true) :
    wide.claimsSource descriptions' publisher source = true := by
  unfold Attribution.claimsSource at hclaims ⊢
  simp only [Bool.or_eq_true, Bool.and_eq_true, List.contains_iff_mem] at hclaims ⊢
  rcases hclaims with hdescribed | ⟨-, htoken | hname⟩
  · exact .inl (hdescriptions hdescribed)
  · exact .inr ⟨h.inScope _, .inl (h.tokens_any htoken)⟩
  · exact .inr ⟨h.inScope _, .inr hname⟩

/-- Services that are admitted alongside more services leave the evidence part of the other. -/
theorem addServices (h : PartOf narrow wide) {services services' : List ServiceChange}
    (hservices : services ⊆ services') :
    PartOf (narrow.addServices services) (wide.addServices services') where
  files := append_mono h.files (List.filterMap_subset _ hservices)
  directories := h.directories
  products := h.products
  names :=
    append_mono h.names (List.map_subset _ (List.filterMap_subset _ hservices))
  tokens := append_mono h.tokens (List.map_subset _ hservices)
  unscoped := h.unscoped

end PartOf

/-- The signed files are the same whatever the scope; it only limits which files lend their name. -/
theorem fromSignedFiles_partOf (footprint : Diff) (residue : Option Diff) (signer : Option Text)
    (only : List Text) :
    PartOf (fromSignedFiles footprint residue signer only)
      (fromSignedFiles footprint residue signer []) where
  files := List.Subset.refl _
  directories := List.Subset.refl _
  products := List.Subset.refl _
  names := by
    unfold fromSignedFiles
    apply List.map_subset
    apply (List.monotone_filter_right _ _).subset
    intro change hchange
    apply PartOf.claimsPath _ hchange
    exact ⟨List.Subset.refl _, List.Subset.refl _, List.Subset.refl _, List.Subset.refl _,
      List.Subset.refl _, rfl⟩
  tokens := List.Subset.refl _
  unscoped := rfl

end Attribution

/-! ## Selections -/

section

variable (footprint : Diff) (residue : Option Diff) (signer : Option Text) (only : List Text)

/-- What the scope leaves of the services is part of what is admitted without it. -/
theorem select_services_subset :
    (select footprint residue signer only).services ⊆
      (select footprint residue signer []).services := by
  apply (List.monotone_filter_right _ _).subset
  intro change hchange
  exact (Attribution.fromSignedFiles_partOf _ _ _ _).claimsService hchange

theorem serviced_partOf :
    Attribution.PartOf
      ((Attribution.fromSignedFiles (withoutGameFiles footprint).1
        (residue.map fun diff ↦ (withoutGameFiles diff).1) (chosenSigner footprint signer)
        (scopeTerms only)).addServices (select footprint residue signer only).services)
      ((Attribution.fromSignedFiles (withoutGameFiles footprint).1
        (residue.map fun diff ↦ (withoutGameFiles diff).1) (chosenSigner footprint signer)
        []).addServices (select footprint residue signer []).services) :=
  (Attribution.fromSignedFiles_partOf _ _ _ _).addServices
    (select_services_subset footprint residue signer only)

theorem select_registryKept_subset :
    (select footprint residue signer only).registryKept ⊆
      (select footprint residue signer []).registryKept := by
  apply (List.monotone_filter_right _ _).subset
  intro driver hdriver
  exact (serviced_partOf footprint residue signer only).claimsRegistryDriver hdriver

/-- The evidence that a scope leaves is part of all the evidence. -/
theorem select_attribution_partOf :
    (select footprint residue signer only).attribution.PartOf
      (select footprint residue signer []).attribution := by
  have h := serviced_partOf footprint residue signer only
  exact
    { files := h.files
      directories := h.directories
      products := h.products
      names := h.names
      tokens := append_mono h.tokens
        (List.map_subset _ (select_registryKept_subset footprint residue signer only))
      unscoped := rfl }

theorem select_serviceNames_subset :
    (select footprint residue signer only).serviceNames ⊆
      (select footprint residue signer []).serviceNames :=
  append_mono (List.map_subset _ (select_services_subset footprint residue signer only))
    (List.map_subset _ (select_registryKept_subset footprint residue signer only))

/-- The drivers a scope leaves are among all the drivers.  Which file of a name gives it its
spelling can differ. -/
theorem select_drivers_among :
    AmongIgnoringCase (select footprint residue signer only).drivers
      (select footprint residue signer []).drivers := by
  apply AmongIgnoringCase.firstOfEach
  apply append_mono
  · apply append_mono
    · rw [List.reverse_subset, List.subset_reverse]
      apply List.map_subset
      apply (List.monotone_filter_right _ _).subset
      intro change hchange
      exact (select_attribution_partOf footprint residue signer only).claimsDriver hchange
    · apply List.filterMap_subset
      exact List.filter_subset _ (select_services_subset footprint residue signer only)
  · apply List.filter_subset
    exact List.map_subset _ (select_registryKept_subset footprint residue signer only)

theorem serviceDescriptions_subset {services services' : List ServiceChange}
    (h : services ⊆ services') : serviceDescriptions services ⊆ serviceDescriptions services' := by
  apply List.filter_subset
  intro text htext
  obtain ⟨record, hrecord, hmem⟩ := List.mem_flatMap.mp htext
  exact List.mem_flatMap.mpr ⟨record, List.filterMap_subset _ h hrecord, hmem⟩

/-- A log's name holds no separator, so the name a source is kept by is its own. -/
theorem source_of_place {change : RegistryChange} {source : EventSource}
    (h : eventSource change = some source) :
    (splitOnce source.place ['\\']).elim source.place Prod.snd = source.source := by
  unfold eventSource at h
  split_ifs at h
  obtain ⟨⟨log, name⟩, hsplit, h⟩ := Option.bind_eq_some_iff.mp h
  obtain ⟨below, -, hsplit⟩ := Option.bind_eq_some_iff.mp hsplit
  obtain ⟨hlog, -⟩ := of_splitOnce_singleton hsplit
  dsimp only at h
  split_ifs at h
  obtain rfl := Option.some.inj h
  rw [EventSource.place, splitOnce_append_cons hlog]
  rfl

/-- The names of the event sources that are claimed are among those that more evidence claims. -/
theorem eventSources_among {footprint : Diff} {narrow wide : Attribution}
    (h : narrow.PartOf wide) {descriptions descriptions' : List Text}
    (hdescriptions : descriptions ⊆ descriptions') (signer : Option Text) :
    AmongIgnoringCase (eventSources footprint narrow descriptions signer).1
      (eventSources footprint wide descriptions' signer).1 := by
  intro name hname
  obtain ⟨source, hsource, rfl⟩ := List.mem_map.mp hname
  obtain ⟨hmade, hclaims⟩ := List.mem_filter.mp (mem_of_mem_firstOfEach hsource)
  have hwide := List.mem_filter.mpr ⟨hmade, h.claimsSource hdescriptions hclaims⟩
  have hfirst : ∃ other ∈ sourcesOf footprint
      (wide.claimsSource descriptions' (signer.bind publisherName)),
        toAsciiLowercase other.source = toAsciiLowercase source.source :=
    exists_mem_firstOfEach hwide
  obtain ⟨other, hother, hsame⟩ := hfirst
  refine ⟨_, List.mem_map_of_mem hother, ?_⟩
  obtain ⟨change, -, hchange⟩ := List.mem_filterMap.mp hmade
  obtain ⟨change', -, hchange'⟩ :=
    List.mem_filterMap.mp (List.mem_filter.mp (mem_of_mem_firstOfEach hother)).1
  rw [source_of_place hchange, source_of_place hchange']
  exact eqIgnoreAsciiCase_eq_true_iff.mpr hsame.symm

/-! ## Carve-outs -/

theorem baseFileName_subset {drivers drivers' : List Text}
    (h : AmongIgnoringCase drivers drivers') :
    drivers.filterMap baseFileName ⊆ drivers'.filterMap baseFileName := by
  intro file hfile
  obtain ⟨driver, hdriver, hbase⟩ := List.mem_filterMap.mp hfile
  obtain ⟨other, hother, hsame⟩ := h driver hdriver
  rw [eqIgnoreAsciiCase_iff] at hsame
  refine List.mem_filterMap.mpr ⟨other, hother, ?_⟩
  rw [← baseFileName_toAsciiUppercase, ← hsame, baseFileName_toAsciiUppercase, hbase]

theorem select_allowsDriverFile (file : Text)
    (h : (select footprint residue signer only).exceptions.allowsDriverFile file = true) :
    (select footprint residue signer []).exceptions.allowsDriverFile file = true := by
  rw [Exceptions.allowsDriverFile, List.contains_iff_mem] at h ⊢
  exact List.filter_subset _
    (baseFileName_subset (select_drivers_among footprint residue signer only)) h

theorem select_allowsService (name : Text)
    (h : (select footprint residue signer only).exceptions.allowsService name = true) :
    (select footprint residue signer []).exceptions.allowsService name = true := by
  rw [Exceptions.allowsService, List.contains_iff_mem] at h ⊢
  exact List.filter_subset _
    (List.map_subset _ (select_serviceNames_subset footprint residue signer only)) h

/-- What the deny-list allows under the carve-outs of a scope, it allows without the scope. -/
theorem select_allowsPath {path : Text}
    (h : allowsPath (select footprint residue signer only).exceptions path = .ok true) :
    allowsPath (select footprint residue signer []).exceptions path = .ok true := by
  obtain ⟨canonical, hcanonical, hcheck⟩ := (allowsPath_eq_true_iff _ _).mp h
  have hupper : IsUpper canonical.components := IsCanonical.upper ⟨_, .inl hcanonical⟩
  exact (allowsPath_eq_true_iff _ _).mpr ⟨canonical, hcanonical,
    checkPath_mono (select_allowsDriverFile footprint residue signer only) hupper hcheck⟩

theorem select_allowsKey {key : Text}
    (h : allowsKey (select footprint residue signer only).exceptions key = .ok true) :
    allowsKey (select footprint residue signer []).exceptions key = .ok true := by
  obtain ⟨canonical, hcanonical, hcheck⟩ := (allowsKey_eq_true_iff _ _).mp h
  have hupper : IsUpper canonical.components := IsCanonicalKey.upper ⟨_, hcanonical⟩
  exact (allowsKey_eq_true_iff _ _).mpr ⟨canonical, hcanonical,
    checkRegistryKey_mono (select_allowsService footprint residue signer only) hupper hcheck⟩

/-! ## Places -/

/-- A scope leaves some of the directories that gained files. -/
theorem select_gainedDirectories_subset :
    gainedDirectories (select footprint residue signer only).footprint
        (select footprint residue signer only).residue
        (select footprint residue signer only).attribution ⊆
      gainedDirectories (select footprint residue signer []).footprint
        (select footprint residue signer []).residue
        (select footprint residue signer []).attribution := by
  intro directory hdirectory
  rw [gainedDirectories, mem_sortedKeys] at hdirectory ⊢
  apply List.filterMap_subset _ _ hdirectory
  apply (List.monotone_filter_right _ _).subset
  intro change hchange
  rw [beq_iff_eq] at hchange ⊢
  exact (select_attribution_partOf footprint residue signer only).claimsPath hchange

/-- A scope leaves some of the keys, each in the views it was seen in. -/
theorem select_seenKeys_subset :
    seenKeys (select footprint residue signer only).footprint
        (select footprint residue signer only).attribution ⊆
      seenKeys (select footprint residue signer []).footprint
        (select footprint residue signer []).attribution := by
  apply List.map_subset
  apply (List.monotone_filter_right _ _).subset
  intro change hchange
  rw [Bool.and_eq_true, beq_iff_eq] at hchange ⊢
  exact hchange.imp_right (select_attribution_partOf footprint residue signer only).claimsKey

end

end WardSweep.Suggest
