import WardSweep.Observe.Late
import WardSweep.Observe.Shared
import WardSweep.Rust.Matches

/-!
# What a diff may not hold

Whatever the policy excludes or refuses is in none of the lists of a diff that was compared,
filtered or intersected under it.  One kind of item escapes: a denied registry item is told by the
text before its first ` :: `, and a key may hold that text itself.
-/

namespace WardSweep.Observe

open Utf8 Str Ordered

/-! ## At or below -/

/-- A key is at or below one that the policy excludes. -/
def Policy.CoversKey (policy : Policy) (key : Text) : Prop :=
  ∃ excluded, policy.excludesKey excluded ∧
    (key = excluded ∨ ∃ rest, key = excluded ++ '\\' :: rest)

/-- A path is at or below a directory that the policy excludes, with either separator. -/
def Policy.CoversPath (policy : Policy) (path : Text) : Prop :=
  ∃ directory, policy.excludesPath directory ∧
    (path = directory ∨ ∃ separator rest, (separator = '\\' ∨ separator = '/') ∧
      path = directory ++ separator :: rest)

theorem contains_mono {text longer want : Text} (hlonger : text <+: longer)
    (h : contains text want) : contains longer want := by
  rw [contains_iff_isInfix] at h ⊢
  exact h.trans hlonger.isInfix

/-- What is below an excluded key is excluded. -/
theorem coversKey_iff {policy : Policy} {key : Text} :
    policy.CoversKey key ↔ policy.excludesKey key := by
  constructor
  · rintro ⟨excluded, hexcluded, rfl | ⟨rest, rfl⟩⟩
    · exact hexcluded
    · rw [Policy.excludesKey, List.any_eq_true] at hexcluded ⊢
      obtain ⟨fragment, hfragment, hcontains⟩ := hexcluded
      refine ⟨fragment, hfragment, contains_mono ?_ hcontains⟩
      have hseparator : ('\\' : Char).toLower = '\\' := by decide
      refine ⟨toAsciiLowercase rest ++ ['\\'], ?_⟩
      simp [toAsciiLowercase, hseparator]
  · intro h
    exact ⟨key, h, Or.inl rfl⟩

/-- What is below an excluded directory is excluded. -/
theorem coversPath_iff {policy : Policy} {path : Text} :
    policy.CoversPath path ↔ policy.excludesPath path := by
  constructor
  · rintro ⟨directory, hexcluded, rfl | ⟨separator, rest, hseparator, rfl⟩⟩
    · exact hexcluded
    · rw [Policy.excludesPath, List.any_eq_true] at hexcluded ⊢
      obtain ⟨fragment, hfragment, hcontains⟩ := hexcluded
      refine ⟨fragment, hfragment, contains_mono ?_ hcontains⟩
      have hmapped : (if separator.toLower = '/' then '\\' else separator.toLower) = '\\' := by
        cases hseparator with
        | inl h => rw [h]; decide
        | inr h => rw [h]; decide
      refine ⟨(toAsciiLowercase rest).map (fun c ↦ if c = '/' then '\\' else c) ++ ['\\'], ?_⟩
      simp [toAsciiLowercase, hmapped]
  · intro h
    exact ⟨path, h, Or.inl rfl⟩

/-! ## Denied items -/

/-- What a denied registry item is written from: a key or one of its values, in a view. -/
structure RegistryItem where
  key : Text
  value : Option Text
  view : Text
  view_digits : ∀ c ∈ view, isAsciiDigit c.toNat

/-- `KEY`, or `KEY :: VALUE`. -/
def RegistryItem.named (item : RegistryItem) : Text :=
  item.key ++ item.value.elim [] (" :: ".toList ++ ·)

/-- `KEY [view N]`, or `KEY :: VALUE [view N]`. -/
def RegistryItem.text (item : RegistryItem) : Text :=
  item.named ++ " [view ".toList ++ item.view ++ [']']

/-- An item without its view as far as its first ` :: `, which is not the whole key when the key
holds that text itself. -/
def RegistryItem.shownKey (item : RegistryItem) : Text :=
  (splitOnce item.named " :: ".toList).elim item.named Prod.fst

/-- What is read as the key of a denied item is what is before its view and its first ` :: `. -/
theorem deniedKey_text (item : RegistryItem) : deniedKey item.text = item.shownKey := by
  have hbracket : '[' ∉ "view ".toList ++ item.view ++ [']'] := by
    simp only [List.mem_append, not_or]
    exact ⟨⟨by decide, fun h ↦ absurd (item.view_digits _ h) (by decide)⟩, by decide⟩
  have hrest : rfindText ('[' :: ("view ".toList ++ item.view ++ [']'])) " [view ".toList =
      none := by
    have hmark : '[' ∈ " [view ".toList := by decide
    rw [rfindText, rfindText_eq_none_of_mem hmark hbracket]
    rfl
  have htext : item.text =
      item.named ++ ' ' :: '[' :: ("view ".toList ++ item.view ++ [']']) := by
    simp [RegistryItem.text]
  rw [deniedKey, rsplitOnce, htext, rfindText_append (by simp) hrest, Option.map_some,
    Option.elim_some, List.take_left]
  rfl

/-- The whole key is shown when it does not hold ` :: ` and does not end in the beginning of it. -/
theorem shownKey_eq_key {item : RegistryItem} (h : ¬ " :: ".toList <:+: item.key ++ " ::".toList) :
    item.shownKey = item.key := by
  unfold RegistryItem.shownKey RegistryItem.named splitOnce
  cases item.value with
  | none =>
    have hnone : find (item.key ++ []) " :: ".toList = none := by
      rw [← Option.not_isSome_iff_eq_none, List.append_nil]
      exact fun hfound ↦ h ((contains_iff_isInfix.mp hfound).trans
        (List.prefix_append item.key _).isInfix)
    rw [Option.elim_none, hnone, List.append_nil]
    rfl
  | some value =>
    rw [Option.elim_some, ← List.append_assoc, find_append h, Option.map_some, List.append_assoc,
      List.take_left]
    rfl

/-- No registry item among those that were recorded names a key at or below an excluded one, and no
filesystem item a path at or below an excluded directory. -/
def Policy.PrivateDenied (policy : Policy) (recorded : Set RegistryItem)
    (denied : List AccessDenied) : Prop :=
  ∀ entry ∈ denied, (entry.domain = .registry → ∀ item ∈ recorded, item.text = entry.item →
      ¬ policy.CoversKey item.key) ∧
    (entry.domain = .filesystem → ¬ policy.CoversPath entry.item)

/-- A denied registry item of an excluded key shows that it is excluded: the text before its first
` :: ` is excluded as well. -/
def Policy.Legible (policy : Policy) (recorded : Set RegistryItem) (denied : AccessDenied) : Prop :=
  denied.domain = .registry → ∀ item ∈ recorded, item.text = denied.item →
    policy.excludesKey item.key → policy.excludesKey item.shownKey

theorem legible_congr {policy : Policy} {recorded : Set RegistryItem} {left right : AccessDenied}
    (h : left.identity = right.identity) :
    policy.Legible recorded left ↔ policy.Legible recorded right := by
  have hboth := Prod.mk.inj (identity_injective.mp h)
  rw [Policy.Legible, Policy.Legible, hboth.1, hboth.2]

/-- Filtering denied items leaves nothing private when every item is legible, and only then. -/
theorem privateDenied_filter_iff {policy : Policy} {recorded : Set RegistryItem}
    {denied : List AccessDenied} :
    policy.PrivateDenied recorded (denied.filter fun entry ↦ !policy.excludesDenied entry) ↔
      ∀ entry ∈ denied, policy.Legible recorded entry := by
  constructor
  · intro hprivate entry hentry hdomain item hitem htext hkey
    by_contra hvisible
    rw [← deniedKey_text, htext] at hvisible
    have hkept : policy.excludesDenied entry = false := by
      rw [Policy.excludesDenied, hdomain]
      exact Bool.not_eq_true _ ▸ hvisible
    have hmem : entry ∈ denied.filter fun entry ↦ !policy.excludesDenied entry :=
      List.mem_filter.mpr ⟨hentry, by rw [hkept]; rfl⟩
    exact (hprivate entry hmem).1 hdomain item hitem htext (coversKey_iff.mpr hkey)
  · intro hlegible entry hentry
    obtain ⟨hlisted, hkept⟩ := List.mem_filter.mp hentry
    rw [Policy.excludesDenied] at hkept
    constructor
    · intro hdomain item hitem htext hcovers
      rw [hdomain] at hkept
      have hexcluded := hlegible entry hlisted hdomain item hitem htext (coversKey_iff.mp hcovers)
      rw [← deniedKey_text, htext] at hexcluded
      simp [Policy.excludesDeniedItem, hexcluded] at hkept
    · intro hdomain hcovers
      rw [hdomain] at hkept
      simp [coversPath_iff.mp hcovers] at hkept

/-- What the identities of items tell is told alike by two lists with the same identities. -/
theorem forall_mem_congr_identity {holds : AccessDenied → Prop}
    (hholds : ∀ {left right : AccessDenied}, left.identity = right.identity → holds left →
      holds right)
    {left right : List AccessDenied} (h : ∀ identity, identity ∈ left.map AccessDenied.identity ↔
      identity ∈ right.map AccessDenied.identity) :
    (∀ entry ∈ left, holds entry) ↔ ∀ entry ∈ right, holds entry := by
  have honeWay : ∀ {left right : List AccessDenied}, (∀ identity,
      identity ∈ right.map AccessDenied.identity → identity ∈ left.map AccessDenied.identity) →
      (∀ entry ∈ left, holds entry) → ∀ entry ∈ right, holds entry := by
    intro left right hsub hleft entry hentry
    obtain ⟨other, hother, hsame⟩ := List.mem_map.mp (hsub _ (List.mem_map_of_mem hentry))
    exact hholds hsame (hleft other hother)
  exact ⟨honeWay fun identity ↦ (h identity).mpr, honeWay fun identity ↦ (h identity).mp⟩

/-- Whether anything private is denied is told by the identities of the items. -/
theorem privateDenied_congr {policy : Policy} {recorded : Set RegistryItem}
    {left right : List AccessDenied} (h : ∀ identity, identity ∈ left.map AccessDenied.identity ↔
      identity ∈ right.map AccessDenied.identity) :
    policy.PrivateDenied recorded left ↔ policy.PrivateDenied recorded right := by
  apply forall_mem_congr_identity _ h
  intro left right hsame hprivate
  have hboth := Prod.mk.inj (identity_injective.mp hsame)
  rwa [← hboth.1, ← hboth.2]

theorem forall_legible_congr {policy : Policy} {recorded : Set RegistryItem}
    {left right : List AccessDenied} (h : ∀ identity, identity ∈ left.map AccessDenied.identity ↔
      identity ∈ right.map AccessDenied.identity) :
    (∀ entry ∈ left, policy.Legible recorded entry) ↔
      ∀ entry ∈ right, policy.Legible recorded entry :=
  forall_mem_congr_identity (fun hsame ↦ (legible_congr hsame).mp) h

/-- Leaving out neighbours that are equal leaves every entry once at least. -/
theorem mem_destutter_ne {α : Type*} [DecidableEq α] {entries : List α} {entry : α} :
    entry ∈ entries.destutter (· ≠ ·) ↔ entry ∈ entries := by
  have hall : ∀ (rest : List α) (first : α), entry ∈ first :: rest →
      entry ∈ rest.destutter' (· ≠ ·) first := by
    intro rest
    induction rest with
    | nil =>
      intro first h
      simpa using h
    | cons next rest ih =>
      intro first h
      rw [List.destutter'_cons]
      by_cases hne : first ≠ next
      · rw [if_pos hne]
        cases List.mem_cons.mp h with
        | inl hfirst => exact hfirst ▸ List.mem_cons_self
        | inr hrest => exact List.mem_cons_of_mem _ (ih next hrest)
      · rw [if_neg hne]
        rw [not_not] at hne
        apply ih first
        rw [← hne] at h
        simpa using h
  cases entries with
  | nil => simp
  | cons first rest =>
    constructor
    · intro h
      exact (List.destutter_sublist _ _).mem h
    · exact hall rest first

/-- The items of two coverages together are told by the identities of both. -/
theorem mem_map_identity_intersect {left right : Coverage} {identity : ℕ ×ₗ Text} :
    identity ∈ (left.intersect right).accessDenied.map AccessDenied.identity ↔
      identity ∈ (left.accessDenied ++ right.accessDenied).map AccessDenied.identity := by
  rw [map_identity_intersect, mem_destutter_ne, List.mem_insertionSort]

/-! ## A diff without anything private -/

/-- A registry change holds no record at or below an excluded key and no refused value. -/
def Policy.PrivateRegistry (policy : Policy) (change : RegistryChange) : Prop :=
  ∀ record ∈ change.before.toList ++ change.after.toList,
    ¬ policy.CoversKey record.key ∧ ∀ value ∈ record.values, policy.refuses value = false

/-- A file change is not at or below an excluded directory, and nor are its records. -/
def Policy.PrivateFile (policy : Policy) (change : FileChange) : Prop :=
  ¬ policy.CoversPath change.path ∧
    ∀ record ∈ change.before.toList ++ change.after.toList, ¬ policy.CoversPath record.path

def Policy.PrivateKeys (policy : Policy) (keys : Option (List RegistryKeyRef)) : Prop :=
  ∀ listed ∈ keys, ∀ key ∈ listed, ¬ policy.CoversKey key.key

def Policy.PrivateDirectories (policy : Policy) (directories : Option (List Text)) : Prop :=
  ∀ listed ∈ directories, ∀ directory ∈ listed, ¬ policy.CoversPath directory

/-- No list of a diff but the denied items holds what the policy excludes or refuses. -/
structure Diff.PrivateLists (policy : Policy) (diff : Diff) : Prop where
  registry : ∀ change ∈ diff.registry, policy.PrivateRegistry change
  files : ∀ change ∈ diff.files, policy.PrivateFile change
  suppressedFiles : ∀ entry ∈ diff.suppressedFiles, policy.PrivateFile entry.change
  emptiedKeys : policy.PrivateKeys diff.emptiedKeys
  formerlyEmptyKeys : policy.PrivateKeys diff.formerlyEmptyKeys
  emptiedDirectories : policy.PrivateDirectories diff.emptiedDirectories
  formerlyEmptyDirectories : policy.PrivateDirectories diff.formerlyEmptyDirectories

/-- No list of a diff holds what the policy excludes or refuses, where its denied registry items
were written from some keys and values. -/
structure Diff.Private (policy : Policy) (recorded : Set RegistryItem) (diff : Diff) : Prop where
  lists : diff.PrivateLists policy
  denied : policy.PrivateDenied recorded diff.coverage.accessDenied

/-- A registry change's records carry its own key and a file change's records its own path. -/
structure Diff.Coherent (diff : Diff) : Prop where
  registry : ∀ change ∈ diff.registry, ∀ record ∈ change.before.toList ++ change.after.toList,
    toAsciiLowercase record.key = toAsciiLowercase change.key
  files : ∀ change ∈ diff.files ++ diff.suppressedFiles.map SuppressedFile.change,
    ∀ record ∈ change.before.toList ++ change.after.toList,
      toAsciiLowercase record.path = toAsciiLowercase change.path

theorem privateRegistry_of_untouched {policy : Policy} {change : RegistryChange}
    (h : policy.untouched change) : policy.PrivateRegistry change := by
  obtain ⟨hbefore, hafter⟩ := (untouched_iff policy change).mp h
  have hclean : ∀ record, policy.Clean record → ¬ policy.CoversKey record.key ∧
      ∀ value ∈ record.values, policy.refuses value = false := by
    intro record hrecord
    rw [coversKey_iff, hrecord.1, Bool.not_eq_true]
    exact ⟨rfl, hrecord.2⟩
  intro record hrecord
  rw [List.mem_append, Option.mem_toList, Option.mem_toList] at hrecord
  cases hrecord with
  | inl hside => exact hclean record (hbefore record hside)
  | inr hside => exact hclean record (hafter record hside)

theorem privateKeys_keptKeys (policy : Policy) (keys : Option (List RegistryKeyRef)) :
    policy.PrivateKeys (keys.map policy.keptKeys) := by
  intro listed hlisted key hkey
  obtain ⟨found, _, rfl⟩ := Option.map_eq_some_iff.mp hlisted
  rw [coversKey_iff]
  simpa using (List.mem_filter.mp hkey).2

theorem privateDirectories_keptDirectories (policy : Policy) (directories : Option (List Text)) :
    policy.PrivateDirectories (directories.map policy.keptDirectories) := by
  intro listed hlisted directory hdirectory
  obtain ⟨found, _, rfl⟩ := Option.map_eq_some_iff.mp hlisted
  rw [coversPath_iff]
  simpa using (List.mem_filter.mp hdirectory).2

/-- The sides of a file change, and its path, are those of the files it was made of. -/
theorem privateFile_of_fileChange {policy : Policy} {path : Text} {old new : Option FileRecord}
    {change : FileChange} (hmade : fileChange path old new = some change)
    (hold : ∀ file ∈ old, policy.excludesPath file.path = false)
    (hnew : ∀ file ∈ new, policy.excludesPath file.path = false) : policy.PrivateFile change := by
  have hkept : ∀ file : FileRecord, policy.excludesPath file.path = false →
      ¬ policy.CoversPath file.path := by
    intro file hfile
    rw [coversPath_iff, hfile, Bool.not_eq_true]
  cases old with
  | none =>
    cases new with
    | none => cases hmade
    | some new =>
      cases hmade
      refine ⟨hkept new (hnew new rfl), fun record hrecord ↦ ?_⟩
      rw [List.mem_singleton.mp hrecord]
      exact hkept new (hnew new rfl)
  | some old =>
    cases new with
    | none =>
      cases hmade
      refine ⟨hkept old (hold old rfl), fun record hrecord ↦ ?_⟩
      rw [List.mem_singleton.mp hrecord]
      exact hkept old (hold old rfl)
    | some new =>
      unfold fileChange at hmade
      dsimp only at hmade
      split at hmade
      · cases hmade
      · cases hmade
        refine ⟨hkept new (hnew new rfl), fun record hrecord ↦ ?_⟩
        cases List.mem_cons.mp hrecord with
        | inl hbefore => exact hbefore ▸ hkept old (hold old rfl)
        | inr hafter => exact List.mem_singleton.mp hafter ▸ hkept new (hnew new rfl)

theorem privateFile_of_mem_compareFiles {policy : Policy} {before after : List FileRecord}
    {change : FileChange} (h : change ∈ compareFiles policy before after) :
    policy.PrivateFile change := by
  obtain ⟨path, hmade⟩ := (mem_joined_iff grounded_fileChange).mp h
  have hkept : ∀ files : List FileRecord, ∀ file ∈ lastWith fileKey (policy.keptFiles files) path,
      policy.excludesPath file.path = false := by
    intro files file hfile
    simpa using (List.mem_filter.mp (lastWith_eq_some hfile).1).2
  exact privateFile_of_fileChange hmade (hkept before) (hkept after)

theorem privateRegistry_of_mem_compareRegistry {policy : Policy}
    {before after : List RegistryRecord} {change : RegistryChange}
    (h : change ∈ compareRegistry policy before after) : policy.PrivateRegistry change := by
  obtain ⟨identity, hmade⟩ := (mem_joined_iff grounded_registryChange).mp h
  have hclean : ∀ records : List RegistryRecord,
      ∀ record ∈ lastWith registryKey (records.filterMap policy.admitted) identity,
        policy.Clean record := by
    intro records record hrecord
    obtain ⟨source, _, hadmitted⟩ := List.mem_filterMap.mp (lastWith_eq_some hrecord).1
    exact clean_of_admitted hadmitted
  exact privateRegistry_of_untouched
    (untouched_registryChange hmade (hclean before) (hclean after))

/-! ## The three outputs -/

theorem privateLists_diffOf (policy : Policy) (before after : Snapshot) (filter : NoiseFilter) :
    (diffOf policy before after filter).PrivateLists policy := by
  have hfiles : ∀ change ∈ comparedFiles policy (comparedCoverage policy before after) before after,
      policy.PrivateFile change := by
    intro change hchange
    rw [comparedFiles] at hchange
    split at hchange
    · exact privateFile_of_mem_compareFiles hchange
    · cases hchange
  constructor
  · intro change hchange
    have hmem : change ∈ comparedRegistry policy (comparedCoverage policy before after)
        before after :=
      hchange
    rw [comparedRegistry] at hmem
    split at hmem
    · exact privateRegistry_of_mem_compareRegistry hmem
    · cases hmem
  · intro change hchange
    exact hfiles change (List.mem_of_mem_filter hchange)
  · intro entry hentry
    obtain ⟨change, hchange, hrule⟩ := List.mem_filterMap.mp hentry
    obtain ⟨rule, _, rfl⟩ := Option.map_eq_some_iff.mp hrule
    exact hfiles change hchange
  · exact privateKeys_keptKeys policy _
  · exact privateKeys_keptKeys policy _
  · exact privateDirectories_keptDirectories policy _
  · exact privateDirectories_keptDirectories policy _

theorem private_diffOf_iff (policy : Policy) (recorded : Set RegistryItem) (before after : Snapshot)
    (filter : NoiseFilter) :
    (diffOf policy before after filter).Private policy recorded ↔
      ∀ entry ∈ before.coverage.accessDenied ++ after.coverage.accessDenied,
        policy.Legible recorded entry := by
  rw [← forall_legible_congr fun _ ↦ mem_map_identity_intersect, ← privateDenied_filter_iff]
  exact ⟨Diff.Private.denied, fun h ↦ ⟨privateLists_diffOf policy before after filter, h⟩⟩

theorem privateLists_refilter (policy : Policy) {diff : Diff} (hcoherent : diff.Coherent) :
    (refilter diff policy).PrivateLists policy := by
  have hfile : ∀ change ∈ diff.files ++ diff.suppressedFiles.map SuppressedFile.change,
      policy.excludesPath change.path = false → policy.PrivateFile change := by
    intro change hchange hpath
    refine ⟨by rw [coversPath_iff, hpath, Bool.not_eq_true], fun record hrecord ↦ ?_⟩
    rw [coversPath_iff, excludesPath_congr policy (hcoherent.files change hchange record hrecord),
      hpath, Bool.not_eq_true]
  constructor
  · intro change hchange
    obtain ⟨original, _, hmade⟩ := List.mem_filterMap.mp hchange
    exact privateRegistry_of_untouched (untouched_refilterChange hmade)
  · intro change hchange
    obtain ⟨hlisted, hkept⟩ := List.mem_filter.mp hchange
    exact hfile change (List.mem_append_left _ hlisted) (by simpa using hkept)
  · intro entry hentry
    obtain ⟨hlisted, hkept⟩ := List.mem_filter.mp hentry
    exact hfile entry.change (List.mem_append_right _ (List.mem_map_of_mem hlisted))
      (by simpa using hkept)
  · exact privateKeys_keptKeys policy _
  · exact privateKeys_keptKeys policy _
  · exact privateDirectories_keptDirectories policy _
  · exact privateDirectories_keptDirectories policy _

theorem private_refilter_iff (policy : Policy) (recorded : Set RegistryItem) {diff : Diff}
    (hcoherent : diff.Coherent) : (refilter diff policy).Private policy recorded ↔
      ∀ entry ∈ diff.coverage.accessDenied, policy.Legible recorded entry := by
  rw [← privateDenied_filter_iff]
  exact ⟨Diff.Private.denied, fun h ↦ ⟨privateLists_refilter policy hcoherent, h⟩⟩

/-- Sharing lists leaves nothing private when no input holds anything private. -/
theorem privateLists_intersectionOf {policy : Policy} {first : Diff} {rest : List Diff}
    (h : ∀ input ∈ first :: rest, input.PrivateLists policy) :
    (intersectionOf first rest).PrivateLists policy := by
  have hlist : ∀ {α : Type} (identity : α → Text) (lists : Diff → Option (List α))
      (allowed : α → Prop),
      (∀ input ∈ first :: rest, ∀ listed ∈ lists input, ∀ entry ∈ listed, allowed entry) →
      ∀ listed ∈ sharedList ((first :: rest).map lists) identity, ∀ entry ∈ listed,
        allowed entry := by
    intro α identity lists allowed hinputs listed hlisted entry hentry
    obtain ⟨entries, hentries, hmem⟩ := exists_of_mem_sharedList hlisted hentry
    obtain ⟨input, hinput, hfound⟩ := List.mem_map.mp hentries
    exact hinputs input hinput entries hfound entry hmem
  constructor
  · intro change hchange
    obtain ⟨side, hside, hmem⟩ := exists_kept_of_mem hchange
    obtain ⟨input, hinput, rfl⟩ := List.mem_map.mp hside
    exact (h input hinput).registry change hmem
  · intro change hchange
    obtain ⟨side, hside, hmem⟩ := exists_kept_of_mem hchange
    obtain ⟨input, hinput, rfl⟩ := List.mem_map.mp hside
    exact (h input hinput).files change hmem
  · intro entry hentry
    obtain ⟨side, hside, hmem⟩ := exists_suppressed_of_mem hentry
    obtain ⟨input, hinput, rfl⟩ := List.mem_map.mp hside
    exact (h input hinput).suppressedFiles entry hmem
  · exact hlist keyIdentity Diff.emptiedKeys _ fun input hinput ↦ (h input hinput).emptiedKeys
  · exact hlist keyIdentity Diff.formerlyEmptyKeys _ fun input hinput ↦
      (h input hinput).formerlyEmptyKeys
  · exact hlist toAsciiLowercase Diff.emptiedDirectories _ fun input hinput ↦
      (h input hinput).emptiedDirectories
  · exact hlist toAsciiLowercase Diff.formerlyEmptyDirectories _ fun input hinput ↦
      (h input hinput).formerlyEmptyDirectories

/-- The denied items of an intersection are told by the identities of the inputs' items. -/
theorem mem_map_identity_sharedCoverage {first : Diff} {rest : List Diff} {identity : ℕ ×ₗ Text} :
    identity ∈ (sharedCoverage first rest).accessDenied.map AccessDenied.identity ↔
      ∃ input ∈ first :: rest,
        identity ∈ input.coverage.accessDenied.map AccessDenied.identity := by
  have hfold : ∀ coverage : Coverage, identity ∈ (rest.foldl (fun coverage footprint ↦
      coverage.intersect footprint.coverage) coverage).accessDenied.map AccessDenied.identity ↔
        identity ∈ coverage.accessDenied.map AccessDenied.identity ∨ ∃ input ∈ rest,
          identity ∈ input.coverage.accessDenied.map AccessDenied.identity := by
    induction rest with
    | nil => simp
    | cons next rest ih =>
      intro coverage
      rw [List.foldl_cons, ih, mem_map_identity_intersect, List.map_append, List.mem_append,
        or_assoc, List.exists_mem_cons_iff]
  rw [sharedCoverage, hfold, List.exists_mem_cons_iff]

theorem privateDenied_sharedCoverage_iff {policy : Policy} {recorded : Set RegistryItem}
    {first : Diff} {rest : List Diff} :
    policy.PrivateDenied recorded (sharedCoverage first rest).accessDenied ↔
      ∀ input ∈ first :: rest, policy.PrivateDenied recorded input.coverage.accessDenied := by
  have hsame : ∀ identity, identity ∈ (sharedCoverage first rest).accessDenied.map
      AccessDenied.identity ↔ identity ∈ ((first :: rest).flatMap fun input ↦
        input.coverage.accessDenied).map AccessDenied.identity := by
    intro identity
    rw [mem_map_identity_sharedCoverage, List.map_flatMap, List.mem_flatMap]
  rw [privateDenied_congr hsame]
  constructor
  · intro h input hinput entry hentry
    exact h entry (List.mem_flatMap.mpr ⟨input, hinput, hentry⟩)
  · intro h entry hentry
    obtain ⟨input, hinput, hlisted⟩ := List.mem_flatMap.mp hentry
    exact h input hinput entry hlisted

theorem private_intersect_iff {recorded : Set RegistryItem} {footprints : List Diff} {result : Diff}
    (h : intersect footprints = .ok result)
    (hcoherent : ∀ footprint ∈ footprints, footprint.Coherent) :
    result.Private .current recorded ↔ ∀ footprint ∈ footprints,
      ∀ entry ∈ footprint.coverage.accessDenied, Policy.current.Legible recorded entry := by
  obtain ⟨-, first, rest, rfl, rfl⟩ := intersect_eq_ok_iff.mp h
  have hlists : (intersectionOf (refilter first .current)
      (rest.map fun footprint ↦ refilter footprint .current)).PrivateLists .current := by
    apply privateLists_intersectionOf
    rw [← List.map_cons (f := fun footprint ↦ refilter footprint .current), List.forall_mem_map]
    exact fun footprint hfootprint ↦ privateLists_refilter .current (hcoherent footprint hfootprint)
  have hdenied : Policy.current.PrivateDenied recorded (intersectionOf (refilter first .current)
      (rest.map fun footprint ↦ refilter footprint .current)).coverage.accessDenied ↔
      ∀ footprint ∈ first :: rest, ∀ entry ∈ footprint.coverage.accessDenied,
        Policy.current.Legible recorded entry := by
    refine Iff.trans privateDenied_sharedCoverage_iff ?_
    rw [← List.map_cons (f := fun footprint ↦ refilter footprint .current), List.forall_mem_map]
    exact forall₂_congr fun footprint _ ↦ privateDenied_filter_iff
  rw [← hdenied]
  exact ⟨Diff.Private.denied, fun hprivate ↦ ⟨hlists, hprivate⟩⟩

/-- What is compared, filtered or intersected under a policy holds nothing the policy excludes or
refuses, as far as its denied items are legible, whatever keys and values those were written
from. -/
theorem private_iff (recorded : Set RegistryItem) (before after : Snapshot) (filter : NoiseFilter)
    (policy : Policy) (diff : Diff) (footprints : List Diff) :
    (∀ compared, compare before after filter = .ok compared →
      (compared.Private .current recorded ↔
        ∀ entry ∈ before.coverage.accessDenied ++ after.coverage.accessDenied,
          Policy.current.Legible recorded entry)) ∧
    (diff.Coherent → ((refilter diff policy).Private policy recorded ↔
      ∀ entry ∈ diff.coverage.accessDenied, policy.Legible recorded entry)) ∧
    (∀ result, intersect footprints = .ok result →
      (∀ footprint ∈ footprints, footprint.Coherent) →
      (result.Private .current recorded ↔ ∀ footprint ∈ footprints,
        ∀ entry ∈ footprint.coverage.accessDenied, Policy.current.Legible recorded entry)) := by
  refine ⟨?_, private_refilter_iff policy recorded, fun result ↦ private_intersect_iff⟩
  intro compared h
  obtain ⟨-, -, rfl⟩ := compareUnder_eq_ok_iff.mp h
  exact private_diffOf_iff .current recorded before after filter

/-! ## A key that holds the separator -/

theorem keyFragment_long_or : ∀ fragment ∈ excludedKeyFragments,
    8 < fragment.length ∨ fragment = r"\enum\".toList ∨ fragment = r"\ham\".toList := by
  simp only [excludedKeyFragments, List.map_cons, List.map_nil, List.forall_mem_cons]
  repeat' apply And.intro
  case right => exact List.forall_mem_nil _
  all_goals first
    | exact Or.inl (lt_length_toList rfl (by decide))
    | exact Or.inr (Or.inl trivial)
    | exact Or.inr (Or.inr trivial)

/-- A key at or below one that is excluded, under a key whose name holds ` :: `. -/
def keyWithSeparator : RegistryItem := ⟨r"HKLM\a :: b\HAM".toList, none, "64".toList, by decide⟩

def deniedWithSeparator : AccessDenied := ⟨.registry, keyWithSeparator.text, []⟩

theorem excludesKey_keyWithSeparator : Policy.current.excludesKey keyWithSeparator.key = true := by
  rw [Policy.excludesKey, List.any_eq_true]
  refine ⟨r"\ham\".toList, List.mem_map_of_mem (by simp), ?_⟩
  decide +kernel

theorem excludesKey_beforeSeparator :
    Policy.current.excludesKey keyWithSeparator.shownKey = false := by
  have hkey : keyWithSeparator.shownKey = r"HKLM\a".toList := by decide +kernel
  rw [hkey, Policy.excludesKey, List.any_eq_false]
  intro fragment hfragment
  rw [Bool.not_eq_true]
  rcases keyFragment_long_or fragment hfragment with hlong | rfl | rfl
  · apply contains_eq_false_of_length_lt
    exact lt_of_le_of_lt (by decide +kernel) hlong
  · decide +kernel
  · decide +kernel

theorem not_legible_deniedWithSeparator :
    ¬ Policy.current.Legible {keyWithSeparator} deniedWithSeparator := by
  intro h
  have hexcluded := h rfl keyWithSeparator rfl rfl excludesKey_keyWithSeparator
  rw [excludesKey_beforeSeparator] at hexcluded
  cases hexcluded

/-- Two snapshots of nothing, the earlier of which was refused one key. -/
def beforeDenied : Snapshot := { Snapshot.holding [] [] [] with
  coverage := ⟨Domain.all, [], [deniedWithSeparator]⟩ }

/-- A denied item of an excluded key may be kept, when the name of a key above it holds ` :: `. -/
theorem not_private_deniedWithSeparator :
    ¬ ∀ recorded before after filter diff, compare before after filter = .ok diff →
      diff.Private .current recorded := by
  intro h
  have hok : compare beforeDenied (.holding [] [] []) .permissive =
      .ok (diffOf .current beforeDenied (.holding [] [] []) .permissive) :=
    compareUnder_eq_ok_iff.mpr ⟨by decide, rfl, rfl⟩
  have hlegible := (private_diffOf_iff .current {keyWithSeparator} _ _ _).mp (h _ _ _ _ _ hok)
  exact not_legible_deniedWithSeparator (hlegible deniedWithSeparator List.mem_cons_self)

/-- A refused value whose name is the path of a file that the deny-list of keys would exclude. -/
def installerValue : RegistryItem :=
  ⟨r"HKLM\SOFTWARE\Acme".toList, some r"C:\Windows\Installer\serialnumber.dll".toList, "64".toList,
    by decide⟩

/-- A footprint with a key that was added, a file that was added, a key that was emptied, and a
refused value. -/
def installerFootprint (takenUtc : String) : Diff :=
  { Diff.ofServices takenUtc [] [] with
    coverage := ⟨Domain.all, [], [⟨.registry, installerValue.text, "hardware".toList⟩]⟩
    registry := [⟨installerValue.key, "64".toList, .added, none,
      some ⟨installerValue.key, "64".toList, [⟨"Version".toList, "sz".toList, "1".toList, none⟩]⟩,
      []⟩]
    files := [⟨r"C:\Acme\acme.exe".toList, .added, none, false, none,
      some ⟨r"C:\Acme\acme.exe".toList, 1, [], none, none, none⟩, []⟩]
    emptiedKeys := some [⟨r"HKLM\SOFTWARE\Other".toList, "64".toList⟩] }

theorem coherent_installerFootprint (takenUtc : String) :
    (installerFootprint takenUtc).Coherent := by
  constructor
  · intro change hchange record hrecord
    obtain rfl := List.mem_singleton.mp hchange
    obtain rfl := List.mem_singleton.mp hrecord
    rfl
  · intro change hchange record hrecord
    obtain rfl := List.mem_singleton.mp hchange
    obtain rfl := List.mem_singleton.mp hrecord
    rfl

theorem legible_installerValue (policy : Policy) (entry : AccessDenied) :
    policy.Legible {installerValue} entry := by
  intro _ item hitem _ hkey
  obtain rfl : item = installerValue := hitem
  rwa [shownKey_eq_key (by decide)]

theorem private_intersect_pair :
    (refilter (installerFootprint "1") .current).Private .current {installerValue} ∧
      (intersectionOf (refilter (installerFootprint "1") .current)
        [refilter (installerFootprint "2") .current]).Private .current {installerValue} := by
  have h : intersect [installerFootprint "1", installerFootprint "2"] =
      .ok (intersectionOf (refilter (installerFootprint "1") .current)
        [refilter (installerFootprint "2") .current]) :=
    intersect_pair rfl rfl (by decide) rfl
  have hcoherent : ∀ footprint ∈ [installerFootprint "1", installerFootprint "2"],
      footprint.Coherent := by
    simp only [List.forall_mem_cons]
    exact ⟨coherent_installerFootprint "1", coherent_installerFootprint "2",
      fun _ hmem ↦ absurd hmem List.not_mem_nil⟩
  have hprivate := private_iff {installerValue} (.holding [] [] []) (.holding [] [] []) .standard
    .current (installerFootprint "1") [installerFootprint "1", installerFootprint "2"]
  exact ⟨(hprivate.2.1 (coherent_installerFootprint "1")).mpr fun entry _ ↦
      legible_installerValue .current entry,
    (hprivate.2.2 _ h hcoherent).mpr fun _ _ entry _ ↦ legible_installerValue .current entry⟩

end WardSweep.Observe
