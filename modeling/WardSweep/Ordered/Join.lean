import Mathlib

/-!
# Joining two lists by a key

An ordered index built from a list holds, under each key, the entry inserted last, and is walked in
the order of its keys.  A join walks the keys of two such indexes together and makes at most one
result of what they hold under each key.
-/

namespace WardSweep.Ordered

variable {κ α β γ : Type*} [LinearOrder κ]

/-- The keys in increasing order, each once. -/
def sortedKeys (keys : List κ) : List κ := keys.dedup.insertionSort (· ≤ ·)

/-- The entry an index holds under a key after all entries went in, in order. -/
def lastWith (key : α → κ) (entries : List α) (k : κ) : Option α :=
  entries.reverse.find? fun entry ↦ key entry = k

/-- What is made of the two entries under each key of either list, in the order of the keys. -/
def joined (key : α → κ) (combine : κ → Option α → Option α → Option β) (before after : List α) :
    List β :=
  (sortedKeys (before.map key ++ after.map key)).filterMap fun k ↦
    combine k (lastWith key before k) (lastWith key after k)

/-- The entries an index holds after all entries went in, in order, where a key that is taken keeps
its entry. -/
def firstOfEach (key : α → κ) (entries : List α) : List α :=
  (sortedKeys (entries.map key)).filterMap fun k ↦ entries.find? fun entry ↦ key entry = k

/-! ## Sorted keys -/

@[simp] theorem mem_sortedKeys {keys : List κ} {k : κ} : k ∈ sortedKeys keys ↔ k ∈ keys := by
  rw [sortedKeys, List.mem_insertionSort, List.mem_dedup]

theorem nodup_sortedKeys (keys : List κ) : (sortedKeys keys).Nodup :=
  (List.perm_insertionSort _ _).nodup_iff.mpr (List.nodup_dedup keys)

theorem pairwise_sortedKeys (keys : List κ) : (sortedKeys keys).Pairwise (· ≤ ·) :=
  List.pairwise_insertionSort _ _

/-- Two lists in order and without repetition that hold the same keys are one list. -/
theorem eq_of_pairwise_of_nodup {left right : List κ} (hleft : left.Pairwise (· ≤ ·))
    (hright : right.Pairwise (· ≤ ·)) (hnodupLeft : left.Nodup) (hnodupRight : right.Nodup)
    (h : ∀ k, k ∈ left ↔ k ∈ right) : left = right := by
  have hperm : left.Perm right := (List.perm_ext_iff_of_nodup hnodupLeft hnodupRight).mpr h
  exact hperm.eq_of_pairwise' hleft hright

/-- The walk depends on which keys there are, not on how they are listed. -/
theorem sortedKeys_congr {left right : List κ} (h : ∀ k, k ∈ left ↔ k ∈ right) :
    sortedKeys left = sortedKeys right := by
  apply eq_of_pairwise_of_nodup (pairwise_sortedKeys left) (pairwise_sortedKeys right)
    (nodup_sortedKeys left) (nodup_sortedKeys right)
  intro k
  rw [mem_sortedKeys, mem_sortedKeys, h]

/-- A condition on the keys picks the same keys before they are sorted and after. -/
theorem sortedKeys_filter (keeps : κ → Bool) (keys : List κ) :
    (sortedKeys keys).filter keeps = sortedKeys (keys.filter keeps) := by
  apply eq_of_pairwise_of_nodup ((pairwise_sortedKeys keys).filter _) (pairwise_sortedKeys _)
    ((nodup_sortedKeys keys).filter _) (nodup_sortedKeys _)
  intro k
  rw [List.mem_filter, mem_sortedKeys, mem_sortedKeys, List.mem_filter]

theorem sortedKeys_append_comm (left right : List κ) :
    sortedKeys (left ++ right) = sortedKeys (right ++ left) := by
  apply sortedKeys_congr
  intro k
  rw [List.mem_append, List.mem_append, or_comm]

/-! ## The first entry under each key -/

theorem mem_of_mem_firstOfEach {key : α → κ} {entries : List α} {entry : α}
    (h : entry ∈ firstOfEach key entries) : entry ∈ entries := by
  obtain ⟨k, -, hfound⟩ := List.mem_filterMap.mp h
  exact List.mem_of_find?_eq_some hfound

/-- Every entry has a representative, under the same key. -/
theorem exists_mem_firstOfEach {key : α → κ} {entries : List α} {entry : α} (h : entry ∈ entries) :
    ∃ kept ∈ firstOfEach key entries, key kept = key entry := by
  have hsome : (entries.find? fun other ↦ key other = key entry).isSome := by
    rw [List.find?_isSome]
    exact ⟨entry, h, by simp⟩
  obtain ⟨kept, hkept⟩ := Option.isSome_iff_exists.mp hsome
  have hkey : key kept = key entry := by simpa using List.find?_some hkept
  exact ⟨kept, List.mem_filterMap.mpr
    ⟨key entry, mem_sortedKeys.mpr (List.mem_map_of_mem h), hkept⟩, hkey⟩

/-! ## The entry under a key -/

@[simp] theorem lastWith_nil (key : α → κ) (k : κ) : lastWith key [] k = none := rfl

theorem lastWith_cons (key : α → κ) (entry : α) (entries : List α) (k : κ) :
    lastWith key (entry :: entries) k =
      (lastWith key entries k).or (if key entry = k then some entry else none) := by
  rw [lastWith, List.reverse_cons, List.find?_append, lastWith]
  by_cases h : key entry = k <;> simp [h]

theorem lastWith_eq_some {key : α → κ} {entries : List α} {k : κ} {entry : α}
    (h : lastWith key entries k = some entry) : entry ∈ entries ∧ key entry = k := by
  constructor
  · exact List.mem_reverse.mp (List.mem_of_find?_eq_some h)
  · simpa using List.find?_some h

theorem lastWith_eq_none_iff {key : α → κ} {entries : List α} {k : κ} :
    lastWith key entries k = none ↔ ∀ entry ∈ entries, key entry ≠ k := by
  simp [lastWith]

theorem isSome_lastWith_iff {key : α → κ} {entries : List α} {k : κ} :
    (lastWith key entries k).isSome ↔ k ∈ entries.map key := by
  rw [Option.isSome_iff_ne_none, Ne, lastWith_eq_none_iff]
  simp

/-- Where no two entries share a key, the index loses none. -/
theorem lastWith_key {key : α → κ} {entries : List α}
    (hunique : (entries.map key).Nodup) {entry : α} (hmem : entry ∈ entries) :
    lastWith key entries (key entry) = some entry := by
  have hsome : (lastWith key entries (key entry)).isSome :=
    isSome_lastWith_iff.mpr (List.mem_map_of_mem hmem)
  obtain ⟨found, hfound⟩ := Option.isSome_iff_exists.mp hsome
  have hlisted := lastWith_eq_some hfound
  rw [hfound, List.inj_on_of_nodup_map hunique hlisted.1 hmem hlisted.2]

theorem lastWith_eq_some_iff {key : α → κ} {entries : List α}
    (hunique : (entries.map key).Nodup) {k : κ} {entry : α} :
    lastWith key entries k = some entry ↔ entry ∈ entries ∧ key entry = k := by
  constructor
  · exact lastWith_eq_some
  · rintro ⟨hmem, rfl⟩
    exact lastWith_key hunique hmem

theorem lastWith_eq_find? {key : α → κ} {entries : List α} (hunique : (entries.map key).Nodup)
    {k : κ} {isKey : α → Bool} (hisKey : ∀ entry, isKey entry ↔ key entry = k) :
    lastWith key entries k = entries.find? isKey := by
  cases hfound : entries.find? isKey with
  | none =>
    rw [lastWith_eq_none_iff]
    intro entry hentry hkey
    exact List.find?_eq_none.mp hfound entry hentry ((hisKey entry).mpr hkey)
  | some entry =>
    rw [lastWith_eq_some_iff hunique]
    exact ⟨List.mem_of_find?_eq_some hfound, (hisKey entry).mp (List.find?_some hfound)⟩

/-- Entries may be changed or dropped before they are indexed, unless dropping the last of a key
uncovers another. -/
theorem lastWith_filterMap_of_dropped {key : α → κ} {key' : β → κ} {change : α → Option β}
    (hkey : ∀ entry result, change entry = some result → key' result = key entry)
    {entries : List α} {k : κ}
    (hdropped : ∀ entry, lastWith key entries k = some entry → change entry = none →
      ∀ other ∈ entries, key other = k → change other = none) :
    lastWith key' (entries.filterMap change) k = (lastWith key entries k).bind change := by
  induction entries with
  | nil => rfl
  | cons entry entries ih =>
    rw [List.filterMap_cons, lastWith_cons]
    cases hlast : lastWith key entries k with
    | some last =>
      have hwhole : lastWith key (entry :: entries) k = some last := by
        rw [lastWith_cons, hlast, Option.some_or]
      have hrest := ih fun found hfound hnone other hother ↦
        hdropped found (by rw [hwhole, ← hlast, hfound]) hnone other (List.mem_cons_of_mem _ hother)
      rw [hlast, Option.bind_some] at hrest
      rw [Option.some_or, Option.bind_some]
      cases hchange : change entry with
      | none => exact hrest
      | some result =>
        have hother : ¬ (change last = none ∧ key entry = k) := by
          intro hnone
          have hgone := hdropped last hwhole hnone.1 entry List.mem_cons_self hnone.2
          rw [hchange] at hgone
          cases hgone
        rw [lastWith_cons, hrest, hkey _ _ hchange]
        cases hmade : change last with
        | none => rw [Option.none_or, if_neg fun h ↦ hother ⟨hmade, h⟩]
        | some made => rfl
    | none =>
      have hrest := ih fun found hfound ↦ by
        rw [hlast] at hfound
        cases hfound
      rw [hlast, Option.bind_none] at hrest
      rw [Option.none_or]
      cases hchange : change entry with
      | none =>
        rw [hrest]
        by_cases hk : key entry = k <;> simp [hk, hchange]
      | some result =>
        rw [lastWith_cons, hrest, hkey _ _ hchange]
        by_cases hk : key entry = k <;> simp [hk, hchange]

/-- Where no two entries share a key, entries may be changed or dropped before they are indexed. -/
theorem lastWith_filterMap {key : α → κ} {key' : β → κ} {change : α → Option β}
    (hkey : ∀ entry result, change entry = some result → key' result = key entry)
    {entries : List α} (hunique : (entries.map key).Nodup) (k : κ) :
    lastWith key' (entries.filterMap change) k = (lastWith key entries k).bind change := by
  apply lastWith_filterMap_of_dropped hkey
  intro entry hentry hnone other hother hk
  rw [(lastWith_eq_some_iff hunique).mpr ⟨hother, hk⟩] at hentry
  cases hentry
  exact hnone

/-- A condition on the key alone keeps or drops everything under it. -/
theorem lastWith_filter (key : α → κ) (keeps : κ → Bool) (entries : List α) (k : κ) :
    lastWith key (entries.filter fun entry ↦ keeps (key entry)) k =
      if keeps k then lastWith key entries k else none := by
  induction entries with
  | nil => simp
  | cons entry entries ih =>
    by_cases hkeeps : keeps (key entry) <;> by_cases hkey : key entry = k
    · subst hkey
      simp [lastWith_cons, hkeeps, ih]
    · simp [lastWith_cons, hkeeps, hkey, ih]
    · subst hkey
      simp [hkeeps, ih]
    · simp [lastWith_cons, hkeeps, hkey, ih]

/-- Entries made of keys, at most one of each, are found under the keys they were made of. -/
theorem lastWith_filterMap_keys {key : α → κ} {made : κ → Option α}
    (hmade : ∀ k entry, made k = some entry → key entry = k) (keys : List κ) (k : κ) :
    lastWith key (keys.filterMap made) k = if k ∈ keys then made k else none := by
  induction keys with
  | nil => rfl
  | cons first keys ih =>
    rw [List.filterMap_cons]
    by_cases hk : k = first
    · subst hk
      rw [if_pos List.mem_cons_self]
      cases hentry : made k with
      | none =>
        rw [hentry, ite_self] at ih
        exact ih
      | some entry =>
        rw [lastWith_cons, if_pos (hmade k entry hentry), ih, hentry]
        split <;> rfl
    · have hmem : k ∈ first :: keys ↔ k ∈ keys := by simp [hk]
      rw [if_congr hmem rfl rfl]
      cases hentry : made first with
      | none => exact ih
      | some entry =>
        have hother : key entry ≠ k := by
          rw [hmade first entry hentry]
          exact Ne.symm hk
        rw [lastWith_cons, if_neg hother, Option.or_none, ih]

/-! ## Moving aside -/

/-- Setting aside what a rule names, each with the rule, loses nothing and doubles nothing. -/
theorem perm_filter_append_filterMap {γ : Type*} (rule : α → Option β) {aside : β → α → γ}
    {entryOf : γ → α} (haside : ∀ named entry, entryOf (aside named entry) = entry)
    (entries : List α) :
    (entries.filter (fun entry ↦ (rule entry).isNone) ++
      (entries.filterMap fun entry ↦ (rule entry).map fun named ↦ aside named entry).map
        entryOf).Perm entries := by
  induction entries with
  | nil => exact List.Perm.nil
  | cons entry entries ih =>
    cases hrule : rule entry with
    | none => simpa [hrule] using ih
    | some named =>
      simp only [List.filter_cons, hrule, Option.isNone_some, Bool.false_eq_true, if_false,
        List.filterMap_cons, Option.map_some, List.map_cons, haside]
      exact List.perm_middle.trans (ih.cons entry)

/-! ## The join -/

section Joined

variable {key : α → κ} {combine : κ → Option α → Option α → Option β} {before after : List α}

/-- Nothing is made of a key neither list holds. -/
def Grounded (combine : κ → Option α → Option α → Option β) : Prop :=
  ∀ k, combine k none none = none

theorem mem_joined_iff (hground : Grounded combine) {result : β} :
    result ∈ joined key combine before after ↔
      ∃ k, combine k (lastWith key before k) (lastWith key after k) = some result := by
  rw [joined, List.mem_filterMap]
  constructor
  · rintro ⟨k, _, h⟩
    exact ⟨k, h⟩
  · rintro ⟨k, h⟩
    refine ⟨k, ?_, h⟩
    rw [mem_sortedKeys, List.mem_append, ← isSome_lastWith_iff, ← isSome_lastWith_iff]
    by_contra hnone
    push Not at hnone
    simp only [Option.not_isSome_iff_eq_none] at hnone
    rw [hnone.1, hnone.2, hground] at h
    cases h

theorem map_joined (change : β → γ) :
    (joined key combine before after).map change =
      joined key (fun k old new ↦ (combine k old new).map change) before after := by
  rw [joined, joined, List.map_filterMap]

/-- Joining the other way round turns every result the other way round. -/
theorem joined_swap {combine' : κ → Option α → Option α → Option γ} {turn : β → γ}
    (h : ∀ k, combine' k (lastWith key after k) (lastWith key before k) =
      (combine k (lastWith key before k) (lastWith key after k)).map turn) :
    joined key combine' after before = (joined key combine before after).map turn := by
  rw [joined, joined, sortedKeys_append_comm, List.map_filterMap]
  congr 1
  funext k
  exact h k

/-- The results that belong to one key are what is made of that key. -/
theorem joined_filter_eq (hground : Grounded combine) {ident : β → κ}
    (hident : ∀ k result, combine k (lastWith key before k) (lastWith key after k) = some result →
      ident result = k) {k : κ} {isKey : β → Bool}
    (hisKey : ∀ result, isKey result ↔ ident result = k) :
    (joined key combine before after).filter isKey =
      (combine k (lastWith key before k) (lastWith key after k)).toList := by
  have hsingle : ∀ keys : List κ, keys.Nodup →
      (keys.filterMap fun k' ↦
        combine k' (lastWith key before k') (lastWith key after k')).filter isKey =
        if k ∈ keys then
          (combine k (lastWith key before k) (lastWith key after k)).toList else [] := by
    intro keys
    induction keys with
    | nil => simp
    | cons first rest ih =>
      intro hnodup
      have hrest := ih (List.nodup_cons.mp hnodup).2
      rw [List.filterMap_cons]
      by_cases hk : k = first
      · subst hk
        have hnot : k ∉ rest := (List.nodup_cons.mp hnodup).1
        rw [if_neg hnot] at hrest
        cases hmade : combine k (lastWith key before k) (lastWith key after k) with
        | none => simp [hrest]
        | some result =>
          have hown : isKey result := (hisKey result).mpr (hident _ _ hmade)
          simp [hrest, hown]
      · have hmem : k ∈ first :: rest ↔ k ∈ rest := by simp [hk]
        rw [if_congr hmem rfl rfl]
        cases hmade : combine first (lastWith key before first) (lastWith key after first) with
        | none => simp [hrest]
        | some result =>
          have hother : isKey result = false := by
            rw [Bool.eq_false_iff]
            intro h
            exact hk (((hisKey result).mp h).symm.trans (hident _ _ hmade))
          simp [hrest, hother]
  rw [joined, hsingle _ (nodup_sortedKeys _)]
  by_cases hmem : k ∈ sortedKeys (before.map key ++ after.map key)
  · rw [if_pos hmem]
  · rw [if_neg hmem]
    rw [mem_sortedKeys, List.mem_append, ← isSome_lastWith_iff, ← isSome_lastWith_iff] at hmem
    push Not at hmem
    simp only [Option.not_isSome_iff_eq_none] at hmem
    rw [hmem.1, hmem.2, hground k]
    rfl

/-- The join may walk any list of keys that has all keys something is made of. -/
theorem joined_eq_filterMap_sortedKeys {keys : List κ}
    (hkeys : ∀ k result, combine k (lastWith key before k) (lastWith key after k) = some result →
      k ∈ keys)
    (hground : Grounded combine) :
    joined key combine before after = (sortedKeys keys).filterMap fun k ↦
      combine k (lastWith key before k) (lastWith key after k) := by
  have hmade : ∀ walked : List κ, walked.filterMap (fun k ↦
      combine k (lastWith key before k) (lastWith key after k)) =
      (walked.filter fun k ↦
        (combine k (lastWith key before k) (lastWith key after k)).isSome).filterMap fun k ↦
          combine k (lastWith key before k) (lastWith key after k) := by
    intro walked
    rw [List.filterMap_filter]
    apply List.filterMap_congr
    intro k _
    cases combine k (lastWith key before k) (lastWith key after k) <;> rfl
  rw [joined, hmade, hmade (sortedKeys keys), sortedKeys_filter, sortedKeys_filter]
  congr 1
  apply sortedKeys_congr
  intro k
  rw [List.mem_filter, List.mem_filter]
  apply and_congr_left
  intro hsome
  obtain ⟨result, hresult⟩ := Option.isSome_iff_exists.mp hsome
  refine ⟨fun _ ↦ hkeys k result hresult, fun _ ↦ ?_⟩
  rw [List.mem_append, ← isSome_lastWith_iff, ← isSome_lastWith_iff]
  by_contra hnone
  push Not at hnone
  simp only [Option.not_isSome_iff_eq_none] at hnone
  rw [hnone.1, hnone.2, hground] at hresult
  cases hresult

/-- Making something of the results is making it in the join. -/
theorem filterMap_joined (next : β → Option γ) :
    (joined key combine before after).filterMap next =
      joined key (fun k old new ↦ (combine k old new).bind next) before after := by
  rw [joined, joined, List.filterMap_filterMap]

/-- Entries may be changed or dropped before the join or in it, where that commutes with the
indexes. -/
theorem joined_filterMap {change : α → Option α}
    (hbefore : ∀ k, lastWith key (before.filterMap change) k =
      (lastWith key before k).bind change)
    (hafter : ∀ k, lastWith key (after.filterMap change) k = (lastWith key after k).bind change)
    (hground : Grounded combine) :
    joined key combine (before.filterMap change) (after.filterMap change) =
      joined key (fun k old new ↦ combine k (old.bind change) (new.bind change)) before after := by
  have hkeys : ∀ k result, combine k (lastWith key (before.filterMap change) k)
      (lastWith key (after.filterMap change) k) = some result →
      k ∈ before.map key ++ after.map key := by
    intro k result hresult
    rw [hbefore, hafter] at hresult
    rw [List.mem_append, ← isSome_lastWith_iff, ← isSome_lastWith_iff]
    by_contra hnone
    push Not at hnone
    simp only [Option.not_isSome_iff_eq_none] at hnone
    rw [hnone.1, hnone.2, Option.bind_none, hground] at hresult
    cases hresult
  rw [joined_eq_filterMap_sortedKeys hkeys hground, joined]
  simp only [hbefore, hafter]

/-- Two joins of the same lists agree when they make the same of every key. -/
theorem joined_eq_iff {combine' : κ → Option α → Option α → Option β}
    (hground : Grounded combine) (hground' : Grounded combine') {ident : β → κ}
    (hident : ∀ k result, combine k (lastWith key before k) (lastWith key after k) = some result →
      ident result = k)
    (hident' : ∀ k result, combine' k (lastWith key before k) (lastWith key after k) =
      some result → ident result = k) :
    joined key combine before after = joined key combine' before after ↔
      ∀ k, combine k (lastWith key before k) (lastWith key after k) =
        combine' k (lastWith key before k) (lastWith key after k) := by
  constructor
  · intro h k
    have hown : ∀ result, decide (ident result = k) ↔ ident result = k :=
      fun _ ↦ decide_eq_true_iff
    have hlists := congrArg (List.filter fun result ↦ decide (ident result = k)) h
    rw [joined_filter_eq hground hident hown, joined_filter_eq hground' hident' hown] at hlists
    cases hfirst : combine k (lastWith key before k) (lastWith key after k) <;>
      cases hsecond : combine' k (lastWith key before k) (lastWith key after k) <;>
      simp_all
  · intro h
    rw [joined, joined]
    simp only [h]

/-- Leaving out the keys a condition refuses, before the join or after it. -/
theorem joined_filter (keeps : κ → Bool) (hground : Grounded combine) {ident : β → κ}
    (hident : ∀ k result, combine k (lastWith key before k) (lastWith key after k) = some result →
      ident result = k) :
    joined key combine (before.filter fun entry ↦ keeps (key entry))
        (after.filter fun entry ↦ keeps (key entry)) =
      (joined key combine before after).filter fun result ↦ keeps (ident result) := by
  have hkeys : ∀ k result, combine k
      (lastWith key (before.filter fun entry ↦ keeps (key entry)) k)
      (lastWith key (after.filter fun entry ↦ keeps (key entry)) k) = some result →
      k ∈ before.map key ++ after.map key := by
    intro k result hresult
    rw [lastWith_filter, lastWith_filter] at hresult
    rw [List.mem_append, ← isSome_lastWith_iff, ← isSome_lastWith_iff]
    by_contra hnone
    push Not at hnone
    simp only [Option.not_isSome_iff_eq_none] at hnone
    rw [hnone.1, hnone.2, ite_self, hground] at hresult
    cases hresult
  rw [joined_eq_filterMap_sortedKeys hkeys hground, joined, List.filter_filterMap]
  apply List.filterMap_congr
  intro k _
  rw [lastWith_filter, lastWith_filter]
  by_cases hk : keeps k
  · simp only [hk, if_true]
    cases hmade : combine k (lastWith key before k) (lastWith key after k) with
    | none => rfl
    | some result => simp [Option.filter, hident _ _ hmade, hk]
  · simp only [hk, Bool.false_eq_true, if_false, hground k]
    cases hmade : combine k (lastWith key before k) (lastWith key after k) with
    | none => rfl
    | some result => simp [Option.filter, hident _ _ hmade, hk]

end Joined

end WardSweep.Ordered
