import WardSweep.Redact.Passes

/-!
# What the rules leave

A text is the pieces between its separators.  The rule for profiles replaces whole pieces, the rule
for SIDs acts inside each piece, the rule for hosts replaces the third piece of a text.  So a text
that the rules have been over names no profile, and no rule puts one back.
-/

namespace WardSweep.Redact

open Utf8 Str

/-! ## Passing over -/

theorem profilesFrom_drop (passing : ℕ) (text : Text) :
    profilesFrom passing text = profilesFrom 0 (text.drop passing) := by
  induction text generalizing passing with
  | nil => cases passing <;> rfl
  | cons c rest ih =>
    cases passing with
    | zero => rfl
    | succ passing => exact ih passing

theorem sidsFrom_drop (domain placeholder : Text) (passing : ℕ) (text : Text) :
    sidsFrom domain placeholder passing text =
      sidsFrom domain placeholder 0 (text.drop passing) := by
  induction text generalizing passing with
  | nil => cases passing <;> rfl
  | cons c rest ih =>
    cases passing with
    | zero => rfl
    | succ passing => exact ih passing

/-- A path to a profile begins with a separator. -/
theorem usersSegment_isPrefixOf_iff (c : Char) (rest : Text) :
    usersSegment.isPrefixOf (toAsciiLowercase (c :: rest)) = true ↔
      c = '\\' ∧ "users\\".toList <+: toAsciiLowercase rest := by
  have husers : usersSegment = '\\' :: "users\\".toList := rfl
  rw [husers, toAsciiLowercase_cons, List.isPrefixOf_iff_prefix, List.cons_prefix_cons, eq_comm,
    toLower_eq_iff (by decide)]

/-- What holds no separator is passed over. -/
theorem profilesFrom_append {text : Text} (h : '\\' ∉ text) (rest : Text) :
    profilesFrom 0 (text ++ rest) =
      (text ++ (profilesFrom 0 rest).1, (profilesFrom 0 rest).2) := by
  induction text with
  | nil => rfl
  | cons c text ih =>
    rw [List.mem_cons, not_or] at h
    have hno : ¬ usersSegment.isPrefixOf (toAsciiLowercase (c :: (text ++ rest))) = true := by
      rw [usersSegment_isPrefixOf_iff]
      exact fun hmatch ↦ h.1 hmatch.1.symm
    rw [List.cons_append, profilesFrom, if_neg hno, ih h.2]
    rfl

/-! ## Profiles -/

/-- The segments of a path after one, with the names below `users` replaced. -/
def replacedBelow : Text → List Text → List Text
  | _, [] => []
  | previous, segment :: segments =>
    let kept :=
      if toAsciiLowercase previous = "users".toList ∧ keepsProfile segment = false then
        userPlaceholder
      else segment
    kept :: replacedBelow kept segments

/-- Every name below `users` among the segments after one is kept. -/
def KeepsBelow : Text → List Text → Prop
  | _, [] => True
  | previous, segment :: segments =>
    (toAsciiLowercase previous = "users".toList → keepsProfile segment = true) ∧
      KeepsBelow segment segments

/-- A text names no profile that is replaced. -/
def NamesNoProfile (text : Text) : Prop := KeepsBelow [] (text.splitOn '\\').tail

theorem keepsBelow_replacedBelow (previous : Text) (segments : List Text) :
    KeepsBelow previous (replacedBelow previous segments) := by
  induction segments generalizing previous with
  | nil => trivial
  | cons segment segments ih =>
    refine ⟨fun husers ↦ ?_, ih _⟩
    split
    · decide
    · next hkept =>
      rw [not_and, Bool.not_eq_false] at hkept
      exact hkept husers

/-- Which segments are replaced depends on the one before only as far as it is `users`. -/
theorem replacedBelow_of_ne {previous previous' : Text}
    (h : toAsciiLowercase previous ≠ "users".toList)
    (h' : toAsciiLowercase previous' ≠ "users".toList)
    (segments : List Text) :
    replacedBelow previous segments = replacedBelow previous' segments := by
  cases segments with
  | nil => rfl
  | cons segment segments =>
    rw [replacedBelow, replacedBelow, if_neg fun hand ↦ h hand.1, if_neg fun hand ↦ h' hand.1]

/-- A name that is kept is not `users`. -/
theorem ne_users_of_keepsProfile {name : Text} (h : keepsProfile name = true) :
    toAsciiLowercase name ≠ "users".toList := by
  intro husers
  simp only [keepsProfile, isSharedProfile, Bool.or_eq_true, eqIgnoreAsciiCase_eq_true_iff, husers,
    beq_iff_eq, List.isEmpty_iff] at h
  rcases h with (h | rfl) | rfl
  · revert h
    decide
  · revert husers
    decide
  · revert husers
    decide

/-- A name that is kept is made of the letters of a few names and of a placeholder. -/
theorem not_mem_of_keepsProfile {name : Text} (h : keepsProfile name = true) {c : Char}
    (hc : isAsciiAlphabetic c.toNat = false)
    (hnone : c ∉ "public default all users default user %USER%".toList) : c ∉ name := by
  have hlower (other : Text) (hother : c ∉ other) (hsame : eqIgnoreAsciiCase name other = true) :
      c ∉ name := by
    rw [← mem_toAsciiLowercase_iff hc, eqIgnoreAsciiCase_eq_true_iff.mp hsame,
      mem_toAsciiLowercase_iff hc]
    exact hother
  have hsub (part : Text) (hpart : part ⊆ "public default all users default user %USER%".toList) :
      c ∉ part := fun hmem ↦ hnone (hpart hmem)
  simp only [keepsProfile, isSharedProfile, Bool.or_eq_true, beq_iff_eq, List.isEmpty_iff] at h
  rcases h with ((((h | h) | h) | h) | rfl) | rfl
  · exact hlower _ (hsub _ (by decide)) h
  · exact hlower _ (hsub _ (by decide)) h
  · exact hlower _ (hsub _ (by decide)) h
  · exact hlower _ (hsub _ (by decide)) h
  · exact hsub _ (by decide)
  · exact List.not_mem_nil

theorem not_mem_replacedBelow {segments : List Text} (h : ∀ segment ∈ segments, '\\' ∉ segment)
    (previous : Text) : ∀ segment ∈ replacedBelow previous segments, '\\' ∉ segment := by
  induction segments generalizing previous with
  | nil => exact fun segment hsegment ↦ absurd hsegment List.not_mem_nil
  | cons first segments ih =>
    intro segment hsegment
    rcases List.mem_cons.mp hsegment with rfl | hmem
    · split
      · decide
      · exact h first List.mem_cons_self
    · exact ih (fun other hother ↦ h other (List.mem_cons_of_mem first hother)) _ segment hmem

theorem segmentName_append {name : Text} (h : '\\' ∉ name) (segments : List Text) :
    segmentName (name ++ joinSegments segments) = name := by
  have hall : ∀ c ∈ name, (c != '\\') = true := by
    intro c hc
    rw [bne_iff_ne]
    rintro rfl
    exact h hc
  rw [segmentName, List.takeWhile_append_of_pos hall]
  cases segments with
  | nil => simp
  | cons segment segments => simp

/-- Between separators, `users` and a name below it. -/
theorem users_prefix_iff {segment : Text} (h : '\\' ∉ segment) (segments : List Text) :
    "users\\".toList <+: toAsciiLowercase (segment ++ joinSegments segments) ↔
      toAsciiLowercase segment = "users".toList ∧ segments ≠ [] := by
  have hlower : '\\' ∉ toAsciiLowercase segment := (mem_toAsciiLowercase_iff (by decide)).not.mpr h
  have husers : "users\\".toList = "users".toList ++ ['\\'] := rfl
  rw [toAsciiLowercase_append, husers]
  constructor
  · rintro ⟨tail, htail⟩
    rw [List.append_assoc, List.singleton_append] at htail
    cases segments with
    | nil =>
      rw [joinSegments_nil, toAsciiLowercase_nil, List.append_nil] at htail
      exact absurd (htail ▸ List.mem_append_right _ List.mem_cons_self) hlower
    | cons next segments =>
      rw [joinSegments_cons, toAsciiLowercase_cons, (toLower_eq_iff (by decide)).mpr rfl] at htail
      refine ⟨?_, List.cons_ne_nil _ _⟩
      have hcut := congrArg (List.takeWhile (· != '\\')) htail
      have hall : ∀ c ∈ toAsciiLowercase segment, (c != '\\') = true := by
        intro c hc
        rw [bne_iff_ne]
        rintro rfl
        exact hlower hc
      rw [List.takeWhile_append_of_pos (by decide), List.takeWhile_append_of_pos hall] at hcut
      simpa using hcut.symm
  · rintro ⟨hsegment, hne⟩
    obtain ⟨next, segments, rfl⟩ := List.exists_cons_of_ne_nil hne
    rw [hsegment]
    refine ⟨toAsciiLowercase (next ++ joinSegments segments), ?_⟩
    rw [joinSegments_cons, toAsciiLowercase_cons, (toLower_eq_iff (by decide)).mpr rfl,
      List.append_assoc, List.singleton_append]

/-- The rule for profiles replaces the names below `users`, segment by segment. -/
theorem profilesFrom_joinSegments (segments : List Text)
    (h : ∀ segment ∈ segments, '\\' ∉ segment) :
    (profilesFrom 0 (joinSegments segments)).1 = joinSegments (replacedBelow [] segments) := by
  -- A match takes two segments at once, so the induction is on the number of segments.
  induction hcount : segments.length using Nat.strong_induction_on generalizing segments with
  | _ count ih =>
    cases segments with
    | nil => rfl
    | cons segment rest =>
      have hsegment := h segment List.mem_cons_self
      have hrest := fun other hother ↦ h other (List.mem_cons_of_mem segment hother)
      have hnil : toAsciiLowercase [] ≠ "users".toList := by decide
      have hkeep : replacedBelow [] (segment :: rest) = segment :: replacedBelow segment rest := by
        rw [replacedBelow, if_neg fun hand ↦ hnil hand.1]
      rw [joinSegments_cons, profilesFrom]
      by_cases husers : toAsciiLowercase segment = "users".toList ∧ rest ≠ []
      · rw [if_pos ((usersSegment_isPrefixOf_iff _ _).mpr
          ⟨rfl, (users_prefix_iff hsegment rest).mpr husers⟩)]
        obtain ⟨name, rest, rfl⟩ := List.exists_cons_of_ne_nil husers.2
        have hname := hrest name List.mem_cons_self
        have hlength : segment.length = 5 := by
          have := congrArg List.length husers.1
          rwa [length_toAsciiLowercase] at this
        have hseven : ('\\' :: segment ++ ['\\']).length = usersSegment.length := by
          rw [List.length_append, List.length_cons, hlength]
          rfl
        have hsplit : '\\' :: (segment ++ joinSegments (name :: rest)) =
            ('\\' :: segment ++ ['\\']) ++ (name ++ joinSegments rest) := by simp
        have hsplit' : segment ++ joinSegments (name :: rest) =
            (segment ++ ['\\'] ++ name) ++ joinSegments rest := by simp
        have hafter : (segment ++ ['\\'] ++ name).length =
            usersSegment.length - 1 + name.length := by
          rw [List.length_append, List.length_append, hlength]
          rfl
        have hdrop : (segment ++ joinSegments (name :: rest)).drop
            (usersSegment.length - 1 + name.length) = joinSegments rest := by
          rw [hsplit', ← hafter, List.drop_left]
        have hname' : segmentName (('\\' :: (segment ++ joinSegments (name :: rest))).drop
            usersSegment.length) = name := by
          rw [hsplit, ← hseven, List.drop_left, segmentName_append hname]
        have htake : ('\\' :: (segment ++ joinSegments (name :: rest))).take usersSegment.length =
            '\\' :: segment ++ ['\\'] := by rw [hsplit, ← hseven, List.take_left]
        simp only [hname', htake]
        rw [profilesFrom_drop, hdrop, ih rest.length (by simp at hcount; omega) rest
            (fun other hother ↦ hrest other (List.mem_cons_of_mem name hother)) rfl,
          hkeep, replacedBelow]
        cases hkeeps : keepsProfile name with
        | true =>
          rw [if_pos rfl, if_neg (fun hand ↦ Bool.noConfusion hand.2),
            replacedBelow_of_ne (ne_users_of_keepsProfile hkeeps) hnil]
          simp
        | false =>
          rw [if_neg Bool.false_ne_true, if_pos ⟨husers.1, rfl⟩,
            replacedBelow_of_ne (by decide : toAsciiLowercase userPlaceholder ≠ _) hnil]
          simp
      · rw [if_neg fun hmatch ↦ husers ((users_prefix_iff hsegment rest).mp
          ((usersSegment_isPrefixOf_iff _ _).mp hmatch).2), profilesFrom_append hsegment,
          ih rest.length (by simp at hcount; omega) rest hrest rfl, hkeep]
        have hsame : replacedBelow segment rest = replacedBelow [] rest := by
          rcases not_and_or.mp husers with hne | hnil'
          · exact replacedBelow_of_ne hne hnil rest
          · rw [not_not.mp hnil']
            rfl
        rw [hsame, joinSegments_cons]

/-- A text in which no profile is replaced stays as it is. -/
theorem profilesFrom_fst_of_snd {text : Text} {passing : ℕ}
    (h : (profilesFrom passing text).2 = false) :
    (profilesFrom passing text).1 = text.drop passing := by
  induction text generalizing passing with
  | nil => cases passing <;> rfl
  | cons c rest ih =>
    cases passing with
    | succ passing => exact ih h
    | zero =>
      rw [profilesFrom] at h ⊢
      split at h
      · next hmatch =>
        rw [if_pos hmatch]
        have hseven : usersSegment.length = 7 := rfl
        simp only [hseven, List.drop_succ_cons, List.take_succ_cons, Bool.or_eq_false_iff,
          Bool.not_eq_false'] at h ⊢
        obtain ⟨hkeeps, hnext⟩ := h
        have hname : segmentName (rest.drop 6) ++
            (rest.drop 6).drop (segmentName (rest.drop 6)).length = rest.drop 6 :=
          List.prefix_iff_eq_append.mp (List.takeWhile_prefix _)
        rw [List.drop_drop] at hname
        rw [if_pos hkeeps, ih hnext, List.append_assoc, hname, List.cons_append,
          List.take_append_drop, List.drop_zero]
      · next hmatch =>
        rw [if_neg hmatch]
        exact congrArg (c :: ·) (ih h)

/-- No profile is named where profiles were replaced. -/
theorem namesNoProfile_profilesFrom (text : Text) : NamesNoProfile (profilesFrom 0 text).1 := by
  obtain ⟨first, segments, -, rfl, hfirst, hsegments⟩ := exists_splitOn text
  rw [profilesFrom_append hfirst, profilesFrom_joinSegments segments hsegments, NamesNoProfile,
    splitOn_joinSegments first _ hfirst (not_mem_replacedBelow hsegments []), List.tail_cons]
  exact keepsBelow_replacedBelow [] segments

theorem namesNoProfile_of_not_mem {text : Text} (h : '\\' ∉ text) : NamesNoProfile text := by
  rw [NamesNoProfile, List.splitOn_eq_singleton h]
  trivial

/-! ## Security identifiers -/

/-- What the rule for SIDs needs of a domain and its placeholder: both hold a hyphen, and the rule
never crosses a separator. -/
structure IsSidDomain (domain placeholder : Text) : Prop where
  hyphen : '-' ∈ domain
  slash : '\\' ∉ domain
  hyphenAfter : '-' ∈ placeholder
  slashAfter : '\\' ∉ placeholder
  begins : domain <+: placeholder

theorem isSidDomain_of_mem {pair : Text × Text} (h : pair ∈ identifyingSids) :
    IsSidDomain pair.1 pair.2 := by
  rcases List.mem_cons.mp h with rfl | h
  · constructor <;> decide
  · obtain rfl := List.mem_singleton.mp h
    constructor <;> decide

/-- What has no separator is no longer a prefix when a separator is where it would go on. -/
theorem prefix_append_slash_iff {want : Text} (h : '\\' ∉ want) (text rest : Text) :
    want <+: text ++ '\\' :: rest ↔ want <+: text := by
  induction want generalizing text with
  | nil => simp
  | cons c want ih =>
    rw [List.mem_cons, not_or] at h
    cases text with
    | nil =>
      rw [List.nil_append, List.cons_prefix_cons]
      exact iff_of_false (fun hand ↦ h.1 hand.1.symm) (by simp)
    | cons d text => rw [List.cons_append, List.cons_prefix_cons, List.cons_prefix_cons, ih h.2]

/-- A run of digits and hyphens is read to its end. -/
theorem takeWhile_run {run rest : Text} (hrun : ∀ c ∈ run, isSidByte c = true)
    (hrest : (rest.head?).all (fun c ↦ !isSidByte c) = true) :
    (run ++ rest).takeWhile isSidByte = run := by
  rw [List.takeWhile_append_of_pos hrun]
  cases rest with
  | nil => simp
  | cons c rest =>
    have hc : isSidByte c = false := by simpa using hrest
    simp [hc]

section SidDomain

variable {domain placeholder : Text} (hdomain : IsSidDomain domain placeholder)

theorem sidsFrom_keep {c : Char} {rest : Text} (h : ¬ domain <+: c :: rest) :
    sidsFrom domain placeholder 0 (c :: rest) =
      (c :: (sidsFrom domain placeholder 0 rest).1, (sidsFrom domain placeholder 0 rest).2) := by
  rw [sidsFrom, if_neg fun hbegin ↦ h (List.isPrefixOf_iff_prefix.mp hbegin)]

include hdomain

theorem IsSidDomain.ne_nil : domain ≠ [] := by
  rintro rfl
  exact absurd hdomain.hyphen List.not_mem_nil

theorem IsSidDomain.append_drop : domain ++ placeholder.drop domain.length = placeholder := by
  obtain ⟨suffix, rfl⟩ := hdomain.begins
  rw [List.drop_left]

/-- A SID that is already redacted is kept. -/
theorem sidsFrom_done (rest : Text) :
    sidsFrom domain placeholder 0 (placeholder ++ rest) =
      (placeholder ++ (sidsFrom domain placeholder 0 rest).1,
        (sidsFrom domain placeholder 0 rest).2) := by
  obtain ⟨suffix, rfl⟩ := hdomain.begins
  obtain ⟨c, more, rfl⟩ := List.exists_cons_of_ne_nil hdomain.ne_nil
  have hbegin : c :: more <+: c :: (more ++ suffix ++ rest) := ⟨suffix ++ rest, by simp⟩
  have hdrop : (c :: (more ++ suffix ++ rest)).drop (c :: more).length = suffix ++ rest := by
    rw [List.append_assoc, ← List.cons_append, List.drop_left]
  have hsuffix : (c :: more ++ suffix).drop (c :: more).length = suffix := List.drop_left
  have hafter : (more ++ suffix ++ rest).drop ((c :: more ++ suffix).length - 1) = rest :=
    List.drop_left' (by simp)
  rw [List.cons_append, List.cons_append, sidsFrom,
    if_pos (List.isPrefixOf_iff_prefix.mpr hbegin)]
  rw [List.cons_append] at hsuffix hafter
  simp only [hdrop, hsuffix]
  rw [if_pos (List.isPrefixOf_iff_prefix.mpr (List.prefix_append suffix rest)), sidsFrom_drop,
    hafter]

/-- A SID is replaced with its run of digits and hyphens. -/
theorem sidsFrom_taken {run rest : Text} (hrun : ∀ c ∈ run, isSidByte c = true)
    (hrest : (rest.head?).all (fun c ↦ !isSidByte c) = true)
    (hdone : ¬ placeholder.drop domain.length <+: run ++ rest) :
    sidsFrom domain placeholder 0 (domain ++ (run ++ rest)) =
      (placeholder ++ (sidsFrom domain placeholder 0 rest).1, true) := by
  have htake : (run ++ rest).takeWhile isSidByte = run := takeWhile_run hrun hrest
  obtain ⟨c, more, rfl⟩ := List.exists_cons_of_ne_nil hdomain.ne_nil
  have hbegin : c :: more <+: c :: (more ++ (run ++ rest)) := ⟨run ++ rest, rfl⟩
  have hdrop : (c :: (more ++ (run ++ rest))).drop (c :: more).length = run ++ rest :=
    List.drop_left
  have hafter : (more ++ (run ++ rest)).drop ((c :: more).length - 1 + run.length) = rest := by
    rw [← List.append_assoc]
    exact List.drop_left' (by simp)
  rw [List.cons_append, sidsFrom, if_pos (List.isPrefixOf_iff_prefix.mpr hbegin)]
  simp only [hdrop]
  rw [if_neg fun hbegin ↦ hdone (List.isPrefixOf_iff_prefix.mp hbegin), htake, sidsFrom_drop,
    hafter]

/-- Induction along the rule for SIDs: a text is empty, or begins with a character that is kept,
with a SID that is already redacted, or with one that is replaced. -/
theorem sidsFrom_induct {motive : Text → Prop} (nil : motive [])
    (keep : ∀ c rest, ¬ domain <+: c :: rest → motive rest → motive (c :: rest))
    (done : ∀ rest, motive rest → motive (placeholder ++ rest))
    (taken : ∀ run rest, (∀ c ∈ run, isSidByte c = true) →
      (rest.head?).all (fun c ↦ !isSidByte c) = true →
        ¬ placeholder.drop domain.length <+: run ++ rest → motive rest →
          motive (domain ++ (run ++ rest))) (text : Text) : motive text := by
  induction hcount : text.length using Nat.strong_induction_on generalizing text with
  | _ count ih =>
    cases text with
    | nil => exact nil
    | cons c text =>
      have hpositive : 0 < domain.length := List.length_pos_iff.mpr hdomain.ne_nil
      by_cases hbegin : domain <+: c :: text
      · obtain ⟨after, hafter⟩ := hbegin
        have hlength := congrArg List.length hafter
        rw [List.length_append] at hlength
        rw [← hafter]
        by_cases hdone : placeholder.drop domain.length <+: after
        · obtain ⟨rest, rfl⟩ := hdone
          rw [List.length_append] at hlength
          rw [← List.append_assoc, hdomain.append_drop]
          exact done rest (ih rest.length (by omega) rest rfl)
        · have hsplit : after = after.takeWhile isSidByte ++ after.dropWhile isSidByte :=
            List.takeWhile_append_dropWhile.symm
          have hle := (List.dropWhile_suffix isSidByte (l := after)).length_le
          rw [hsplit]
          refine taken _ _ (fun c hc ↦ List.mem_takeWhile_imp hc) ?_ (hsplit ▸ hdone)
            (ih _ (by omega) _ rfl)
          cases hhead : (after.dropWhile isSidByte).head? with
          | none => rfl
          | some c =>
            have := List.head?_dropWhile_not isSidByte after
            rw [hhead] at this
            simpa using this
      · exact keep c text hbegin (ih text.length (by simp at hcount; omega) text rfl)

/-- Without a hyphen there is no SID. -/
theorem sidsFrom_of_not_mem {text : Text} (h : '-' ∉ text) :
    sidsFrom domain placeholder 0 text = (text, false) := by
  induction text with
  | nil => rfl
  | cons c text ih =>
    rw [sidsFrom_keep fun hbegin ↦ h (hbegin.subset hdomain.hyphen),
      ih fun hmem ↦ h (List.mem_cons_of_mem c hmem)]

/-- A text that is changed holds a hyphen afterwards. -/
theorem sidsFrom_eq_self_or (text : Text) :
    (sidsFrom domain placeholder 0 text).1 = text ∨
      '-' ∈ (sidsFrom domain placeholder 0 text).1 := by
  induction text using sidsFrom_induct hdomain with
  | nil => exact .inl rfl
  | keep c rest hno ih =>
    rw [sidsFrom_keep hno]
    exact ih.imp (congrArg (c :: ·)) (List.mem_cons_of_mem c)
  | done rest ih =>
    rw [sidsFrom_done hdomain]
    exact .inr (List.mem_append_left _ hdomain.hyphenAfter)
  | taken run rest hrun hrest hdone ih =>
    rw [sidsFrom_taken hdomain hrun hrest hdone]
    exact .inr (List.mem_append_left _ hdomain.hyphenAfter)

/-- The rule acts on what stands before a separator as it does on that alone. -/
theorem sidsFrom_append_slash (text rest : Text) :
    (sidsFrom domain placeholder 0 (text ++ '\\' :: rest)).1 =
      (sidsFrom domain placeholder 0 text).1 ++ '\\' :: (sidsFrom domain placeholder 0 rest).1 := by
  induction text using sidsFrom_induct hdomain with
  | nil =>
    have hno : ¬ domain <+: '\\' :: rest := by
      obtain ⟨c, more, hsplit⟩ := List.exists_cons_of_ne_nil hdomain.ne_nil
      rw [hsplit, List.cons_prefix_cons]
      rintro ⟨rfl, -⟩
      exact hdomain.slash (hsplit ▸ List.mem_cons_self)
    rw [List.nil_append, sidsFrom_keep hno]
    rfl
  | keep c text hno ih =>
    rw [← prefix_append_slash_iff hdomain.slash _ rest] at hno
    rw [List.cons_append] at hno ⊢
    rw [sidsFrom_keep hno, ih, sidsFrom_keep]
    · rfl
    · rwa [← prefix_append_slash_iff hdomain.slash _ rest, List.cons_append]
  | done text ih =>
    rw [List.append_assoc, sidsFrom_done hdomain, sidsFrom_done hdomain, ih]
    simp
  | taken run text hrun htext hdone ih =>
    have hslash : '\\' ∉ placeholder.drop domain.length :=
      fun hmem ↦ hdomain.slashAfter (List.mem_of_mem_drop hmem)
    have htext' : ((text ++ '\\' :: rest).head?).all (fun c ↦ !isSidByte c) = true := by
      cases text with
      | nil => rfl
      | cons c text => exact htext
    have hdone' : ¬ placeholder.drop domain.length <+: run ++ (text ++ '\\' :: rest) := by
      rwa [← List.append_assoc, prefix_append_slash_iff hslash]
    rw [List.append_assoc, List.append_assoc, sidsFrom_taken hdomain hrun htext' hdone',
      sidsFrom_taken hdomain hrun htext hdone, ih]
    simp

/-- What is replaced brings no separator in. -/
theorem not_mem_sidsFrom {text : Text} (h : '\\' ∉ text) :
    '\\' ∉ (sidsFrom domain placeholder 0 text).1 := by
  induction text using sidsFrom_induct hdomain with
  | nil => exact List.not_mem_nil
  | keep c rest hno ih =>
    rw [List.mem_cons, not_or] at h
    rw [sidsFrom_keep hno, List.mem_cons, not_or]
    exact ⟨h.1, ih h.2⟩
  | done rest ih =>
    rw [List.mem_append, not_or] at h
    rw [sidsFrom_done hdomain, List.mem_append, not_or]
    exact ⟨hdomain.slashAfter, ih h.2⟩
  | taken run rest hrun hrest hdone ih =>
    rw [List.mem_append, List.mem_append, not_or, not_or] at h
    rw [sidsFrom_taken hdomain hrun hrest hdone, List.mem_append, not_or]
    exact ⟨hdomain.slashAfter, ih h.2.2⟩

/-- The rule acts segment by segment. -/
theorem sidsFrom_joinSegments (first : Text) (segments : List Text) :
    (sidsFrom domain placeholder 0 (first ++ joinSegments segments)).1 =
      (sidsFrom domain placeholder 0 first).1 ++
        joinSegments (segments.map fun segment ↦ (sidsFrom domain placeholder 0 segment).1) := by
  induction segments generalizing first with
  | nil => simp
  | cons segment segments ih =>
    rw [joinSegments_cons, sidsFrom_append_slash hdomain, ih, List.map_cons, joinSegments_cons]

theorem sidsFrom_of_keepsProfile {name : Text} (h : keepsProfile name = true) :
    (sidsFrom domain placeholder 0 name).1 = name := by
  rw [sidsFrom_of_not_mem hdomain (not_mem_of_keepsProfile h (by decide) (by decide))]

theorem keepsBelow_map_sidsFrom {previous previous' : Text} {segments : List Text}
    (hprevious : toAsciiLowercase previous' = "users".toList →
      toAsciiLowercase previous = "users".toList) (h : KeepsBelow previous segments) :
    KeepsBelow previous' (segments.map fun segment ↦
      (sidsFrom domain placeholder 0 segment).1) := by
  induction segments generalizing previous previous' with
  | nil => trivial
  | cons segment segments ih =>
    refine ⟨fun husers ↦ ?_, ih ?_ h.2⟩
    · change keepsProfile (sidsFrom domain placeholder 0 segment).1 = true
      rw [sidsFrom_of_keepsProfile hdomain (h.1 (hprevious husers))]
      exact h.1 (hprevious husers)
    · intro husers
      change toAsciiLowercase (sidsFrom domain placeholder 0 segment).1 = _ at husers
      rcases sidsFrom_eq_self_or hdomain segment with hsame | hhyphen
      · rwa [hsame] at husers
      · rw [← mem_toAsciiLowercase_iff (by decide), husers] at hhyphen
        exact absurd hhyphen (by decide)

/-- Replacing SIDs names no profile. -/
theorem namesNoProfile_sidsFrom {text : Text} (h : NamesNoProfile text) :
    NamesNoProfile (sidsFrom domain placeholder 0 text).1 := by
  obtain ⟨first, segments, hsplit, rfl, hfirst, hsegments⟩ := exists_splitOn text
  rw [NamesNoProfile, hsplit, List.tail_cons] at h
  rw [sidsFrom_joinSegments hdomain, NamesNoProfile, splitOn_joinSegments, List.tail_cons]
  · exact keepsBelow_map_sidsFrom hdomain (fun husers ↦ husers) h
  · exact not_mem_sidsFrom hdomain hfirst
  · intro segment hsegment
    obtain ⟨other, hother, rfl⟩ := List.mem_map.mp hsegment
    exact not_mem_sidsFrom hdomain (hsegments other hother)

end SidDomain

theorem namesNoProfile_sidsOf {domains : List (Text × Text)}
    (hdomains : ∀ pair ∈ domains, IsSidDomain pair.1 pair.2) {text : Text}
    (h : NamesNoProfile text) :
    NamesNoProfile (sidsOf domains text).1 := by
  induction domains generalizing text with
  | nil => exact h
  | cons pair domains ih =>
    have hrest := fun other hother ↦ hdomains other (List.mem_cons_of_mem pair hother)
    obtain ⟨domain, placeholder⟩ := pair
    have hclean := namesNoProfile_sidsFrom (hdomains _ List.mem_cons_self) h
    rw [sidsOf]
    split
    · next replaced hreplaced =>
      unfold replaceSidDomain at hreplaced
      split at hreplaced
      · next result hresult =>
        rw [hresult] at hclean
        exact ih hrest (Option.some.inj hreplaced ▸ hclean)
      · cases hreplaced
    · exact ih hrest h

/-! ## Hosts and hex -/

/-- Replacing a host names no profile. -/
theorem namesNoProfile_uncHost {text replaced : Text}
    (hreplaced : replaceUncHosts text = some replaced)
    (h : NamesNoProfile text) : NamesNoProfile replaced := by
  unfold replaceUncHosts at hreplaced
  split at hreplaced
  · cases hreplaced
  · next rest hrest =>
    obtain rfl := (stripPrefix_eq_some_iff _ _ _).mp hrest
    split at hreplaced
    · cases hreplaced
    · obtain ⟨host, segments, -, rfl, hhost, hsegments⟩ := exists_splitOn rest
      have hsplit (name : Text) (hname : '\\' ∉ name) :
          (r"\\".toList ++ (name ++ joinSegments segments)).splitOn '\\' =
            [] :: [] :: name :: segments := by
        have hjoin : r"\\".toList ++ (name ++ joinSegments segments) =
            [] ++ joinSegments ([] :: name :: segments) := rfl
        rw [hjoin, splitOn_joinSegments [] _ List.not_mem_nil]
        intro segment hsegment
        rcases List.mem_cons.mp hsegment with rfl | hsegment
        · exact List.not_mem_nil
        · rcases List.mem_cons.mp hsegment with rfl | hsegment
          · exact hname
          · exact hsegments segment hsegment
      simp only [segmentName_append hhost] at hreplaced
      split at hreplaced
      · cases hreplaced
      · rw [List.drop_left] at hreplaced
        obtain rfl := Option.some.inj hreplaced
        rw [NamesNoProfile, hsplit host hhost] at h
        rw [NamesNoProfile, List.append_assoc, hsplit hostPlaceholder (by decide)]
        refine ⟨fun _ ↦ by decide, fun husers ↦ absurd husers (by decide), ?_⟩
        have hbelow := h.2.2
        cases segments with
        | nil => trivial
        | cons segment segments => exact ⟨fun husers ↦ absurd husers (by decide), hbelow.2⟩

theorem isAsciiHexdigit_hexDigit :
    ∀ upper, ∀ value < 16, isAsciiHexdigit (hexDigit upper value).toNat = true := by
  decide

/-- Hex digits are all that is written as hex. -/
theorem not_mem_encodeHex (bytes : List UInt8) (upper : Bool) {c : Char}
    (hc : isAsciiHexdigit c.toNat = false) : c ∉ encodeHex bytes upper := by
  intro hmem
  obtain ⟨byte, -, hdigit⟩ := List.mem_flatMap.mp hmem
  have hbyte := byte.toNat_lt
  have hdigits : isAsciiHexdigit c.toNat = true := by
    rcases List.mem_cons.mp hdigit with rfl | hlow
    · exact isAsciiHexdigit_hexDigit upper _ (by omega)
    · rw [List.mem_singleton.mp hlow]
      exact isAsciiHexdigit_hexDigit upper _ (by omega)
  rw [hdigits] at hc
  cases hc

/-- A value written as hex is replaced by one. -/
theorem exists_encodeHex_of_replaceInHex {text : Text} {names : List (Text × Text)}
    {replaced : Text × List Text} (h : replaceInHex text names = some replaced) :
    ∃ bytes upper, replaced.1 = encodeHex bytes upper := by
  unfold replaceInHex at h
  split at h
  · cases h
  · simp only [Option.ite_none_left_eq_some, Option.some.injEq] at h
    exact ⟨_, _, (congrArg Prod.fst h.2).symm⟩

/-- A text after the hex in it is what it was, or hex with nothing or `binary:` before it. -/
theorem applyHex_cases (state : Text × List Text) (names : List (Text × Text)) :
    (applyHex state names).1 = state.1 ∨
      ∃ bytes upper, (applyHex state names).1 =
        (splitBinary state.1).1 ++ encodeHex bytes upper := by
  unfold applyHex
  split
  · next replaced placeholders hreplaced =>
    obtain ⟨bytes, upper, hhex⟩ := exists_encodeHex_of_replaceInHex hreplaced
    exact .inr ⟨bytes, upper, congrArg _ hhex⟩
  · exact .inl rfl

theorem splitBinary_fst (text : Text) :
    (splitBinary text).1 = [] ∨ (splitBinary text).1 = binaryPrefix := by
  unfold splitBinary
  split
  · exact .inr rfl
  · exact .inl rfl

theorem namesNoProfile_applyHex {state : Text × List Text} (names : List (Text × Text))
    (h : NamesNoProfile state.1) : NamesNoProfile (applyHex state names).1 := by
  rcases applyHex_cases state names with hsame | ⟨bytes, upper, hhex⟩
  · rwa [hsame]
  · apply namesNoProfile_of_not_mem
    rw [hhex, List.mem_append, not_or]
    refine ⟨?_, not_mem_encodeHex bytes upper (by decide)⟩
    rcases splitBinary_fst state.1 with hnone | hbinary
    · rw [hnone]
      exact List.not_mem_nil
    · rw [hbinary]
      decide

/-! ## A text after the rules -/

theorem namesNoProfile_applyRules (text : Text) : NamesNoProfile (applyRules text).1 := by
  have hprofiles (state : Text × List Text) :
      NamesNoProfile (applyRule state (replaceUserProfiles state.1) userPlaceholder).1 := by
    have hclean := namesNoProfile_profilesFrom state.1
    unfold replaceUserProfiles
    split
    · next result hresult =>
      rw [hresult] at hclean
      exact hclean
    · next result hresult =>
      have hsame := profilesFrom_fst_of_snd (congrArg Prod.snd hresult)
      rwa [hsame] at hclean
  have hsids {state : Text × List Text} (h : NamesNoProfile state.1) :
      NamesNoProfile (applyTextSids state).1 := by
    have hclean := namesNoProfile_sidsOf (fun _ ↦ isSidDomain_of_mem) h
    unfold applyTextSids replaceSids
    split
    · next result placeholders hresult =>
      split at hresult
      · cases hresult
      · next result' used hused =>
        rw [hused] at hclean
        rwa [← (Prod.mk.inj (Option.some.inj hresult)).1]
    · exact h
  have hhosts {state : Text × List Text} (h : NamesNoProfile state.1) :
      NamesNoProfile (applyRule state (replaceUncHosts state.1) hostPlaceholder).1 := by
    cases hreplaced : replaceUncHosts state.1 with
    | none => exact h
    | some replaced => exact namesNoProfile_uncHost hreplaced h
  exact hhosts (hsids (hprofiles _))

/-- The redactor leaves no profile named in a text when it knows no names. -/
theorem namesNoProfile_redactTextWith (text : Text) :
    NamesNoProfile (redactTextWith text []).1 :=
  namesNoProfile_applyHex [] (namesNoProfile_applyRules text)

end WardSweep.Redact
