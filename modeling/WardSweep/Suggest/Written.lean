import WardSweep.Safety.Profiles
import WardSweep.Suggest.Entries
import WardSweep.Tree.Topmost

/-!
# What a draft's locations cover

A location covers itself and what is below it, whatever the case.  A template names a place by one
of several variables, and the places of a directory and of one above it stay above one another
wherever the deny-list allows the upper one.
-/

namespace WardSweep.Suggest

open Utf8 Str Paths Denylist

/-! ## Above -/

/-- A text goes on with a separator after another. -/
def IsAbove (above text : Text) : Prop := above ++ ['\\'] <+: text

instance : DecidableRel IsAbove :=
  fun above text ↦ inferInstanceAs (Decidable (above ++ ['\\'] <+: text))

theorem isAbove_iff {above text : Text} :
    IsAbove above text ↔ ∃ rest, text = above ++ '\\' :: rest := by
  constructor
  · intro h
    obtain ⟨rest, rfl⟩ := h
    exact ⟨rest, List.append_assoc _ _ _⟩
  · intro h
    obtain ⟨rest, rfl⟩ := h
    exact ⟨rest, List.append_assoc _ _ _⟩

theorem IsAbove.length_lt {above text : Text} (h : IsAbove above text) :
    above.length < text.length := by
  have hle := List.IsPrefix.length_le h
  rw [List.length_append, List.length_singleton] at hle
  omega

theorem IsAbove.trans {top above text : Text} (h : IsAbove top above) (h' : IsAbove above text) :
    IsAbove top text :=
  List.IsPrefix.trans h ((List.prefix_append above ['\\']).trans h')

/-- Texts above one text are above one another. -/
theorem IsAbove.linear {first second text : Text} (h : IsAbove first text)
    (h' : IsAbove second text) : first = second ∨ IsAbove first second ∨ IsAbove second first := by
  obtain hlt | heq | hgt := Nat.lt_trichotomy first.length second.length
  · refine .inr (.inl (List.prefix_of_prefix_length_le h ((List.prefix_append _ _).trans h') ?_))
    rw [List.length_append, List.length_singleton]
    omega
  · left
    have hfirst := (List.prefix_append first ['\\']).trans h
    have hsecond := (List.prefix_append second ['\\']).trans h'
    exact (List.prefix_of_prefix_length_le hfirst hsecond heq.le).eq_of_length heq
  · refine .inr (.inr (List.prefix_of_prefix_length_le h' ((List.prefix_append _ _).trans h) ?_))
    rw [List.length_append, List.length_singleton]
    omega

theorem IsAbove.toAsciiLowercase {above text : Text} (h : IsAbove above text) :
    IsAbove (toAsciiLowercase above) (toAsciiLowercase text) := by
  have hmap := List.IsPrefix.map Char.toLower h
  rwa [List.map_append] at hmap

/-- A text is another, or above it. -/
abbrev AtOrAbove : Text → Text → Prop := Tree.AtOrAbove IsAbove

theorem AtOrAbove.trans {top above text : Text} (h : AtOrAbove top above)
    (h' : AtOrAbove above text) : AtOrAbove top text := by
  rcases h with rfl | h
  · exact h'
  · rcases h' with rfl | h'
    · exact .inr h
    · exact .inr (h.trans h')

/-- A location covers itself and what is below it, whatever the case. -/
def Covers (location text : Text) : Prop :=
  AtOrAbove (toAsciiLowercase location) (toAsciiLowercase text)

instance (location text : Text) : Decidable (Covers location text) :=
  inferInstanceAs (Decidable (AtOrAbove _ _))

theorem Covers.refl (location : Text) : Covers location location := .inl rfl

theorem Covers.trans {location above text : Text} (h : Covers location above)
    (h' : Covers above text) : Covers location text :=
  AtOrAbove.trans h h'

theorem AtOrAbove.covers {above text : Text} (h : AtOrAbove above text) : Covers above text := by
  cases h with
  | inl h => exact .inl (congrArg toAsciiLowercase h)
  | inr h => exact .inr h.toAsciiLowercase

/-! ## Collapsing -/

theorem mem_matchesFrom_singleton {c : Char} {offset start : ℕ} {text : Text} :
    start ∈ matchesFrom [c] offset 0 text ↔ ∃ k, start = offset + k ∧ text[k]? = some c := by
  induction text generalizing offset with
  | nil => simp [matchesFrom]
  | cons d text ih =>
    have hrest : start ∈ matchesFrom [c] (offset + 1) 0 text ↔
        ∃ k, start = offset + (k + 1) ∧ (d :: text)[k + 1]? = some c := by
      rw [ih]
      simp only [List.getElem?_cons_succ, Nat.add_assoc, Nat.add_comm 1]
    have hsplit : (∃ k, start = offset + k ∧ (d :: text)[k]? = some c) ↔
        (start = offset ∧ d = c) ∨ ∃ k, start = offset + (k + 1) ∧
          (d :: text)[k + 1]? = some c := by
      constructor
      · intro h
        obtain ⟨k, hk, hc⟩ := h
        cases k with
        | zero => exact .inl ⟨hk, by simpa using hc⟩
        | succ k => exact .inr ⟨k, hk, hc⟩
      · intro h
        rcases h with ⟨hk, hc⟩ | ⟨k, hk, hc⟩
        · exact ⟨0, hk, by simp [hc]⟩
        · exact ⟨k + 1, hk, hc⟩
    rw [hsplit, ← hrest]
    by_cases hc : d = c
    · have hbegin : [c] <+: d :: text := by simp [hc]
      rw [matchesFrom_hit (List.cons_ne_nil _ _) hbegin, List.mem_cons]
      simp [hc]
    · have hbegin : ¬ [c] <+: d :: text := by simp [Ne.symm hc]
      rw [matchesFrom_miss hbegin]
      simp [hc]

theorem hasListedAncestor_eq_true_iff {candidate : Text} {listed : List Text} :
    hasListedAncestor candidate listed = true ↔ ∃ above ∈ listed, IsAbove above candidate := by
  rw [hasListedAncestor, List.any_eq_true]
  constructor
  · intro h
    obtain ⟨offset, hoffset, hlisted⟩ := h
    obtain ⟨k, rfl, hk⟩ := mem_matchesFrom_singleton.mp hoffset
    rw [List.contains_iff_mem] at hlisted
    refine ⟨_, hlisted, ?_⟩
    obtain ⟨hlt, hget⟩ := List.getElem?_eq_some_iff.mp hk
    rw [isAbove_iff]
    refine ⟨candidate.drop (0 + k + 1), ?_⟩
    rw [Nat.zero_add, ← hget, List.cons_getElem_drop_succ, List.take_append_drop]
  · intro h
    obtain ⟨above, hlisted, hbelow⟩ := h
    obtain ⟨rest, rfl⟩ := isAbove_iff.mp hbelow
    refine ⟨above.length,
      mem_matchesFrom_singleton.mpr ⟨above.length, (Nat.zero_add _).symm, ?_⟩, ?_⟩
    · simp
    · rwa [List.take_left, List.contains_iff_mem]

/-- What nothing listed contains is what nothing listed is above. -/
theorem collapsed_eq_topmost (listed : List Text) :
    collapsed listed = Tree.topmost IsAbove listed := by
  unfold collapsed Tree.topmost
  congr 1
  funext candidate
  rw [Bool.eq_iff_iff, Bool.not_eq_true', Bool.not_eq_true', Bool.eq_false_iff, Bool.eq_false_iff,
    ne_eq, ne_eq, hasListedAncestor_eq_true_iff]
  simp

/-- The listed text at or above another that nothing listed is above. -/
def topOf (listed : List Text) (text : Text) : Text := Tree.topOf IsAbove listed text

theorem topOf_spec {listed : List Text} {text : Text} (h : text ∈ listed) :
    topOf listed text ∈ collapsed listed ∧ AtOrAbove (topOf listed text) text := by
  rw [collapsed_eq_topmost]
  exact Tree.topOf_spec List.length (fun _ _ ↦ IsAbove.length_lt)
    (fun _ _ _ ↦ IsAbove.trans) h

/-- No other listed text that nothing listed is above is at or above it. -/
theorem eq_topOf {listed : List Text} {top text : Text} (h : text ∈ listed)
    (htop : top ∈ collapsed listed) (hat : AtOrAbove top text) : top = topOf listed text := by
  obtain ⟨hmem, habove⟩ := topOf_spec h
  rw [collapsed_eq_topmost] at htop hmem
  exact Tree.eq_of_mem_topmost (fun _ _ _ ↦ IsAbove.linear) htop hmem hat habove

/-! ## Cutting at separators -/

/-- Where a text with a separator behind it is also one cut at its first separator, the texts in
front are equal or the first goes on. -/
theorem append_separator_cases {text below front behind : Text} (hfront : '\\' ∉ front)
    (h : text ++ '\\' :: below = front ++ '\\' :: behind) :
    (text = front ∧ below = behind) ∨
      ∃ middle, text = front ++ '\\' :: middle ∧ behind = middle ++ '\\' :: below := by
  obtain ⟨middle, htext, hbehind⟩ | ⟨middle, hfrontEq, hbelow⟩ := List.append_eq_append_iff.mp h
  · cases middle with
    | nil =>
      rw [List.append_nil] at htext
      exact .inl ⟨htext.symm, (List.cons.inj hbehind).2⟩
    | cons c middle =>
      obtain ⟨rfl, -⟩ := List.cons.inj hbehind
      exact absurd (htext ▸ List.mem_append_right _ List.mem_cons_self) hfront
  · cases middle with
    | nil =>
      rw [List.append_nil] at hfrontEq
      exact .inl ⟨hfrontEq, (List.cons.inj hbelow).2.symm⟩
    | cons c middle =>
      obtain ⟨rfl, hmore⟩ := List.cons.inj hbelow
      exact .inr ⟨middle, hfrontEq, hmore⟩

/-- A text with nothing or a separator behind it. -/
def IsTail (tail : Text) : Prop := tail = [] ∨ ∃ more, tail = '\\' :: more

theorem isTail_iff (tail : Text) : (tail.isEmpty || ['\\'].isPrefixOf tail) = true ↔
    IsTail tail := by
  cases tail with
  | nil => simp [IsTail]
  | cons c tail =>
    have hcons : IsTail (c :: tail) ↔ c = '\\' := by
      constructor
      · intro h
        obtain ⟨more, hmore⟩ := h.resolve_left (List.cons_ne_nil _ _)
        exact (List.cons.inj hmore).1
      · intro h
        exact .inr ⟨tail, by rw [h]⟩
    rw [hcons, List.isEmpty_cons, Bool.false_or, List.isPrefixOf_iff_prefix, List.cons_prefix_cons,
      and_iff_left List.nil_prefix, eq_comm]

theorem stripComponentPrefix_eq_some_iff {path want tail : Text} :
    stripComponentPrefix path want = some tail ↔
      ∃ head, path = head ++ tail ∧ eqIgnoreAsciiCase head want = true ∧ IsTail tail := by
  unfold stripComponentPrefix
  constructor
  · intro h
    split at h
    · next head tail' hsplit =>
      split_ifs at h with hboth
      obtain rfl := Option.some.inj h
      rw [Bool.and_eq_true, isTail_iff] at hboth
      exact ⟨head, ((splitAtByte_eq_some_iff _ _ _ _).mp hsplit).1, hboth⟩
    · cases h
  · intro h
    obtain ⟨head, rfl, hhead, htail⟩ := h
    have hsplit := (splitAtByte_eq_some_iff (head ++ tail) (byteLen want) head tail).mpr
      ⟨rfl, byteLen_eq_of_eqIgnoreAsciiCase hhead⟩
    rw [hsplit]
    dsimp only
    rw [if_pos]
    rw [Bool.and_eq_true, isTail_iff]
    exact ⟨hhead, htail⟩

/-- A drive and the profile below its `Users`, and what is below that. -/
structure SplitsProfile (path : Text) (drive users profile rest : Text) : Prop where
  path_eq : path = drive ++ '\\' :: (users ++ '\\' :: (profile ++ rest))
  isDrive : ∃ letter, isAsciiAlphabetic letter.toNat = true ∧ drive = [letter, ':']
  isUsers : eqIgnoreAsciiCase users "Users".toList = true
  profile_ne_nil : profile ≠ []
  whole : '\\' ∉ profile
  tail : IsTail rest

theorem takeWhile_append_tail {front tail : Text} (hfront : '\\' ∉ front) (htail : IsTail tail) :
    (front ++ tail).takeWhile (· != '\\') = front ∧
      (front ++ tail).dropWhile (· != '\\') = tail := by
  have hall : ∀ c ∈ front, (c != '\\') = true := fun c hc ↦ by
    rw [bne_iff_ne]
    exact fun h ↦ hfront (h ▸ hc)
  rw [List.takeWhile_append_of_pos hall, List.dropWhile_append_of_pos hall]
  cases htail with
  | inl h => simp [h]
  | inr h =>
    obtain ⟨more, rfl⟩ := h
    simp

theorem splitProfile_eq_some_iff {path profile rest : Text} :
    splitProfile path = some (profile, rest) ↔
      ∃ drive users, SplitsProfile path drive users profile rest := by
  constructor
  · intro h
    unfold splitProfile at h
    split at h
    · next letter below =>
      split_ifs at h with hletter
      obtain ⟨belowUsers, hbelow, hparts⟩ := Option.bind_eq_some_iff.mp h
      obtain ⟨tail, htail, hstrip⟩ := Option.bind_eq_some_iff.mp hbelow
      obtain ⟨users, rfl, husers, -⟩ := stripComponentPrefix_eq_some_iff.mp htail
      split_ifs at hparts with hempty
      obtain ⟨rfl, rfl⟩ := Prod.mk.inj (Option.some.inj hparts)
      refine ⟨[letter, ':'], users, ?_, ⟨letter, hletter, rfl⟩, husers, hempty, ?_, ?_⟩
      · rw [List.takeWhile_append_dropWhile, (stripPrefix_eq_some_iff _ _ _).mp hstrip]
        rfl
      · intro hmem
        have hne := List.mem_takeWhile_imp hmem
        simp at hne
      · cases hdrop : belowUsers.dropWhile (· != '\\') with
        | nil => exact .inl rfl
        | cons c more =>
          have hhead := List.head?_dropWhile_not (· != '\\') belowUsers
          rw [hdrop] at hhead
          simp only [List.head?_cons, bne_eq_false_iff_eq] at hhead
          exact .inr ⟨more, by rw [hhead]⟩
    · cases h
  · intro h
    obtain ⟨drive, users, hsplits⟩ := h
    obtain ⟨letter, hletter, rfl⟩ := hsplits.isDrive
    have husers : stripComponentPrefix (users ++ '\\' :: (profile ++ rest)) "Users".toList =
        some ('\\' :: (profile ++ rest)) :=
      stripComponentPrefix_eq_some_iff.mpr ⟨users, rfl, hsplits.isUsers, .inr ⟨_, rfl⟩⟩
    have hstrip : stripPrefix ('\\' :: (profile ++ rest)) ['\\'] = some (profile ++ rest) :=
      (stripPrefix_eq_some_iff _ _ _).mpr rfl
    obtain ⟨htake, hdrop⟩ := takeWhile_append_tail hsplits.whole hsplits.tail
    rw [hsplits.path_eq]
    simp only [splitProfile, List.cons_append, List.nil_append, hletter, if_true, husers,
      Option.bind_some, hstrip, htake, hdrop, if_neg hsplits.profile_ne_nil]

/-- What is at or above a path that goes on below a profile is a drive, its `Users`, or goes on
below the profile as well. -/
theorem SplitsProfile.above {top below drive users profile rest : Text}
    (h : SplitsProfile (top ++ '\\' :: below) drive users profile rest) :
    top = drive ∨ top = drive ++ '\\' :: users ∨
      ∃ kept, SplitsProfile top drive users profile kept ∧ rest = kept ++ '\\' :: below := by
  have hdrive : '\\' ∉ drive := by
    obtain ⟨letter, hletter, rfl⟩ := h.isDrive
    have hne := ne_backslash_of_isAsciiAlphabetic hletter
    simp [hne.symm]
  have husers : '\\' ∉ users := by
    rw [← mem_toAsciiLowercase_iff (by decide), eqIgnoreAsciiCase_eq_true_iff.mp h.isUsers]
    decide
  obtain ⟨rfl, -⟩ | ⟨first, rfl, hfirst⟩ := append_separator_cases hdrive h.path_eq
  · exact .inl rfl
  obtain ⟨rfl, -⟩ | ⟨second, rfl, hsecond⟩ := append_separator_cases husers hfirst.symm
  · exact .inr (.inl rfl)
  refine .inr (.inr ?_)
  rcases h.tail with rfl | ⟨more, rfl⟩
  · rw [List.append_nil] at hsecond
    exact absurd (hsecond ▸ List.mem_append_right _ List.mem_cons_self) h.whole
  obtain ⟨rfl, rfl⟩ | ⟨third, rfl, rfl⟩ := append_separator_cases h.whole hsecond.symm
  · refine ⟨[], ⟨?_, h.isDrive, h.isUsers, h.profile_ne_nil, h.whole, .inl rfl⟩, rfl⟩
    rw [List.append_nil]
  · exact ⟨'\\' :: third,
      ⟨rfl, h.isDrive, h.isUsers, h.profile_ne_nil, h.whole, .inr ⟨third, rfl⟩⟩, rfl⟩

theorem SplitsProfile.below {top drive users profile kept : Text}
    (h : SplitsProfile top drive users profile kept) (below : Text) :
    SplitsProfile (top ++ '\\' :: below) drive users profile (kept ++ '\\' :: below) where
  path_eq := by
    rw [h.path_eq]
    simp only [List.append_assoc, List.cons_append]
  isDrive := h.isDrive
  isUsers := h.isUsers
  profile_ne_nil := h.profile_ne_nil
  whole := h.whole
  tail := by
    rcases h.tail with rfl | ⟨more, rfl⟩
    · exact .inr ⟨below, rfl⟩
    · exact .inr ⟨more ++ '\\' :: below, rfl⟩

/-! ## Writing out -/

/-- The variables that stand for a fixed folder, or for a folder of a profile. -/
def writtenVariables : List (Text × Text) :=
  machineVariables ++
    profileVariables.map fun entry ↦ (entry.1, placeholder "USERPROFILE".toList ++ '\\' :: entry.2)

/-- A template with such a variable written out, so that a place has one spelling. -/
def writtenOut (template : Text) : Text :=
  (writtenVariables.findSome? fun entry ↦
    (stripPrefix template (placeholder entry.1)).map fun rest ↦ entry.2 ++ rest).getD template

theorem writtenOut_variable {entry : Text × Text} (hentry : entry ∈ writtenVariables)
    (rest : Text) :
    writtenOut (placeholder entry.1 ++ rest) = entry.2 ++ rest := by
  simp only [writtenVariables, machineVariables, profileVariables, List.map_cons, List.map_nil,
    List.cons_append, List.nil_append, List.mem_cons, List.not_mem_nil, or_false] at hentry
  rcases hentry with rfl | rfl | rfl | rfl | rfl | rfl <;> rfl

/-- Only templates that begin with such a variable are written otherwise. -/
theorem writtenOut_eq_self {template : Text}
    (h : ∀ entry ∈ writtenVariables, (placeholder entry.1).take 3 ≠ template.take 3) :
    writtenOut template = template := by
  rw [writtenOut, List.findSome?_eq_none_iff.mpr, Option.getD_none]
  intro entry hentry
  rw [Option.map_eq_none_iff]
  apply stripPrefix_eq_none
  intro hbegin
  have htake := hbegin.take 3
  have hlong : ∀ entry ∈ writtenVariables, 3 ≤ (placeholder entry.1).length := by decide
  refine h entry hentry (htake.eq_of_length_le ?_)
  rw [List.length_take, List.length_take]
  have := hlong entry hentry
  omega

/-- The variable that stands for a profile. -/
def profileVariable (profile : Text) : Text :=
  if eqIgnoreAsciiCase profile "public".toList then placeholder "PUBLIC".toList
  else placeholder "USERPROFILE".toList

theorem writtenOut_profileVariable (profile rest : Text) :
    writtenOut (profileVariable profile ++ rest) = profileVariable profile ++ rest := by
  have hpublic : ∀ entry ∈ writtenVariables,
      (placeholder entry.1).take 3 ≠ ['%', 'P', 'U'] := by decide
  have hprofile : ∀ entry ∈ writtenVariables,
      (placeholder entry.1).take 3 ≠ ['%', 'U', 'S'] := by decide
  unfold profileVariable
  split
  · exact writtenOut_eq_self hpublic
  · exact writtenOut_eq_self hprofile

/-- The place of an observed path, whatever its case, its profile and the drive its profile is
on. -/
def placeOf (path : Text) : Text :=
  toAsciiLowercase (match splitProfile path with
    | some (profile, rest) => profileVariable profile ++ rest
    | none => path)

theorem SplitsProfile.placeOf {path drive users profile rest : Text}
    (h : SplitsProfile path drive users profile rest) :
    placeOf path = toAsciiLowercase (profileVariable profile ++ rest) := by
  simp only [Suggest.placeOf, splitProfile_eq_some_iff.mpr ⟨drive, users, h⟩]

/-- What a location of a profile begins is behind the profile's separator. -/
theorem IsTail.eq_of_strip {rest head tail : Text} {entry : Text × Text} (h : IsTail rest)
    (hentry : entry ∈ profileVariables) (hpath : (stripPrefix rest ['\\']).getD rest = head ++ tail)
    (hhead : eqIgnoreAsciiCase head entry.2 = true) : rest = '\\' :: (head ++ tail) := by
  rcases h with rfl | ⟨more, rfl⟩
  · have hnil : head = [] := by
      simp only [stripPrefix] at hpath
      exact (List.append_eq_nil_iff.mp hpath.symm).1
    have hlong : ∀ entry ∈ profileVariables, eqIgnoreAsciiCase [] entry.2 = false := by decide
    rw [hnil, hlong entry hentry] at hhead
    cases hhead
  · rw [(stripPrefix_eq_some_iff _ _ _).mpr (show '\\' :: more = ['\\'] ++ more from rfl),
      Option.getD_some] at hpath
    rw [hpath]

/-- A path without the name of the profile it is below, and without what is before that. -/
def besidesProfile (path : Text) : Text := (splitProfile path).elim path Prod.snd

/-- The locations a template of a path may begin at, and the variables that stand for them. -/
def locationsOf (path : Text) : List (Text × Text) :=
  (splitProfile path).elim machineVariables fun parts ↦
    if eqIgnoreAsciiCase parts.1 "public".toList then [("PUBLIC".toList, [])]
    else ("USERPROFILE".toList, []) :: profileVariables.map fun entry ↦ (entry.1, '\\' :: entry.2)

/-- A template has a variable in place of a location, and keeps what follows it. -/
structure Abbreviates (path : Text) (entry : Text × Text) (lead kept : Text) : Prop where
  listed : entry ∈ locationsOf path
  templated_eq : templated path = placeholder entry.1 ++ kept
  besides_eq : besidesProfile path = lead ++ kept
  stands_for : eqIgnoreAsciiCase lead entry.2 = true
  tail : IsTail kept

theorem exists_of_replacePrefix {table : List (Text × Text)} {path template : Text}
    (h : replacePrefix table path = some template) :
    ∃ entry ∈ table, ∃ head tail, path = head ++ tail ∧ eqIgnoreAsciiCase head entry.2 = true ∧
      IsTail tail ∧ template = placeholder entry.1 ++ tail := by
  obtain ⟨entry, hentry, hmade⟩ := List.exists_of_findSome?_eq_some h
  obtain ⟨tail, hstrip, rfl⟩ := Option.map_eq_some_iff.mp hmade
  obtain ⟨head, hpath, hhead, htail⟩ := stripComponentPrefix_eq_some_iff.mp hstrip
  exact ⟨entry, hentry, head, tail, hpath, hhead, htail, rfl⟩

/-- A template is its path, or has a variable in place of a location. -/
theorem templated_eq_or_abbreviates (path : Text) :
    (templated path = path ∧ splitProfile path = none) ∨
      ∃ entry lead kept, Abbreviates path entry lead kept := by
  cases hsplit : splitProfile path with
  | none =>
    have hbesides : besidesProfile path = path := by rw [besidesProfile, hsplit, Option.elim_none]
    have htemplated : templated path = (replacePrefix machineVariables path).getD path := by
      simp only [templated, hsplit]
    cases hreplaced : replacePrefix machineVariables path with
    | none => exact .inl ⟨by rw [htemplated, hreplaced, Option.getD_none], rfl⟩
    | some template =>
      obtain ⟨entry, hentry, head, tail, hpath, hhead, htail, rfl⟩ :=
        exists_of_replacePrefix hreplaced
      refine .inr ⟨entry, head, tail, ?_, ?_, hbesides.trans hpath, hhead, htail⟩
      · rwa [locationsOf, hsplit, Option.elim_none]
      · rw [htemplated, hreplaced, Option.getD_some]
  | some parts =>
    obtain ⟨profile, rest⟩ := parts
    obtain ⟨drive, users, hsplits⟩ := splitProfile_eq_some_iff.mp hsplit
    have hbesides : besidesProfile path = rest := by rw [besidesProfile, hsplit, Option.elim_some]
    have hlocations : locationsOf path =
        if eqIgnoreAsciiCase profile "public".toList then [("PUBLIC".toList, [])]
        else ("USERPROFILE".toList, []) ::
          profileVariables.map fun entry ↦ (entry.1, '\\' :: entry.2) := by
      rw [locationsOf, hsplit, Option.elim_some]
    right
    by_cases hpublic : eqIgnoreAsciiCase profile "public".toList = true
    · rw [if_pos hpublic] at hlocations
      refine ⟨_, [], rest, hlocations ▸ List.mem_cons_self, ?_, hbesides, rfl, hsplits.tail⟩
      simp only [templated, hsplit, hpublic, if_true]
    rw [if_neg hpublic] at hlocations
    have htemplated : templated path =
        (replacePrefix profileVariables ((stripPrefix rest ['\\']).getD rest)).getD
          (placeholder "USERPROFILE".toList ++ rest) := by
      simp only [templated, hsplit, if_neg hpublic]
    cases hreplaced : replacePrefix profileVariables ((stripPrefix rest ['\\']).getD rest) with
    | none =>
      refine ⟨_, [], rest, hlocations ▸ List.mem_cons_self, ?_, hbesides, rfl, hsplits.tail⟩
      rw [htemplated, hreplaced, Option.getD_none]
    | some template =>
      obtain ⟨entry, hentry, head, tail, hpath, hhead, htail, rfl⟩ :=
        exists_of_replacePrefix hreplaced
      refine ⟨(entry.1, '\\' :: entry.2), '\\' :: head, tail, ?_, ?_, ?_, ?_, htail⟩
      · rw [hlocations]
        exact List.mem_cons_of_mem _ (List.mem_map_of_mem hentry)
      · rw [htemplated, hreplaced, Option.getD_some]
      · rw [hbesides]
        exact hsplits.tail.eq_of_strip hentry hpath hhead
      · rw [eqIgnoreAsciiCase_eq_true_iff] at hhead ⊢
        rw [toAsciiLowercase_cons, toAsciiLowercase_cons, hhead]

theorem eq_nil_of_stands {lead : Text} (h : eqIgnoreAsciiCase lead [] = true) : lead = [] := by
  rw [eqIgnoreAsciiCase_eq_true_iff] at h
  exact List.map_eq_nil_iff.mp h

/-- Written out, the template of a path below a profile is what is below the profile. -/
theorem SplitsProfile.writtenOut_templated {path drive users profile rest : Text}
    (h : SplitsProfile path drive users profile rest) :
    toAsciiLowercase (writtenOut (templated path)) = Suggest.placeOf path := by
  have hsplit := splitProfile_eq_some_iff.mpr ⟨drive, users, h⟩
  obtain ⟨-, hnone⟩ | ⟨entry, lead, kept, habbreviates⟩ := templated_eq_or_abbreviates path
  · cases hsplit.symm.trans hnone
  have hrest : rest = lead ++ kept := by
    rw [← habbreviates.besides_eq, besidesProfile, hsplit, Option.elim_some]
  have hlisted := habbreviates.listed
  have hstands := habbreviates.stands_for
  rw [locationsOf, hsplit, Option.elim_some] at hlisted
  rw [h.placeOf, habbreviates.templated_eq, hrest]
  by_cases hpublic : eqIgnoreAsciiCase profile "public".toList = true
  · rw [if_pos hpublic] at hlisted
    obtain rfl := List.mem_singleton.mp hlisted
    have hvariable : profileVariable profile = placeholder "PUBLIC".toList := if_pos hpublic
    rw [eq_nil_of_stands hstands, ← hvariable, writtenOut_profileVariable, List.nil_append]
  have hvariable : profileVariable profile = placeholder "USERPROFILE".toList := if_neg hpublic
  rw [if_neg hpublic] at hlisted
  rcases List.mem_cons.mp hlisted with rfl | hbelow
  · rw [eq_nil_of_stands hstands, ← hvariable, writtenOut_profileVariable, List.nil_append]
  · obtain ⟨location, hlocation, rfl⟩ := List.mem_map.mp hbelow
    have hwritten := writtenOut_variable
      (List.mem_append_right machineVariables (List.mem_map_of_mem hlocation)) kept
    rw [hwritten, hvariable]
    simp only [toAsciiLowercase_append, List.append_assoc, eqIgnoreAsciiCase_eq_true_iff.mp hstands]

/-- What the deny-list accepts begins with the letter of a drive, unless it begins with a blank or a
separator. -/
theorem Accepts.begins {exceptions : Exceptions} {c : Char} {rest : Text}
    (h : Accepts exceptions (c :: rest)) (hblank : isWhitespace c = false) (hslash : c ≠ '/')
    (hbackslash : c ≠ '\\') : isAsciiAlphabetic c.toNat = true ∧ rest.head? = some ':' := by
  obtain ⟨canonical, hcanonical, hcheck⟩ := h
  have hupper : IsUpper canonical.components := IsCanonical.upper ⟨_, .inl hcanonical⟩
  obtain ⟨-, hkind, -⟩ :=
    (evaluateLocation_eq_ok_iff exceptions hupper).mp (evaluateLocation_of_checkPath hcheck)
  obtain ⟨-, root, below, hroot, -⟩ := exists_walk_of_canonicalise hcanonical
  have hunify : unify (c :: rest) = c :: unify rest := by simp [unify, hslash]
  have htrim : trim (unify (c :: rest)) = c :: trimEndMatches isWhitespace (unify rest) := by
    rw [hunify, trim, trimMatches, List.dropWhile_cons_of_neg (by rw [hblank]; decide)]
    exact trimEndMatches_append_cons _ [] _ hblank
  rw [htrim, hkind] at hroot
  cases splitRoot_eq_ok hroot with
  | verbatimDrive hpath _ => exact absurd (List.cons.inj hpath).1 hbackslash
  | drive hspells =>
    obtain ⟨hletter, tail, hpath⟩ := hspells.exists_cons
    obtain ⟨rfl, hbelow⟩ := List.cons.inj hpath
    refine ⟨hletter, ?_⟩
    obtain ⟨more, hmore⟩ := prefix_trimEndMatches isWhitespace (unify rest)
    rw [hbelow, List.cons_append] at hmore
    cases rest with
    | nil => cases hmore
    | cons d rest =>
      rw [unify, List.map_cons, List.cons.injEq] at hmore
      by_cases hd : d = '/'
      · rw [if_pos hd] at hmore
        exact absurd hmore.1 (by decide)
      · rw [if_neg hd] at hmore
        rw [← hmore.1, List.head?_cons]

/-- The deny-list accepts nothing that begins with a variable. -/
theorem Accepts.head_ne {exceptions : Exceptions} {path : Text} (h : Accepts exceptions path) :
    path.head? ≠ some '%' := by
  intro hhead
  obtain ⟨rest, rfl⟩ := List.head?_eq_some_iff.mp hhead
  exact absurd (Accepts.begins h (by decide) (by decide) (by decide)).1 (by decide)

/-- Written out, the template of an accepted path is the path's place. -/
theorem writtenOut_templated {path : Text} (hhead : path.head? ≠ some '%') :
    toAsciiLowercase (writtenOut (templated path)) = placeOf path := by
  cases hsplit : splitProfile path with
  | some parts =>
    obtain ⟨profile, rest⟩ := parts
    obtain ⟨drive, users, hsplits⟩ := splitProfile_eq_some_iff.mp hsplit
    exact hsplits.writtenOut_templated
  | none =>
    have htemplated : templated path = (replacePrefix machineVariables path).getD path := by
      simp only [templated, hsplit]
    have hplace : placeOf path = toAsciiLowercase path := by
      simp only [placeOf, hsplit]
    rw [htemplated, hplace]
    cases hreplaced : replacePrefix machineVariables path with
    | none =>
      rw [Option.getD_none, writtenOut_eq_self]
      intro entry hentry hsame
      apply hhead
      cases path with
      | nil =>
        have hlong : ∀ entry ∈ writtenVariables, (placeholder entry.1).take 3 ≠ [] := by decide
        exact absurd hsame (hlong entry hentry)
      | cons c path => exact congrArg some (List.cons.inj hsame).1.symm
    | some template =>
      obtain ⟨entry, hentry, hmade⟩ := List.exists_of_findSome?_eq_some hreplaced
      obtain ⟨tail, hstrip, rfl⟩ := Option.map_eq_some_iff.mp hmade
      obtain ⟨head, rfl, hhead, -⟩ := stripComponentPrefix_eq_some_iff.mp hstrip
      rw [Option.getD_some, writtenOut_variable (List.mem_append_left _ hentry),
        toAsciiLowercase_append, toAsciiLowercase_append, eqIgnoreAsciiCase_eq_true_iff.mp hhead]

/-! ## A directory and one above it -/

/-- A drive without a separator is refused: it spells the root of its volume. -/
theorem not_accepts_drive {exceptions : Exceptions} {letter : Char}
    (hletter : isAsciiAlphabetic letter.toNat = true) : ¬ Accepts exceptions [letter, ':'] := by
  intro haccepts
  obtain ⟨canonical, hcanonical, hcheck⟩ := haccepts
  have hupper : IsUpper canonical.components := IsCanonical.upper ⟨_, .inl hcanonical⟩
  obtain ⟨-, hkind, hcomponents⟩ :=
    (evaluateLocation_eq_ok_iff exceptions hupper).mp (evaluateLocation_of_checkPath hcheck)
  obtain ⟨-, root, rest, hroot, hwalk, -⟩ := exists_walk_of_canonicalise hcanonical
  have hblank := not_isWhitespace_of_isAsciiAlphabetic hletter
  have hslash : letter ≠ '/' := by
    rintro rfl
    exact absurd hletter (by decide)
  have hunify : unify [letter, ':'] = [letter, ':'] := by
    simp [unify, hslash]
  have htrim : trim (unify [letter, ':']) = [letter, ':'] := by
    rw [hunify]
    apply trimMatches_eq_self
    · simpa using hblank
    · simp only [List.getLast?_cons_cons, List.getLast?_singleton, Option.mem_def,
        Option.some.injEq,
        forall_eq']
      decide
  have hascii : ∀ c ∈ [letter, ':'], c.utf8Size = 1 := by
    intro c hc
    simp only [List.mem_cons, List.not_mem_nil, or_false] at hc
    rcases hc with rfl | rfl
    · exact (isPrintable_of_isAsciiAlphabetic hletter).utf8Size
    · rfl
  rw [htrim, splitRoot_of_drive ⟨hletter, .inr ⟨rfl, rfl⟩⟩ (cutsRoot_of_ascii hascii),
    Outcome.ok.injEq] at hroot
  obtain ⟨-, -, rfl⟩ : PathKind.driveRooted = canonical.kind ∧ [letter.toUpper, ':'] = root ∧
      [] = rest := by simpa using hroot
  have hnil : canonical.components = [] := (normaliseSegments_root_eq_ok hwalk).1
  rw [hnil] at hcomponents
  rcases hcomponents with ⟨file, hfile, -⟩ | ⟨top, below, hbelow, -⟩
  · cases hfile
  · cases hbelow

/-- The `Users` of a drive is refused: it holds every profile. -/
theorem not_accepts_users {exceptions : Exceptions} {letter : Char} {users : Text}
    (hletter : isAsciiAlphabetic letter.toNat = true)
    (husers : eqIgnoreAsciiCase users "Users".toList = true) :
    ¬ Accepts exceptions (letter :: ':' :: '\\' :: users) := by
  intro haccepts
  obtain ⟨-, -, components, hwalk, hcomponents⟩ := (accepts_drive_iff hletter _ _).mp haccepts
  rw [normaliseSegments_segmentsBelow_congr ((eqIgnoreAsciiCase_iff _ _).mp husers)] at hwalk
  have hprofile : normaliseSegments [] .driveRooted
      (segmentsBelow "Users".toList) [] false =
        normaliseSegments [] .driveRooted ["Users".toList, []] [] false := by decide
  rw [hprofile] at hwalk
  exact not_accepts_profileRoot hwalk hcomponents

theorem accepts_of_allowsPath {exceptions : Exceptions} {path : Text}
    (h : allowsPath exceptions path = .ok true) : Accepts exceptions path :=
  (allowsPath_eq_true_iff _ _).mp h

/-- Where the deny-list allows the upper one, the place of a directory is above the places of those
below it. -/
theorem covers_templated {exceptions : Exceptions} {top directory : Text}
    (hallowed : allowsPath exceptions top = .ok true) (hat : AtOrAbove top directory) :
    Covers (writtenOut (templated top)) (writtenOut (templated directory)) := by
  have haccepts := accepts_of_allowsPath hallowed
  rcases hat with rfl | hbelow
  · exact Covers.refl _
  obtain ⟨below, rfl⟩ := isAbove_iff.mp hbelow
  have hhead : (top ++ '\\' :: below).head? ≠ some '%' := by
    have hne := Accepts.head_ne haccepts
    cases top with
    | nil => simp
    | cons c top => exact hne
  rw [Covers, writtenOut_templated (Accepts.head_ne haccepts), writtenOut_templated hhead]
  cases hsplit : splitProfile (top ++ '\\' :: below) with
  | some parts =>
    obtain ⟨profile, rest⟩ := parts
    obtain ⟨drive, users, hsplits⟩ := splitProfile_eq_some_iff.mp hsplit
    obtain ⟨letter, hletter, hdrive⟩ := hsplits.isDrive
    rcases hsplits.above with rfl | rfl | ⟨kept, habove, rfl⟩
    · exact absurd (hdrive ▸ haccepts) (not_accepts_drive hletter)
    · rw [hdrive] at haccepts
      exact absurd haccepts (not_accepts_users hletter hsplits.isUsers)
    · right
      rw [habove.placeOf, hsplits.placeOf]
      apply IsAbove.toAsciiLowercase
      exact isAbove_iff.mpr ⟨below, (List.append_assoc _ _ _).symm⟩
  | none =>
    have hnone : splitProfile top = none := by
      rw [Option.eq_none_iff_forall_ne_some]
      intro parts hparts
      obtain ⟨profile, rest⟩ := parts
      obtain ⟨drive, users, hsplits⟩ := splitProfile_eq_some_iff.mp hparts
      rw [splitProfile_eq_some_iff.mpr ⟨drive, users, hsplits.below below⟩] at hsplit
      cases hsplit
    right
    simp only [placeOf, hsplit, hnone]
    exact IsAbove.toAsciiLowercase hbelow

end WardSweep.Suggest
