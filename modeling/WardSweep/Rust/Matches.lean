import WardSweep.Rust.Str

/-!
# Matches inside a text

What the standard library finds inside a text beyond a first or a last match: all matches, none of
which overlaps the one before, and a number.
-/

namespace WardSweep.Str

open Utf8

/-- `char::is_ascii_alphanumeric`. -/
def isAsciiAlphanumeric (c : Char) : Bool := isAsciiAlphabetic c.toNat || isAsciiDigit c.toNat

/-- `str::trim_end`. -/
def trimEnd (text : Text) : Text := trimEndMatches isWhitespace text

/-- The matches in the rest of a text that begins at an offset, when as many characters of the last
match are still to be passed. -/
def matchesFrom (want : Text) : ℕ → ℕ → Text → List ℕ
  | _, _, [] => []
  | offset, 0, c :: rest =>
    if want.isPrefixOf (c :: rest) then
      offset :: matchesFrom want (offset + 1) (want.length - 1) rest
    else matchesFrom want (offset + 1) 0 rest
  | offset, passing + 1, _ :: rest => matchesFrom want (offset + 1) passing rest

/-- `str::match_indices` for a text that is not empty, counted in characters. -/
def matchIndices (text want : Text) : List ℕ := matchesFrom want 0 0 text

/-- The value of a run of decimal digits, most significant first. -/
def digitsValue (digits : Text) : ℕ := digits.foldl (fun value c ↦ 10 * value + (c.toNat - 48)) 0

/-- `str::parse::<u32>`: digits, with or without a plus sign before them. -/
def parseU32 (text : Text) : Option ℕ :=
  let digits := (stripPrefix text ['+']).getD text
  if digits.isEmpty || digits.any (fun c ↦ !isAsciiDigit c.toNat) ||
    2 ^ 32 ≤ digitsValue digits then
    none
  else some (digitsValue digits)

/-- With nothing left to pass, no match is found exactly where there is none. -/
theorem matchesFrom_eq_nil_iff {want : Text} (hwant : want ≠ []) (offset : ℕ) (text : Text) :
    matchesFrom want offset 0 text = [] ↔ ¬ want <:+: text := by
  induction text generalizing offset with
  | nil => simp [matchesFrom, hwant]
  | cons c rest ih =>
    rw [matchesFrom, List.infix_cons_iff]
    by_cases hbegin : want <+: c :: rest
    · simp [hbegin]
    · simp [hbegin, ih]

theorem matchIndices_eq_nil_iff {want : Text} (hwant : want ≠ []) (text : Text) :
    matchIndices text want = [] ↔ ¬ want <:+: text := matchesFrom_eq_nil_iff hwant 0 text

theorem matchesFrom_drop (want : Text) (offset passing : ℕ) (text : Text) :
    matchesFrom want offset passing text =
      matchesFrom want (offset + passing) 0 (text.drop passing) := by
  induction text generalizing offset passing with
  | nil => cases passing <;> rw [List.drop_nil, matchesFrom, matchesFrom]
  | cons c rest ih =>
    cases passing with
    | zero => rfl
    | succ passing =>
      rw [matchesFrom, ih, List.drop_succ_cons, Nat.add_assoc, Nat.add_comm 1 passing]

/-- A match is passed before the next one is looked for. -/
theorem matchesFrom_hit {want text : Text} {offset : ℕ} (hwant : want ≠ [])
    (hbegin : want <+: text) :
    matchesFrom want offset 0 text =
      offset :: matchesFrom want (offset + want.length) 0 (text.drop want.length) := by
  cases text with
  | nil => exact absurd (List.prefix_nil.mp hbegin) hwant
  | cons c rest =>
    obtain ⟨first, more, rfl⟩ := List.exists_cons_of_ne_nil hwant
    rw [matchesFrom, if_pos (List.isPrefixOf_iff_prefix.mpr hbegin), matchesFrom_drop,
      List.length_cons, Nat.add_sub_cancel, List.drop_succ_cons, Nat.add_assoc,
      Nat.add_comm 1 more.length]

theorem matchesFrom_miss {want : Text} {offset : ℕ} {c : Char} {rest : Text}
    (h : ¬ want <+: c :: rest) :
    matchesFrom want offset 0 (c :: rest) = matchesFrom want (offset + 1) 0 rest := by
  rw [matchesFrom, if_neg fun hbegin ↦ h (List.isPrefixOf_iff_prefix.mp hbegin)]

/-- A match begins where the one before it ends, or later. -/
theorem matchesFrom_spaced {want : Text} (hwant : want ≠ []) (offset : ℕ) (text : Text) :
    (∀ start ∈ matchesFrom want offset 0 text, offset ≤ start) ∧
      (matchesFrom want offset 0 text).Pairwise fun start next ↦ start + want.length ≤ next := by
  induction hcount : text.length using Nat.strong_induction_on generalizing text offset with
  | _ count ih =>
    cases text with
    | nil => exact ⟨by simp [matchesFrom], List.Pairwise.nil⟩
    | cons c rest =>
      rw [List.length_cons] at hcount
      by_cases hbegin : want <+: c :: rest
      · have hpositive : 0 < want.length := List.length_pos_iff.mpr hwant
        have hshorter : ((c :: rest).drop want.length).length < count := by
          rw [List.length_drop, List.length_cons]
          omega
        obtain ⟨hlater, hpairs⟩ := ih _ hshorter (offset + want.length) _ rfl
        rw [matchesFrom_hit hwant hbegin]
        constructor
        · intro start hstart
          cases hstart with
          | head => exact Nat.le_refl _
          | tail _ hstart => exact Nat.le_of_add_right_le (hlater start hstart)
        · exact List.Pairwise.cons hlater hpairs
      · obtain ⟨hlater, hpairs⟩ := ih rest.length (by omega) (offset + 1) rest rfl
        rw [matchesFrom_miss hbegin]
        exact ⟨fun start hstart ↦ Nat.le_of_add_right_le (hlater start hstart), hpairs⟩

theorem prefix_of_mem_matchesFrom {want text : Text} (hwant : want ≠ []) {offset start : ℕ}
    (h : start ∈ matchesFrom want offset 0 text) : want <+: text.drop (start - offset) := by
  induction hcount : text.length using Nat.strong_induction_on generalizing text offset with
  | _ count ih =>
    cases text with
    | nil => exact absurd h List.not_mem_nil
    | cons c rest =>
      rw [List.length_cons] at hcount
      have hlater : ∀ width, 0 < width →
          start ∈ matchesFrom want (offset + width) 0 ((c :: rest).drop width) →
            want <+: (c :: rest).drop (start - offset) := by
        intro width hwidth hstart
        have hbegin := ih _ (by rw [List.length_drop, List.length_cons]; omega) hstart rfl
        have hle := (matchesFrom_spaced hwant (offset + width) _).1 start hstart
        rw [List.drop_drop] at hbegin
        have hsum : width + (start - (offset + width)) = start - offset := by omega
        rwa [hsum] at hbegin
      by_cases hbegin : want <+: c :: rest
      · rw [matchesFrom_hit hwant hbegin] at h
        cases h with
        | head =>
          rw [Nat.sub_self]
          exact hbegin
        | tail _ h => exact hlater want.length (List.length_pos_iff.mpr hwant) h
      · rw [matchesFrom_miss hbegin] at h
        exact hlater 1 Nat.one_pos h

/-- What is found stands where it is found. -/
theorem prefix_of_find {text want : Text} {offset : ℕ} (h : find text want = some offset) :
    want <+: text.drop offset := by
  induction text generalizing offset with
  | nil =>
    unfold find at h
    split at h
    · next hbegin =>
      obtain rfl := Option.some.inj h
      exact List.isPrefixOf_iff_prefix.mp hbegin
    · cases h
  | cons c text ih =>
    unfold find at h
    split at h
    · next hbegin =>
      obtain rfl := Option.some.inj h
      exact List.isPrefixOf_iff_prefix.mp hbegin
    · obtain ⟨rest, hrest, rfl⟩ := Option.map_eq_some_iff.mp h
      exact ih hrest

/-- What stands somewhere is found there or before. -/
theorem exists_find_of_prefix {text want : Text} {offset : ℕ} (h : want <+: text.drop offset) :
    ∃ first ≤ offset, find text want = some first := by
  induction text generalizing offset with
  | nil =>
    rw [List.drop_nil] at h
    refine ⟨0, Nat.zero_le _, ?_⟩
    rw [find, if_pos (List.isPrefixOf_iff_prefix.mpr h)]
  | cons c text ih =>
    by_cases hbegin : want.isPrefixOf (c :: text) = true
    · refine ⟨0, Nat.zero_le _, ?_⟩
      rw [find, if_pos hbegin]
    · cases offset with
      | zero => exact absurd (List.isPrefixOf_iff_prefix.mpr h) hbegin
      | succ offset =>
        obtain ⟨first, hle, hfind⟩ := ih h
        refine ⟨first + 1, Nat.succ_le_succ hle, ?_⟩
        rw [find, if_neg hbegin, hfind]
        rfl

/-- A character is found where it first stands. -/
theorem of_find_singleton {text : Text} {c : Char} {offset : ℕ} (h : find text [c] = some offset) :
    c ∉ text.take offset ∧ text = text.take offset ++ c :: text.drop (offset + 1) := by
  induction text generalizing offset with
  | nil => cases h
  | cons d text ih =>
    rw [find] at h
    split at h
    · next hbegin =>
      obtain rfl := Option.some.inj h
      obtain ⟨rfl, -⟩ := List.cons_prefix_cons.mp (List.isPrefixOf_iff_prefix.mp hbegin)
      exact ⟨List.not_mem_nil, rfl⟩
    · next hbegin =>
      obtain ⟨rest, hrest, rfl⟩ := Option.map_eq_some_iff.mp h
      have hne : c ≠ d := by
        rintro rfl
        exact hbegin (by simp)
      obtain ⟨hnot, hsplit⟩ := ih hrest
      rw [List.take_succ_cons, List.drop_succ_cons, List.cons_append, ← hsplit,
        List.mem_cons, not_or]
      exact ⟨⟨hne, hnot⟩, rfl⟩

/-- What a text is split at stands behind the first part, and not in it. -/
theorem of_splitOnce_singleton {text before after : Text} {c : Char}
    (h : splitOnce text [c] = some (before, after)) : c ∉ before ∧ text = before ++ c :: after := by
  obtain ⟨offset, hfind, hparts⟩ := Option.map_eq_some_iff.mp h
  obtain ⟨rfl, rfl⟩ := Prod.mk.inj hparts
  exact of_find_singleton hfind

/-- A text is split at the first of its separators. -/
theorem splitOnce_append_cons {before : Text} {c : Char} (hbefore : c ∉ before) (after : Text) :
    splitOnce (before ++ c :: after) [c] = some (before, after) := by
  have hfind : find (before ++ c :: after) [c] = some before.length := by
    induction before with
    | nil => simp [find]
    | cons d before ih =>
      rw [List.mem_cons, not_or] at hbefore
      rw [List.cons_append, find, if_neg (by simp [hbefore.1]), ih hbefore.2]
      rfl
  rw [splitOnce, hfind, Option.map_some, List.take_left, ← List.drop_drop, List.drop_left]
  rfl

/-- What has a character that a text has not is not found in it. -/
theorem rfindText_eq_none_of_mem {text want : Text} {c : Char} (hc : c ∈ want) (h : c ∉ text) :
    rfindText text want = none := by
  have hnot : ¬ want <+: text := fun hbegin ↦ h (hbegin.subset hc)
  induction text with
  | nil => rw [rfindText, if_neg (List.ne_nil_of_mem hc)]
  | cons d text ih =>
    have hrest : c ∉ text := fun hmem ↦ h (List.mem_cons_of_mem d hmem)
    rw [rfindText, ih hrest fun hbegin ↦ hrest (hbegin.subset hc),
      if_neg (by rwa [List.isPrefixOf_iff_prefix])]

theorem rfindText_eq_none {text : Text} {c : Char} (h : c ∉ text) : rfindText text [c] = none :=
  rfindText_eq_none_of_mem List.mem_cons_self h

/-- What stands once more nowhere behind its beginning is found there. -/
theorem rfindText_append {want rest : Text} {c : Char} (hbegin : want <+: c :: rest)
    (hrest : rfindText rest want = none) (before : Text) :
    rfindText (before ++ c :: rest) want = some before.length := by
  induction before with
  | nil => rw [List.nil_append, rfindText, hrest,
      if_pos (List.isPrefixOf_iff_prefix.mpr hbegin)]; rfl
  | cons d before ih => rw [List.cons_append, rfindText, ih]; rfl

/-- What a text does not hold, nor begins at its end, is found behind the text. -/
theorem find_append {before want : Text} (h : ¬ want <:+: before ++ want.dropLast) (after : Text) :
    find (before ++ want ++ after) want = some before.length := by
  induction before with
  | nil =>
    rw [List.nil_append]
    unfold find
    rw [if_pos (List.isPrefixOf_iff_prefix.mpr (List.prefix_append want after))]
    rfl
  | cons c before ih =>
    have hnot : ¬ want <+: c :: before ++ want ++ after := by
      intro hbegin
      have hfits : want.length ≤ (c :: before ++ want.dropLast).length := by
        simp only [List.length_append, List.length_cons, List.length_dropLast]
        omega
      have hshort : c :: before ++ want.dropLast <+: c :: before ++ want ++ after := by
        rw [List.append_assoc, List.prefix_append_right_inj]
        exact (List.dropLast_prefix want).trans (List.prefix_append _ _)
      exact h (List.prefix_of_prefix_length_le hbegin hshort hfits).isInfix
    have hrest : ¬ want <:+: before ++ want.dropLast := fun hinner ↦
      h (hinner.trans (List.suffix_cons c _).isInfix)
    rw [List.cons_append, List.cons_append, find, if_neg (by rwa [List.isPrefixOf_iff_prefix]),
      ih hrest]
    rfl

theorem rfindText_append_cons {before after : Text} {c : Char} (h : c ∉ after) :
    rfindText (before ++ c :: after) [c] = some before.length :=
  rfindText_append (by simp) (rfindText_eq_none h) before

theorem rfindText_map {change : Char → Char} {c : Char} (hchange : ∀ d, change d = c ↔ d = c)
    (text : Text) : rfindText (text.map change) [c] = rfindText text [c] := by
  induction text with
  | nil => rfl
  | cons d text ih =>
    have hbegin : [c].isPrefixOf (change d :: text.map change) = [c].isPrefixOf (d :: text) := by
      rw [Bool.eq_iff_iff, List.isPrefixOf_iff_prefix, List.isPrefixOf_iff_prefix,
        List.cons_prefix_cons, List.cons_prefix_cons, eq_comm, hchange, eq_comm]
      simp only [List.nil_prefix]
    rw [List.map_cons, rfindText, rfindText, ih, hbegin]

/-- What leaves the separators alone can be done to both parts. -/
theorem rsplitOnce_map {change : Char → Char} {c : Char} (hchange : ∀ d, change d = c ↔ d = c)
    (text : Text) : rsplitOnce (text.map change) [c] =
      (rsplitOnce text [c]).map (Prod.map (List.map change) (List.map change)) := by
  rw [rsplitOnce, rsplitOnce, rfindText_map hchange, Option.map_map]
  congr 1
  funext offset
  rw [Function.comp_apply, Prod.map_apply, List.map_take, List.map_drop]

/-- A text is split at the last of its separators. -/
theorem rsplitOnce_append_cons {before after : Text} {c : Char} (h : c ∉ after) :
    rsplitOnce (before ++ c :: after) [c] = some (before, after) := by
  rw [rsplitOnce, rfindText_append_cons h, Option.map_some, List.take_left, ← List.drop_drop,
    List.drop_left]
  rfl

theorem rsplitOnce_eq_some_iff {text before after : Text} {c : Char} :
    rsplitOnce text [c] = some (before, after) ↔ c ∉ after ∧ text = before ++ c :: after := by
  constructor
  · intro h
    by_cases hmem : c ∈ text
    · obtain ⟨after', before', hreverse, hafter⟩ :=
        List.eq_append_cons_of_mem (List.mem_reverse.mpr hmem)
      have htext : text = before'.reverse ++ c :: after'.reverse := by
        rw [← List.reverse_reverse text, hreverse]
        simp
      have hnot : c ∉ after'.reverse := by rwa [List.mem_reverse]
      rw [htext, rsplitOnce_append_cons hnot] at h
      obtain ⟨rfl, rfl⟩ := Prod.mk.inj (Option.some.inj h)
      exact ⟨hnot, htext⟩
    · rw [rsplitOnce, rfindText_eq_none hmem] at h
      cases h
  · rintro ⟨hafter, rfl⟩
    exact rsplitOnce_append_cons hafter

theorem eqIgnoreAsciiCase_eq_true_iff {left right : Text} :
    eqIgnoreAsciiCase left right = true ↔ toAsciiLowercase left = toAsciiLowercase right :=
  beq_iff_eq

end WardSweep.Str
