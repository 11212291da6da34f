import WardSweep.Redact.InBytes

/-!
# Where text and bytes part

A placeholder begins with a percent sign.  Where no name does, two replacements of one name that
stop at different places give different results, and a broken-off SID leaves fewer percent signs in
the bytes than in the text.
-/

namespace WardSweep.Redact

open Utf8 Str

/-! ## Places -/

/-- What is accepted and not found lies inside what is found. -/
theorem exists_mem_encodedFrom {accepts : ℕ → Bool} {pattern : List UInt8} (hpattern : pattern ≠ [])
    {bytes : List UInt8} {offset k : ℕ}
    (hbegin : pattern.map lowerByte <+: (bytes.drop k).map lowerByte)
    (haccepts : accepts (offset + k) = true) :
    ∃ start ∈ encodedFrom accepts pattern offset 0 bytes,
      start ≤ offset + k ∧ offset + k < start + pattern.length := by
  have hpositive : 0 < pattern.length := List.length_pos_iff.mpr hpattern
  induction hcount : bytes.length using Nat.strong_induction_on generalizing bytes offset k with
  | _ count ih =>
    have hlong : pattern.length ≤ bytes.length - k := by simpa using hbegin.length_le
    by_cases hhere : pattern.map lowerByte <+: bytes.map lowerByte ∧ accepts offset = true
    · rw [encodedFrom_hit hpattern hhere.1 hhere.2]
      rcases Nat.lt_or_ge k pattern.length with hlt | hge
      · exact ⟨offset, List.mem_cons_self, Nat.le_add_right _ _, Nat.add_lt_add_left hlt offset⟩
      · have hdrop : bytes.drop k = (bytes.drop pattern.length).drop (k - pattern.length) := by
          rw [List.drop_drop, Nat.add_sub_of_le hge]
        have hoffset : offset + k = offset + pattern.length + (k - pattern.length) := by omega
        rw [hdrop] at hbegin
        rw [hoffset] at haccepts ⊢
        obtain ⟨start, hstart, hnear⟩ := ih (bytes.drop pattern.length).length
          (by rw [List.length_drop]; omega) hbegin haccepts rfl
        exact ⟨start, List.mem_cons_of_mem _ hstart, hnear⟩
    · have hfirst : k ≠ 0 := by
        rintro rfl
        exact hhere ⟨hbegin, haccepts⟩
      obtain ⟨k, rfl⟩ := Nat.exists_eq_succ_of_ne_zero hfirst
      have hskip : encodedFrom accepts pattern offset 0 bytes =
          encodedFrom accepts pattern (offset + 1) 0 (bytes.drop 1) := by
        apply encodedFrom_skip
        intro j hj hthere
        obtain rfl : j = 0 := by omega
        exact Bool.eq_false_iff.mpr fun haccepted ↦ hhere ⟨hthere, haccepted⟩
      have hdrop : bytes.drop (k + 1) = (bytes.drop 1).drop k := by
        rw [List.drop_drop, Nat.add_comm]
      have hoffset : offset + (k + 1) = offset + 1 + k := by omega
      rw [Nat.succ_eq_add_one, hdrop] at hbegin
      rw [Nat.succ_eq_add_one, hoffset] at haccepts ⊢
      rw [hskip]
      exact ih (bytes.drop 1).length (by rw [List.length_drop]; omega) hbegin haccepts rfl

/-- Up to the first place the bytes are kept. -/
theorem getElem?_rebuild {bytes replacement : List UInt8} {width cursor k : ℕ} {starts : List ℕ}
    (hcursor : cursor ≤ k) (hstarts : ∀ start ∈ starts.head?, k < start ∧ start < bytes.length) :
    (rebuild bytes replacement width cursor starts)[k - cursor]? = bytes[k]? := by
  cases starts with
  | nil => rw [rebuild, List.getElem?_drop, Nat.add_sub_of_le hcursor]
  | cons start starts =>
    obtain ⟨hlt, hbound⟩ := hstarts start rfl
    rw [rebuild, List.append_assoc, List.getElem?_append_left, List.getElem?_drop,
      Nat.add_sub_of_le hcursor, List.getElem?_take_of_lt hlt]
    rw [List.length_drop, List.length_take_of_le hbound.le]
    omega

/-- At the first place the replacement begins. -/
theorem getElem?_rebuild_start {bytes replacement : List UInt8} {mark : UInt8}
    (hmark : replacement.head? = some mark) {width cursor start : ℕ} {starts : List ℕ}
    (hbound : start < bytes.length) :
    (rebuild bytes replacement width cursor (start :: starts))[start - cursor]? = some mark := by
  obtain ⟨more, rfl⟩ : ∃ more, replacement = mark :: more := by
    cases replacement with
    | nil => cases hmark
    | cons first more => exact ⟨more, by rw [Option.some.inj hmark]⟩
  have hlength : ((bytes.take start).drop cursor).length = start - cursor := by
    rw [List.length_drop, List.length_take_of_le hbound.le]
  rw [rebuild, List.append_assoc, List.getElem?_append_right hlength.le, hlength, Nat.sub_self]
  rfl

/-- Where the replacement begins with what stands at none of the places, the result tells where they
are. -/
theorem rebuild_injective {bytes replacement : List UInt8} {mark : UInt8}
    (hmark : replacement.head? = some mark) {width : ℕ} {left right : List ℕ} {cursor : ℕ}
    (hleft : ∀ start ∈ left, cursor ≤ start ∧ start < bytes.length ∧ bytes[start]? ≠ some mark)
    (hright : ∀ start ∈ right, cursor ≤ start ∧ start < bytes.length ∧ bytes[start]? ≠ some mark)
    (hleftSpaced : left.Pairwise fun start next ↦ start + width ≤ next)
    (hrightSpaced : right.Pairwise fun start next ↦ start + width ≤ next)
    (h : rebuild bytes replacement width cursor left =
      rebuild bytes replacement width cursor right) :
    left = right := by
  -- The side whose first place comes first holds the mark there, and the other does not.
  have hdiffer : ∀ {cursor start : ℕ} {starts others : List ℕ}, cursor ≤ start →
      start < bytes.length → bytes[start]? ≠ some mark →
      (∀ other ∈ others.head?, start < other ∧ other < bytes.length) →
      rebuild bytes replacement width cursor (start :: starts) ≠
        rebuild bytes replacement width cursor others := by
    intro cursor start starts others hcursor hbound hkept hothers heq
    have hmarked : (rebuild bytes replacement width cursor (start :: starts))[start - cursor]? =
        some mark := getElem?_rebuild_start hmark hbound
    rw [heq, getElem?_rebuild hcursor hothers] at hmarked
    exact hkept hmarked
  induction left generalizing right cursor with
  | nil =>
    cases right with
    | nil => rfl
    | cons start starts =>
      obtain ⟨hcursor, hbound, hkept⟩ := hright start List.mem_cons_self
      exact absurd h.symm (hdiffer hcursor hbound hkept (by simp))
  | cons start starts ih =>
    obtain ⟨hcursor, hbound, hkept⟩ := hleft start List.mem_cons_self
    cases right with
    | nil => exact absurd h (hdiffer hcursor hbound hkept (by simp))
    | cons other others =>
      obtain ⟨hcursor', hbound', hkept'⟩ := hright other List.mem_cons_self
      rcases Nat.lt_trichotomy start other with hlt | rfl | hlt
      · exact absurd h (hdiffer hcursor hbound hkept (by simpa using ⟨hlt, hbound'⟩))
      · obtain ⟨hlater, hspaced⟩ := List.pairwise_cons.mp hleftSpaced
        obtain ⟨hlater', hspaced'⟩ := List.pairwise_cons.mp hrightSpaced
        rw [rebuild, rebuild, List.append_cancel_left_eq] at h
        have hrest : starts = others := ih
          (fun next hnext ↦ ⟨hlater next hnext, (hleft next (List.mem_cons_of_mem _ hnext)).2⟩)
          (fun next hnext ↦ ⟨hlater' next hnext, (hright next (List.mem_cons_of_mem _ hnext)).2⟩)
          hspaced hspaced' h
        rw [hrest]
      · exact absurd h.symm (hdiffer hcursor' hbound' hkept' (by simpa using ⟨hlt, hbound⟩))

/-! ## One turn -/

/-- What is found begins with the pattern, and ends before what is found next. -/
theorem encodedFrom_sound {accepts : ℕ → Bool} {pattern : List UInt8} (hpattern : pattern ≠ [])
    (bytes : List UInt8) (offset : ℕ) :
    (∀ start ∈ encodedFrom accepts pattern offset 0 bytes, offset ≤ start ∧
      pattern.map lowerByte <+: (bytes.drop (start - offset)).map lowerByte) ∧
      (encodedFrom accepts pattern offset 0 bytes).Pairwise
        fun start next ↦ start + pattern.length ≤ next := by
  have hpositive : 0 < pattern.length := List.length_pos_iff.mpr hpattern
  induction hcount : bytes.length using Nat.strong_induction_on generalizing bytes offset with
  | _ count ih =>
    cases bytes with
    | nil => simp [encodedFrom]
    | cons byte rest =>
      rw [List.length_cons] at hcount
      have hlater : ∀ width, 0 < width → ∀ start ∈ encodedFrom accepts pattern (offset + width) 0
          ((byte :: rest).drop width), offset + width ≤ start ∧
            pattern.map lowerByte <+: ((byte :: rest).drop (start - offset)).map lowerByte := by
        intro width hwidth start hstart
        obtain ⟨hle, hbegin⟩ := (ih ((byte :: rest).drop width).length
          (by rw [List.length_drop, List.length_cons]; omega) _ (offset + width) rfl).1 start hstart
        rw [List.drop_drop] at hbegin
        have hsum : width + (start - (offset + width)) = start - offset := by omega
        rw [hsum] at hbegin
        exact ⟨hle, hbegin⟩
      have hpairs : ∀ width, 0 < width → (encodedFrom accepts pattern (offset + width) 0
          ((byte :: rest).drop width)).Pairwise fun start next ↦ start + pattern.length ≤ next := by
        intro width hwidth
        exact (ih ((byte :: rest).drop width).length
          (by rw [List.length_drop, List.length_cons]; omega) _ (offset + width) rfl).2
      by_cases hhere : pattern.map lowerByte <+: (byte :: rest).map lowerByte ∧
        accepts offset = true
      · rw [encodedFrom_hit hpattern hhere.1 hhere.2]
        constructor
        · intro start hstart
          cases hstart with
          | head => exact ⟨Nat.le_refl _, by rw [Nat.sub_self]; exact hhere.1⟩
          | tail _ hstart =>
            obtain ⟨hle, hbegin⟩ := hlater pattern.length hpositive start hstart
            exact ⟨Nat.le_of_add_right_le hle, hbegin⟩
        · exact List.Pairwise.cons (fun start hstart ↦
            (hlater pattern.length hpositive start hstart).1)
            (hpairs pattern.length hpositive)
      · have hskip : encodedFrom accepts pattern offset 0 (byte :: rest) =
            encodedFrom accepts pattern (offset + 1) 0 ((byte :: rest).drop 1) := by
          apply encodedFrom_skip
          intro j hj hthere
          obtain rfl : j = 0 := by omega
          exact Bool.eq_false_iff.mpr fun haccepted ↦ hhere ⟨hthere, haccepted⟩
        rw [hskip]
        constructor
        · intro start hstart
          obtain ⟨hle, hbegin⟩ := hlater 1 Nat.one_pos start hstart
          exact ⟨Nat.le_of_add_right_le hle, hbegin⟩
        · exact hpairs 1 Nat.one_pos

/-! ## One turn -/

section Turn

variable {wide : Bool} {text name placeholder : Text}

/-- A name that does not begin with a percent sign stands at no percent sign. -/
theorem kept_of_prefix (hname : IsAscii name) (hne : name ≠ []) (hhead : name.head? ≠ some '%')
    {bytes : List UInt8} {start : ℕ}
    (hbegin : (encode name wide).map lowerByte <+: (bytes.drop start).map lowerByte) :
    start < bytes.length ∧ bytes[start]? ≠ some 37 := by
  obtain ⟨c, more, rfl⟩ := List.exists_cons_of_ne_nil hne
  obtain ⟨hc, -⟩ := isAscii_cons.mp hname
  rw [encode_cons, encodeChar_of_ascii hc] at hbegin
  have hfirst : ∃ rest, (asciiBytes c wide ++ encode more wide).map lowerByte =
      lowerByte (UInt8.ofNat c.toNat) :: rest := by
    cases wide <;> exact ⟨_, rfl⟩
  obtain ⟨rest, hrest⟩ := hfirst
  rw [hrest] at hbegin
  cases hdrop : bytes.drop start with
  | nil =>
    rw [hdrop] at hbegin
    exact absurd (List.prefix_nil.mp hbegin) (List.cons_ne_nil _ _)
  | cons byte after =>
    rw [hdrop, List.map_cons, List.cons_prefix_cons] at hbegin
    have hthere : bytes[start]? = some byte := by
      rw [← Nat.add_zero start, ← List.getElem?_drop, hdrop]
      rfl
    refine ⟨(List.getElem?_eq_some_iff.mp hthere).1, ?_⟩
    rw [hthere]
    rintro hmark
    obtain rfl := Option.some.inj hmark
    apply hhead
    have hnat := congrArg UInt8.toNat hbegin.1
    have hmark : (37 : UInt8).toNat = 37 := rfl
    rw [lowerByte_ofNat hc, toNat_lowerByte, hmark] at hnat
    simp only [UInt8.toNat_ofNat', toNat_toLower] at hnat
    have hpercent : c.toNat = 37 := by
      split_ifs at hnat <;> omega
    exact congrArg some (char_ext_toNat hpercent)

theorem prefix_of_mem_findIgnoringCase {start : ℕ} (h : start ∈ findIgnoringCase text name) :
    toAsciiLowercase name <+: toAsciiLowercase (text.drop start) := by
  unfold findIgnoringCase at h
  split at h
  · exact absurd h List.not_mem_nil
  · next hguard =>
    have hlower : toAsciiLowercase name ≠ [] := by
      rw [toAsciiLowercase, ne_eq, List.map_eq_nil_iff]
      rintro rfl
      exact hguard (by simp)
    have hbegin := prefix_of_mem_matchesFrom hlower h
    have hdrop : (toAsciiLowercase text).drop start = toAsciiLowercase (text.drop start) :=
      List.map_drop.symm
    rwa [Nat.sub_zero, hdrop] at hbegin

theorem applyEncoded_fst (used : List Text) (bytes : List UInt8) :
    (applyEncoded name placeholder wide (bytes, used)).1 =
      rebuild bytes (encode placeholder wide) (encode name wide).length 0
        (findEncoded bytes name wide true) := by
  rw [applyEncoded]
  split
  · next hnil => rw [hnil, rebuild, List.drop_zero]
  · rfl

theorem applyBareName_fst (used : List Text) :
    (applyBareName (text, used) (name, placeholder)).1 =
      (bareNamesFrom text placeholder name.length 0 (findIgnoringCase text name)).1 := by
  rw [applyBareName, replaceBareName_eq]
  by_cases hany : (findIgnoringCase text name).any (isAlone text · name.length) = true
  · rw [if_pos hany]
    rfl
  · rw [if_neg hany]
    have hkept : ∀ starts : List ℕ, starts.any (isAlone text · name.length) ≠ true →
        (bareNamesFrom text placeholder name.length 0 starts).1 = text := by
      intro starts hstarts
      induction starts with
      | nil => rfl
      | cons start starts ih =>
        rw [List.any_cons, ne_eq, Bool.or_eq_true, not_or] at hstarts
        rw [bareNamesFrom, if_neg (Nat.not_lt_zero start), if_neg hstarts.1]
        exact ih hstarts.2
    exact (hkept _ hany).symm

/-- When both replacements of a name give the same result, both scans stopped at the same places. -/
theorem findEncoded_of_agrees (htext : IsAscii text) (hname : IsAscii name) (hne : name ≠ [])
    (hhead : name.head? ≠ some '%') (hplaceholder : placeholder.head? = some '%') (used : List Text)
    (h : (applyEncoded name placeholder wide (encode text wide, used)).1 =
      encode (applyBareName (text, used) (name, placeholder)).1 wide) :
    findEncoded (encode text wide) name wide true =
      ((findIgnoringCase text name).filter (isAlone text · name.length)).map
        (unitLength wide * ·) := by
  have hpattern : encode name wide ≠ [] := (encode_eq_nil_iff name wide).not.mpr hne
  have hmark : (encode placeholder wide).head? = some 37 := by
    cases placeholder with
    | nil => cases hplaceholder
    | cons c more =>
      obtain rfl := Option.some.inj hplaceholder
      cases wide <;> rfl
  have hrebuilt : rebuild (encode text wide) (encode placeholder wide)
      (unitLength wide * name.length) (unitLength wide * 0) _ = _ :=
    rebuild_encode htext (findIgnoringCase text name) 0 (fun _ _ ↦ Nat.zero_le _)
      (findIgnoringCase_spaced text name)
  rw [Nat.mul_zero] at hrebuilt
  rw [applyEncoded_fst, applyBareName_fst, ← hrebuilt, ← length_encode hname] at h
  have hfound : (∀ start ∈ findEncoded (encode text wide) name wide true,
      (encode name wide).map lowerByte <+: ((encode text wide).drop start).map lowerByte) ∧
      (findEncoded (encode text wide) name wide true).Pairwise
        fun start next ↦ start + (encode name wide).length ≤ next := by
    simp only [findEncoded]
    split
    · exact ⟨fun start hstart ↦ absurd hstart List.not_mem_nil, List.Pairwise.nil⟩
    · obtain ⟨hall, hspaced⟩ := encodedFrom_sound hpattern (encode text wide) 0
      exact ⟨fun start hstart ↦ (hall start hstart).2, hspaced⟩
  apply rebuild_injective hmark _ _ hfound.2 _ h
  · intro start hstart
    exact ⟨Nat.zero_le _, kept_of_prefix hname hne hhead (hfound.1 start hstart)⟩
  · intro place hplace
    obtain ⟨start, hstart, rfl⟩ := List.mem_map.mp hplace
    have hbegin := prefix_of_mem_findIgnoringCase (List.mem_of_mem_filter hstart)
    rw [← map_lowerByte_prefix_iff hname (htext.drop start) wide, ← drop_encode htext] at hbegin
    exact ⟨Nat.zero_le _, kept_of_prefix hname hne hhead hbegin⟩
  · rw [List.pairwise_map, length_encode hname]
    apply List.Pairwise.imp _ ((findIgnoringCase_spaced text name).filter _)
    intro start next hle
    rw [← Nat.mul_add]
    exact Nat.mul_le_mul_left _ hle

/-- Two places of which one ends before the next are one place or lie apart. -/
theorem apart_of_spaced {width : ℕ} {starts : List ℕ}
    (h : starts.Pairwise fun start next ↦ start + width ≤ next) {left right : ℕ}
    (hleft : left ∈ starts) (hright : right ∈ starts) :
    left = right ∨ left + width ≤ right ∨ right + width ≤ left := by
  induction h with
  | nil => exact absurd hleft List.not_mem_nil
  | cons hlater _ ih =>
    cases hleft with
    | head =>
      cases hright with
      | head => exact .inl rfl
      | tail _ hright => exact .inr (.inl (hlater right hright))
    | tail _ hleft =>
      cases hright with
      | head => exact .inr (.inr (hlater left hleft))
      | tail _ hright => exact ih hleft hright

/-- A text that is not all NUL ends in a character that is not, and a run of NUL characters. -/
theorem exists_last_not_nul {text : Text} (h : ∃ c ∈ text, c ≠ nul) :
    ∃ before c run, text = before ++ c :: run ∧ c ≠ nul ∧ ∀ d ∈ run, d = nul := by
  induction text using List.reverseRecOn with
  | nil =>
    obtain ⟨c, hc, -⟩ := h
    exact absurd hc List.not_mem_nil
  | append_singleton text d ih =>
    by_cases hd : d = nul
    · have hsome : ∃ c ∈ text, c ≠ nul := by
        obtain ⟨c, hc, hne⟩ := h
        rcases List.mem_append.mp hc with hc | hc
        · exact ⟨c, hc, hne⟩
        · exact absurd ((List.mem_singleton.mp hc).trans hd) hne
      obtain ⟨before, c, run, rfl, hc, hrun⟩ := ih hsome
      refine ⟨before, c, run ++ [d], by simp, hc, ?_⟩
      intro e he
      rcases List.mem_append.mp he with he | he
      · exact hrun e he
      · exact (List.mem_singleton.mp he).trans hd
    · exact ⟨text, d, [], rfl, hd, fun e he ↦ absurd he List.not_mem_nil⟩

/-- A name of NUL characters behind those a text begins with can be found right behind another
character. -/
theorem exists_before_run (hne : name ≠ []) (hnul : ∀ c ∈ name, c = nul)
    (hinner : name <:+: text.dropWhile (· == nul)) :
    ∃ before c after, text = before ++ c :: (name ++ after) ∧ c ≠ nul := by
  have hsplit : text = text.takeWhile (· == nul) ++ text.dropWhile (· == nul) :=
    List.takeWhile_append_dropWhile.symm
  obtain ⟨between, after, hafter⟩ := hinner
  have hsome : ∃ c ∈ between, c ≠ nul := by
    have hnot := List.head?_dropWhile_not (· == nul) text
    rw [← hafter] at hnot
    cases between with
    | nil =>
      obtain ⟨c, more, rfl⟩ := List.exists_cons_of_ne_nil hne
      rw [hnul c List.mem_cons_self] at hnot
      exact absurd hnot (by simp)
    | cons c between => exact ⟨c, List.mem_cons_self, by simpa using hnot⟩
  obtain ⟨before, c, run, rfl, hc, hrun⟩ := exists_last_not_nul hsome
  have hcommute : run ++ name = name ++ run := by
    rw [List.eq_replicate_of_mem hrun, List.eq_replicate_of_mem hnul,
      List.replicate_append_replicate,
      List.replicate_append_replicate, Nat.add_comm]
  refine ⟨text.takeWhile (· == nul) ++ before, c, run ++ after, ?_, hc⟩
  rw [← List.append_assoc name, ← hcommute]
  conv_lhs => rw [hsplit, ← hafter]
  simp

/-- No letter or digit of UTF-16 begins inside a character of an ASCII text. -/
theorem isWordAt_inside (htext : IsAscii text) (index : ℕ) :
    isWordAt (encode text true) true (2 * index + 1) = false := by
  have hdrop : (encode text true).drop (2 * index) = encode (text.drop index) true :=
    drop_encode htext true index
  have hbyte : (encode text true)[2 * index + 1]? = (encode (text.drop index) true)[1]? := by
    rw [← hdrop, List.getElem?_drop]
  rw [isWordAt, hbyte]
  cases hrest : text.drop index with
  | nil => simp
  | cons c rest =>
    have hc : c.toNat < 128 := htext.drop index c (by rw [hrest]; exact List.mem_cons_self)
    rw [encode_cons, encodeChar_of_ascii hc]
    rfl

/-- Scans that stop at the same places hide nothing, and never leave the characters. -/
theorem scansAlike_of_findEncoded (htext : IsAscii text) (hname : IsAscii name) (hne : name ≠ [])
    (h : findEncoded (encode text wide) name wide true =
      ((findIgnoringCase text name).filter (isAlone text · name.length)).map
        (unitLength wide * ·)) :
    HidesNothing text name ∧ (wide = true → KeepsAligned text name) := by
  have hpattern : encode name wide ≠ [] := (encode_eq_nil_iff name wide).not.mpr hne
  -- Whatever stands alone in the bytes lies inside a match of the text that stands alone.
  have hcovered : ∀ offset,
      (encode name wide).map lowerByte <+: ((encode text wide).drop offset).map lowerByte →
        isAloneEncoded (encode text wide) wide offset (unitLength wide * name.length) = true →
          ∃ start ∈ findIgnoringCase text name, isAlone text start name.length = true ∧
            unitLength wide * start ≤ offset ∧
              offset < unitLength wide * start + unitLength wide * name.length := by
    intro offset hbegin halone
    have hlong : ¬ ((encode name wide).isEmpty ∨
        (encode text wide).length < (encode name wide).length) := by
      have hle := hbegin.length_le
      rw [List.length_map, List.length_map, List.length_drop] at hle
      rintro (hempty | hlt)
      · exact hpattern (List.isEmpty_iff.mp hempty)
      · omega
    have hfound : ∃ start ∈ findEncoded (encode text wide) name wide true,
        start ≤ offset ∧ offset < start + (encode name wide).length := by
      rw [← Nat.zero_add offset]
      simp only [findEncoded, Bool.or_eq_true, decide_eq_true_eq]
      rw [if_neg hlong]
      apply exists_mem_encodedFrom hpattern hbegin
      rw [Nat.zero_add, length_encode hname]
      exact halone
    obtain ⟨place, hplace, hle, hlt⟩ := hfound
    rw [h] at hplace
    obtain ⟨start, hstart, rfl⟩ := List.mem_map.mp hplace
    rw [length_encode hname] at hlt
    obtain ⟨hmem, halone⟩ := List.mem_filter.mp hstart
    exact ⟨start, hmem, halone, hle, hlt⟩
  constructor
  · intro first hfirst hfirstAlone inside hinside hpos hbegin
    by_contra hsome
    have halone : isAloneEncoded (encode text wide) wide (unitLength wide * (first + inside))
        (unitLength wide * name.length) = true := by
      rw [isAloneEncoded_encode htext]
      exact eq_true_of_ne_false hsome
    obtain ⟨start, hstart, hstartAlone, hle, hlt⟩ := hcovered (unitLength wide * (first + inside))
      (by rwa [drop_encode htext, map_lowerByte_prefix_iff hname (htext.drop _)]) halone
    rw [← Nat.mul_add] at hlt
    have hle' : start ≤ first + inside := Nat.le_of_mul_le_mul_left hle (unitLength_pos wide)
    have hlt' : first + inside < start + name.length := Nat.lt_of_mul_lt_mul_left hlt
    have hne : start ≠ first := by
      rintro rfl
      rw [hstartAlone] at hfirstAlone
      exact Bool.noConfusion hfirstAlone
    -- Two matches of the text do not overlap.
    rcases apart_of_spaced (findIgnoringCase_spaced text name) hstart hfirst with heq | hle | hle
    · exact hne heq
    · omega
    · omega
  · rintro rfl hnul
    refine .inr fun hinner ↦ ?_
    obtain ⟨before, c, after, htextEq, hc⟩ := exists_before_run hne hnul hinner
    have hbytes : (encode text true).drop (2 * before.length + 1) =
        0 :: encode (name ++ after) true := by
      have hdrop : (encode text true).drop (2 * before.length) =
          encode (text.drop before.length) true :=
        drop_encode htext true before.length
      have hcAscii : c.toNat < 128 := htext c (by rw [htextEq]; simp)
      rw [← List.drop_drop, hdrop, htextEq, List.drop_left, encode_cons,
        encodeChar_of_ascii hcAscii]
      rfl
    have hzeros : encode name true ++ [0] = 0 :: encode name true := by
      rw [List.eq_replicate_of_mem hnul]
      generalize name.length = count
      induction count with
      | zero => rfl
      | succ count ih =>
        rw [List.replicate_succ, encode_cons, List.append_assoc, ih]
        rfl
    have hbegin : (encode name true).map lowerByte <+:
        ((encode text true).drop (2 * before.length + 1)).map lowerByte := by
      rw [hbytes, encode_append, ← List.cons_append, ← hzeros, List.append_assoc, List.map_append]
      exact List.prefix_append _ _
    have halone : isAloneEncoded (encode text true) true (2 * before.length + 1) (2 * name.length) =
        true := by
      have hend : 2 * before.length + 1 + 2 * name.length =
          2 * (before.length + name.length) + 1 := by
        omega
      rw [isAloneEncoded, hend, isWordAt_inside htext]
      cases hbefore : before.length with
      | zero => rfl
      | succ count =>
        have hback : 2 * (count + 1) + 1 - unitLength true = 2 * count + 1 := by
          change 2 * (count + 1) + 1 - 2 = 2 * count + 1
          omega
        rw [hback, isWordAt_inside htext, Bool.not_false, Bool.or_true]
        rfl
    obtain ⟨start, hstart, -, hle, hlt⟩ := hcovered (2 * before.length + 1) hbegin halone
    change 2 * start ≤ _ at hle
    change _ < 2 * start + 2 * name.length at hlt
    -- The match covers the character before the run.
    have hmatch := prefix_of_mem_findIgnoringCase hstart
    rw [List.prefix_iff_getElem?] at hmatch
    have hinside : before.length - start < (toAsciiLowercase name).length := by
      rw [toAsciiLowercase, List.length_map]
      omega
    have hthere := hmatch _ hinside
    have hcThere : text[start + (before.length - start)]? = some c := by
      rw [Nat.add_sub_of_le (by omega), htextEq, List.getElem?_append_right (Nat.le_refl _),
        Nat.sub_self]
      rfl
    rw [toAsciiLowercase, List.getElem?_map, List.getElem?_drop, hcThere, Option.map_some] at hthere
    have hlower := Option.some.inj hthere
    simp only [toAsciiLowercase, List.getElem_map] at hlower
    rw [hnul _ (List.getElem_mem _)] at hlower
    apply hc
    have hnat := congrArg Char.toNat hlower
    rw [toNat_toLower, toNat_toLower] at hnat
    apply char_ext_toNat
    have hzero : nul.toNat = 0 := rfl
    rw [hzero] at hnat ⊢
    split_ifs at hnat <;> omega

/-- Where a name does not begin as its placeholder does, the replacements agree only where the scans
are alike. -/
theorem scansAlike_of_agrees (htext : IsAscii text) (hname : IsAscii name)
    (hhead : name.head? ≠ some '%') (hplaceholder : placeholder.head? = some '%') (used : List Text)
    (h : (applyEncoded name placeholder wide (encode text wide, used)).1 =
      encode (applyBareName (text, used) (name, placeholder)).1 wide) :
    HidesNothing text name ∧ (wide = true → KeepsAligned text name) := by
  by_cases hne : name = []
  · refine ⟨fun start hstart ↦ absurd hstart ?_, fun _ _ ↦ .inl hne⟩
    rw [hne]
    exact List.not_mem_nil
  · exact scansAlike_of_findEncoded htext hname hne
      (findEncoded_of_agrees htext hname hne hhead hplaceholder used h)

end Turn

/-! ## Broken-off SIDs -/

/-- A SID of the domain that is not redacted yet is what the text begins with. -/
def opensSid (domain placeholder text : Text) : Bool :=
  domain.isPrefixOf text && !(placeholder.drop domain.length).isPrefixOf (text.drop domain.length)

/-- Such a SID goes on with a digit or a hyphen. -/
def takesSid (domain placeholder text : Text) : Bool :=
  opensSid domain placeholder text && ((text.drop domain.length).head?).any isSidByte

/-- How many of the texts that a text ends with are accepted. -/
def countTails (accepts : Text → Bool) (text : Text) : ℕ := text.tails.countP accepts

/-- A text with as many SIDs of a domain replaced, each with a run of digits and hyphens. -/
inductive SidsReplaced (domain placeholder : Text) : Text → Text → ℕ → Prop
  | nil : SidsReplaced domain placeholder [] [] 0
  | copy (c : Char) {rest result : Text} {count : ℕ} :
      SidsReplaced domain placeholder rest result count →
        SidsReplaced domain placeholder (c :: rest) (c :: result) count
  | replace {run : Text} (hrun : ∀ c ∈ run, isSidByte c = true) {rest result : Text} {count : ℕ} :
      SidsReplaced domain placeholder rest result count →
        SidsReplaced domain placeholder (domain ++ (run ++ rest)) (placeholder ++ result)
          (count + 1)

theorem countTails_nil (accepts : Text → Bool) (h : accepts [] = false) :
    countTails accepts [] = 0 := by
  simp [countTails, h]

theorem countTails_cons (accepts : Text → Bool) (c : Char) (text : Text) :
    countTails accepts (c :: text) =
      countTails accepts text + if accepts (c :: text) then 1 else 0 := by
  rw [countTails, List.tails, List.countP_cons, countTails]

/-- Where no accepted text begins, nothing is counted. -/
theorem countTails_append {accepts : Text → Bool} {before text : Text}
    (h : ∀ c ∈ before, ∀ rest, accepts (c :: rest) = false) :
    countTails accepts (before ++ text) = countTails accepts text := by
  induction before with
  | nil => rfl
  | cons c before ih =>
    obtain ⟨hc, hbefore⟩ := List.forall_mem_cons.mp h
    rw [List.cons_append, countTails_cons, hc, if_neg Bool.false_ne_true, ih hbefore, Nat.add_zero]

theorem SidsReplaced.append {domain placeholder text result : Text} {count : ℕ}
    (h : SidsReplaced domain placeholder text result count) (before : Text) :
    SidsReplaced domain placeholder (before ++ text) (before ++ result) count := by
  induction before with
  | nil => exact h
  | cons c before ih => exact ih.copy c

theorem SidsReplaced.count_percent {domain placeholder text result : Text} {count : ℕ}
    (h : SidsReplaced domain placeholder text result count) (hdomain : '%' ∉ domain)
    (hplaceholder : placeholder.count '%' = 2) :
    result.count '%' = text.count '%' + 2 * count := by
  induction h with
  | nil => rfl
  | copy c _ ih => rw [List.count_cons, List.count_cons, ih]; omega
  | replace hrun _ ih =>
    have hnone : '%' ∉ _ := fun hmem ↦ absurd (hrun '%' hmem) (by decide)
    rw [List.count_append, List.count_append, List.count_append, hplaceholder, ih,
      List.count_eq_zero_of_not_mem hdomain, List.count_eq_zero_of_not_mem hnone]
    omega

/-- Up to the character that a domain begins with, text and result begin alike. -/
theorem SidsReplaced.prefix_iff {domain placeholder text result : Text} {count : ℕ}
    (h : SidsReplaced domain placeholder text result count) {first : Char}
    (hdomain : domain.head? = some first) (hplaceholder : placeholder.head? = some first)
    {want : Text} (hwant : first ∉ want) : want <+: text ↔ want <+: result := by
  induction h generalizing want with
  | nil => exact Iff.rfl
  | copy c _ ih =>
    cases want with
    | nil => simp
    | cons d want =>
      rw [List.mem_cons, not_or] at hwant
      rw [List.cons_prefix_cons, List.cons_prefix_cons, ih hwant.2]
  | replace hrun _ ih =>
    cases want with
    | nil => simp
    | cons d want =>
      have hnot : ∀ before after : Text, before.head? = some first →
          ¬ d :: want <+: before ++ after := by
        rintro before after hbefore ⟨more, hmore⟩
        have hhead := congrArg List.head? hmore
        rw [List.head?_append, List.head?_append, hbefore] at hhead
        exact hwant (by rw [Option.some.inj hhead]; exact List.mem_cons_self)
      exact iff_of_false (hnot _ _ hdomain) (hnot _ _ hplaceholder)

section Domain

variable {domain placeholder : Text} (hdomain : IsSidDomain domain placeholder)

include hdomain

theorem opensSid_iff (text : Text) :
    opensSid domain placeholder text = true ↔ domain <+: text ∧ ¬ placeholder <+: text := by
  rw [opensSid, Bool.and_eq_true, Bool.not_eq_true', ← Bool.not_eq_true, List.isPrefixOf_iff_prefix,
    List.isPrefixOf_iff_prefix]
  apply and_congr_right
  rintro ⟨after, rfl⟩
  rw [List.drop_left]
  conv_rhs => rw [← hdomain.append_drop, List.prefix_append_right_inj]

theorem takesSid_iff (text : Text) :
    takesSid domain placeholder text = true ↔
      (domain <+: text ∧ ¬ placeholder <+: text) ∧ ∃ c, isSidByte c = true ∧
        domain ++ [c] <+: text := by
  rw [takesSid, Bool.and_eq_true, opensSid_iff hdomain]
  apply and_congr_right
  rintro ⟨⟨after, rfl⟩, -⟩
  rw [List.drop_left]
  simp only [List.prefix_append_right_inj]
  cases after with
  | nil => simp
  | cons d after => simp [List.cons_prefix_cons]

/-- Whether a SID begins a text shows before the next place at which one can begin. -/
theorem sid_congr {first : Char} (hfirst : domain.head? = some first)
    (hfirstByte : isSidByte first = false)
    (hdomainTail : first ∉ domain.tail) (hplaceholderTail : first ∉ placeholder.tail) {c : Char}
    {rest result : Text} (hsame : ∀ want, first ∉ want → (want <+: rest ↔ want <+: result)) :
    opensSid domain placeholder (c :: rest) = opensSid domain placeholder (c :: result) ∧
      takesSid domain placeholder (c :: rest) = takesSid domain placeholder (c :: result) := by
  obtain ⟨more, rfl⟩ : ∃ more, domain = first :: more := by
    cases domain with
    | nil => cases hfirst
    | cons d more => exact ⟨more, by rw [Option.some.inj hfirst]⟩
  obtain ⟨suffix, rfl⟩ := hdomain.begins
  have hcons : ∀ want, first ∉ want →
      (first :: want <+: c :: rest ↔ first :: want <+: c :: result) := by
    intro want hwant
    rw [List.cons_prefix_cons, List.cons_prefix_cons, hsame want hwant]
  have hopens : (first :: more <+: c :: rest ∧ ¬ first :: more ++ suffix <+: c :: rest) ↔
      first :: more <+: c :: result ∧ ¬ first :: more ++ suffix <+: c :: result := by
    rw [List.cons_append, hcons more hdomainTail, hcons (more ++ suffix) hplaceholderTail]
  constructor
  · rw [Bool.eq_iff_iff, opensSid_iff hdomain, opensSid_iff hdomain]
    exact hopens
  · rw [Bool.eq_iff_iff, takesSid_iff hdomain, takesSid_iff hdomain, hopens]
    apply and_congr_right
    intro _
    apply exists_congr
    intro d
    apply and_congr_right
    intro hd
    apply hcons (more ++ [d])
    rw [List.mem_append, not_or, List.mem_singleton]
    refine ⟨hdomainTail, ?_⟩
    rintro rfl
    rw [hd] at hfirstByte
    exact Bool.noConfusion hfirstByte

end Domain

/-- Where a SID can only begin at the head, the head decides. -/
theorem countTails_head {accepts : Text → Bool} {domain : Text}
    (haccepts : ∀ text, accepts text = true → domain <+: text) {first : Char}
    (hfirst : domain.head? = some first) {before : Text} (hne : before ≠ [])
    (htail : first ∉ before.tail) (text : Text) :
    countTails accepts (before ++ text) =
      countTails accepts text + if accepts (before ++ text) then 1 else 0 := by
  obtain ⟨c, more, rfl⟩ := List.exists_cons_of_ne_nil hne
  rw [List.cons_append, countTails_cons, countTails_append]
  intro d hd rest
  rw [← Bool.not_eq_true]
  intro h
  obtain ⟨after, hafter⟩ := haccepts _ h
  have hhead := congrArg List.head? hafter
  rw [List.head?_append, hfirst] at hhead
  exact htail (by rw [Option.some.inj hhead]; exact hd)

/-- Replacing the SIDs of one domain leaves the number of those of the other. -/
theorem SidsReplaced.countTails_other {text result : Text} {count : ℕ}
    (h : SidsReplaced "S-1-5-21-".toList sidPlaceholder text result count) :
    countTails (opensSid "S-1-5-99-".toList identitySidPlaceholder) result =
        countTails (opensSid "S-1-5-99-".toList identitySidPlaceholder) text ∧
      countTails (takesSid "S-1-5-99-".toList identitySidPlaceholder) result =
        countTails (takesSid "S-1-5-99-".toList identitySidPlaceholder) text := by
  have hother : IsSidDomain "S-1-5-99-".toList identitySidPlaceholder :=
    isSidDomain_of_mem (List.mem_cons_of_mem _ List.mem_cons_self)
  have hfirst : "S-1-5-99-".toList.head? = some 'S' := rfl
  have hopens : ∀ text, opensSid "S-1-5-99-".toList identitySidPlaceholder text = true →
      "S-1-5-99-".toList <+: text := fun text h ↦ ((opensSid_iff hother text).mp h).1
  have htakes : ∀ text, takesSid "S-1-5-99-".toList identitySidPlaceholder text = true →
      "S-1-5-99-".toList <+: text := fun text h ↦ ((takesSid_iff hother text).mp h).1.1
  have hskip : ∀ before text : Text, "S-1-5-21-".toList <+: before → 'S' ∉ before.tail →
      countTails (opensSid "S-1-5-99-".toList identitySidPlaceholder) (before ++ text) =
          countTails (opensSid "S-1-5-99-".toList identitySidPlaceholder) text ∧
        countTails (takesSid "S-1-5-99-".toList identitySidPlaceholder) (before ++ text) =
          countTails (takesSid "S-1-5-99-".toList identitySidPlaceholder) text := by
    intro before text hbegins htail
    have hno : ¬ "S-1-5-99-".toList <+: before ++ text := by
      obtain ⟨more, rfl⟩ := hbegins
      rw [List.append_assoc, List.prefix_iff_eq_take, List.take_append_of_le_length (by decide)]
      decide
    have hne : before ≠ [] := by
      rintro rfl
      exact absurd (List.prefix_nil.mp hbegins) (by decide)
    rw [countTails_head hopens hfirst hne htail, countTails_head htakes hfirst hne htail,
      if_neg fun h ↦ hno (hopens _ h), if_neg fun h ↦ hno (htakes _ h)]
    exact ⟨rfl, rfl⟩
  induction h with
  | nil => exact ⟨rfl, rfl⟩
  | copy c h ih =>
    obtain ⟨hopen, htake⟩ := sid_congr (c := c) hother hfirst (by decide) (by decide) (by decide)
      fun want hwant ↦ h.prefix_iff rfl rfl hwant
    rw [countTails_cons, countTails_cons, countTails_cons, countTails_cons, ih.1, ih.2,
      hopen, htake]
    exact ⟨rfl, rfl⟩
  | @replace run hrun rest result count h ih =>
    have hrunTail : 'S' ∉ ("S-1-5-21-".toList ++ run).tail := by
      intro hmem
      rcases List.mem_append.mp (show 'S' ∈ "-1-5-21-".toList ++ run from hmem) with hmem | hmem
      · exact absurd hmem (by decide)
      · exact absurd (hrun 'S' hmem) (by decide)
    obtain ⟨hopen, htake⟩ :=
      hskip ("S-1-5-21-".toList ++ run) rest (List.prefix_append _ _) hrunTail
    obtain ⟨hopen', htake'⟩ := hskip sidPlaceholder result ⟨"%REDACTED%".toList, rfl⟩ (by decide)
    rw [← List.append_assoc, hopen, htake, hopen', htake']
    exact ih

section Counts

variable {domain placeholder : Text} (hdomain : IsSidDomain domain placeholder) {first : Char}
  (hfirst : domain.head? = some first) (hdomainTail : first ∉ domain.tail)

include hdomain hdomainTail

theorem not_mem_tail_run (hfirstByte : isSidByte first = false) {run : Text}
    (hrun : ∀ c ∈ run, isSidByte c = true) : first ∉ (domain ++ run).tail := by
  rw [List.tail_append_of_ne_nil hdomain.ne_nil, List.mem_append, not_or]
  refine ⟨hdomainTail, fun hmem ↦ ?_⟩
  rw [hrun first hmem] at hfirstByte
  exact Bool.noConfusion hfirstByte

include hfirst

/-- A broken-off SID is kept in the bytes. -/
theorem sidBytesFrom_broken (hascii : IsAscii placeholder) (hnul : domain.head? ≠ some nul)
    {rest : Text} (hrest : IsAscii rest)
    (hstop : (rest.head?).all (fun c ↦ !isSidByte c) = true)
    (hdone : ¬ placeholder.drop domain.length <+: rest) (wide : Bool) {replacement : List UInt8} :
    (sidBytesFrom (encode domain wide) (encode (placeholder.drop domain.length) wide)
      replacement wide 0
        (encode (domain ++ rest) wide)).1 =
      encode domain wide ++ (sidBytesFrom (encode domain wide)
        (encode (placeholder.drop domain.length) wide) replacement wide 0
          (encode rest wide)).1 := by
  have hdomainAscii : IsAscii domain := fun d hd ↦ hascii d (hdomain.begins.subset hd)
  obtain ⟨more, hmore⟩ : ∃ more, domain = first :: more := by
    cases domain with
    | nil => cases hfirst
    | cons d more => exact ⟨more, by rw [Option.some.inj hfirst]⟩
  -- Behind its first character the domain is copied.
  have hcopied : ∀ before : Text, first ∉ before → IsAscii before →
      (sidBytesFrom (encode domain wide) (encode (placeholder.drop domain.length) wide)
        replacement wide
          0 (encode (before ++ rest) wide)).1 =
        encode before wide ++ (sidBytesFrom (encode domain wide)
          (encode (placeholder.drop domain.length) wide) replacement wide 0
            (encode rest wide)).1 := by
    intro before hbefore hbeforeAscii
    induction before with
    | nil => rw [List.nil_append, encode_nil, List.nil_append]
    | cons c before ih =>
      rw [List.mem_cons, not_or] at hbefore
      obtain ⟨hc, hmoreAscii⟩ := isAscii_cons.mp hbeforeAscii
      have hno : ¬ domain <+: c :: (before ++ rest) := by
        rw [hmore, List.cons_prefix_cons]
        exact fun hbegin ↦ hbefore.1 hbegin.1
      have hwhole : IsAscii (c :: (before ++ rest)) :=
        isAscii_cons.mpr ⟨hc, isAscii_append.mpr ⟨hmoreAscii, hrest⟩⟩
      rw [List.cons_append, sidBytesFrom_encode_keep hdomain hascii hnul hwhole hno,
        ih hbefore.2 hmoreAscii, encode_cons, List.append_assoc]
  have hmoreAscii : IsAscii more := (isAscii_cons.mp (hmore ▸ hdomainAscii)).2
  have hfirstAscii : first.toNat < 128 := (isAscii_cons.mp (hmore ▸ hdomainAscii)).1
  have hmoreFirst : first ∉ more := by
    rw [hmore] at hdomainTail
    exact hdomainTail
  have hrun : sidRun wide (encode rest wide) = 0 := by
    have hnone : rest.takeWhile isSidByte = [] :=
      takeWhile_run (fun c hc ↦ absurd hc List.not_mem_nil) hstop
    rw [sidRun_encode hrest, hnone]
    rfl
  have hdoneBytes : ¬ encode (placeholder.drop domain.length) wide <+: encode rest wide :=
    (encode_prefix_iff (hascii.drop _) hrest wide).not.mpr hdone
  have hbytes : ∀ (text : Text) (wide : Bool),
      encode (first :: text) wide = asciiBytes first wide ++ encode text wide := by
    intro text wide
    rw [encode_cons, encodeChar_of_ascii hfirstAscii]
  have hinside := not_encode_prefix_inside hdomain hascii hnul (more ++ rest)
  have hmoreCopied := hcopied more hmoreFirst hmoreAscii
  rw [encode_append] at hmoreCopied
  rw [hmore] at hdoneBytes hmoreCopied hinside ⊢
  rw [hbytes] at hmoreCopied hinside
  rw [encode_append] at hinside
  rw [List.cons_append, hbytes, hbytes, encode_append]
  generalize encode (placeholder.drop (first :: more).length) wide = done at *
  cases wide with
  | false =>
    have hbroken :
        (sidBytesFrom (asciiBytes first false ++ encode more false) done replacement false 0
          (asciiBytes first false ++ (encode more false ++ encode rest false))).1 = _ :=
      congrArg Prod.fst (sidBytesFrom_brokenOff hdoneBytes hrun)
    exact hbroken.trans (congrArg (UInt8.ofNat first.toNat :: ·) hmoreCopied)
  | true =>
    have hbroken : (sidBytesFrom (asciiBytes first true ++ encode more true) done replacement true 0
        (asciiBytes first true ++ (encode more true ++ encode rest true))).1 = _ :=
      congrArg Prod.fst (sidBytesFrom_brokenOff hdoneBytes hrun)
    have hkept : (sidBytesFrom (asciiBytes first true ++ encode more true) done replacement true 0
        (0 :: (encode more true ++ encode rest true))).1 = _ :=
      congrArg Prod.fst (sidBytesFrom_keep hinside)
    rw [hmoreCopied] at hkept
    exact hbroken.trans (congrArg (UInt8.ofNat first.toNat :: ·) hkept)

variable (hfirstByte : isSidByte first = false) (hplaceholderTail : first ∉ placeholder.tail)

include hfirstByte hplaceholderTail

/-- In the text every SID that is not redacted yet is replaced. -/
theorem sidsReplaced_sidsFrom (text : Text) :
    SidsReplaced domain placeholder text (sidsFrom domain placeholder 0 text).1
      (countTails (opensSid domain placeholder) text) := by
  have hopens : ∀ text, opensSid domain placeholder text = true → domain <+: text :=
    fun text h ↦ ((opensSid_iff hdomain text).mp h).1
  have hplaceholder : placeholder ≠ [] := by
    rintro rfl
    exact hdomain.ne_nil (List.prefix_nil.mp hdomain.begins)
  induction text using sidsFrom_induct hdomain with
  | nil =>
    rw [countTails_nil _ (Bool.eq_false_iff.mpr fun h ↦
      hdomain.ne_nil (List.prefix_nil.mp (hopens _ h)))]
    exact .nil
  | keep c rest hno ih =>
    rw [sidsFrom_keep hno, countTails_cons, if_neg fun h ↦ hno (hopens _ h)]
    exact ih.copy c
  | done rest ih =>
    have hnot : opensSid domain placeholder (placeholder ++ rest) ≠ true :=
      fun h ↦ ((opensSid_iff hdomain _).mp h).2 (List.prefix_append _ _)
    rw [sidsFrom_done hdomain, countTails_head hopens hfirst hplaceholder hplaceholderTail,
      if_neg hnot]
    exact ih.append placeholder
  | taken run rest hrun hstop hdone ih =>
    have hopen : opensSid domain placeholder (domain ++ run ++ rest) = true := by
      rw [opensSid_iff hdomain, List.append_assoc]
      refine ⟨List.prefix_append _ _, fun hbegin ↦ hdone ?_⟩
      rwa [← hdomain.append_drop, List.prefix_append_right_inj] at hbegin
    have hne : domain ++ run ≠ [] := List.append_ne_nil_of_left_ne_nil hdomain.ne_nil run
    rw [sidsFrom_taken hdomain hrun hstop hdone, ← List.append_assoc,
      countTails_head hopens hfirst hne
      (not_mem_tail_run hdomain hdomainTail hfirstByte hrun), if_pos hopen,
      List.append_assoc]
    exact ih.replace hrun

/-- In the bytes every SID that goes on with a digit or a hyphen is replaced. -/
theorem exists_sidBytesFrom (hascii : IsAscii placeholder) (hnul : domain.head? ≠ some nul)
    {text : Text}
    (htext : IsAscii text) (wide : Bool) :
    ∃ result, (sidBytesFrom (encode domain wide) (encode (placeholder.drop domain.length) wide)
        (encode placeholder wide) wide 0 (encode text wide)).1 = encode result wide ∧
          IsAscii result ∧
      SidsReplaced domain placeholder text result
        (countTails (takesSid domain placeholder) text) := by
  have htakes : ∀ text, takesSid domain placeholder text = true → domain <+: text :=
    fun text h ↦ ((takesSid_iff hdomain text).mp h).1.1
  have hplaceholder : placeholder ≠ [] := by
    rintro rfl
    exact hdomain.ne_nil (List.prefix_nil.mp hdomain.begins)
  have hpattern : encode domain wide ≠ [] := (encode_eq_nil_iff domain wide).not.mpr hdomain.ne_nil
  induction text using sidsFrom_induct hdomain with
  | nil =>
    refine ⟨[], by simp [sidBytesFrom], htext, ?_⟩
    rw [countTails_nil _ (Bool.eq_false_iff.mpr fun h ↦
      hdomain.ne_nil (List.prefix_nil.mp (htakes _ h)))]
    exact .nil
  | keep c rest hno ih =>
    obtain ⟨hc, hrest⟩ := isAscii_cons.mp htext
    obtain ⟨result, hresult, hresultAscii, hreplaced⟩ := ih hrest
    refine ⟨c :: result, ?_, isAscii_cons.mpr ⟨hc, hresultAscii⟩, ?_⟩
    · rw [sidBytesFrom_encode_keep hdomain hascii hnul htext hno, hresult, encode_cons]
    · rw [countTails_cons, if_neg fun h ↦ hno (htakes _ h)]
      exact hreplaced.copy c
  | done rest ih =>
    obtain ⟨result, hresult, hresultAscii, hreplaced⟩ := ih (isAscii_append.mp htext).2
    have hnot : takesSid domain placeholder (placeholder ++ rest) ≠ true :=
      fun h ↦ ((takesSid_iff hdomain _).mp h).1.2 (List.prefix_append _ _)
    have hsplit : encode placeholder wide =
        encode domain wide ++ encode (placeholder.drop domain.length) wide := by
      rw [← encode_append, hdomain.append_drop]
    refine ⟨placeholder ++ result, ?_, isAscii_append.mpr ⟨hascii, hresultAscii⟩, ?_⟩
    · rw [encode_append, encode_append]
      conv_lhs => rw [hsplit, List.append_assoc]
      rw [← hsplit, sidBytesFrom_done hpattern, hresult, hsplit]
    · rw [countTails_head htakes hfirst hplaceholder hplaceholderTail, if_neg hnot]
      exact hreplaced.append placeholder
  | taken run rest hrun hstop hdone ih =>
    obtain ⟨-, hafter⟩ := isAscii_append.mp htext
    obtain ⟨hrunAscii, hrest⟩ := isAscii_append.mp hafter
    obtain ⟨result, hresult, hresultAscii, hreplaced⟩ := ih hrest
    have hopen : domain <+: domain ++ (run ++ rest) ∧
        ¬ placeholder <+: domain ++ (run ++ rest) := by
      refine ⟨List.prefix_append _ _, fun hbegin ↦ hdone ?_⟩
      rwa [← hdomain.append_drop, List.prefix_append_right_inj] at hbegin
    have hne : domain ++ run ≠ [] := List.append_ne_nil_of_left_ne_nil hdomain.ne_nil run
    have hcount := countTails_head htakes hfirst hne
      (not_mem_tail_run hdomain hdomainTail hfirstByte hrun) rest
    rw [List.append_assoc] at hcount
    rw [hcount]
    cases run with
    | nil =>
      have hnot : takesSid domain placeholder (domain ++ ([] ++ rest)) ≠ true := by
        rw [ne_eq, takesSid_iff hdomain]
        rintro ⟨-, c, hc, hbegin⟩
        rw [List.prefix_append_right_inj, List.nil_append] at hbegin
        obtain ⟨more, rfl⟩ := hbegin
        simp [hc] at hstop
      refine ⟨domain ++ result, ?_,
        isAscii_append.mpr ⟨(isAscii_append.mp htext).1, hresultAscii⟩, ?_⟩
      · rw [List.nil_append,
          sidBytesFrom_broken hdomain hfirst hdomainTail hascii hnul hrest hstop hdone,
          hresult, encode_append]
      · rw [if_neg hnot]
        exact hreplaced.append domain
    | cons c run =>
      have htake : takesSid domain placeholder (domain ++ (c :: run ++ rest)) = true := by
        rw [takesSid_iff hdomain]
        exact ⟨hopen, c, hrun c List.mem_cons_self, ⟨run ++ rest, by simp⟩⟩
      have htakeWhile : ((c :: run) ++ rest).takeWhile isSidByte = c :: run :=
        takeWhile_run hrun hstop
      have hrunLength : sidRun wide (encode (c :: run) wide ++ encode rest wide) =
          (encode (c :: run) wide).length := by
        rw [← encode_append, sidRun_encode hafter, htakeWhile, length_encode hrunAscii]
      have hdoneBytes : ¬ encode (placeholder.drop domain.length) wide <+:
          encode (c :: run) wide ++ encode rest wide := by
        rw [← encode_append, encode_prefix_iff (hascii.drop _) hafter]
        exact hdone
      refine ⟨placeholder ++ result, ?_, isAscii_append.mpr ⟨hascii, hresultAscii⟩, ?_⟩
      · rw [encode_append, encode_append, sidBytesFrom_taken hpattern
          ((encode_eq_nil_iff _ wide).not.mpr (List.cons_ne_nil c run)) hrunLength hdoneBytes,
          hresult,
          encode_append]
      · rw [if_pos htake]
        exact hreplaced.replace hrun

end Counts

/-! ## The whole replacement -/

theorem encode_injective {left right : Text} (hleft : IsAscii left) (hright : IsAscii right)
    {wide : Bool}
    (h : encode left wide = encode right wide) : left = right := by
  have hforth := (encode_prefix_iff hleft hright wide).mp (h ▸ List.prefix_refl _)
  have hback := (encode_prefix_iff hright hleft wide).mp (h ▸ List.prefix_refl _)
  exact hforth.eq_of_length_le hback.length_le

theorem sidsFrom_fst_of_snd {domain placeholder : Text} (hdomain : IsSidDomain domain placeholder)
    {text : Text} (h : (sidsFrom domain placeholder 0 text).2 = false) :
    (sidsFrom domain placeholder 0 text).1 = text := by
  induction text using sidsFrom_induct hdomain with
  | nil => rfl
  | keep c rest hno ih =>
    rw [sidsFrom_keep hno] at h ⊢
    exact congrArg (c :: ·) (ih h)
  | done rest ih =>
    rw [sidsFrom_done hdomain] at h ⊢
    exact congrArg (placeholder ++ ·) (ih h)
  | taken run rest hrun hstop hdone _ =>
    rw [sidsFrom_taken hdomain hrun hstop hdone] at h
    exact Bool.noConfusion h

theorem sidBytesFrom_fst_of_snd {pattern done replacement : List UInt8} (hpattern : pattern ≠ [])
    {wide : Bool} {passing : ℕ} {bytes : List UInt8}
    (h : (sidBytesFrom pattern done replacement wide passing bytes).2 = false) :
    (sidBytesFrom pattern done replacement wide passing bytes).1 = bytes.drop passing := by
  induction bytes generalizing passing with
  | nil => simp [sidBytesFrom]
  | cons byte rest ih =>
    cases passing with
    | succ passing => exact ih h
    | zero =>
      rw [sidBytesFrom] at h ⊢
      split at h
      · next hbegin =>
        rw [if_pos hbegin]
        obtain ⟨after, hafter⟩ := List.isPrefixOf_iff_prefix.mp hbegin
        have hdrop : (byte :: rest).drop pattern.length = after := by rw [← hafter, List.drop_left]
        simp only [hdrop] at h ⊢
        split at h
        · next hdone =>
          obtain ⟨more, hmore⟩ := List.isPrefixOf_iff_prefix.mp hdone
          rw [if_pos hdone, ih h, List.drop_zero]
          obtain ⟨first, tail, rfl⟩ := List.exists_cons_of_ne_nil hpattern
          obtain ⟨rfl, rfl⟩ := List.cons.inj hafter
          have hpassed : (tail.append after).drop ((first :: tail).length - 1 + done.length) =
              more := by
            rw [← hmore]
            change (tail ++ (done ++ more)).drop _ = more
            rw [← List.append_assoc]
            exact List.drop_left' (by simp)
          rw [hpassed, ← hafter, ← hmore, List.append_assoc]
        · next hdone =>
          rw [if_neg hdone]
          split at h
          · next hrun =>
            rw [if_pos hrun]
            exact congrArg (byte :: ·) (ih h)
          · exact Bool.noConfusion h
      · next hbegin =>
        rw [if_neg hbegin]
        exact congrArg (byte :: ·) (ih h)

theorem sidsOf_cons_fst {pair : Text × Text} (hpair : pair ∈ identifyingSids)
    (domains : List (Text × Text)) (text : Text) :
    (sidsOf (pair :: domains) text).1 = (sidsOf domains (sidsFrom pair.1 pair.2 0 text).1).1 := by
  rw [sidsOf, replaceSidDomain]
  cases hfrom : sidsFrom pair.1 pair.2 0 text with
  | mk result hit =>
    cases hit with
    | true => rfl
    | false =>
      have hsame := sidsFrom_fst_of_snd (isSidDomain_of_mem hpair) (congrArg Prod.snd hfrom)
      rw [hfrom] at hsame
      rw [show result = text from hsame]

theorem sidBytesOf_cons_fst (wide : Bool) {pair : Text × Text} (hpair : pair ∈ identifyingSids)
    (domains : List (Text × Text)) (bytes : List UInt8) :
    (sidBytesOf wide (pair :: domains) bytes).1 =
      (sidBytesOf wide domains (sidBytesFrom (encode pair.1 wide)
        (encode (pair.2.drop pair.1.length) wide) (encode pair.2 wide) wide 0 bytes).1).1 := by
  have hpattern : encode pair.1 wide ≠ [] :=
    (encode_eq_nil_iff pair.1 wide).not.mpr (isSidDomain_of_mem hpair).ne_nil
  rw [sidBytesOf]
  cases hfrom : sidBytesFrom (encode pair.1 wide) (encode (pair.2.drop pair.1.length) wide)
      (encode pair.2 wide) wide 0 bytes with
  | mk result hit =>
    cases hit with
    | true => rfl
    | false =>
      have hsame := sidBytesFrom_fst_of_snd hpattern (congrArg Prod.snd hfrom)
      rw [hfrom, List.drop_zero] at hsame
      rw [show result = bytes from hsame]

theorem sidsOf_fst_of_nil {domains : List (Text × Text)} {text : Text}
    (h : (sidsOf domains text).2 = []) : (sidsOf domains text).1 = text := by
  induction domains with
  | nil => rfl
  | cons pair domains ih =>
    rw [sidsOf] at h ⊢
    split at h
    · exact absurd h (List.cons_ne_nil _ _)
    · exact ih h

theorem sidBytesOf_fst_of_nil {wide : Bool} {domains : List (Text × Text)} {bytes : List UInt8}
    (h : (sidBytesOf wide domains bytes).2 = []) : (sidBytesOf wide domains bytes).1 = bytes := by
  induction domains with
  | nil => rfl
  | cons pair domains ih =>
    rw [sidBytesOf] at h ⊢
    split at h
    · exact absurd h (List.cons_ne_nil _ _)
    · exact ih h

theorem applyTextSids_fst (state : Text × List Text) :
    (applyTextSids state).1 = (sidsOf identifyingSids state.1).1 := by
  rw [applyTextSids, replaceSids]
  cases hof : sidsOf identifyingSids state.1 with
  | mk result used =>
    cases used with
    | nil =>
      have hsame := sidsOf_fst_of_nil (congrArg Prod.snd hof)
      rw [hof] at hsame
      exact hsame.symm
    | cons placeholder used => rfl

theorem applySids_fst (wide : Bool) (state : List UInt8 × List Text) :
    (applySids wide state).1 = (sidBytesOf wide identifyingSids state.1).1 := by
  rw [applySids, replaceSidsInBytes]
  cases hof : sidBytesOf wide identifyingSids state.1 with
  | mk result used =>
    cases used with
    | nil =>
      have hsame := sidBytesOf_fst_of_nil (congrArg Prod.snd hof)
      rw [hof] at hsame
      exact hsame.symm
    | cons placeholder used => rfl

/-- Where one count implies the other and both are equal, so does the other imply the one. -/
theorem forall_of_countP_eq {α : Type*} {accepts others : α → Bool} {items : List α}
    (h : ∀ item, others item = true → accepts item = true)
    (hcount : items.countP accepts = items.countP others) :
    ∀ item ∈ items, accepts item = true → others item = true := by
  induction items with
  | nil => exact fun item hitem ↦ absurd hitem List.not_mem_nil
  | cons first items ih =>
    have hle : items.countP others ≤ items.countP accepts :=
      List.countP_mono_left fun item _ ↦ h item
    rw [List.countP_cons, List.countP_cons] at hcount
    have hfirst : accepts first = true → others first = true := by
      intro haccepts
      by_contra hother
      rw [if_pos haccepts, if_neg hother] at hcount
      omega
    have hrest : items.countP accepts = items.countP others := by
      by_cases haccepts : accepts first = true
      · rw [if_pos haccepts, if_pos (hfirst haccepts)] at hcount
        omega
      · rw [if_neg haccepts, if_neg fun hother ↦ haccepts (h first hother)] at hcount
        omega
    exact List.forall_mem_cons.mpr ⟨hfirst, ih hrest⟩

theorem takesSid_le (domain placeholder text : Text) :
    countTails (takesSid domain placeholder) text ≤
      countTails (opensSid domain placeholder) text := by
  apply List.countP_mono_left
  intro rest _ htakes
  rw [takesSid, Bool.and_eq_true] at htakes
  exact htakes.1

/-- When as many SIDs are replaced in the bytes as in the text, none of them breaks off. -/
theorem completesSids_of_countTails {domain placeholder text : Text}
    (h : countTails (opensSid domain placeholder) text =
      countTails (takesSid domain placeholder) text) :
    CompletesSids text domain placeholder := by
  have hopens : ∀ rest, takesSid domain placeholder rest = true →
      opensSid domain placeholder rest = true := by
    intro rest htakes
    rw [takesSid, Bool.and_eq_true] at htakes
    exact htakes.1
  have himplies := forall_of_countP_eq hopens h
  intro rest hrest hbegin
  by_cases hdone : placeholder.drop domain.length <+: rest.drop domain.length
  · exact .inl hdone
  · have hopen : opensSid domain placeholder rest = true := by
      rw [opensSid, Bool.and_eq_true, Bool.not_eq_true', ← Bool.not_eq_true,
        List.isPrefixOf_iff_prefix, List.isPrefixOf_iff_prefix]
      exact ⟨hbegin, hdone⟩
    have htakes := himplies rest hrest hopen
    rw [takesSid, Bool.and_eq_true] at htakes
    exact .inr htakes.2

/-- What the two rules need of a domain and its placeholder. -/
theorem sidDomain_facts : ∀ pair ∈ identifyingSids, IsAscii pair.2 ∧ pair.1.head? = some 'S' ∧
    'S' ∉ pair.1.tail ∧ 'S' ∉ pair.2.tail ∧ '%' ∉ pair.1 ∧ pair.2.count '%' = 2 := by
  decide

section Pair

variable {pair : Text × Text} (hpair : pair ∈ identifyingSids)

include hpair

theorem sidsReplaced_of_mem (text : Text) :
    SidsReplaced pair.1 pair.2 text (sidsFrom pair.1 pair.2 0 text).1
      (countTails (opensSid pair.1 pair.2) text) := by
  obtain ⟨-, hfirst, hdomainTail, hplaceholderTail, -, -⟩ := sidDomain_facts pair hpair
  exact sidsReplaced_sidsFrom (isSidDomain_of_mem hpair) hfirst hdomainTail (by decide)
    hplaceholderTail text

theorem exists_sidBytesFrom_of_mem {text : Text} (htext : IsAscii text) (wide : Bool) :
    ∃ result, (sidBytesFrom (encode pair.1 wide) (encode (pair.2.drop pair.1.length) wide)
        (encode pair.2 wide) wide 0 (encode text wide)).1 = encode result wide ∧ IsAscii result ∧
      SidsReplaced pair.1 pair.2 text result (countTails (takesSid pair.1 pair.2) text) := by
  obtain ⟨hascii, hfirst, hdomainTail, hplaceholderTail, -, -⟩ := sidDomain_facts pair hpair
  have hnul : pair.1.head? ≠ some nul := by
    rw [hfirst]
    decide
  exact exists_sidBytesFrom (isSidDomain_of_mem hpair) hfirst hdomainTail (by decide)
    hplaceholderTail
    hascii hnul htext wide

theorem count_percent_of_mem {text result : Text} {count : ℕ}
    (h : SidsReplaced pair.1 pair.2 text result count) :
    result.count '%' = text.count '%' + 2 * count := by
  obtain ⟨-, -, -, -, hdomain, hplaceholder⟩ := sidDomain_facts pair hpair
  exact h.count_percent hdomain hplaceholder

end Pair

/-- Where the text and the bytes agree about the SIDs, none of them breaks off. -/
theorem completesSids_of_agrees {text : Text} (htext : IsAscii text) {wide : Bool}
    (h : Agrees [] wide text) : ∀ pair ∈ identifyingSids, CompletesSids text pair.1 pair.2 := by
  have hmachine : ("S-1-5-21-".toList, sidPlaceholder) ∈ identifyingSids := List.mem_cons_self
  have hidentity : ("S-1-5-99-".toList, identitySidPlaceholder) ∈ identifyingSids :=
    List.mem_cons_of_mem _ List.mem_cons_self
  -- What becomes of the text.
  have hfirst := sidsReplaced_of_mem hmachine text
  have hsecond :=
    sidsReplaced_of_mem hidentity (sidsFrom "S-1-5-21-".toList sidPlaceholder 0 text).1
  have hfirstAscii := isAscii_sidsFrom hmachine htext
  have hsecondAscii := isAscii_sidsFrom hidentity hfirstAscii
  -- What becomes of the bytes.
  obtain ⟨result, hresult, hresultAscii, hreplaced⟩ :=
    exists_sidBytesFrom_of_mem hmachine htext wide
  obtain ⟨result', hresult', hresultAscii', hreplaced'⟩ :=
    exists_sidBytesFrom_of_mem hidentity hresultAscii wide
  have hsame : (sidsFrom "S-1-5-99-".toList identitySidPlaceholder 0
      (sidsFrom "S-1-5-21-".toList sidPlaceholder 0 text).1).1 = result' := by
    suffices hencode : encode _ wide = encode result' wide from
      encode_injective hsecondAscii hresultAscii' hencode
    rw [← hresult', ← hresult]
    have hbytes : (applySids wide (encode text wide, [])).1 =
        encode (applyTextSids (text, [])).1 wide := h
    rw [applySids_fst, applyTextSids_fst, identifyingSids, sidBytesOf_cons_fst wide hmachine,
      sidBytesOf_cons_fst wide hidentity, sidsOf_cons_fst hmachine,
      sidsOf_cons_fst hidentity] at hbytes
    exact hbytes.symm
  have hcount := count_percent_of_mem hidentity hsecond
  have hcount' := count_percent_of_mem hidentity hreplaced'
  rw [count_percent_of_mem hmachine hfirst, hfirst.countTails_other.1] at hcount
  rw [count_percent_of_mem hmachine hreplaced, hreplaced.countTails_other.2, ← hsame] at hcount'
  have hmachineLe := takesSid_le "S-1-5-21-".toList sidPlaceholder text
  have hidentityLe := takesSid_le "S-1-5-99-".toList identitySidPlaceholder text
  dsimp only at hcount hcount'
  intro pair hpair
  apply completesSids_of_countTails
  rcases List.mem_cons.mp hpair with rfl | hpair
  · dsimp only
    omega
  · obtain rfl := List.mem_singleton.mp hpair
    dsimp only
    omega

/-- Turn by turn, replacements that agree stop at the same places. -/
theorem scansAlike_of_forall_take {wide : Bool} {names : List (Text × Text)}
    (hnames : ∀ name ∈ names, IsAscii name.1 ∧ IsAscii name.2)
    (hmarks : ∀ name ∈ names, name.1.head? ≠ some '%' ∧ name.2.head? = some '%')
    {state : Text × List Text} (htext : IsAscii state.1)
    (h : ∀ count, ((names.take count).foldl (fun state name ↦ applyEncoded name.1 name.2 wide state)
        (encode state.1 wide, state.2)).1 =
      encode ((names.take count).foldl applyBareName state).1 wide) :
    ∀ turn ∈ textTurns names state, ScansAlike wide turn := by
  induction names generalizing state with
  | nil => exact fun turn hturn ↦ absurd hturn List.not_mem_nil
  | cons name names ih =>
    obtain ⟨⟨hname, hplaceholder⟩, hmore⟩ := List.forall_mem_cons.mp hnames
    obtain ⟨⟨hhead, hmark⟩, hmoreMarks⟩ := List.forall_mem_cons.mp hmarks
    obtain ⟨hhides, haligned⟩ := scansAlike_of_agrees htext hname hhead hmark state.2 (h 1)
    refine List.forall_mem_cons.mpr ⟨⟨hhides, haligned⟩, ?_⟩
    apply ih hmore hmoreMarks (isAscii_applyBareName htext hplaceholder)
    intro count
    have hnext := h (count + 1)
    rwa [List.take_succ_cons, List.foldl_cons, List.foldl_cons,
      applyEncoded_encode htext hname name.2 hhides haligned state.2] at hnext

/-- No SID of the text breaks off, and at every turn of a name both scans stop at the same
places. -/
def ReadsAlike (names : List (Text × Text)) (wide : Bool) (text : Text) : Prop :=
  (∀ pair ∈ identifyingSids, CompletesSids text pair.1 pair.2) ∧
    ∀ turn ∈ textTurns names (applyTextSids (text, [])), ScansAlike wide turn

instance (names : List (Text × Text)) (wide : Bool) (text : Text) :
    Decidable (ReadsAlike names wide text) :=
  inferInstanceAs (Decidable (_ ∧ _))

theorem mem_textTurns_of_take {names : List (Text × Text)} {state : Text × List Text} {count : ℕ}
    {turn : TextTurn} (h : turn ∈ textTurns (names.take count) state) :
    turn ∈ textTurns names state := by
  induction names generalizing state count with
  | nil => rwa [List.take_nil] at h
  | cons name names ih =>
    cases count with
    | zero => exact absurd h List.not_mem_nil
    | succ count =>
      rw [List.take_succ_cons] at h
      cases h with
      | head => exact List.mem_cons_self
      | tail _ h => exact List.mem_cons_of_mem _ (ih h)

/-- A text that reads alike is redacted alike.  Where no name begins with a percent sign, as the
placeholders do, a text that is redacted alike by the names up to each of them reads alike. -/
theorem agrees_iff_readsAlike {names : List (Text × Text)} {wide : Bool} {text : Text}
    (htext : IsAscii text) (hnames : ∀ name ∈ names, IsAscii name.1 ∧ IsAscii name.2) :
    (ReadsAlike names wide text → Agrees names wide text) ∧
      ((∀ name ∈ names, name.1.head? ≠ some '%' ∧ name.2.head? = some '%') →
        ((∀ count, Agrees (names.take count) wide text) ↔ ReadsAlike names wide text)) := by
  refine ⟨fun h ↦ agrees_of_scansAlike wide htext hnames h.1 h.2, fun hmarks ↦ ⟨fun h ↦ ?_, ?_⟩⟩
  · have hcomplete := completesSids_of_agrees htext (h 0)
    obtain ⟨hsids, hascii⟩ := applySids_encode htext hcomplete wide
    refine ⟨hcomplete, scansAlike_of_forall_take hnames hmarks hascii fun count ↦ ?_⟩
    have hagrees := h count
    rwa [Agrees, redactInBytes, redactInText, hsids] at hagrees
  · intro h count
    exact agrees_of_scansAlike wide htext
      (fun name hname ↦ hnames name (List.mem_of_mem_take hname)) h.1
      fun turn hturn ↦ h.2 turn (mem_textTurns_of_take hturn)

theorem not_agrees_truncatedSid :
    ¬ ∀ names wide text, IsAscii text → (∀ name ∈ names, IsAscii name.1 ∧ IsAscii name.2) →
      Agrees names wide text := by
  intro h
  have hagrees := h [] false "S-1-5-21-".toList (by decide) (by decide)
  revert hagrees
  decide +kernel

theorem agrees_pipeText :
    Agrees [("anon".toList, userPlaceholder)] true "L.Anon.S-1-5-21-7".toList :=
  (agrees_iff_readsAlike (by decide) (by decide)).1 (by decide +kernel)

end WardSweep.Redact
