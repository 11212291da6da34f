import WardSweep.Ordered.Replaced
import WardSweep.Redact.Agree
import WardSweep.Redact.Parted

/-!
# What a string is rewritten by

Every rule and every name takes pieces out of a string and puts a placeholder in the place of each:
an e-mail address, the name of a profile directory, a SID, the host of a UNC path, or a name that
stands on its own.  In a value written as hex it takes SIDs and names out of the bytes, spelt in one
of the two encodings.  A rewritten string is what such passes make of it.
-/

namespace WardSweep.Redact

open Utf8 Str Ordered

/-! ## Pieces -/

/-- What a piece is replaced as. -/
inductive PieceKind
  | email
  | profile
  | sid
  | host
  | name
  deriving DecidableEq, Repr

/-- A piece of a text, between what is before and after it, and the placeholder it becomes. -/
inductive IsPiece (names : List (Text × Text)) : PieceKind → Text → Text → Text → Text → Prop
  | email {before account domain after : Text} : account ≠ [] →
      (∀ c ∈ account, isLocalByte c = true) → isEmailDomain domain = true →
        IsPiece names .email before (account ++ '@' :: domain) after emailPlaceholder
  | profile {before span after : Text} : usersSegment <:+ toAsciiLowercase before →
      segmentName (span ++ after) = span → keepsProfile span = false →
        IsPiece names .profile before span after userPlaceholder
  | sid {before domain placeholder run after : Text} : (domain, placeholder) ∈ identifyingSids →
      (∀ c ∈ run, isSidByte c = true) →
        IsPiece names .sid before (domain ++ run) after placeholder
  | host {span after : Text} : segmentName (span ++ after) = span → span ≠ [] →
      span.head? ≠ some '.' → span.head? ≠ some '?' →
        IsPiece names .host r"\\".toList span after hostPlaceholder
  | name {before span after name placeholder : Text} : (name, placeholder) ∈ names →
      eqIgnoreAsciiCase span name = true →
        isAlone (before ++ (span ++ after)) before.length span.length = true →
          IsPiece names .name before span after placeholder

/-- A piece of bytes that spells a text in one of the two encodings, and the placeholder it
becomes. -/
inductive IsBytePiece (names : List (Text × Text)) :
    PieceKind → Text → List UInt8 → List UInt8 → List UInt8 → List UInt8 → Prop
  | sid (wide : Bool) {domain placeholder run : Text} {before after : List UInt8} :
      (domain, placeholder) ∈ identifyingSids → run ≠ [] → (∀ c ∈ run, isSidByte c = true) →
        IsBytePiece names .sid (domain ++ run) before (encode (domain ++ run) wide) after
          (encode placeholder wide)
  | name (wide : Bool) {name placeholder : Text} {before span after : List UInt8} :
      (name, placeholder) ∈ names → span.map lowerByte = (encode name wide).map lowerByte →
        isAloneEncoded (before ++ (span ++ after)) wide before.length span.length = true →
          IsBytePiece names .name name before span after (encode placeholder wide)

/-- The pieces of a text whose kind and text are accepted. -/
def TextPiece (names : List (Text × Text)) (accepts : PieceKind → Text → Prop)
    (before span after placed : Text) : Prop :=
  ∃ kind, IsPiece names kind before span after placed ∧ accepts kind span

/-- The pieces of bytes whose kind and text are accepted. -/
def BytePiece (names : List (Text × Text)) (accepts : PieceKind → Text → Prop)
    (before span after placed : List UInt8) : Prop :=
  ∃ kind text, IsBytePiece names kind text before span after placed ∧ accepts kind text

/-- A text is rewritten by accepted pieces: first its own, then those of the bytes that it spells in
hex. -/
def RewrittenBy (names : List (Text × Text)) (accepts : PieceKind → Text → Prop)
    (text result : Text) : Prop :=
  ∃ own, ReplacedInPasses (TextPiece names accepts) text own ∧
    (result = own ∨ ∃ bytes bytes', decodeHex (splitBinary own).2 = some bytes ∧
      ReplacedInPasses (BytePiece names accepts) bytes bytes' ∧
        result = (splitBinary own).1 ++ encodeHex bytes' ((splitBinary own).2.any Char.isUpper))

section Accepted

variable {names : List (Text × Text)} {accepts accepts' : PieceKind → Text → Prop}
  {text result : Text}

/-- Acceptance is only asked about pieces of the text or of its bytes. -/
theorem RewrittenBy.mono (h : RewrittenBy names accepts text result)
    (htext : ∀ kind before span after placed, IsPiece names kind before span after placed →
      accepts kind span → accepts' kind span)
    (hbytes : ∀ kind text before span after placed,
      IsBytePiece names kind text before span after placed → accepts kind text →
        accepts' kind text) : RewrittenBy names accepts' text result := by
  obtain ⟨own, hown, hresult⟩ := h
  refine ⟨own, hown.mono fun _ _ _ _ ⟨kind, hpiece, haccepts⟩ ↦
    ⟨kind, hpiece, htext _ _ _ _ _ hpiece haccepts⟩, hresult.imp_right ?_⟩
  rintro ⟨bytes, bytes', hdecode, hpasses, hspelt⟩
  exact ⟨bytes, bytes', hdecode, hpasses.mono fun _ _ _ _ ⟨kind, text, hpiece, haccepts⟩ ↦
    ⟨kind, text, hpiece, hbytes _ _ _ _ _ _ hpiece haccepts⟩, hspelt⟩

/-- A text without an accepted piece that is not written as hex is kept. -/
theorem RewrittenBy.eq_of_never (h : RewrittenBy names accepts text result)
    (hnever : ∀ before span after placed, text = before ++ (span ++ after) →
      ¬ TextPiece names accepts before span after placed)
    (hhex : decodeHex (splitBinary text).2 = none) : result = text := by
  obtain ⟨own, hown, hresult⟩ := h
  obtain rfl := hown.eq_of_never hnever
  rcases hresult with rfl | ⟨bytes, bytes', hdecode, -⟩
  · rfl
  · rw [hhex] at hdecode
    exact absurd hdecode (by simp)

end Accepted

/-! ## The rules -/

section Rules

variable {names : List (Text × Text)}

/-- Every piece of a text. -/
abbrev AnyPiece (names : List (Text × Text)) : Text → Text → Text → Text → Prop :=
  TextPiece names fun _ _ ↦ True

/-- Every piece of bytes. -/
abbrev AnyBytePiece (names : List (Text × Text)) :
    List UInt8 → List UInt8 → List UInt8 → List UInt8 → Prop :=
  BytePiece names fun _ _ ↦ True

theorem prefix_domainAfter (after : Text) : domainAfter after <+: after :=
  (prefix_trimEndMatches _ _).trans (List.takeWhile_prefix _)

/-- Addresses are taken out of what was read and is not written yet, and of what is left to read. -/
theorem replaced_emailsFrom (before pending : Text) (passing : ℕ) (text : Text) :
    Replaced (AnyPiece names) before (pending ++ text.drop passing)
      (emailsFrom pending passing text).1 := by
  induction text generalizing before pending passing with
  | nil =>
    rw [List.drop_nil, List.append_nil, emailsFrom]
    exact .refl _ _
  | cons c rest ih =>
    cases passing with
    | succ passing => exact ih before pending passing
    | zero =>
      have hkept := ih before (pending ++ [c]) 0
      rw [List.append_assoc] at hkept
      rw [List.drop_zero, emailsFrom]
      by_cases hat : (c == '@') = true
      · rw [if_pos hat]
        obtain rfl := beq_iff_eq.mp hat
        simp only
        split
        · next hfound =>
          obtain ⟨haccount, hdomain⟩ := Bool.and_eq_true_iff.mp hfound
          have hrest := List.prefix_iff_eq_append.mp (prefix_domainAfter rest)
          have hpiece : AnyPiece names (before ++ pending.rdropWhile isLocalByte)
              (pending.rtakeWhile isLocalByte ++ '@' :: domainAfter rest)
              (rest.drop (domainAfter rest).length) emailPlaceholder :=
            ⟨.email, .email (bne_iff_ne.mp haccount)
              (fun c hc ↦ List.mem_rtakeWhile_imp hc) hdomain, trivial⟩
          have hnext := ih (before ++ pending.rdropWhile isLocalByte ++
            (pending.rtakeWhile isLocalByte ++ '@' :: domainAfter rest)) []
            (domainAfter rest).length
          rw [List.nil_append] at hnext
          have hsplit : pending ++ '@' :: rest = pending.rdropWhile isLocalByte ++
              (pending.rtakeWhile isLocalByte ++ '@' :: domainAfter rest ++
                rest.drop (domainAfter rest).length) := by
            rw [List.append_assoc, List.cons_append, hrest, ← List.append_assoc,
              List.rdropWhile_append_rtakeWhile]
          rw [hsplit, List.append_assoc (pending.rdropWhile isLocalByte) emailPlaceholder]
          exact .keep_append _ (.piece hpiece hnext)
        · exact hkept
      · rw [if_neg hat]
        exact hkept

theorem segmentName_take (text : Text) :
    segmentName text ++ text.drop (segmentName text).length = text :=
  List.prefix_iff_eq_append.mp (List.takeWhile_prefix _)

/-- The names of profile directories are taken out of the rest of a text. -/
theorem replaced_profilesFrom (before : Text) (passing : ℕ) (text : Text) :
    Replaced (AnyPiece names) before (text.drop passing) (profilesFrom passing text).1 := by
  induction text generalizing before passing with
  | nil => cases passing <;> exact .nil before
  | cons c rest ih =>
    cases passing with
    | succ passing => exact ih before passing
    | zero =>
      rw [profilesFrom]
      split
      · next hmatch =>
        have hseven : usersSegment.length = 7 := rfl
        simp only [hseven, List.drop_succ_cons, List.take_succ_cons, List.drop_zero]
        obtain ⟨name, hname⟩ : ∃ name, name = segmentName (rest.drop 6) := ⟨_, rfl⟩
        have hsplit : c :: rest = (c :: rest.take 6) ++ (name ++ rest.drop (6 + name.length)) := by
          rw [← List.drop_drop, hname, segmentName_take, List.cons_append, List.take_append_drop]
        have hbelow : usersSegment <:+ toAsciiLowercase (before ++ c :: rest.take 6) := by
          have htake := List.prefix_iff_eq_take.mp (List.isPrefixOf_iff_prefix.mp hmatch)
          rw [hseven, toAsciiLowercase, ← List.map_take, List.take_succ_cons] at htake
          rw [toAsciiLowercase, List.map_append, htake]
          exact List.suffix_append _ _
        rw [← hname, hsplit, List.append_assoc]
        apply Replaced.keep_append
        split
        · exact .keep_append _ (ih _ _)
        · next hkeeps =>
          have hrun : segmentName (name ++ rest.drop (6 + name.length)) = name := by
            rw [← List.drop_drop, hname, segmentName_take]
          exact .piece
            ⟨.profile, .profile hbelow hrun (Bool.eq_false_iff.mpr hkeeps), trivial⟩ (ih _ _)
      · exact .keep c (ih _ 0)

/-- The SIDs of a domain are taken out of the rest of a text. -/
theorem replaced_sidsFrom {pair : Text × Text} (hpair : pair ∈ identifyingSids)
    (before text : Text) :
    Replaced (AnyPiece names) before text (sidsFrom pair.1 pair.2 0 text).1 := by
  have hdomain := isSidDomain_of_mem hpair
  induction text using sidsFrom_induct hdomain generalizing before with
  | nil => exact .nil before
  | keep c rest hno ih =>
    rw [sidsFrom_keep hno]
    exact .keep c (ih _)
  | done rest ih =>
    rw [sidsFrom_done hdomain]
    exact .keep_append _ (ih _)
  | taken run rest hrun hstop hdone ih =>
    rw [sidsFrom_taken hdomain hrun hstop hdone, ← List.append_assoc]
    exact .piece ⟨.sid, .sid hpair hrun, trivial⟩ (ih _)

theorem replaced_uncHost {text result : Text} (h : replaceUncHosts text = some result) :
    Replaced (AnyPiece names) [] text result := by
  unfold replaceUncHosts at h
  split at h
  · cases h
  · next rest hrest =>
    obtain rfl := (stripPrefix_eq_some_iff _ _ _).mp hrest
    simp only [Option.ite_none_left_eq_some, Option.some.injEq, Bool.or_eq_true, beq_iff_eq,
      not_or, List.isEmpty_iff] at h
    obtain ⟨⟨hdot, hquestion⟩, ⟨hsome, -⟩, rfl⟩ := h
    obtain ⟨host, hhost⟩ : ∃ host, host = segmentName rest := ⟨_, rfl⟩
    have hsplit := segmentName_take rest
    rw [← hhost] at hsome hsplit
    have hhead : rest.head? = host.head? := by
      rw [← hsplit]
      exact List.head?_append_of_ne_nil _ hsome
    have hrun : segmentName (host ++ rest.drop host.length) = host := by rw [hsplit, hhost]
    rw [hhead] at hdot hquestion
    have hpiece : AnyPiece names r"\\".toList host (rest.drop host.length) hostPlaceholder :=
      ⟨.host, .host hrun hsome hdot hquestion, trivial⟩
    rw [← hhost, List.append_assoc]
    nth_rewrite 1 [← hsplit]
    exact .keep_append _ (.piece hpiece (.refl _ _))

/-! ## The names -/

/-- A match in a text ends in the text and spells the name in some case. -/
theorem spells_of_mem_findIgnoringCase {text name : Text} {start : ℕ}
    (h : start ∈ findIgnoringCase text name) : start + name.length ≤ text.length ∧
      toAsciiLowercase ((text.drop start).take name.length) = toAsciiLowercase name := by
  have hbegin := prefix_of_mem_findIgnoringCase h
  have hne : 0 < name.length := by
    rw [List.length_pos_iff]
    rintro rfl
    simp [findIgnoringCase] at h
  have hle := hbegin.length_le
  rw [toAsciiLowercase, toAsciiLowercase, List.length_map, List.length_map,
    List.length_drop] at hle
  rw [List.prefix_iff_eq_take] at hbegin
  rw [toAsciiLowercase, List.map_take, ← toAsciiLowercase, hbegin]
  exact ⟨by omega, by simp [toAsciiLowercase]⟩

/-- The occurrences of a name that stand on their own are taken out of a text from the cursor on. -/
theorem replaced_bareNamesFrom {text name placeholder : Text} (hname : (name, placeholder) ∈ names)
    {starts : List ℕ} (hstarts : ∀ start ∈ starts, start ∈ findIgnoringCase text name)
    (cursor : ℕ) :
    Replaced (AnyPiece names) (text.take cursor) (text.drop cursor)
      (bareNamesFrom text placeholder name.length cursor starts).1 := by
  induction starts generalizing cursor with
  | nil => exact .refl _ _
  | cons start starts ih =>
    obtain ⟨hstart, hrest⟩ := List.forall_mem_cons.mp hstarts
    rw [bareNamesFrom]
    split
    · exact ih hrest cursor
    · next hcursor =>
      split
      · next halone =>
        obtain ⟨hbound, hsame⟩ := spells_of_mem_findIgnoringCase hstart
        have hspan : (text.take (start + name.length)).drop start =
            (text.drop start).take name.length := by
          rw [List.drop_take, Nat.add_sub_cancel_left]
        have hlength : ((text.drop start).take name.length).length = name.length := by
          rw [List.length_take, List.length_drop]
          omega
        have hlist : text.take start ++ ((text.drop start).take name.length ++
            text.drop (start + name.length)) = text := by
          rw [← List.drop_drop, List.take_append_drop, List.take_append_drop]
        have hpiece : AnyPiece names (text.take start) ((text.drop start).take name.length)
            (text.drop (start + name.length)) placeholder := by
          refine ⟨.name, .name hname (eqIgnoreAsciiCase_eq_true_iff.mpr hsame) ?_, trivial⟩
          rw [hlist, hlength, List.length_take, Nat.min_eq_left (by omega)]
          exact halone
        simp only
        rw [List.append_assoc]
        apply Replaced.at_offset (Nat.not_lt.mp hcursor) (Nat.le_add_right start name.length)
        · rwa [hspan]
        · exact ih hrest (start + name.length)
      · exact ih hrest cursor

/-! ## The bytes -/

theorem exists_char_of_isSidByteAt {byte : UInt8} (h : isSidByteAt byte = true) :
    ∃ c, isSidByte c = true ∧ ∀ wide run, encode (c :: run) wide =
      if wide then byte :: 0 :: encode run wide else byte :: encode run wide := by
  have hsmall : byte.toNat < 128 := by
    rcases Bool.or_eq_true_iff.mp h with hdigit | hhyphen
    · simp only [isAsciiDigit, Bool.and_eq_true, decide_eq_true_eq] at hdigit
      omega
    · rw [beq_iff_eq.mp hhyphen]
      decide
  obtain ⟨c, hnat, hbyte⟩ := exists_char_of_toNat_lt hsmall
  have hascii : c.toNat < 128 := hnat ▸ hsmall
  refine ⟨c, by rw [← isSidByteAt_ofNat hascii, hbyte, h], fun wide run ↦ ?_⟩
  rw [encode_cons, encodeChar_of_ascii hascii, asciiBytes, hbyte]
  cases wide <;> rfl

/-- A run of digits and hyphens in bytes spells one. -/
theorem exists_run (wide : Bool) (bytes : List UInt8) :
    ∃ run : Text, (∀ c ∈ run, isSidByte c = true) ∧
      bytes.take (sidRun wide bytes) = encode run wide := by
  have hnone (bytes : List UInt8) : ∃ run : Text, (∀ c ∈ run, isSidByte c = true) ∧
      bytes.take 0 = encode run wide := ⟨[], by simp, by simp⟩
  fun_induction sidRun wide bytes with
  | case1 => exact hnone []
  | case2 byte hbyte =>
    obtain ⟨hnarrow, hbyte⟩ := Bool.and_eq_true_iff.mp hbyte
    obtain ⟨c, hc, hencode⟩ := exists_char_of_isSidByteAt hbyte
    rw [Bool.not_eq_true'] at hnarrow
    subst hnarrow
    exact ⟨[c], by simpa using hc, by simp [hencode]⟩
  | case3 byte _ => exact hnone [byte]
  | case4 byte next rest hbyte hwide hnext ih =>
    obtain ⟨run, hrun, hspelt⟩ := ih
    obtain ⟨c, hc, hencode⟩ := exists_char_of_isSidByteAt hbyte
    refine ⟨c :: run, List.forall_mem_cons.mpr ⟨hc, hrun⟩, ?_⟩
    rw [hencode, if_pos hwide, ← hspelt, beq_iff_eq.mp hnext, Nat.add_comm, List.take_succ_cons,
      List.take_succ_cons]
  | case5 byte next rest _ _ _ => exact hnone _
  | case6 byte next rest hbyte hwide ih =>
    obtain ⟨run, hrun, hspelt⟩ := ih
    obtain ⟨c, hc, hencode⟩ := exists_char_of_isSidByteAt hbyte
    refine ⟨c :: run, List.forall_mem_cons.mpr ⟨hc, hrun⟩, ?_⟩
    rw [hencode, if_neg hwide, ← hspelt, Nat.add_comm, List.take_succ_cons]
  | case7 byte next rest _ => exact hnone _

/-- The SIDs of a domain are taken out of the rest of the bytes. -/
theorem replaced_sidBytesFrom {pair : Text × Text} (hpair : pair ∈ identifyingSids) (wide : Bool)
    (before : List UInt8) (passing : ℕ) (bytes : List UInt8) :
    Replaced (AnyBytePiece names) before (bytes.drop passing)
      (sidBytesFrom (encode pair.1 wide) (encode (pair.2.drop pair.1.length) wide)
        (encode pair.2 wide) wide passing bytes).1 := by
  have hpattern : encode pair.1 wide ≠ [] :=
    (encode_eq_nil_iff pair.1 wide).not.mpr (isSidDomain_of_mem hpair).ne_nil
  induction bytes generalizing before passing with
  | nil =>
    rw [List.drop_nil]
    cases passing <;> exact .nil before
  | cons byte rest ih =>
    cases passing with
    | succ passing => exact ih before passing
    | zero =>
      rw [List.drop_zero, sidBytesFrom]
      split
      · next hbegin =>
        have hafter := List.prefix_iff_eq_append.mp (List.isPrefixOf_iff_prefix.mp hbegin)
        obtain ⟨after, hdrop⟩ : ∃ after, after = (byte :: rest).drop (encode pair.1 wide).length :=
          ⟨_, rfl⟩
        have hpassed (count : ℕ) :
            rest.drop ((encode pair.1 wide).length - 1 + count) = after.drop count := by
          have hpositive : 0 < (encode pair.1 wide).length := List.length_pos_iff.mpr hpattern
          have hsum : (encode pair.1 wide).length + count =
              (encode pair.1 wide).length - 1 + count + 1 := by omega
          rw [hdrop, List.drop_drop, hsum, List.drop_succ_cons]
        rw [← hdrop] at hafter
        simp only [← hdrop]
        split
        · next hdone =>
          have hmore := List.prefix_iff_eq_append.mp (List.isPrefixOf_iff_prefix.mp hdone)
          rw [← hafter]
          nth_rewrite 1 [← hmore]
          rw [List.append_assoc, ← hpassed]
          exact .keep_append _ (.keep_append _ (ih _ _))
        · split
          · exact .keep byte (ih _ 0)
          · next hrun =>
            obtain ⟨run, hsid, hspelt⟩ := exists_run wide after
            have hsome : run ≠ [] := by
              rintro rfl
              rw [encode_nil, List.take_eq_nil_iff] at hspelt
              rcases hspelt with hzero | hnil
              · exact hrun hzero
              · exact hrun (by rw [hnil, sidRun])
            rw [← hafter]
            nth_rewrite 1 [← List.take_append_drop (sidRun wide after) after]
            rw [hspelt, ← List.append_assoc, ← encode_append, ← hpassed]
            exact .piece ⟨.sid, _, .sid wide hpair hsome hsid, trivial⟩ (ih _ _)
      · exact .keep byte (ih _ 0)

theorem accepts_of_mem_encodedFrom {accepts : ℕ → Bool} {pattern bytes : List UInt8}
    {offset passing start : ℕ} (h : start ∈ encodedFrom accepts pattern offset passing bytes) :
    accepts start = true := by
  induction bytes generalizing offset passing with
  | nil => cases passing <;> exact absurd h List.not_mem_nil
  | cons byte rest ih =>
    cases passing with
    | succ passing => exact ih h
    | zero =>
      rw [encodedFrom] at h
      split at h
      · next hhere =>
        cases h with
        | head => exact (Bool.and_eq_true_iff.mp hhere).2
        | tail _ h => exact ih h
      · exact ih h

/-- The occurrences of a name that stand on their own are taken out of bytes, from those that are
copied on. -/
theorem replaced_rebuild {name placeholder : Text} (hname : (name, placeholder) ∈ names)
    {bytes : List UInt8} {wide : Bool} (hne : encode name wide ≠ []) {starts : List ℕ}
    (hstarts : ∀ start ∈ starts,
      (encode name wide).map lowerByte <+: (bytes.drop start).map lowerByte ∧
        isAloneEncoded bytes wide start (encode name wide).length = true)
    (hspaced : starts.Pairwise fun start next ↦ start + (encode name wide).length ≤ next)
    {copied : ℕ} (hcopied : ∀ start ∈ starts, copied ≤ start) :
    Replaced (AnyBytePiece names) (bytes.take copied) (bytes.drop copied)
      (rebuild bytes (encode placeholder wide) (encode name wide).length copied starts) := by
  induction starts generalizing copied with
  | nil => exact .refl _ _
  | cons start starts ih =>
    obtain ⟨⟨hbegin, halone⟩, hrest⟩ := List.forall_mem_cons.mp hstarts
    obtain ⟨hlater, hpairs⟩ := List.pairwise_cons.mp hspaced
    obtain ⟨width, hwidth⟩ : ∃ width, width = (encode name wide).length := ⟨_, rfl⟩
    have hpositive : 0 < width := hwidth ▸ List.length_pos_iff.mpr hne
    have hbound : start + width ≤ bytes.length := by
      have hle := hbegin.length_le
      rw [List.length_map, List.length_map, List.length_drop, ← hwidth] at hle
      omega
    have hspan : (bytes.take (start + width)).drop start = (bytes.drop start).take width := by
      rw [List.drop_take, Nat.add_sub_cancel_left]
    have hsame : ((bytes.drop start).take width).map lowerByte =
        (encode name wide).map lowerByte := by
      rw [List.prefix_iff_eq_take, List.length_map, ← hwidth] at hbegin
      rw [List.map_take, hbegin]
    have hlength : ((bytes.drop start).take width).length = width := by
      rw [List.length_take, List.length_drop]
      omega
    have hlist : bytes.take start ++ ((bytes.drop start).take width ++
        bytes.drop (start + width)) = bytes := by
      rw [← List.drop_drop, List.take_append_drop, List.take_append_drop]
    have hpiece : AnyBytePiece names (bytes.take start) ((bytes.drop start).take width)
        (bytes.drop (start + width)) (encode placeholder wide) := by
      refine ⟨.name, _, .name wide hname hsame ?_, trivial⟩
      rw [hlist, hlength, List.length_take, Nat.min_eq_left (by omega), hwidth]
      exact halone
    rw [← hwidth] at hlater hrest hpairs ih ⊢
    rw [rebuild, List.append_assoc]
    apply Replaced.at_offset (hcopied start List.mem_cons_self) (Nat.le_add_right start width)
    · rwa [hspan]
    · exact ih hrest hpairs hlater

/-! ## A whole string -/

theorem replacedInPasses_applyRule (state : Text × List Text) {replaced : Option Text}
    (h : ∀ result, replaced = some result → Replaced (AnyPiece names) [] state.1 result)
    (placeholder : Text) :
    ReplacedInPasses (AnyPiece names) state.1 (applyRule state replaced placeholder).1 := by
  cases replaced with
  | none => exact .refl
  | some result => exact .single (h result rfl)

theorem replacedInPasses_sidsOf {domains : List (Text × Text)}
    (hdomains : domains ⊆ identifyingSids)
    (text : Text) : ReplacedInPasses (AnyPiece names) text (sidsOf domains text).1 := by
  induction domains generalizing text with
  | nil => exact .refl
  | cons pair domains ih =>
    rw [List.cons_subset] at hdomains
    rw [sidsOf_cons_fst hdomains.1]
    exact .head (replaced_sidsFrom hdomains.1 [] text) (ih hdomains.2 _)

/-- The rules are passes over a text. -/
theorem replacedInPasses_applyRules (text : Text) :
    ReplacedInPasses (AnyPiece names) text (applyRules text).1 := by
  have hemails (text result : Text) (h : replaceEmails text = some result) :
      Replaced (AnyPiece names) [] text result := by
    have hloop : Replaced (AnyPiece names) [] text (emailsFrom [] 0 text).1 :=
      replaced_emailsFrom [] [] 0 text
    unfold replaceEmails at h
    split at h
    · next hfrom =>
      rw [hfrom] at hloop
      exact Option.some.inj h ▸ hloop
    · cases h
  have hprofiles (text result : Text) (h : replaceUserProfiles text = some result) :
      Replaced (AnyPiece names) [] text result := by
    have hloop : Replaced (AnyPiece names) [] text (profilesFrom 0 text).1 :=
      replaced_profilesFrom [] 0 text
    unfold replaceUserProfiles at h
    split at h
    · next hfrom =>
      rw [hfrom] at hloop
      exact Option.some.inj h ▸ hloop
    · cases h
  have hsids (state : Text × List Text) :
      ReplacedInPasses (AnyPiece names) state.1 (applyTextSids state).1 := by
    rw [applyTextSids_fst]
    exact replacedInPasses_sidsOf (List.Subset.refl _) _
  have hfirst := replacedInPasses_applyRule (text, []) (hemails text) emailPlaceholder
  have hsecond (state : Text × List Text) := replacedInPasses_applyRule state
    (hprofiles state.1) userPlaceholder
  have hlast (state : Text × List Text) : ReplacedInPasses (AnyPiece names) state.1
      (applyRule state (replaceUncHosts state.1) hostPlaceholder).1 :=
    replacedInPasses_applyRule state (fun _ ↦ replaced_uncHost) hostPlaceholder
  exact ((hfirst.trans (hsecond _)).trans (hsids _)).trans (hlast _)

/-- A name's turn is a pass over a text. -/
theorem replacedInPasses_applyBareName {name : Text × Text} (hname : name ∈ names)
    (state : Text × List Text) :
    ReplacedInPasses (AnyPiece names) state.1 (applyBareName state name).1 := by
  obtain ⟨text, used⟩ := state
  rw [applyBareName_fst]
  exact .single (replaced_bareNamesFrom hname (fun _ hstart ↦ hstart) 0)

theorem replacedInPasses_sidBytesOf (wide : Bool) {domains : List (Text × Text)}
    (hdomains : domains ⊆ identifyingSids) (bytes : List UInt8) :
    ReplacedInPasses (AnyBytePiece names) bytes (sidBytesOf wide domains bytes).1 := by
  induction domains generalizing bytes with
  | nil => exact .refl
  | cons pair domains ih =>
    rw [List.cons_subset] at hdomains
    rw [sidBytesOf_cons_fst wide hdomains.1]
    exact .head (replaced_sidBytesFrom hdomains.1 wide [] 0 bytes) (ih hdomains.2 _)

theorem replacedInPasses_applyEncoded {name : Text × Text} (hname : name ∈ names) (wide : Bool)
    (state : List UInt8 × List Text) :
    ReplacedInPasses (AnyBytePiece names) state.1 (applyEncoded name.1 name.2 wide state).1 := by
  obtain ⟨bytes, used⟩ := state
  rw [applyEncoded_fst]
  by_cases hne : encode name.1 wide = []
  · have hnone : findEncoded bytes name.1 wide true = [] := by simp [findEncoded, hne]
    rw [hnone, rebuild, List.drop_zero]
    exact .refl
  · have hempty : (encode name.1 wide).isEmpty = false := List.isEmpty_eq_false_iff.mpr hne
    have hfound : findEncoded bytes name.1 wide true = [] ∨ findEncoded bytes name.1 wide true =
        encodedFrom (fun offset ↦ !true || isAloneEncoded bytes wide offset
          (encode name.1 wide).length) (encode name.1 wide) 0 0 bytes := by
      simp only [findEncoded, hempty, Bool.false_or, decide_eq_true_eq]
      split
      · exact .inl rfl
      · exact .inr rfl
    rcases hfound with hnone | hfrom
    · rw [hnone, rebuild, List.drop_zero]
      exact .refl
    · obtain ⟨hstarts, hspaced⟩ := encodedFrom_sound hne bytes 0
      rw [hfrom]
      refine .single (replaced_rebuild hname hne (fun start hstart ↦ ?_) hspaced
        fun start _ ↦ Nat.zero_le start)
      obtain ⟨-, hbegin⟩ := hstarts start hstart
      have halone := accepts_of_mem_encodedFrom hstart
      rw [Nat.sub_zero] at hbegin
      exact ⟨hbegin, halone⟩

/-- SIDs and names are passes over the bytes that a text spells. -/
theorem replacedInPasses_bytes (state : List UInt8 × List Text) :
    ReplacedInPasses (AnyBytePiece names) state.1
      (names.foldl applyName (applySids true (applySids false state))).1 := by
  have hsids (wide : Bool) (state : List UInt8 × List Text) :
      ReplacedInPasses (AnyBytePiece names) state.1 (applySids wide state).1 := by
    rw [applySids_fst]
    exact replacedInPasses_sidBytesOf wide (List.Subset.refl _) _
  have hnames (name : Text × Text) (hname : name ∈ names) (state : List UInt8 × List Text) :
      ReplacedInPasses (AnyBytePiece names) state.1 (applyName state name).1 :=
    (replacedInPasses_applyEncoded hname false state).trans
      (replacedInPasses_applyEncoded hname true _)
  exact ((hsids false state).trans (hsids true _)).trans (ReplacedInPasses.foldl hnames _)

/-- Hex is left as it is, or spells the bytes after the SIDs and the names. -/
theorem applyHex_fst (state : Text × List Text) :
    (applyHex state names).1 = state.1 ∨
      ∃ bytes, decodeHex (splitBinary state.1).2 = some bytes ∧
        (applyHex state names).1 = (splitBinary state.1).1 ++
          encodeHex (names.foldl applyName (applySids true (applySids false (bytes, [])))).1
            ((splitBinary state.1).2.any Char.isUpper) := by
  unfold applyHex replaceInHex
  cases decodeHex (splitBinary state.1).2 with
  | none => exact .inl rfl
  | some bytes =>
    simp only
    by_cases hnone :
      (names.foldl applyName (applySids true (applySids false (bytes, [])))).2.isEmpty
    · rw [if_pos hnone]
      exact .inl rfl
    · rw [if_neg hnone]
      exact .inr ⟨bytes, rfl, rfl⟩

/-- A rewritten string is what passes make of it and of the bytes that it spells. -/
theorem rewrittenBy_redactString (names : List (Text × Text)) (text : Text) :
    RewrittenBy names (fun _ _ ↦ True) text (redactString names text) := by
  have hown : ReplacedInPasses (AnyPiece names) text
      (names.foldl applyBareName (applyRules text)).1 :=
    (replacedInPasses_applyRules text).trans
      (ReplacedInPasses.foldl (fun name hname ↦ replacedInPasses_applyBareName hname) _)
  unfold redactString redactTextWith
  split
  · exact ⟨text, .refl, .inl rfl⟩
  · refine ⟨_, hown, (applyHex_fst _).imp_right ?_⟩
    rintro ⟨bytes, hdecode, hresult⟩
    exact ⟨bytes, _, hdecode, replacedInPasses_bytes (bytes, []), hresult⟩

end Rules

end WardSweep.Redact
