import WardSweep.Safety.Resolve

/-!
# What canonicalisation computes

Specifications of root splitting and of the two canonicalisers: where each slice can panic, which
texts are read as which root, and what the components, the rendering and the 8.3 flag of an
accepted path are in terms of the reference reading of its segments.
-/

namespace WardSweep.Paths

open Utf8 Str

/-! ## Guarded slices -/

/-- An offset within the text is on a character boundary. -/
def Cuts (text : Text) (offset : ℕ) : Prop := offset ≤ byteLen text → IsBoundary text offset

instance (text : Text) (offset : ℕ) : Decidable (Cuts text offset) :=
  inferInstanceAs (Decidable (_ → _))

/-- The text begins with the wanted one, ignoring ASCII case. -/
def beginsWithCi (text want : Text) : Bool := eqIgnoreAsciiCase (text.take want.length) want

theorem length_eq_of_eqIgnoreAsciiCase {left right : Text}
    (h : eqIgnoreAsciiCase left right = true) : left.length = right.length := by
  rw [eqIgnoreAsciiCase_iff] at h
  simpa using congrArg List.length h

theorem byteLen_eq_of_eqIgnoreAsciiCase {left right : Text}
    (h : eqIgnoreAsciiCase left right = true) : byteLen left = byteLen right := by
  rw [eqIgnoreAsciiCase_iff] at h
  simpa using congrArg byteLen h

/-- Two beginnings of one text with the same length in bytes are the same. -/
theorem eq_of_prefix_of_byteLen_eq {text left right : Text} (hleft : left <+: text)
    (hright : right <+: text) (hlen : byteLen left = byteLen right) : left = right := by
  rcases List.prefix_or_prefix_of_prefix hleft hright with ⟨tail, rfl⟩ | ⟨tail, rfl⟩
  · rw [byteLen_append] at hlen
    rw [(byteLen_eq_zero_iff tail).1 (by omega), List.append_nil]
  · rw [byteLen_append] at hlen
    rw [(byteLen_eq_zero_iff tail).1 (by omega), List.append_nil]

/-- Stripping a prefix panics where its offset does not cut, and otherwise compares the beginning
of the text with the prefix. -/
theorem stripPrefixCi_eq {ε : Type*} (text want : Text) :
    (stripPrefixCi text want : Outcome ε (Option Text)) =
      if Cuts text (byteLen want) then
        .ok (if beginsWithCi text want then some (text.drop want.length) else none)
      else .panic := by
  unfold stripPrefixCi beginsWithCi
  by_cases hlong : byteLen want ≤ byteLen text
  · rw [if_pos hlong]
    by_cases hboundary : IsBoundary text (byteLen want)
    · rw [if_pos (show Cuts text (byteLen want) from fun _ ↦ hboundary)]
      obtain ⟨head, rest, rfl, hlen⟩ := hboundary
      rw [← hlen, sliceTo_append, sliceFrom_append, Outcome.bind_ok]
      by_cases hhead : eqIgnoreAsciiCase head want = true
      · have hlength := length_eq_of_eqIgnoreAsciiCase hhead
        rw [if_pos hhead, ← hlength, List.take_left, List.drop_left, if_pos hhead]
        rfl
      · rw [if_neg hhead, if_neg]
        intro htake
        refine hhead ?_
        rwa [eq_of_prefix_of_byteLen_eq (List.prefix_append head rest)
          (List.take_prefix want.length _)
            (hlen.trans (byteLen_eq_of_eqIgnoreAsciiCase htake).symm)]
    · rw [if_neg (show ¬ Cuts text (byteLen want) from fun hcuts ↦ hboundary (hcuts hlong)),
        sliceTo_eq_panic_of_not_isBoundary hboundary]
      rfl
  · rw [if_neg hlong, if_pos (show Cuts text (byteLen want) from fun h ↦ absurd h hlong), if_neg]
    intro htake
    have hbytes := byteLen_eq_of_eqIgnoreAsciiCase htake
    obtain ⟨tail, htail⟩ := List.take_prefix want.length text
    have htext := congrArg byteLen htail
    rw [byteLen_append] at htext
    omega

/-- Case is no freedom where the wanted text has no letters. -/
theorem eq_of_toAsciiUppercase_eq {left want : Text}
    (hwant : ∀ c ∈ want, isAsciiAlphabetic c.toNat = false)
    (h : toAsciiUppercase left = toAsciiUppercase want) : left = want := by
  induction want generalizing left with
  | nil => simpa using h
  | cons c want ih =>
    obtain ⟨d, left, rfl⟩ : ∃ d tail, left = d :: tail := by
      cases left with
      | nil => cases h
      | cons d left => exact ⟨d, left, rfl⟩
    obtain ⟨hhead, htail⟩ := List.cons.inj h
    have hc := hwant c List.mem_cons_self
    rw [(toUpper_eq_iff hc).2 (rfl : c = c), toUpper_eq_iff hc] at hhead
    rw [hhead, ih (fun e he ↦ hwant e (List.mem_cons_of_mem _ he)) htail]

theorem beginsWithCi_iff {want : Text} (hwant : ∀ c ∈ want, isAsciiAlphabetic c.toNat = false)
    (text : Text) : beginsWithCi text want = true ↔ want <+: text := by
  rw [beginsWithCi, eqIgnoreAsciiCase_iff, List.prefix_iff_eq_take]
  exact ⟨fun h ↦ (eq_of_toAsciiUppercase_eq hwant h).symm, fun h ↦ by rw [← h]⟩

theorem beginsWithCi_verbatim_iff (text : Text) :
    beginsWithCi text verbatim = true ↔ verbatim <+: text :=
  beginsWithCi_iff (by decide) text

theorem beginsWithCi_deviceRoot_iff (text : Text) :
    beginsWithCi text deviceRoot = true ↔ deviceRoot <+: text :=
  beginsWithCi_iff (by decide) text

theorem eqIgnoreAsciiCase_cons_iff (c d : Char) (left right : Text) :
    eqIgnoreAsciiCase (c :: left) (d :: right) = true ↔
      c.toUpper = d.toUpper ∧ eqIgnoreAsciiCase left right = true := by
  rw [eqIgnoreAsciiCase_iff, eqIgnoreAsciiCase_iff, toAsciiUppercase, toAsciiUppercase,
    List.map_cons, List.map_cons, List.cons.injEq]
  rfl

theorem beginsWithCi_cons_iff (c d : Char) (text want : Text) :
    beginsWithCi (c :: text) (d :: want) = true ↔
      c.toUpper = d.toUpper ∧ beginsWithCi text want = true :=
  eqIgnoreAsciiCase_cons_iff c d _ want

/-- Every offset cuts an ASCII text. -/
theorem cuts_of_ascii {text : Text} (hascii : ∀ c ∈ text, c.utf8Size = 1) (offset : ℕ) :
    Cuts text offset := fun hoffset ↦ isBoundary_of_ascii hascii hoffset

/-- The end of an initial segment cuts. -/
theorem cuts_append (left right : Text) : Cuts (left ++ right) (byteLen left) :=
  fun _ ↦ ⟨left, right, rfl, rfl⟩

theorem isBoundary_toAsciiUppercase_iff (text : Text) (offset : ℕ) :
    IsBoundary (toAsciiUppercase text) offset ↔ IsBoundary text offset := by
  constructor
  · rintro ⟨left, right, hsplit, hlen⟩
    obtain ⟨left', right', rfl, rfl, rfl⟩ := List.map_eq_append_iff.1 hsplit
    exact ⟨left', right', rfl, by rw [← hlen]; exact (byteLen_toAsciiUppercase left').symm⟩
  · rintro ⟨left, right, rfl, hlen⟩
    exact ⟨toAsciiUppercase left, toAsciiUppercase right, toAsciiUppercase_append left right,
      by rw [byteLen_toAsciiUppercase, hlen]⟩

@[simp] theorem cuts_toAsciiUppercase_iff (text : Text) (offset : ℕ) :
    Cuts (toAsciiUppercase text) offset ↔ Cuts text offset := by
  rw [Cuts, Cuts, byteLen_toAsciiUppercase, isBoundary_toAsciiUppercase_iff]

theorem eqIgnoreAsciiCase_toAsciiUppercase (left right : Text) :
    eqIgnoreAsciiCase (toAsciiUppercase left) right = eqIgnoreAsciiCase left right := by
  rw [Bool.eq_iff_iff, eqIgnoreAsciiCase_iff, eqIgnoreAsciiCase_iff, toAsciiUppercase_idem]

/-! ## Roots -/

/-- `GLOBALROOT`, alone or above other components. -/
def isGlobalroot (rest : Text) : Bool :=
  beginsWithCi rest r"GLOBALROOT\".toList || eqIgnoreAsciiCase rest "GLOBALROOT".toList

theorem startsWithGlobalroot_eq {ε : Type*} (rest : Text) :
    (startsWithGlobalroot rest : Outcome ε Bool) =
      if Cuts rest 11 then .ok (isGlobalroot rest) else .panic := by
  rw [startsWithGlobalroot, stripPrefixCi_eq, show byteLen r"GLOBALROOT\".toList = 11 from rfl]
  by_cases hcuts : Cuts rest 11
  · rw [if_pos hcuts, if_pos hcuts, Outcome.bind_ok, isGlobalroot]
    congr 2
    split <;> simp_all
  · rw [if_neg hcuts, if_neg hcuts]
    rfl

/-- The namespaces that are recognised once no extended-length prefix was found. -/
def plainRoot (path : Text) : Outcome PathError (PathKind × Text × Text) :=
  match stripPrefix path ntRoot with
  | some rest => .ok (.device, ntRoot, rest)
  | none =>
    match stripPrefix path r"\\".toList with
    | some rest => uncRoot rest path
    | none => driveRoot path path

/-- Root splitting, with its three slices made explicit. -/
theorem splitRoot_eq (path : Text) :
    splitRoot path =
      if ¬ Cuts path 8 then .panic
      else if beginsWithCi path verbatimUnc then uncRoot (path.drop 8) path
      else if ¬ Cuts path 4 then .panic
      else if beginsWithCi path verbatim then
        if ¬ Cuts (path.drop 4) 11 then .panic
        else if isGlobalroot (path.drop 4) then .ok (.device, verbatim, path.drop 4)
        else driveRoot (path.drop 4) path
      else if beginsWithCi path deviceRoot then .ok (.device, deviceRoot, path.drop 4)
      else plainRoot path := by
  rw [splitRoot, stripPrefixCi_eq, show byteLen verbatimUnc = 8 from rfl]
  by_cases hunc : Cuts path 8
  · rw [if_pos hunc, if_neg (not_not.2 hunc), Outcome.bind_ok]
    by_cases hmatch : beginsWithCi path verbatimUnc = true
    · simp only [hmatch, if_true]
      rfl
    · simp only [hmatch, if_false, Bool.false_eq_true]
      rw [stripPrefixCi_eq, show byteLen verbatim = 4 from rfl]
      by_cases hfour : Cuts path 4
      · rw [if_pos hfour, if_neg (not_not.2 hfour), Outcome.bind_ok]
        by_cases hverbatim : beginsWithCi path verbatim = true
        · simp only [hverbatim, if_true, show verbatim.length = 4 from rfl]
          rw [startsWithGlobalroot_eq]
          by_cases heleven : Cuts (path.drop 4) 11
          · rw [if_pos heleven, if_neg (not_not.2 heleven), Outcome.bind_ok]
            cases isGlobalroot (path.drop 4) <;> rfl
          · rw [if_neg heleven, if_pos heleven]
            rfl
        · simp only [hverbatim, if_false, Bool.false_eq_true]
          rw [stripPrefixCi_eq, show byteLen deviceRoot = 4 from rfl, if_pos hfour,
            Outcome.bind_ok]
          by_cases hdevice : beginsWithCi path deviceRoot = true
          · simp only [hdevice, if_true]
            rfl
          · simp only [hdevice, if_false, Bool.false_eq_true]
            rfl
      · rw [if_neg hfour, if_pos hfour]
        rfl
  · rw [if_neg hunc, if_pos hunc]
    rfl

/-- The first byte of a text is an ASCII code exactly when it is its first character's. -/
theorem bytes_eq_cons_of_lt {text : Text} {byte : UInt8} {rest : List UInt8}
    (h : bytes text = byte :: rest) (hbyte : byte.toNat < 128) :
    ∃ c tail, text = c :: tail ∧ c.toNat = byte.toNat ∧ bytes tail = rest := by
  cases text with
  | nil => cases h
  | cons c tail =>
    refine ⟨c, tail, rfl, ?_⟩
    rw [bytes_cons] at h
    by_cases hc : c.toNat < 128
    · rw [utf8EncodeChar_of_ascii hc] at h
      obtain ⟨rfl, hrest⟩ := List.cons.inj h
      refine ⟨?_, hrest⟩
      rw [UInt8.toNat_ofNat']
      omega
    · obtain ⟨first, others, hbytes⟩ := List.exists_cons_of_ne_nil (utf8EncodeChar_ne_nil c)
      rw [hbytes, List.cons_append] at h
      have hfirst := le_of_mem_utf8EncodeChar (not_lt.1 hc) (hbytes ▸ List.mem_cons_self)
      rw [(List.cons.inj h).1] at hfirst
      omega

theorem lt_of_isAsciiAlphabetic {code : ℕ} (h : isAsciiAlphabetic code = true) : code < 128 := by
  simp only [isAsciiAlphabetic, Bool.or_eq_true, Bool.and_eq_true, decide_eq_true_eq] at h
  omega

/-- `X:\rest` is a drive root above `rest`. -/
theorem driveRoot_rooted {letter : Char} (hletter : isAsciiAlphabetic letter.toNat = true)
    (rest original : Text) :
    driveRoot (letter :: ':' :: '\\' :: rest) original =
      .ok (.driveRooted, [letter.toUpper, ':'], rest) := by
  have hlt := lt_of_isAsciiAlphabetic hletter
  have hraw : bytes (letter :: ':' :: '\\' :: rest) =
      UInt8.ofNat letter.toNat :: 58 :: 92 :: bytes rest := by
    rw [bytes_cons, bytes_cons, bytes_cons, utf8EncodeChar_of_ascii hlt]
    rfl
  have hnat : (UInt8.ofNat letter.toNat).toNat = letter.toNat := by
    rw [UInt8.toNat_ofNat']
    omega
  have hsize : letter.utf8Size = 1 := by
    have hval : letter.val ≤ 127 := by
      rw [UInt32.le_iff_toNat_le]
      exact Nat.lt_succ_iff.1 hlt
    unfold Char.utf8Size
    exact if_pos hval
  have hslice : (sliceFrom (letter :: ':' :: '\\' :: rest) 3 : Outcome PathError Text) =
      .ok rest := by
    have hlen : byteLen [letter, ':', '\\'] = 3 := by
      rw [byteLen_cons, hsize]
      rfl
    rw [show letter :: ':' :: '\\' :: rest = [letter, ':', '\\'] ++ rest from rfl, ← hlen,
      sliceFrom_append]
  rw [driveRoot, hraw]
  simp only [hnat, hletter, hslice, Char.ofNat_toNat, Outcome.bind_ok]
  rfl

/-- `X:` is a drive root with nothing after it. -/
theorem driveRoot_bare {letter : Char} (hletter : isAsciiAlphabetic letter.toNat = true)
    (original : Text) :
    driveRoot [letter, ':'] original = .ok (.driveRooted, [letter.toUpper, ':'], []) := by
  have hlt := lt_of_isAsciiAlphabetic hletter
  have hraw : bytes [letter, ':'] = [UInt8.ofNat letter.toNat, 58] := by
    rw [bytes_cons, bytes_cons, utf8EncodeChar_of_ascii hlt]
    rfl
  have hnat : (UInt8.ofNat letter.toNat).toNat = letter.toNat := by
    rw [UInt8.toNat_ofNat']
    omega
  rw [driveRoot, hraw]
  simp only [hnat, hletter, Char.ofNat_toNat]
  rfl

/-- Nothing else is a drive root, and no drive root panics. -/
theorem driveRoot_cases (candidate original : Text) :
    (∃ letter rest, isAsciiAlphabetic letter.toNat = true ∧
      candidate = letter :: ':' :: '\\' :: rest) ∨
    (∃ letter, isAsciiAlphabetic letter.toNat = true ∧ candidate = [letter, ':']) ∨
    driveRoot candidate original = .err (.notAbsolute original) := by
  by_cases hrooted : ∃ letter colon slash rest, bytes candidate = letter :: colon :: slash :: rest ∧
      isAsciiAlphabetic letter.toNat = true ∧ colon.toNat = 58 ∧ slash.toNat = 92
  · obtain ⟨letter, colon, slash, rest, hraw, hletter, hcolon, hslash⟩ := hrooted
    obtain ⟨c, tail, rfl, hc, htail⟩ :=
      bytes_eq_cons_of_lt hraw (lt_of_isAsciiAlphabetic hletter)
    obtain ⟨d, tail, rfl, hd, htail⟩ := bytes_eq_cons_of_lt htail (by omega)
    obtain ⟨e, tail, rfl, he, -⟩ := bytes_eq_cons_of_lt htail (by omega)
    refine .inl ⟨c, tail, hc ▸ hletter, ?_⟩
    rw [show d = ':' from char_ext_toNat (hd.trans hcolon),
      show e = '\\' from char_ext_toNat (he.trans hslash)]
  · by_cases hbare : ∃ letter colon, bytes candidate = [letter, colon] ∧
        isAsciiAlphabetic letter.toNat = true ∧ colon.toNat = 58
    · obtain ⟨letter, colon, hraw, hletter, hcolon⟩ := hbare
      obtain ⟨c, tail, rfl, hc, htail⟩ :=
        bytes_eq_cons_of_lt hraw (lt_of_isAsciiAlphabetic hletter)
      obtain ⟨d, tail, rfl, hd, htail⟩ := bytes_eq_cons_of_lt htail (by omega)
      have htail : tail = [] := by
        cases tail with
        | nil => rfl
        | cons e tail =>
          rw [bytes_cons, List.append_eq_nil_iff] at htail
          exact absurd htail.1 (utf8EncodeChar_ne_nil e)
      refine .inr (.inl ⟨c, hc ▸ hletter, ?_⟩)
      rw [htail, show d = ':' from char_ext_toNat (hd.trans hcolon)]
    · refine .inr (.inr ?_)
      unfold driveRoot
      rcases hraw : bytes candidate with - | ⟨first, - | ⟨second, - | ⟨third, rest⟩⟩⟩
      · rfl
      · rfl
      · refine if_pos ?_
        rw [Bool.not_false, Bool.true_and, Bool.not_eq_true']
        refine Bool.eq_false_iff.2 fun htrue ↦ ?_
        rw [Bool.and_eq_true, beq_iff_eq] at htrue
        exact hbare ⟨first, second, hraw, htrue.1, htrue.2⟩
      · refine if_pos ?_
        rw [Bool.not_false, Bool.and_true, Bool.not_eq_true']
        refine Bool.eq_false_iff.2 fun htrue ↦ ?_
        rw [Bool.and_eq_true, Bool.and_eq_true, beq_iff_eq, beq_iff_eq] at htrue
        exact hrooted ⟨first, second, third, rest, hraw, htrue.1.1, htrue.1.2, htrue.2⟩

theorem driveRoot_returns (candidate original : Text) :
    (driveRoot candidate original).Returns := by
  rcases driveRoot_cases candidate original with
    ⟨letter, rest, hletter, rfl⟩ | ⟨letter, hletter, rfl⟩ | herr
  · simp [driveRoot_rooted hletter]
  · simp [driveRoot_bare hletter]
  · simp [herr]

theorem uncRoot_returns (rest original : Text) : (uncRoot rest original).Returns := by
  unfold uncRoot
  split
  split <;> simp

/-- A text that spells a drive root: the root, and the segments below it. -/
def SpellsDrive (letter : Char) (rest text : Text) : Prop :=
  isAsciiAlphabetic letter.toNat = true ∧
    (text = letter :: ':' :: '\\' :: rest ∨ text = [letter, ':'] ∧ rest = [])

theorem driveRoot_eq_ok {candidate original root rest : Text} {kind : PathKind}
    (h : driveRoot candidate original = .ok (kind, root, rest)) :
    kind = .driveRooted ∧ ∃ letter, root = [letter.toUpper, ':'] ∧
      SpellsDrive letter rest candidate := by
  rcases driveRoot_cases candidate original with
    ⟨letter, tail, hletter, rfl⟩ | ⟨letter, hletter, rfl⟩ | herr
  · rw [driveRoot_rooted hletter] at h
    simp only [Outcome.ok.injEq, Prod.mk.injEq] at h
    obtain ⟨rfl, rfl, rfl⟩ := h
    exact ⟨rfl, letter, rfl, hletter, .inl rfl⟩
  · rw [driveRoot_bare hletter] at h
    simp only [Outcome.ok.injEq, Prod.mk.injEq] at h
    obtain ⟨rfl, rfl, rfl⟩ := h
    exact ⟨rfl, letter, rfl, hletter, .inr ⟨rfl, rfl⟩⟩
  · rw [herr] at h
    cases h

theorem driveRoot_of_spellsDrive {letter : Char} {rest text : Text}
    (h : SpellsDrive letter rest text) (original : Text) :
    driveRoot text original = .ok (.driveRooted, [letter.toUpper, ':'], rest) := by
  obtain ⟨hletter, rfl | ⟨rfl, rfl⟩⟩ := h
  · exact driveRoot_rooted hletter rest original
  · exact driveRoot_bare hletter original

theorem uncRoot_eq_ok {rest original root tail : Text} {kind : PathKind}
    (h : uncRoot rest original = .ok (kind, root, tail)) :
    kind = .unc ∧ ∃ host share, host ≠ [] ∧ share ≠ [] ∧
      splitHostShare rest = (host, share, tail) ∧
      root = r"\\".toList ++ host ++ ['\\'] ++ share := by
  unfold uncRoot at h
  rcases hsplit : splitHostShare rest with ⟨host, share, tail'⟩
  rw [hsplit] at h
  dsimp only at h
  split_ifs at h with hempty
  simp only [Outcome.ok.injEq, Prod.mk.injEq] at h
  obtain ⟨rfl, rfl, rfl⟩ := h
  rw [not_or] at hempty
  exact ⟨rfl, host, share, hempty.1, hempty.2, rfl, rfl⟩

/-- How a text can be read as a root and what is below it. -/
inductive RootForm (path : Text) : PathKind → Text → Text → Prop
  /-- `\\?\UNC\host\share\…` -/
  | verbatimUnc {host share tail : Text} (hbegin : beginsWithCi path verbatimUnc = true)
      (hhost : host ≠ []) (hshare : share ≠ [])
      (hsplit : splitHostShare (path.drop 8) = (host, share, tail)) :
      RootForm path .unc (r"\\".toList ++ host ++ ['\\'] ++ share) tail
  /-- `\\?\GLOBALROOT\…` -/
  | globalroot {rest : Text} (hpath : path = verbatim ++ rest)
      (hglobal : isGlobalroot rest = true) :
      RootForm path .device verbatim rest
  /-- `\\?\X:\…` -/
  | verbatimDrive {letter : Char} {rest drive : Text} (hpath : path = verbatim ++ drive)
      (hdrive : SpellsDrive letter rest drive) :
      RootForm path .driveRooted [letter.toUpper, ':'] rest
  /-- `\\.\…` -/
  | deviceRoot {rest : Text} (hpath : path = deviceRoot ++ rest) :
      RootForm path .device deviceRoot rest
  /-- `\??\…` -/
  | ntRoot {rest : Text} (hpath : path = ntRoot ++ rest) : RootForm path .device ntRoot rest
  /-- `\\host\share\…` -/
  | unc {host share tail rest : Text} (hpath : path = r"\\".toList ++ rest)
      (hhost : host ≠ []) (hshare : share ≠ [])
      (hsplit : splitHostShare rest = (host, share, tail)) :
      RootForm path .unc (r"\\".toList ++ host ++ ['\\'] ++ share) tail
  /-- `X:\…` -/
  | drive {letter : Char} {rest : Text} (hdrive : SpellsDrive letter rest path) :
      RootForm path .driveRooted [letter.toUpper, ':'] rest

theorem plainRoot_eq_ok {path root rest : Text} {kind : PathKind}
    (h : plainRoot path = .ok (kind, root, rest)) : RootForm path kind root rest := by
  unfold plainRoot at h
  split at h
  · next tail hnt =>
    cases h
    exact .ntRoot ((stripPrefix_eq_some_iff _ _ _).1 hnt)
  · split at h
    · next tail hslashes =>
      obtain ⟨rfl, host, share, hhost, hshare, hsplit, rfl⟩ := uncRoot_eq_ok h
      exact .unc ((stripPrefix_eq_some_iff _ _ _).1 hslashes) hhost hshare hsplit
    · obtain ⟨rfl, letter, rfl, hspells⟩ := driveRoot_eq_ok h
      exact .drive hspells

/-- Every root that is split off has one of the seven forms. -/
theorem splitRoot_eq_ok {path root rest : Text} {kind : PathKind}
    (h : splitRoot path = .ok (kind, root, rest)) : RootForm path kind root rest := by
  have hdrop {want : Text} (hwant : want <+: path) : path = want ++ path.drop want.length := by
    obtain ⟨tail, rfl⟩ := hwant
    rw [List.drop_left]
  rw [splitRoot_eq] at h
  split_ifs at h with h8 hunc h4 hverbatim h11 hglobal hdevice
  · obtain ⟨rfl, host, share, hhost, hshare, hsplit, rfl⟩ := uncRoot_eq_ok h
    exact .verbatimUnc hunc hhost hshare hsplit
  · cases h
    exact .globalroot (hdrop ((beginsWithCi_verbatim_iff path).1 hverbatim)) hglobal
  · obtain ⟨rfl, letter, rfl, hspells⟩ := driveRoot_eq_ok h
    exact .verbatimDrive (hdrop ((beginsWithCi_verbatim_iff path).1 hverbatim)) hspells
  · cases h
    exact .deviceRoot (hdrop ((beginsWithCi_deviceRoot_iff path).1 hdevice))
  · exact plainRoot_eq_ok h

/-! ## Which texts can be split -/

/-- Each offset root splitting cuts this text at is a character boundary of it. -/
def CutsRoot (text : Text) : Prop :=
  Cuts text 8 ∧
    (beginsWithCi text verbatimUnc = false →
      Cuts text 4 ∧ (beginsWithCi text verbatim = true → Cuts (text.drop 4) 11))

theorem plainRoot_returns (path : Text) : (plainRoot path).Returns := by
  unfold plainRoot
  split
  · exact Outcome.returns_ok _
  · split
    · exact uncRoot_returns _ _
    · exact driveRoot_returns _ _

theorem splitRoot_returns_iff (path : Text) : (splitRoot path).Returns ↔ CutsRoot path := by
  rw [splitRoot_eq, CutsRoot]
  by_cases h8 : Cuts path 8
  swap
  · simp [h8]
  by_cases hunc : beginsWithCi path verbatimUnc = true
  · simp [h8, hunc, uncRoot_returns]
  by_cases h4 : Cuts path 4
  swap
  · simp [h8, hunc, h4]
  by_cases hverbatim : beginsWithCi path verbatim = true
  · by_cases h11 : Cuts (path.drop 4) 11
    · by_cases hglobal : isGlobalroot (path.drop 4) = true
      · simp [h8, hunc, h4, hverbatim, h11, hglobal]
      · simp [h8, hunc, h4, hverbatim, h11, hglobal, driveRoot_returns]
    · simp [h8, hunc, h4, hverbatim, h11]
  · by_cases hdevice : beginsWithCi path deviceRoot = true
    · simp [h8, hunc, h4, hverbatim, hdevice]
    · simp [h8, hunc, h4, hverbatim, hdevice, plainRoot_returns]

theorem cutsRoot_of_ascii {text : Text} (hascii : ∀ c ∈ text, c.utf8Size = 1) : CutsRoot text :=
  ⟨cuts_of_ascii hascii 8, fun _ ↦ ⟨cuts_of_ascii hascii 4,
    fun _ ↦ cuts_of_ascii (fun c hc ↦ hascii c (List.mem_of_mem_drop hc)) 11⟩⟩

/-! ## Splitting off a known root -/

/-- What begins like a verbatim share begins like a verbatim path. -/
theorem beginsWithCi_verbatim_of_verbatimUnc {text : Text}
    (h : beginsWithCi text verbatimUnc = true) : beginsWithCi text verbatim = true := by
  rw [beginsWithCi, eqIgnoreAsciiCase_iff] at h ⊢
  have htake := congrArg (List.take 4) h
  rw [toAsciiUppercase, ← List.map_take, List.take_take] at htake
  exact htake

/-- Without a verbatim prefix there are a device root and the plain roots. -/
theorem splitRoot_of_not_verbatim {text : Text} (h : ¬ verbatim <+: text)
    (hcuts : CutsRoot text) :
    splitRoot text =
      if beginsWithCi text deviceRoot then .ok (.device, deviceRoot, text.drop 4)
      else plainRoot text := by
  have hverbatim : ¬ beginsWithCi text verbatim = true := by rwa [beginsWithCi_verbatim_iff]
  have hunc : ¬ beginsWithCi text verbatimUnc = true := fun hunc ↦
    hverbatim (beginsWithCi_verbatim_of_verbatimUnc hunc)
  have h4 := (hcuts.2 (Bool.eq_false_iff.2 hunc)).1
  rw [splitRoot_eq, if_neg (not_not.2 hcuts.1), if_neg hunc, if_neg (not_not.2 h4),
    if_neg hverbatim]

theorem SpellsDrive.exists_cons {letter : Char} {rest text : Text}
    (h : SpellsDrive letter rest text) :
    isAsciiAlphabetic letter.toNat = true ∧ ∃ tail, text = letter :: ':' :: tail := by
  obtain ⟨hletter, rfl | ⟨rfl, -⟩⟩ := h
  · exact ⟨hletter, '\\' :: rest, rfl⟩
  · exact ⟨hletter, [], rfl⟩

theorem ne_backslash_of_isAsciiAlphabetic {letter : Char}
    (h : isAsciiAlphabetic letter.toNat = true) : letter ≠ '\\' := by
  rintro rfl
  exact absurd h (by decide)

/-- A text that starts with another character does not have the prefix. -/
theorem not_prefix_of_ne {first c : Char} (h : first ≠ c) (tail want : Text) :
    ¬ c :: want <+: first :: tail := fun hbegins ↦
  h (List.cons_prefix_cons.1 hbegins).1.symm

theorem stripPrefix_eq_none {text want : Text} (h : ¬ want <+: text) :
    stripPrefix text want = none := by
  rw [stripPrefix, if_neg]
  rwa [List.isPrefixOf_iff_prefix]

/-- A drive is read as a drive. -/
theorem splitRoot_of_drive {letter : Char} {rest text : Text} (h : SpellsDrive letter rest text)
    (hcuts : CutsRoot text) :
    splitRoot text = .ok (.driveRooted, [letter.toUpper, ':'], rest) := by
  obtain ⟨hletter, tail, htext⟩ := h.exists_cons
  have hbegins (want : Text) : ¬ '\\' :: want <+: text := by
    rw [htext]
    exact not_prefix_of_ne (ne_backslash_of_isAsciiAlphabetic hletter) _ _
  have hverbatim : ¬ verbatim <+: text := hbegins _
  have hdevice : ¬ beginsWithCi text deviceRoot = true := by
    rw [beginsWithCi_deviceRoot_iff]
    exact hbegins _
  have hnt : ¬ ntRoot <+: text := hbegins _
  have hslashes : ¬ r"\\".toList <+: text := hbegins _
  rw [splitRoot_of_not_verbatim hverbatim hcuts, if_neg hdevice, plainRoot,
    stripPrefix_eq_none hnt, stripPrefix_eq_none hslashes]
  exact driveRoot_of_spellsDrive h text

/-- A drive behind a verbatim prefix is read as a drive. -/
theorem splitRoot_of_verbatimDrive {letter : Char} {rest drive : Text}
    (h : SpellsDrive letter rest drive) (hcuts : CutsRoot (verbatim ++ drive)) :
    splitRoot (verbatim ++ drive) = .ok (.driveRooted, [letter.toUpper, ':'], rest) := by
  obtain ⟨hletter, tail, rfl⟩ := h.exists_cons
  have hunc : ¬ beginsWithCi (verbatim ++ letter :: ':' :: tail) verbatimUnc = true := by
    intro hbegins
    have hdrop : beginsWithCi (letter :: ':' :: tail) r"UNC\".toList = true :=
      ((beginsWithCi_cons_iff _ _ _ _).1 ((beginsWithCi_cons_iff _ _ _ _).1
        ((beginsWithCi_cons_iff _ _ _ _).1 ((beginsWithCi_cons_iff _ _ _ _).1 hbegins).2).2).2).2
    exact absurd ((beginsWithCi_cons_iff _ _ _ _).1 ((beginsWithCi_cons_iff _ _ _ _).1 hdrop).2).1
      (by decide)
  have hglobal : ¬ isGlobalroot (letter :: ':' :: tail) = true := by
    rw [isGlobalroot, Bool.or_eq_true, not_or]
    refine ⟨fun hbegins ↦ ?_, fun heq ↦ ?_⟩
    · exact absurd ((beginsWithCi_cons_iff _ _ _ _).1
        ((beginsWithCi_cons_iff _ _ _ _).1 hbegins).2).1 (by decide)
    · exact absurd ((eqIgnoreAsciiCase_cons_iff _ _ _ _).1
        ((eqIgnoreAsciiCase_cons_iff _ _ _ _).1 heq).2).1 (by decide)
  have hverbatim : beginsWithCi (verbatim ++ letter :: ':' :: tail) verbatim = true :=
    (beginsWithCi_verbatim_iff _).2 (List.prefix_append _ _)
  obtain ⟨h4, h11⟩ := hcuts.2 (Bool.eq_false_iff.2 hunc)
  rw [splitRoot_eq, if_neg (not_not.2 hcuts.1), if_neg hunc, if_neg (not_not.2 h4),
    if_pos hverbatim, if_neg (not_not.2 (h11 hverbatim))]
  rw [show (verbatim ++ letter :: ':' :: tail).drop 4 = letter :: ':' :: tail from rfl,
    if_neg hglobal]
  exact driveRoot_of_spellsDrive h _

/-- The segments below a drive as root splitting hands them on. -/
theorem spellsDrive_joinSegments {letter : Char} (hletter : isAsciiAlphabetic letter.toNat = true)
    {segments : List Text} (hsegments : ∀ segment ∈ segments, '\\' ∉ segment) :
    ∃ rest, SpellsDrive letter rest (letter :: ':' :: joinSegments segments) ∧
      ∀ original kind out flag, normaliseSegments original kind (rest.splitOn '\\') out flag =
        normaliseSegments original kind segments out flag := by
  cases segments with
  | nil =>
    refine ⟨[], ⟨hletter, .inr ⟨rfl, rfl⟩⟩, fun original kind out flag ↦ ?_⟩
    rw [List.splitOn_nil, normaliseSegments_noise (.inl rfl)]
  | cons first segments =>
    refine ⟨first ++ joinSegments segments, ⟨hletter, .inl rfl⟩, fun _ _ _ _ ↦ ?_⟩
    rw [splitOn_joinSegments first segments (hsegments first List.mem_cons_self)
      fun segment hsegment ↦ hsegments segment (List.mem_cons_of_mem _ hsegment)]

/-! ## Accepted paths -/

theorem unify_eq_self {text : Text} (h : '/' ∉ text) : unify text = text := by
  conv_rhs => rw [← List.map_id text]
  apply List.map_congr_left
  intro c hc
  apply if_neg
  rintro rfl
  exact h hc

theorem unify_append (left right : Text) : unify (left ++ right) = unify left ++ unify right :=
  List.map_append

/-- The canonical path built from a root and the segments below it. -/
def pathOf (kind : PathKind) (root : Text) (segments : List Text) : CanonicalPath where
  text := render kind root ((resolveDots segments).map clean)
  kind := kind
  drive := driveOf kind root
  components := (resolveDots segments).map clean
  shortName := hasShort segments
  resolvedViaHandle := false

/-- An accepted text was split at its root, and the walk below it gave the components. -/
theorem exists_walk_of_canonicalise {input : Text} {path : CanonicalPath}
    (h : canonicaliseSyntactic input = .ok path) :
    '\x00' ∉ input ∧ ∃ root rest, splitRoot (trim (unify input)) = .ok (path.kind, root, rest) ∧
      normaliseComponents rest (trim (unify input)) path.kind =
        .ok (path.components, path.shortName) ∧
      path.text = render path.kind root path.components ∧ path.drive = driveOf path.kind root ∧
      path.resolvedViaHandle = false := by
  unfold canonicaliseSyntactic at h
  dsimp only at h
  split_ifs at h with hnul
  obtain ⟨⟨kind, root, rest⟩, hroot, h⟩ := (Outcome.bind_eq_ok_iff _ _ _).1 h
  obtain ⟨⟨components, flag⟩, hwalk, h⟩ := (Outcome.bind_eq_ok_iff _ _ _).1 h
  simp only [Outcome.ok.injEq] at h
  subst h
  exact ⟨hnul, root, rest, hroot, hwalk, rfl, rfl, rfl⟩

/-- An accepted text splits into a root and segments whose names are all plain, and the result is
built from these. -/
theorem canonicaliseSyntactic_eq_ok {input : Text} {path : CanonicalPath}
    (h : canonicaliseSyntactic input = .ok path) :
    '\x00' ∉ input ∧ ∃ kind root rest, splitRoot (trim (unify input)) = .ok (kind, root, rest) ∧
      (∀ raw ∈ rest.splitOn '\\', IsName raw → IsPlain kind raw) ∧
      path = pathOf kind root (rest.splitOn '\\') := by
  obtain ⟨hnul, root, rest, hroot, hwalk, htext, hdrive, hresolved⟩ :=
    exists_walk_of_canonicalise h
  obtain ⟨hcomponents, hplain, hflag⟩ := normaliseSegments_root_eq_ok hwalk
  refine ⟨hnul, path.kind, root, rest, hroot, hplain, ?_⟩
  obtain ⟨text, kind, drive, components, shortName, resolved⟩ := path
  simp only at htext hdrive hresolved hcomponents hflag
  rw [htext, hdrive, hresolved, hcomponents, hflag, pathOf]

/-- The value of a canonicalisation, from the walk below its root. -/
theorem canonicaliseSyntactic_of_walk {input : Text} {kind : PathKind} {root rest : Text}
    {components : List Text} {flag : Bool} (hnul : '\x00' ∉ input)
    (hempty : trim (unify input) ≠ [])
    (hroot : splitRoot (trim (unify input)) = .ok (kind, root, rest))
    (hwalk : normaliseComponents rest (trim (unify input)) kind = .ok (components, flag)) :
    canonicaliseSyntactic input = .ok
      { text := render kind root components
        kind := kind
        drive := driveOf kind root
        components := components
        shortName := flag
        resolvedViaHandle := false } := by
  unfold canonicaliseSyntactic
  rw [if_neg hnul]
  simp only [if_neg hempty, hroot, hwalk, Outcome.bind_ok]

/-! ## Canonical values -/

/-- An upper-case ASCII letter, as a drive is named by. -/
def IsDriveLetter (letter : Char) : Prop := 65 ≤ letter.toNat ∧ letter.toNat ≤ 90

theorem isDriveLetter_toUpper {letter : Char} (h : isAsciiAlphabetic letter.toNat = true) :
    IsDriveLetter letter.toUpper := by
  simp only [isAsciiAlphabetic, Bool.or_eq_true, Bool.and_eq_true, decide_eq_true_eq] at h
  unfold IsDriveLetter
  rw [toNat_toUpper]
  split_ifs <;> omega

theorem canonicaliseResolved_eq_ok {input : Text} {path : CanonicalPath}
    (h : canonicaliseResolved input = .ok path) :
    ∃ syntactic, canonicaliseSyntactic input = .ok syntactic ∧
      path = { syntactic with resolvedViaHandle := true, shortName := false } := by
  obtain ⟨syntactic, hsyntactic, hpath⟩ := (Outcome.bind_eq_ok_iff _ _ _).1 h
  exact ⟨syntactic, hsyntactic, (Outcome.ok.inj hpath).symm⟩

/-- A canonical path is put together from a root and plain segments, whichever constructor built
it. -/
theorem IsCanonical.exists_pathOf {path : CanonicalPath} (h : IsCanonical path) :
    ∃ text kind root rest, splitRoot text = .ok (kind, root, rest) ∧
      (∀ raw ∈ rest.splitOn '\\', IsName raw → IsPlain kind raw) ∧ path.kind = kind ∧
      path.drive = driveOf kind root ∧
      path.components = (resolveDots (rest.splitOn '\\')).map clean ∧
      path.text = render kind root path.components := by
  obtain ⟨input, h | h⟩ := h
  · obtain ⟨-, kind, root, rest, hroot, hplain, rfl⟩ := canonicaliseSyntactic_eq_ok h
    exact ⟨_, kind, root, rest, hroot, hplain, rfl, rfl, rfl, rfl⟩
  · obtain ⟨syntactic, hsyntactic, rfl⟩ := canonicaliseResolved_eq_ok h
    obtain ⟨-, kind, root, rest, hroot, hplain, rfl⟩ := canonicaliseSyntactic_eq_ok hsyntactic
    exact ⟨_, kind, root, rest, hroot, hplain, rfl, rfl, rfl, rfl⟩

theorem IsCanonical.upper {path : CanonicalPath} (h : IsCanonical path) :
    ∀ component ∈ path.components, toAsciiUppercase component = component := by
  obtain ⟨-, kind, root, rest, -, -, -, -, hcomponents, -⟩ := h.exists_pathOf
  intro component hcomponent
  rw [hcomponents] at hcomponent
  obtain ⟨raw, -, rfl⟩ := List.mem_map.1 hcomponent
  exact toAsciiUppercase_clean raw

/-- A drive-rooted canonical path is spelled by its drive letter and its components. -/
theorem IsCanonical.driveRooted {path : CanonicalPath} (h : IsCanonical path)
    (hkind : path.kind = .driveRooted) :
    ∃ letter, IsDriveLetter letter ∧ path.drive = some letter ∧
      path.text = render .driveRooted [letter, ':'] path.components := by
  obtain ⟨text, kind, root, rest, hroot, -, rfl, hdrive, -, htext⟩ := h.exists_pathOf
  have hletter : ∃ letter : Char, isAsciiAlphabetic letter.toNat = true ∧
      root = [letter.toUpper, ':'] := by
    have hform := splitRoot_eq_ok hroot
    rw [hkind] at hform
    cases hform with
    | @verbatimDrive letter rest drive hpath hdrive => exact ⟨letter, hdrive.1, rfl⟩
    | @drive letter rest hdrive => exact ⟨letter, hdrive.1, rfl⟩
  obtain ⟨letter, halpha, rfl⟩ := hletter
  rw [hkind] at hdrive htext
  refine ⟨letter.toUpper, isDriveLetter_toUpper halpha, ?_, htext⟩
  rw [hdrive, driveOf]
  simp

theorem canonicaliseRegKey_eq_ok {input : Text} {key : CanonicalRegKey}
    (h : canonicaliseRegKey input = .ok key) :
    ∃ head parts, (trimMatches (· == '\\') (trim (unify input))).splitOn '\\' = head :: parts ∧
      hiveNamed head = some key.hive ∧ key.components = subkeys parts ∧
      key.text = key.hive.short ++ joinSegments key.components := by
  unfold canonicaliseRegKey at h
  dsimp only at h
  split_ifs at h with hempty
  cases hsplit : (trimMatches (· == '\\') (trim (unify input))).splitOn '\\' with
  | nil =>
    rw [hsplit] at h
    cases h
  | cons head parts =>
    rw [hsplit] at h
    cases hhive : hiveNamed head with
    | none =>
      simp only [hhive] at h
      cases h
    | some hive =>
      simp only [hhive, Outcome.ok.injEq] at h
      subst h
      exact ⟨head, parts, rfl, hhive, rfl, rfl⟩

theorem IsCanonicalKey.upper {key : CanonicalRegKey} (h : IsCanonicalKey key) :
    ∀ component ∈ key.components, toAsciiUppercase component = component := by
  obtain ⟨input, h⟩ := h
  obtain ⟨head, parts, -, -, hcomponents, -⟩ := canonicaliseRegKey_eq_ok h
  intro component hcomponent
  rw [hcomponents, subkeys] at hcomponent
  obtain ⟨segment, -, rfl⟩ := List.mem_map.1 hcomponent
  exact toAsciiUppercase_idem _

/-- A canonical key is spelled by its hive and its components. -/
theorem IsCanonicalKey.text_eq {key : CanonicalRegKey} (h : IsCanonicalKey key) :
    key.text = key.hive.short ++ joinSegments key.components := by
  obtain ⟨input, h⟩ := h
  obtain ⟨head, parts, -, -, -, htext⟩ := canonicaliseRegKey_eq_ok h
  exact htext

end WardSweep.Paths
