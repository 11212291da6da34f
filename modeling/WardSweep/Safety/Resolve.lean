import WardSweep.Safety.Paths

/-!
# Reading the segments of a path

The reference reading of the part of a path below its root: empty and `.` segments are noise, `..`
removes the segment before it, every other segment is a name.  `normaliseSegments` computes this
reading, cleans each name that survives, and refuses the names it cannot clean; the lemmas here are
what later results use in place of its definition.
-/

namespace WardSweep.Paths

open Utf8 Str

/-! ## The reference reading -/

/-- A segment that stands for a directory or a file, and not for a step of the walk. -/
def IsName (raw : Text) : Prop := raw ≠ [] ∧ raw ≠ ".".toList ∧ raw ≠ "..".toList

instance (raw : Text) : Decidable (IsName raw) :=
  inferInstanceAs (Decidable (raw ≠ [] ∧ raw ≠ ".".toList ∧ raw ≠ "..".toList))

/-- One segment of the walk down from the root. -/
def resolveStep (kept : List Text) (raw : Text) : List Text :=
  if raw = [] ∨ raw = ".".toList then kept
  else if raw = "..".toList then kept.dropLast
  else kept ++ [raw]

/-- The names left when every `..` has removed the name before it. -/
def resolveDots (segments : List Text) : List Text := segments.foldl resolveStep []

/-- A name without the dots and spaces Win32 strips from its end. -/
def strip (raw : Text) : Text := trimEndMatches isDotOrSpace raw

/-- A name as the deny-list compares it. -/
def clean (raw : Text) : Text := toAsciiUppercase (strip raw)

/-- The 8.3 form: digits after the last `~` of the part before the first dot. -/
def isShort (segment : Text) : Bool :=
  let stem := segment.takeWhile (· != '.')
  let suffix := stem.rtakeWhile (· != '~')
  decide ('~' ∈ stem) && !suffix.isEmpty && suffix.all fun c ↦ isAsciiDigit c.toNat

/-- A name the canonical form can hold: not dots and spaces only, and outside the device namespace
without a colon. -/
def IsPlain (kind : PathKind) (raw : Text) : Prop :=
  strip raw ≠ [] ∧ (kind ≠ .device → ':' ∉ strip raw)

instance (kind : PathKind) (raw : Text) : Decidable (IsPlain kind raw) :=
  inferInstanceAs (Decidable (strip raw ≠ [] ∧ (kind ≠ .device → ':' ∉ strip raw)))

/-! ## Cleaning one name -/

theorem strip_prefix_self (raw : Text) : strip raw <+: raw :=
  prefix_trimEndMatches isDotOrSpace raw

@[simp] theorem strip_strip (raw : Text) : strip (strip raw) = strip raw :=
  trimEndMatches_idem isDotOrSpace raw

theorem isDotOrSpace_toUpper (c : Char) : isDotOrSpace c.toUpper = isDotOrSpace c := by
  rw [Bool.eq_iff_iff]
  simp only [isDotOrSpace, Bool.or_eq_true, beq_iff_eq]
  rw [toUpper_eq_iff (by decide), toUpper_eq_iff (by decide)]

theorem strip_toAsciiUppercase (raw : Text) :
    strip (toAsciiUppercase raw) = toAsciiUppercase (strip raw) :=
  trimEndMatches_toAsciiUppercase isDotOrSpace isDotOrSpace_toUpper raw

/-- Dots and spaces at the end of a name are not part of it. -/
theorem strip_append (raw tail : Text) (htail : ∀ c ∈ tail, isDotOrSpace c = true) :
    strip (raw ++ tail) = strip raw :=
  trimEndMatches_append_of_forall isDotOrSpace raw tail htail

@[simp] theorem strip_clean (raw : Text) : strip (clean raw) = clean raw := by
  rw [clean, strip_toAsciiUppercase, strip_strip]

@[simp] theorem clean_clean (raw : Text) : clean (clean raw) = clean raw := by
  rw [clean, strip_clean, clean, toAsciiUppercase_idem]

@[simp] theorem toAsciiUppercase_clean (raw : Text) : toAsciiUppercase (clean raw) = clean raw :=
  toAsciiUppercase_idem _

theorem clean_eq_nil_iff (raw : Text) : clean raw = [] ↔ strip raw = [] :=
  toAsciiUppercase_eq_nil_iff _

/-- A character that is not a letter and is in a cleaned name was in the name. -/
theorem mem_of_mem_clean {c : Char} (hc : isAsciiAlphabetic c.toNat = false) {raw : Text}
    (h : c ∈ clean raw) : c ∈ raw :=
  (strip_prefix_self raw).subset ((mem_toAsciiUppercase_iff hc _).1 h)

/-- A cleaned name is not a step of the walk. -/
theorem isName_of_strip_eq {raw : Text} (hraw : strip raw = raw) (hne : raw ≠ []) :
    IsName raw := by
  refine ⟨hne, ?_, ?_⟩
  · rintro rfl
    exact absurd hraw (by decide)
  · rintro rfl
    exact absurd hraw (by decide)

/-- What is left of a step of the walk without its dots is nothing. -/
theorem isName_of_strip_ne_nil {raw : Text} (h : strip raw ≠ []) : IsName raw := by
  refine ⟨?_, ?_, ?_⟩
  · rintro rfl
    exact h rfl
  · rintro rfl
    exact h (by decide)
  · rintro rfl
    exact h (by decide)

theorem isName_clean {raw : Text} (h : strip raw ≠ []) : IsName (clean raw) :=
  isName_of_strip_eq (strip_clean raw) (by rwa [Ne, clean_eq_nil_iff])

theorem isPlain_clean {kind : PathKind} {raw : Text} (h : IsPlain kind raw) :
    IsPlain kind (clean raw) := by
  refine ⟨?_, fun hkind hcolon ↦ ?_⟩
  · rw [strip_clean, Ne, clean_eq_nil_iff]
    exact h.1
  · rw [strip_clean, clean, mem_toAsciiUppercase_iff (by decide)] at hcolon
    exact h.2 hkind hcolon

/-! ## The 8.3 test never leaves its text -/

theorem headD_splitOn_dot (segment : Text) :
    (segment.splitOn '.').headD segment = segment.takeWhile (· != '.') := by
  have hhead (text fallback : Text) :
      (text.splitOn '.').headD fallback = text.takeWhile (· != '.') := by
    induction text with
    | nil => rfl
    | cons c text ih =>
      rw [List.splitOn_cons_eq_if_modifyHead]
      by_cases hc : c = '.'
      · simp [hc]
      · obtain ⟨first, rest, hsplit⟩ := List.exists_cons_of_ne_nil (List.splitOn_ne_nil '.' text)
        rw [hsplit] at ih ⊢
        simp only [List.headD_cons] at ih
        simp [hc, ih]
  exact hhead segment segment

theorem all_isAsciiDigit_bytes (text : Text) :
    ((bytes text).all fun byte ↦ isAsciiDigit byte.toNat) =
      text.all fun c ↦ isAsciiDigit c.toNat := by
  induction text with
  | nil => rfl
  | cons c text ih =>
    rw [bytes_cons, List.all_append, List.all_cons, ih]
    congr 1
    by_cases hc : c.toNat < 128
    · rw [utf8EncodeChar_of_ascii hc]
      have hnat : (UInt8.ofNat c.toNat).toNat = c.toNat := by
        rw [UInt8.toNat_ofNat']
        omega
      simp [hnat]
    · obtain ⟨byte, rest, hbytes⟩ := List.exists_cons_of_ne_nil (utf8EncodeChar_ne_nil c)
      have hbyte := le_of_mem_utf8EncodeChar (not_lt.1 hc) (hbytes ▸ List.mem_cons_self)
      rw [hbytes, List.all_cons]
      have hdigit (code : ℕ) (hcode : 128 ≤ code) : isAsciiDigit code = false := by
        simp only [isAsciiDigit, Bool.and_eq_false_iff, decide_eq_false_iff_not]
        omega
      rw [hdigit _ hbyte, hdigit _ (not_lt.1 hc), Bool.false_and]

/-- The slice after the last `~` is always in range, so the test returns. -/
theorem isShortName_eq {ε : Type*} (segment : Text) :
    (isShortName segment : Outcome ε Bool) = .ok (isShort segment) := by
  rw [isShortName, isShort, headD_splitOn_dot]
  set stem := segment.takeWhile (· != '.')
  cases hfind : rfind '~' stem with
  | none => simp [(rfind_eq_none_iff '~' stem).1 hfind]
  | some tilde =>
    obtain ⟨left, right, hstem, hlen, hright⟩ := rfind_eq_some hfind
    have hslice : (sliceFrom stem (tilde + 1) : Outcome ε Text) = .ok right := by
      have hsize : byteLen (left ++ ['~']) = tilde + 1 := by
        rw [byteLen_append, hlen]
        rfl
      rw [hstem, ← List.singleton_append, ← List.append_assoc, ← hsize, sliceFrom_append]
    have hsuffix : stem.rtakeWhile (· != '~') = right := by
      rw [hstem, List.rtakeWhile, List.reverse_append, List.reverse_cons, List.append_assoc,
        List.takeWhile_append_of_pos]
      · simp
      · intro c hc
        simp only [bne_iff_ne, ne_eq]
        rintro rfl
        exact hright (List.mem_reverse.1 hc)
    have hmem : '~' ∈ stem := by
      rw [hstem]
      simp
    simp only [hslice, Outcome.bind_ok, hsuffix, hmem, all_isAsciiDigit_bytes,
      decide_true, Bool.true_and]

theorem takeWhile_toAsciiUppercase (drops : Char → Bool)
    (hdrops : ∀ c : Char, drops c.toUpper = drops c) (text : Text) :
    (toAsciiUppercase text).takeWhile drops = toAsciiUppercase (text.takeWhile drops) := by
  rw [toAsciiUppercase, List.takeWhile_map, toAsciiUppercase]
  congr 2
  funext c
  exact hdrops c

/-- Whether a name has the 8.3 form does not depend on its case. -/
theorem isShort_toAsciiUppercase (segment : Text) :
    isShort (toAsciiUppercase segment) = isShort segment := by
  have hne (d : Char) (hd : isAsciiAlphabetic d.toNat = false) (c : Char) :
      (c.toUpper != d) = (c != d) := by
    rw [Bool.eq_iff_iff]
    simp [toUpper_eq_iff hd]
  have hstem := takeWhile_toAsciiUppercase (· != '.') (hne '.' (by decide)) segment
  set stem := segment.takeWhile (· != '.')
  have hsuffix : (toAsciiUppercase stem).rtakeWhile (· != '~') =
      toAsciiUppercase (stem.rtakeWhile (· != '~')) := by
    have hreverse := takeWhile_toAsciiUppercase (· != '~') (hne '~' (by decide)) stem.reverse
    simp only [List.rtakeWhile, toAsciiUppercase, ← List.map_reverse] at hreverse ⊢
    rw [hreverse, List.map_reverse]
  rw [isShort, isShort, hstem, hsuffix, Bool.eq_iff_iff]
  simp only [mem_toAsciiUppercase_iff (show isAsciiAlphabetic '~'.toNat = false by decide)]
  simp [stem, toAsciiUppercase, isAsciiDigit_toUpper]

@[simp] theorem isShort_clean (raw : Text) : isShort (clean raw) = isShort (strip raw) :=
  isShort_toAsciiUppercase _

/-! ## One segment -/

section Steps

variable {original : Text} {kind : PathKind} {raw : Text} {more out : List Text} {shortName : Bool}

@[simp] theorem normaliseSegments_nil :
    normaliseSegments original kind [] out shortName = .ok (out, shortName) := rfl

/-- Empty and `.` segments are noise. -/
theorem normaliseSegments_noise (h : raw = [] ∨ raw = ".".toList) :
    normaliseSegments original kind (raw :: more) out shortName =
      normaliseSegments original kind more out shortName := by
  rw [normaliseSegments, if_pos h]

/-- `..` removes the component before it, and fails at the root. -/
theorem normaliseSegments_up :
    normaliseSegments original kind ("..".toList :: more) out shortName =
      if out = [] then .err (.escapesRoot original)
      else normaliseSegments original kind more out.dropLast shortName := by
  rw [normaliseSegments, if_neg (by decide), if_pos rfl]

/-- A name is refused, or cleaned and added. -/
theorem normaliseSegments_name (h : IsName raw) :
    normaliseSegments original kind (raw :: more) out shortName =
      if strip raw = [] then .err (.dotsOnlyComponent original)
      else if kind ≠ .device ∧ ':' ∈ strip raw then .err (.streamSyntax original)
      else normaliseSegments original kind more (out ++ [clean raw])
        (shortName || isShort (strip raw)) := by
  rw [normaliseSegments, if_neg (not_or.2 ⟨h.1, h.2.1⟩), if_neg h.2.2]
  simp only [isShortName_eq, Outcome.bind_ok]
  rfl

theorem normaliseSegments_plain (hname : IsName raw) (hplain : IsPlain kind raw) :
    normaliseSegments original kind (raw :: more) out shortName =
      normaliseSegments original kind more (out ++ [clean raw])
        (shortName || isShort (strip raw)) := by
  rw [normaliseSegments_name hname, if_neg hplain.1, if_neg]
  rintro ⟨hkind, hcolon⟩
  exact hplain.2 hkind hcolon

end Steps

/-! ## A whole walk -/

theorem resolveStep_name {kept : List Text} {raw : Text} (h : IsName raw) :
    resolveStep kept raw = kept ++ [raw] := by
  rw [resolveStep, if_neg (not_or.2 ⟨h.1, h.2.1⟩), if_neg h.2.2]

/-- Every segment is noise, a step up or a name. -/
theorem segment_cases (raw : Text) :
    (raw = [] ∨ raw = ".".toList) ∨ raw = "..".toList ∨ IsName raw := by
  unfold IsName
  tauto

/-- The walk reads its segments one after the other. -/
theorem normaliseSegments_append (original : Text) (kind : PathKind) (left right : List Text)
    (out : List Text) (shortName : Bool) :
    normaliseSegments original kind (left ++ right) out shortName =
      (normaliseSegments original kind left out shortName).bind fun state ↦
        normaliseSegments original kind right state.1 state.2 := by
  induction left generalizing out shortName with
  | nil => simp
  | cons raw left ih =>
    rw [List.cons_append]
    rcases segment_cases raw with hnoise | rfl | hname
    · rw [normaliseSegments_noise hnoise, normaliseSegments_noise hnoise, ih]
    · rw [normaliseSegments_up, normaliseSegments_up]
      split
      · rfl
      · exact ih _ _
    · rw [normaliseSegments_name hname, normaliseSegments_name hname]
      split_ifs
      · rfl
      · rfl
      · exact ih _ _

/-- The walk always returns: its only slice is the one of the 8.3 test. -/
theorem normaliseSegments_returns (original : Text) (kind : PathKind) (segments out : List Text)
    (shortName : Bool) : (normaliseSegments original kind segments out shortName).Returns := by
  induction segments generalizing out shortName with
  | nil => simp
  | cons raw segments ih =>
    rcases segment_cases raw with hnoise | rfl | hname
    · rw [normaliseSegments_noise hnoise]
      exact ih _ _
    · rw [normaliseSegments_up]
      split
      · simp
      · exact ih _ _
    · rw [normaliseSegments_name hname]
      split_ifs
      · simp
      · simp
      · exact ih _ _

/-- Whether some name of a walk, surviving or not, has the 8.3 form. -/
def hasShort (segments : List Text) : Bool :=
  segments.any fun raw ↦ decide (IsName raw) && isShort (strip raw)

/-- What an accepted walk has computed: the cleaned reference reading, from names that are all
plain, with the 8.3 flag of every name on the way. -/
theorem normaliseSegments_eq_ok {original : Text} {kind : PathKind} {segments kept : List Text}
    {shortName : Bool} {components : List Text} {flag : Bool}
    (h : normaliseSegments original kind segments (kept.map clean) shortName =
      .ok (components, flag)) :
    components = (segments.foldl resolveStep kept).map clean ∧
      (∀ raw ∈ segments, IsName raw → IsPlain kind raw) ∧
      flag = (shortName || hasShort segments) := by
  induction segments generalizing kept shortName with
  | nil =>
    simp only [normaliseSegments_nil, Outcome.ok.injEq, Prod.mk.injEq] at h
    simp [h, hasShort]
  | cons raw segments ih =>
    rcases segment_cases raw with hnoise | rfl | hname
    · rw [normaliseSegments_noise hnoise] at h
      obtain ⟨hcomponents, hplain, hflag⟩ := ih h
      have hnot : ¬ IsName raw := fun hname ↦ by
        rcases hnoise with rfl | rfl
        · exact hname.1 rfl
        · exact hname.2.1 rfl
      refine ⟨?_, ?_, ?_⟩
      · rw [List.foldl_cons, resolveStep, if_pos hnoise, hcomponents]
      · simpa [hnot] using hplain
      · simpa [hasShort, hnot] using hflag
    · rw [normaliseSegments_up] at h
      split at h
      · cases h
      rw [← List.map_dropLast] at h
      obtain ⟨hcomponents, hplain, hflag⟩ := ih h
      have hnot : ¬ IsName "..".toList := fun hname ↦ hname.2.2 rfl
      refine ⟨?_, ?_, ?_⟩
      · rw [List.foldl_cons, resolveStep, if_neg (by decide), if_pos rfl, hcomponents]
      · intro other hother hname
        rcases List.mem_cons.1 hother with rfl | hmem
        · exact absurd hname hnot
        · exact hplain other hmem hname
      · rw [hflag, hasShort, hasShort, List.any_cons, decide_eq_false hnot, Bool.false_and,
          Bool.false_or]
    · rw [normaliseSegments_name hname] at h
      split_ifs at h with hempty hcolon
      rw [show kept.map clean ++ [clean raw] = (kept ++ [raw]).map clean by simp] at h
      obtain ⟨hcomponents, hplain, hflag⟩ := ih h
      refine ⟨?_, ?_, ?_⟩
      · rw [List.foldl_cons, resolveStep_name hname, hcomponents]
      · intro other hother hname'
        rcases List.mem_cons.1 hother with rfl | hmem
        · exact ⟨hempty, fun hkind hmem ↦ hcolon ⟨hkind, hmem⟩⟩
        · exact hplain other hmem hname'
      · rw [hflag, hasShort, hasShort, List.any_cons, decide_eq_true hname, Bool.true_and,
          Bool.or_assoc]

/-- What an accepted walk from the root has computed. -/
theorem normaliseSegments_root_eq_ok {original : Text} {kind : PathKind} {segments : List Text}
    {components : List Text} {flag : Bool}
    (h : normaliseSegments original kind segments [] false = .ok (components, flag)) :
    components = (resolveDots segments).map clean ∧
      (∀ raw ∈ segments, IsName raw → IsPlain kind raw) ∧ flag = hasShort segments := by
  simpa [resolveDots] using
    @normaliseSegments_eq_ok original kind segments [] false components flag h

/-- A walk over plain names keeps all of them. -/
theorem normaliseSegments_of_plain (original : Text) (kind : PathKind) (segments out : List Text)
    (shortName : Bool) (hsegments : ∀ raw ∈ segments, IsName raw ∧ IsPlain kind raw) :
    normaliseSegments original kind segments out shortName =
      .ok (out ++ segments.map clean, shortName || hasShort segments) := by
  induction segments generalizing out shortName with
  | nil => simp [hasShort]
  | cons raw segments ih =>
    obtain ⟨hname, hplain⟩ := hsegments raw List.mem_cons_self
    rw [normaliseSegments_plain hname hplain,
      ih _ _ fun other hother ↦ hsegments other (List.mem_cons_of_mem _ hother)]
    simp [hasShort, hname, Bool.or_assoc]

/-- The error texts are all that the original path is used for. -/
theorem normaliseSegments_ok_congr {original : Text} (original' : Text) {kind : PathKind}
    {segments out : List Text} {shortName : Bool} {result : List Text × Bool}
    (h : normaliseSegments original kind segments out shortName = .ok result) :
    normaliseSegments original' kind segments out shortName = .ok result := by
  induction segments generalizing out shortName with
  | nil => exact h
  | cons raw segments ih =>
    rcases segment_cases raw with hnoise | rfl | hname
    · rw [normaliseSegments_noise hnoise] at h ⊢
      exact ih h
    · rw [normaliseSegments_up] at h ⊢
      split_ifs at h ⊢
      exact ih h
    · rw [normaliseSegments_name hname] at h ⊢
      split_ifs at h ⊢
      exact ih h

/-- A name that survives the walk is one of the names walked. -/
theorem mem_foldl_resolveStep {segments kept : List Text} {raw : Text}
    (h : raw ∈ segments.foldl resolveStep kept) :
    raw ∈ kept ∨ raw ∈ segments ∧ IsName raw := by
  induction segments generalizing kept with
  | nil => exact .inl h
  | cons first segments ih =>
    rcases ih h with hkept | ⟨hmem, hname⟩
    · rcases segment_cases first with hnoise | rfl | hfirst
      · rw [resolveStep, if_pos hnoise] at hkept
        exact .inl hkept
      · rw [resolveStep, if_neg (by decide), if_pos rfl] at hkept
        exact .inl (List.dropLast_subset kept hkept)
      · rw [resolveStep_name hfirst] at hkept
        rcases List.mem_append.1 hkept with hkept | hraw
        · exact .inl hkept
        · rw [List.mem_singleton] at hraw
          exact .inr ⟨hraw ▸ List.mem_cons_self, hraw ▸ hfirst⟩
    · exact .inr ⟨List.mem_cons_of_mem _ hmem, hname⟩

theorem mem_resolveDots {segments : List Text} {raw : Text} (h : raw ∈ resolveDots segments) :
    raw ∈ segments ∧ IsName raw := by
  simpa using mem_foldl_resolveStep h

/-! ## Spellings of one walk -/

/-- Two segments the walk does not tell apart: the same one, or names with the same cleaning. -/
def SameSegment (raw raw' : Text) : Prop :=
  raw = raw' ∨ IsName raw ∧ IsName raw' ∧ clean raw = clean raw'

/-- The walk sees a name only through its cleaning. -/
theorem normaliseSegments_name_congr {original : Text} {kind : PathKind} {raw raw' : Text}
    (hname : IsName raw) (hname' : IsName raw') (hclean : clean raw = clean raw')
    (more out : List Text) (shortName : Bool) :
    normaliseSegments original kind (raw :: more) out shortName =
      normaliseSegments original kind (raw' :: more) out shortName := by
  have hnil : strip raw = [] ↔ strip raw' = [] := by
    rw [← clean_eq_nil_iff, ← clean_eq_nil_iff, hclean]
  have hcolon : ':' ∈ strip raw ↔ ':' ∈ strip raw' := by
    rw [← mem_toAsciiUppercase_iff (by decide) (strip raw),
      ← mem_toAsciiUppercase_iff (by decide) (strip raw')]
    exact iff_of_eq (congrArg (':' ∈ ·) hclean)
  have hshort : isShort (strip raw) = isShort (strip raw') := by
    rw [← isShort_clean, ← isShort_clean, hclean]
  rw [normaliseSegments_name hname, normaliseSegments_name hname', hclean, hshort]
  simp only [hnil, hcolon]

/-- Two lists of segments the walk does not tell apart give the same walk. -/
theorem normaliseSegments_congr {segments segments' : List Text}
    (h : List.Forall₂ SameSegment segments segments') (original : Text) (kind : PathKind)
    (out : List Text) (shortName : Bool) :
    normaliseSegments original kind segments out shortName =
      normaliseSegments original kind segments' out shortName := by
  induction h generalizing out shortName with
  | nil => rfl
  | @cons raw raw' more more' hsame _ ih =>
    have hmore : normaliseSegments original kind (raw :: more) out shortName =
        normaliseSegments original kind (raw :: more') out shortName := by
      rcases segment_cases raw with hnoise | rfl | hname
      · rw [normaliseSegments_noise hnoise, normaliseSegments_noise hnoise, ih]
      · rw [normaliseSegments_up, normaliseSegments_up, ih]
      · rw [normaliseSegments_name hname, normaliseSegments_name hname, ih]
    rw [hmore]
    rcases hsame with rfl | ⟨hname, hname', hclean⟩
    · rfl
    · exact normaliseSegments_name_congr hname hname' hclean _ _ _

/-- Segments that the walk passes over can be put in anywhere. -/
theorem normaliseSegments_insert {original : Text} {kind : PathKind} {middle : List Text}
    (hmiddle : ∀ out shortName,
      normaliseSegments original kind middle out shortName = .ok (out, shortName))
    (left right : List Text) (out : List Text) (shortName : Bool) :
    normaliseSegments original kind (left ++ middle ++ right) out shortName =
      normaliseSegments original kind (left ++ right) out shortName := by
  rw [List.append_assoc, normaliseSegments_append, normaliseSegments_append]
  congr 1
  funext state
  rw [normaliseSegments_append, hmiddle, Outcome.bind_ok]

/-- A plain name and the step up from it leave no trace, unless the name has the 8.3 form. -/
theorem normaliseSegments_pair {original : Text} {kind : PathKind} {name : Text}
    (hname : IsName name) (hplain : IsPlain kind name) (hshort : isShort (strip name) = false)
    (out : List Text) (shortName : Bool) :
    normaliseSegments original kind [name, "..".toList] out shortName = .ok (out, shortName) := by
  rw [normaliseSegments_plain hname hplain, normaliseSegments_up, if_neg (by simp), hshort]
  simp

end WardSweep.Paths
