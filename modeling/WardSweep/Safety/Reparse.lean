import WardSweep.Safety.Canonical

/-!
# Canonicalising a canonical path again

The rendering of a canonical path is a text, and canonicalising it need not give the path back.
Four things can go wrong, all of them visible in the text that was canonicalised first: the root
can render as another root, the rendering can be cut inside a character, white space at its end is
trimmed, and an 8.3 name that `..` removed is no longer seen.  Where none of them does, the
rendering is read as the same path; the converse goes by the length of the text read.
-/

namespace WardSweep.Paths

open Utf8 Str

/-! ## Stable spellings -/

/-- Segments behind the root, the names among them without the dots and spaces at their ends. -/
def spelled (root : Text) (segments : List Text) : Text :=
  root ++ joinSegments ((resolveDots segments).map strip)

/-- A root whose rendering is read as the same root: not the verbatim prefix that is left of
`\\?\GLOBALROOT`, and not a share of a host that reads as the prefix of another namespace. -/
def StableRoot (kind : PathKind) (root : Text) : Prop :=
  match kind with
  | .driveRooted => True
  | .unc => ¬ verbatim <+: root ∧ ¬ deviceRoot <+: root
  | .device => root ≠ verbatim

/-- A root and the segments below it whose rendering is read as the same path. -/
structure IsStable (kind : PathKind) (root : Text) (segments : List Text) : Prop where
  stableRoot : StableRoot kind root
  cuts : CutsRoot (spelled root segments)
  noWhiteEnd : ∀ c ∈ (spelled root segments).getLast?, isWhitespace c = false
  shortKept : hasShort segments = true → hasShort (resolveDots segments) = true

/-- A text whose canonical path is stable. -/
def StableSpelling (text : Text) : Prop :=
  ∀ kind root rest, splitRoot (trim (unify text)) = .ok (kind, root, rest) →
    IsStable kind root (rest.splitOn '\\')

/-! ## Lengths -/

theorem length_joinSegments_foldl (segments kept : List Text) :
    (joinSegments (segments.foldl resolveStep kept)).length ≤
      (joinSegments kept).length + (joinSegments segments).length := by
  induction segments generalizing kept with
  | nil => simp
  | cons raw segments ih =>
    refine (ih _).trans ?_
    rw [joinSegments_cons, List.length_cons, List.length_append]
    rcases segment_cases raw with hnoise | rfl | hname
    · rw [resolveStep, if_pos hnoise]
      omega
    · rw [resolveStep, if_neg (by decide), if_pos rfl]
      have hdrop : (joinSegments kept.dropLast).length ≤ (joinSegments kept).length := by
        rcases List.eq_nil_or_concat' kept with rfl | ⟨front, last, rfl⟩
        · simp
        · simp [joinSegments_append]
      omega
    · rw [resolveStep_name hname, joinSegments_append, List.length_append, joinSegments_cons,
        List.length_cons, List.length_append, joinSegments_nil, List.length_nil]
      omega

theorem length_clean_le (raw : Text) : (clean raw).length ≤ raw.length := by
  rw [clean, length_toAsciiUppercase]
  exact (strip_prefix_self raw).length_le

theorem length_joinSegments_clean (names : List Text) :
    (joinSegments (names.map clean)).length ≤ (joinSegments names).length := by
  induction names with
  | nil => simp
  | cons name names ih =>
    have hname := length_clean_le name
    simp only [List.map_cons, joinSegments_cons, List.length_cons, List.length_append]
    omega

/-- The components of some segments, joined again, are no longer than the segments joined. -/
theorem length_components_le (segments : List Text) :
    (joinSegments ((resolveDots segments).map clean)).length ≤
      (joinSegments segments).length := by
  refine (length_joinSegments_clean _).trans ?_
  simpa [resolveDots] using length_joinSegments_foldl segments []

theorem length_joinSegments_splitOn (text : Text) :
    (joinSegments (text.splitOn '\\')).length = text.length + 1 := by
  obtain ⟨first, segments, hsplit, htext, -, -⟩ := exists_splitOn text
  rw [hsplit, joinSegments_cons, List.length_cons, ← htext]

/-- What is read off a text behind a separator is no longer than the text. -/
theorem length_components_drop (more : List Text) (hmore : ∀ segment ∈ more, '\\' ∉ segment) :
    (joinSegments ((resolveDots (((joinSegments more).drop 1).splitOn '\\')).map clean)).length ≤
      (joinSegments more).length := by
  cases more with
  | nil => simp [resolveDots, resolveStep]
  | cons first more =>
    rw [joinSegments_cons, List.drop_one, List.tail_cons,
      splitOn_joinSegments first more (hmore first List.mem_cons_self)
        fun segment hsegment ↦ hmore segment (List.mem_cons_of_mem _ hsegment)]
    exact length_components_le (first :: more)

/-! ## Shares -/

/-- Host and share are the first two pieces, and what is left starts behind the next separator. -/
theorem splitHostShare_eq {rest host share tail : Text}
    (h : splitHostShare rest = (host, share, tail)) (hhost : host ≠ []) (hshare : share ≠ []) :
    '\\' ∉ host ∧ '\\' ∉ share ∧ ∃ more, (∀ segment ∈ more, '\\' ∉ segment) ∧
      rest = host ++ '\\' :: (share ++ joinSegments more) ∧ tail = (joinSegments more).drop 1 := by
  obtain ⟨first, segments, hsplit, hrest, hfirst, hsegments⟩ := exists_splitOn rest
  unfold splitHostShare at h
  rw [hsplit] at h
  match segments, hsegments, hrest, h with
  | [], _, _, h =>
    simp only [Prod.mk.injEq] at h
    exact absurd h.2.1.symm hshare
  | second :: more, hsegments, hrest, h =>
    simp only [Prod.mk.injEq] at h
    obtain ⟨rfl, rfl, rfl⟩ := h
    refine ⟨hfirst, hsegments _ List.mem_cons_self, more,
      fun segment hsegment ↦ hsegments segment (List.mem_cons_of_mem _ hsegment), ?_, rfl⟩
    rw [hrest, joinSegments_cons]

theorem splitHostShare_join {host share : Text} {more : List Text} (hhost : '\\' ∉ host)
    (hshare : '\\' ∉ share) (hmore : ∀ segment ∈ more, '\\' ∉ segment) :
    splitHostShare (host ++ '\\' :: (share ++ joinSegments more)) =
      (host, share, (joinSegments more).drop 1) := by
  have hsplit : (host ++ '\\' :: (share ++ joinSegments more)).splitOn '\\' =
      host :: share :: more := by
    rw [List.splitOn_append_cons_self_of_not_mem hhost,
      splitOn_joinSegments share more hshare hmore]
  rw [splitHostShare, hsplit]

/-- What is written behind a root, read back as segments. -/
theorem normaliseSegments_drop (more : List Text) (hmore : ∀ segment ∈ more, '\\' ∉ segment)
    (original : Text) (kind : PathKind) (out : List Text) (flag : Bool) :
    normaliseSegments original kind (((joinSegments more).drop 1).splitOn '\\') out flag =
      normaliseSegments original kind more out flag := by
  cases more with
  | nil =>
    rw [joinSegments_nil, List.drop_nil, List.splitOn_nil, normaliseSegments_noise (.inl rfl)]
  | cons first more =>
    rw [joinSegments_cons, List.drop_one, List.tail_cons,
      splitOn_joinSegments first more (hmore first List.mem_cons_self)
        fun segment hsegment ↦ hmore segment (List.mem_cons_of_mem _ hsegment)]

/-! ## A stable root is read back -/

/-- A stable share is read as the same share. -/
theorem splitRoot_of_unc {host share : Text} {segments : List Text} (hhost : host ≠ [])
    (hshare : share ≠ []) (hhost' : '\\' ∉ host) (hshare' : '\\' ∉ share)
    (hsegments : ∀ segment ∈ segments, '\\' ∉ segment)
    (hstable : StableRoot .unc (r"\\".toList ++ host ++ ['\\'] ++ share))
    (hcuts : CutsRoot (r"\\".toList ++ host ++ ['\\'] ++ share ++ joinSegments segments)) :
    splitRoot (r"\\".toList ++ host ++ ['\\'] ++ share ++ joinSegments segments) =
      .ok (.unc, r"\\".toList ++ host ++ ['\\'] ++ share, (joinSegments segments).drop 1) := by
  set root := r"\\".toList ++ host ++ ['\\'] ++ share with hroot
  have hlong : 4 ≤ root.length := by
    have hhostLength := List.length_pos_iff.2 hhost
    have hshareLength := List.length_pos_iff.2 hshare
    rw [hroot]
    simp only [List.length_append, List.length_singleton]
    have htwo : r"\\".toList.length = 2 := rfl
    omega
  have hbegins {want : Text} (hwant : want.length = 4) (h : ¬ want <+: root) :
      ¬ want <+: root ++ joinSegments segments := fun hbegins ↦
    h (List.prefix_of_prefix_length_le hbegins (List.prefix_append _ _) (by omega))
  have hdevice : ¬ beginsWithCi (root ++ joinSegments segments) deviceRoot = true := by
    rw [beginsWithCi_deviceRoot_iff]
    exact hbegins rfl hstable.2
  have htext : root ++ joinSegments segments =
      r"\\".toList ++ (host ++ '\\' :: (share ++ joinSegments segments)) := by
    rw [hroot]
    simp
  have hnt : ¬ ntRoot <+: root ++ joinSegments segments := by
    rw [htext]
    rintro ⟨tail, htail⟩
    have hsecond := congrArg (List.take 2) htail
    exact absurd hsecond (by simp [ntRoot])
  rw [splitRoot_of_not_verbatim (hbegins rfl hstable.1) hcuts, if_neg hdevice, plainRoot,
    stripPrefix_eq_none hnt, (stripPrefix_eq_some_iff _ _ _).2 htext]
  dsimp only
  rw [uncRoot, splitHostShare_join hhost' hshare' hsegments]
  exact if_neg (not_or.2 ⟨hhost, hshare⟩)

/-- `\\.\` and `\??\` are read back behind any text. -/
theorem splitRoot_of_device {root : Text} (hroot : root = deviceRoot ∨ root = ntRoot)
    {rest : Text} (hcuts : CutsRoot (root ++ rest)) :
    splitRoot (root ++ rest) = .ok (.device, root, rest) := by
  have hother {want : Text} (hwant : want.length = 4) (h : want ≠ root) :
      ¬ want <+: root ++ rest := by
    intro hbegins
    have hlen : root.length = 4 := by rcases hroot with rfl | rfl <;> rfl
    exact h ((List.prefix_of_prefix_length_le hbegins (List.prefix_append _ _)
      (by omega)).eq_of_length (by omega))
  have hverbatim : ¬ verbatim <+: root ++ rest := by
    refine hother rfl ?_
    rcases hroot with rfl | rfl <;> decide
  rw [splitRoot_of_not_verbatim hverbatim hcuts]
  rcases hroot with rfl | rfl
  · rw [if_pos ((beginsWithCi_deviceRoot_iff _).2 (List.prefix_append _ _))]
    rfl
  · have hdevice : ¬ beginsWithCi (ntRoot ++ rest) deviceRoot = true := by
      rw [beginsWithCi_deviceRoot_iff]
      exact hother rfl (by decide)
    rw [if_neg hdevice, plainRoot, (stripPrefix_eq_some_iff _ _ _).2 rfl]

/-- A stable root that was split off once is split off again, and leaves the segments written
behind it. -/
theorem splitRoot_rendered {text root rest : Text} {kind : PathKind}
    (hform : RootForm text kind root rest) (hstable : StableRoot kind root)
    {segments : List Text} (hsegments : ∀ segment ∈ segments, '\\' ∉ segment)
    (hcuts : CutsRoot (root ++ joinSegments segments)) :
    ∃ rest', splitRoot (root ++ joinSegments segments) = .ok (kind, root, rest') ∧
      ∀ original kind out flag, normaliseSegments original kind (rest'.splitOn '\\') out flag =
        normaliseSegments original kind segments out flag := by
  have hdrive {letter : Char} (hletter : isAsciiAlphabetic letter.toNat = true)
      (hcuts : CutsRoot ([letter.toUpper, ':'] ++ joinSegments segments)) :
      ∃ rest', splitRoot ([letter.toUpper, ':'] ++ joinSegments segments) =
          .ok (.driveRooted, [letter.toUpper, ':'], rest') ∧
        ∀ original kind out flag, normaliseSegments original kind (rest'.splitOn '\\') out flag =
          normaliseSegments original kind segments out flag := by
    have hupper := isDriveLetter_toUpper hletter
    have halpha : isAsciiAlphabetic letter.toUpper.toNat = true := by
      simp only [isAsciiAlphabetic, Bool.or_eq_true, Bool.and_eq_true, decide_eq_true_eq]
      exact .inl hupper
    obtain ⟨rest', hspells, hwalk⟩ := spellsDrive_joinSegments halpha hsegments
    refine ⟨rest', ?_, hwalk⟩
    have hsplit := splitRoot_of_drive hspells hcuts
    rwa [toUpper_toUpper] at hsplit
  have hdevice (hroot : root = deviceRoot ∨ root = ntRoot) (hkind : kind = .device) :
      ∃ rest', splitRoot (root ++ joinSegments segments) = .ok (kind, root, rest') ∧
        ∀ original kind out flag, normaliseSegments original kind (rest'.splitOn '\\') out flag =
          normaliseSegments original kind segments out flag := by
    refine ⟨joinSegments segments, hkind ▸ splitRoot_of_device hroot hcuts, ?_⟩
    intro original kind out flag
    rw [← List.nil_append (joinSegments segments),
      splitOn_joinSegments [] segments (by simp) hsegments, normaliseSegments_noise (.inl rfl)]
  have hunc {host share tail text' : Text} (hhost : host ≠ []) (hshare : share ≠ [])
      (hsplit : splitHostShare text' = (host, share, tail))
      (hstable : StableRoot .unc (r"\\".toList ++ host ++ ['\\'] ++ share))
      (hcuts : CutsRoot (r"\\".toList ++ host ++ ['\\'] ++ share ++ joinSegments segments)) :
      ∃ rest', splitRoot (r"\\".toList ++ host ++ ['\\'] ++ share ++ joinSegments segments) =
          .ok (.unc, r"\\".toList ++ host ++ ['\\'] ++ share, rest') ∧
        ∀ original kind out flag, normaliseSegments original kind (rest'.splitOn '\\') out flag =
          normaliseSegments original kind segments out flag := by
    obtain ⟨hhost', hshare', -⟩ := splitHostShare_eq hsplit hhost hshare
    exact ⟨_, splitRoot_of_unc hhost hshare hhost' hshare' hsegments hstable hcuts,
      normaliseSegments_drop segments hsegments⟩
  cases hform with
  | verbatimUnc _ hhost hshare hsplit => exact hunc hhost hshare hsplit hstable hcuts
  | globalroot => exact absurd rfl hstable
  | verbatimDrive _ hspells => exact hdrive hspells.1 hcuts
  | deviceRoot => exact hdevice (.inl rfl) rfl
  | ntRoot => exact hdevice (.inr rfl) rfl
  | unc _ hhost hshare hsplit => exact hunc hhost hshare hsplit hstable hcuts
  | drive hspells => exact hdrive hspells.1 hcuts

/-! ## The rendering as a text -/

/-- What is written behind the root of a rendering: behind a drive at least one separator. -/
def writtenSegments (kind : PathKind) (components : List Text) : List Text :=
  if kind = .driveRooted ∧ components = [] then [[]] else components

theorem render_eq (kind : PathKind) (root : Text) (components : List Text) :
    render kind root components = root ++ joinSegments (writtenSegments kind components) := by
  unfold render writtenSegments
  split_ifs with hbare
  · simp [hbare.2]
  · simp

theorem toAsciiUppercase_joinSegments_clean (names : List Text) :
    toAsciiUppercase (joinSegments (names.map clean)) =
      toAsciiUppercase (joinSegments (names.map strip)) := by
  induction names with
  | nil => rfl
  | cons name names ih =>
    rw [List.map_cons, List.map_cons, joinSegments_cons, joinSegments_cons,
      show '\\' :: (clean name ++ joinSegments (names.map clean)) =
        ['\\'] ++ clean name ++ joinSegments (names.map clean) from rfl,
      show '\\' :: (strip name ++ joinSegments (names.map strip)) =
        ['\\'] ++ strip name ++ joinSegments (names.map strip) from rfl]
    simp only [toAsciiUppercase_append, toAsciiUppercase_clean, ih]
    rfl

/-- Up to case, and up to the separator behind a bare drive, a rendering is its spelling. -/
theorem toAsciiUppercase_render {kind : PathKind} {root : Text} {segments : List Text}
    (h : ¬ (kind = .driveRooted ∧ (resolveDots segments).map clean = [])) :
    toAsciiUppercase (render kind root ((resolveDots segments).map clean)) =
      toAsciiUppercase (spelled root segments) := by
  rw [render_eq, writtenSegments, if_neg h, spelled, toAsciiUppercase_append,
    toAsciiUppercase_append, toAsciiUppercase_joinSegments_clean]

theorem beginsWithCi_toAsciiUppercase (text want : Text) :
    beginsWithCi (toAsciiUppercase text) want = beginsWithCi text want := by
  have htake : (toAsciiUppercase text).take want.length =
      toAsciiUppercase (text.take want.length) := List.map_take.symm
  rw [beginsWithCi, beginsWithCi, Bool.eq_iff_iff, eqIgnoreAsciiCase_iff, eqIgnoreAsciiCase_iff,
    htake, toAsciiUppercase_idem]

theorem cutsRoot_toAsciiUppercase_iff (text : Text) :
    CutsRoot (toAsciiUppercase text) ↔ CutsRoot text := by
  have hdrop : (toAsciiUppercase text).drop 4 = toAsciiUppercase (text.drop 4) :=
    List.map_drop.symm
  simp only [CutsRoot, cuts_toAsciiUppercase_iff, beginsWithCi_toAsciiUppercase, hdrop]

theorem noWhiteEnd_toAsciiUppercase_iff (text : Text) :
    (∀ c ∈ (toAsciiUppercase text).getLast?, isWhitespace c = false) ↔
      ∀ c ∈ text.getLast?, isWhitespace c = false := by
  rw [toAsciiUppercase, List.getLast?_map]
  cases text.getLast? <;> simp [isWhitespace_toUpper]

/-- A bare drive and the same drive behind a separator are both cut at no character and end in no
white space. -/
theorem bareDrive_facts {letter : Char} (hletter : isAsciiAlphabetic letter.toNat = true) :
    (CutsRoot [letter.toUpper, ':', '\\'] ∧ CutsRoot [letter.toUpper, ':']) := by
  have hsize : letter.toUpper.utf8Size = 1 := by
    have hdrive := isDriveLetter_toUpper hletter
    have hval : letter.toUpper.val ≤ 127 := by
      rw [UInt32.le_iff_toNat_le]
      exact hdrive.2.trans (by decide)
    unfold Char.utf8Size
    exact if_pos hval
  constructor
  · refine cutsRoot_of_ascii fun c hc ↦ ?_
    simp only [List.mem_cons, List.not_mem_nil, or_false] at hc
    rcases hc with rfl | rfl | rfl
    · exact hsize
    · rfl
    · rfl
  · refine cutsRoot_of_ascii fun c hc ↦ ?_
    simp only [List.mem_cons, List.not_mem_nil, or_false] at hc
    rcases hc with rfl | rfl
    · exact hsize
    · rfl

/-- The conditions on the spelling are conditions on the rendering. -/
theorem spelled_iff {text root rest : Text} {kind : PathKind} (hform : RootForm text kind root rest)
    (segments : List Text) :
    (CutsRoot (render kind root ((resolveDots segments).map clean)) ↔
      CutsRoot (spelled root segments)) ∧
    ((∀ c ∈ (render kind root ((resolveDots segments).map clean)).getLast?,
        isWhitespace c = false) ↔
      ∀ c ∈ (spelled root segments).getLast?, isWhitespace c = false) := by
  by_cases hbare : kind = .driveRooted ∧ (resolveDots segments).map clean = []
  · obtain ⟨rfl, hnames⟩ := hbare
    obtain ⟨letter, hletter, rfl⟩ : ∃ letter : Char, isAsciiAlphabetic letter.toNat = true ∧
        root = [letter.toUpper, ':'] := by
      cases hform with
      | verbatimDrive _ hspells => exact ⟨_, hspells.1, rfl⟩
      | drive hspells => exact ⟨_, hspells.1, rfl⟩
    obtain ⟨hcuts, hcuts'⟩ := bareDrive_facts hletter
    have hspelled : spelled [letter.toUpper, ':'] segments = [letter.toUpper, ':'] := by
      rw [spelled, List.map_eq_nil_iff.1 hnames]
      rfl
    rw [hspelled, hnames]
    exact ⟨iff_of_true hcuts hcuts', iff_of_true (by simp [render]; rfl) (by simp; rfl)⟩
  · have hupper := @toAsciiUppercase_render _ root _ hbare
    rw [← cutsRoot_toAsciiUppercase_iff, ← noWhiteEnd_toAsciiUppercase_iff, hupper,
      cutsRoot_toAsciiUppercase_iff, noWhiteEnd_toAsciiUppercase_iff]
    exact ⟨Iff.rfl, Iff.rfl⟩

/-- The characters of a root and of what is below it that are not letters, nor written by the
program, are characters of the text. -/
theorem not_mem_of_rootForm {text root rest : Text} {kind : PathKind}
    (hform : RootForm text kind root rest) {c : Char}
    (hletter : isAsciiAlphabetic c.toNat = false) (hown : c ∉ [':', '\\', '?', '.'])
    (htext : c ∉ text) : c ∉ root ∧ c ∉ rest := by
  simp only [List.mem_cons, List.not_mem_nil, or_false, not_or] at hown
  obtain ⟨hcolon, hslash, hmark, hdot⟩ := hown
  have hdrive {letter : Char} {below drive : Text} (h : SpellsDrive letter below drive)
      (hc : c ∉ drive) : c ∉ [letter.toUpper, ':'] ∧ c ∉ below := by
    have hupper : ¬ c = letter.toUpper := by
      rw [eq_comm, toUpper_eq_iff hletter]
      rintro rfl
      obtain ⟨-, tail, rfl⟩ := h.exists_cons
      exact hc List.mem_cons_self
    obtain ⟨-, rfl | ⟨rfl, rfl⟩⟩ := h
    · exact ⟨by simp [hupper, hcolon], fun hmem ↦ hc (by simp [hmem])⟩
    · exact ⟨by simp [hupper, hcolon], by simp⟩
  have hunc {host share tail text' : Text} (hhost : host ≠ []) (hshare : share ≠ [])
      (hsplit : splitHostShare text' = (host, share, tail)) (hc : c ∉ text') :
      c ∉ r"\\".toList ++ host ++ ['\\'] ++ share ∧ c ∉ tail := by
    obtain ⟨-, -, more, -, rfl, rfl⟩ := splitHostShare_eq hsplit hhost hshare
    simp only [List.mem_append, List.mem_cons, not_or] at hc
    refine ⟨?_, fun hmem ↦ hc.2.2.2 (List.mem_of_mem_drop hmem)⟩
    simp only [List.mem_append, List.mem_singleton, not_or]
    refine ⟨⟨⟨?_, hc.1⟩, hslash⟩, hc.2.2.1⟩
    simp [hslash]
  cases hform with
  | verbatimUnc _ hhost hshare hsplit =>
    exact hunc hhost hshare hsplit fun hmem ↦ htext (List.mem_of_mem_drop hmem)
  | globalroot hpath =>
    rw [hpath, List.mem_append, not_or] at htext
    exact htext
  | verbatimDrive hpath hspells =>
    rw [hpath, List.mem_append, not_or] at htext
    exact hdrive hspells htext.2
  | deviceRoot hpath =>
    rw [hpath, List.mem_append, not_or] at htext
    exact htext
  | ntRoot hpath =>
    rw [hpath, List.mem_append, not_or] at htext
    exact htext
  | unc hpath hhost hshare hsplit =>
    rw [hpath, List.mem_append, not_or] at htext
    exact hunc hhost hshare hsplit htext.2
  | drive hspells => exact hdrive hspells htext

/-- A root does not begin with white space. -/
theorem exists_cons_of_rootForm {text root rest : Text} {kind : PathKind}
    (hform : RootForm text kind root rest) :
    ∃ c tail, root = c :: tail ∧ isWhitespace c = false := by
  have hdrive {letter : Char} (hletter : isAsciiAlphabetic letter.toNat = true) :
      isWhitespace letter.toUpper = false := by
    have hdriveLetter := isDriveLetter_toUpper hletter
    unfold IsDriveLetter at hdriveLetter
    rw [← Bool.not_eq_true]
    simp only [isWhitespace, Bool.or_eq_true, Bool.and_eq_true, decide_eq_true_eq, beq_iff_eq]
    omega
  cases hform with
  | verbatimDrive _ hspells => exact ⟨_, _, rfl, hdrive hspells.1⟩
  | drive hspells => exact ⟨_, _, rfl, hdrive hspells.1⟩
  | verbatimUnc | unc => exact ⟨'\\', _, rfl, by decide⟩
  | globalroot | deviceRoot | ntRoot => exact ⟨'\\', _, rfl, by decide⟩

/-! ## Reading a rendering -/

section Rendering

variable {text root rest : Text} {kind : PathKind}

/-- The names that survive a plain walk. -/
theorem plain_resolveDots {segments : List Text}
    (hplain : ∀ raw ∈ segments, IsName raw → IsPlain kind raw) :
    ∀ name ∈ resolveDots segments, IsName name ∧ IsPlain kind name := by
  intro name hname
  obtain ⟨hmem, hname⟩ := mem_resolveDots hname
  exact ⟨hname, hplain name hmem hname⟩

theorem mem_of_mem_splitOn {text segment : Text} (h : segment ∈ text.splitOn '\\') {c : Char}
    (hc : c ∈ segment) : c ∈ text := by
  obtain ⟨first, segments, hsplit, htext, -, -⟩ := exists_splitOn text
  rw [hsplit] at h
  rw [htext]
  rcases List.mem_cons.1 h with rfl | hmem
  · exact List.mem_append_left _ hc
  · exact List.mem_append_right _
      (List.mem_flatMap.2 ⟨segment, hmem, List.mem_cons_of_mem _ hc⟩)

/-- Cleaned components have no separator. -/
theorem not_mem_written :
    ∀ segment ∈ writtenSegments kind ((resolveDots (rest.splitOn '\\')).map clean),
      '\\' ∉ segment := by
  intro segment hsegment
  unfold writtenSegments at hsegment
  split_ifs at hsegment
  · rw [List.mem_singleton.1 hsegment]
    simp
  · obtain ⟨name, hname, rfl⟩ := List.mem_map.1 hsegment
    exact fun hslash ↦ Delimited.not_mem_of_mem_splitOn (mem_resolveDots hname).1
      (mem_of_mem_clean (by decide) hslash)

theorem hasShort_map_clean {names : List Text}
    (hnames : ∀ name ∈ names, IsName name ∧ IsPlain kind name) :
    hasShort (names.map clean) = hasShort names := by
  induction names with
  | nil => rfl
  | cons name names ih =>
    obtain ⟨hname, hplain⟩ := hnames name List.mem_cons_self
    have hmore := ih fun other hother ↦ hnames other (List.mem_cons_of_mem _ hother)
    unfold hasShort at hmore ⊢
    rw [List.map_cons, List.any_cons, List.any_cons, hmore, strip_clean, isShort_clean,
      decide_eq_true hname, decide_eq_true (isName_clean hplain.1)]

/-- Cleaned components are walked to themselves. -/
theorem normaliseSegments_written {names : List Text}
    (hnames : ∀ name ∈ names, IsName name ∧ IsPlain kind name) (original : Text) :
    normaliseSegments original kind (writtenSegments kind (names.map clean)) [] false =
      .ok (names.map clean, hasShort names) := by
  have hcomponents : normaliseSegments original kind (names.map clean) [] false =
      .ok (names.map clean, hasShort names) := by
    rw [normaliseSegments_of_plain, List.nil_append, Bool.false_or, hasShort_map_clean hnames,
      List.map_map]
    · congr 2
      exact List.map_congr_left fun name _ ↦ clean_clean name
    · intro component hcomponent
      obtain ⟨name, hname, rfl⟩ := List.mem_map.1 hcomponent
      exact ⟨isName_clean (hnames name hname).2.1, isPlain_clean (hnames name hname).2⟩
  unfold writtenSegments
  split_ifs with hbare
  · rw [normaliseSegments_noise (.inl rfl)]
    rwa [hbare.2] at hcomponents ⊢
  · exact hcomponents

theorem hasShort_of_resolveDots {segments : List Text}
    (h : hasShort (resolveDots segments) = true) : hasShort segments = true := by
  obtain ⟨name, hname, hshort⟩ := List.any_eq_true.1 h
  exact List.any_eq_true.2 ⟨name, (mem_resolveDots hname).1, hshort⟩

/-- A rendering holds no NUL and no slash that its text did not hold. -/
theorem not_mem_render (hform : RootForm text kind root rest) {c : Char}
    (hletter : isAsciiAlphabetic c.toNat = false) (hown : c ∉ [':', '\\', '?', '.'])
    (htext : c ∉ text) :
    c ∉ render kind root ((resolveDots (rest.splitOn '\\')).map clean) := by
  obtain ⟨hroot, hrest⟩ := not_mem_of_rootForm hform hletter hown htext
  have hslash : c ≠ '\\' := by
    rintro rfl
    exact hown (by simp)
  rw [render_eq, List.mem_append, not_or]
  refine ⟨hroot, fun hjoin ↦ ?_⟩
  obtain ⟨segment, hsegment, hc⟩ := List.mem_flatMap.1 hjoin
  have hc := (List.mem_cons.1 hc).resolve_left hslash
  unfold writtenSegments at hsegment
  split_ifs at hsegment
  · rw [List.mem_singleton.1 hsegment] at hc
    cases hc
  · obtain ⟨name, hname, rfl⟩ := List.mem_map.1 hsegment
    exact hrest (mem_of_mem_splitOn (mem_resolveDots hname).1 (mem_of_mem_clean hletter hc))

theorem not_mem_trim_unify {input : Text} (hnul : '\x00' ∉ input) :
    '\x00' ∉ trim (unify input) ∧ '/' ∉ trim (unify input) := by
  obtain ⟨lead, tail, hends, -, -⟩ := exists_trimMatches isWhitespace (unify input)
  have hsub {c : Char} (hc : c ∉ unify input) : c ∉ trim (unify input) := by
    intro hmem
    rw [hends] at hc
    exact hc (List.mem_append_left _ (List.mem_append_right _ hmem))
  constructor
  · refine hsub fun hmem ↦ ?_
    obtain ⟨d, hd, hdc⟩ := List.mem_map.1 hmem
    split_ifs at hdc
    · cases hdc
    · exact hnul (hdc ▸ hd)
  · refine hsub fun hmem ↦ ?_
    obtain ⟨d, -, hdc⟩ := List.mem_map.1 hmem
    split_ifs at hdc with hslash
    · cases hdc
    · exact hslash hdc

/-- Trimming a text that begins with its root trims its end. -/
theorem trim_eq_trimEndMatches (hform : RootForm text kind root rest) (below : Text) :
    trim (root ++ below) = trimEndMatches isWhitespace (root ++ below) := by
  obtain ⟨c, tail, rfl, hc⟩ := exists_cons_of_rootForm hform
  rw [trim, trimMatches, List.cons_append, List.dropWhile_cons_of_neg]
  rw [hc]
  exact Bool.false_ne_true

/-- A stable spelling is read back as the same path. -/
theorem canonicalise_rendered {original : Text} (hform : RootForm original kind root rest)
    (hnul : '\x00' ∉ original) (hslash : '/' ∉ original)
    (hplain : ∀ raw ∈ rest.splitOn '\\', IsName raw → IsPlain kind raw)
    (hstable : IsStable kind root (rest.splitOn '\\')) :
    canonicaliseSyntactic (pathOf kind root (rest.splitOn '\\')).text =
      .ok (pathOf kind root (rest.splitOn '\\')) := by
  set segments := rest.splitOn '\\' with hsegments
  set components := (resolveDots segments).map clean with hcomponents
  have hnames := plain_resolveDots hplain
  have htext : (pathOf kind root segments).text = render kind root components := rfl
  have hnul' : '\x00' ∉ render kind root components :=
    not_mem_render hform (by decide) (by decide) hnul
  have hunify : unify (render kind root components) = render kind root components :=
    unify_eq_self (not_mem_render hform (by decide) (by decide) hslash)
  obtain ⟨hcutsIff, hwhiteIff⟩ := spelled_iff hform segments
  have htrim : trim (render kind root components) = render kind root components := by
    refine trimMatches_eq_self isWhitespace ?_ (hwhiteIff.2 hstable.noWhiteEnd)
    obtain ⟨c, tail, hroot, hc⟩ := exists_cons_of_rootForm hform
    rw [render_eq, hroot]
    rintro d hd
    rwa [← Option.some.inj hd]
  have hcuts := hcutsIff.2 hstable.cuts
  rw [← hcomponents, render_eq] at hcuts
  obtain ⟨rest', hroot, hwalk⟩ :=
    splitRoot_rendered hform hstable.stableRoot not_mem_written hcuts
  have hne : render kind root components ≠ [] := by
    obtain ⟨c, tail, hroot, -⟩ := exists_cons_of_rootForm hform
    rw [render_eq, hroot]
    exact List.cons_ne_nil _ _
  rw [← render_eq] at hroot
  rw [htext, canonicaliseSyntactic_of_walk hnul' (by rwa [hunify, htrim])
    (by rw [hunify, htrim]; exact hroot)
    (by rw [normaliseComponents, hwalk]; exact normaliseSegments_written hnames _)]
  have hflag : hasShort (resolveDots segments) = hasShort segments := by
    rw [Bool.eq_iff_iff]
    exact ⟨hasShort_of_resolveDots, hstable.shortKept⟩
  rw [hflag]
  rfl

/-! ## Length of what is read -/

/-- A device root and what is below it make up the text. -/
theorem eq_append_of_rootForm (h : RootForm text .device root rest) :
    text = root ++ rest ∧
      (root = verbatim ∧ isGlobalroot rest = true ∨ root = deviceRoot ∨ root = ntRoot) := by
  cases h with
  | globalroot hpath hglobal => exact ⟨hpath, .inl ⟨rfl, hglobal⟩⟩
  | deviceRoot hpath => exact ⟨hpath, .inr (.inl rfl)⟩
  | ntRoot hpath => exact ⟨hpath, .inr (.inr rfl)⟩

theorem length_components_share {host share tail rest : Text} (hhost : host ≠ [])
    (hshare : share ≠ []) (hsplit : splitHostShare rest = (host, share, tail)) :
    (render .unc (r"\\".toList ++ host ++ ['\\'] ++ share)
      ((resolveDots (tail.splitOn '\\')).map clean)).length ≤ rest.length + 2 := by
  obtain ⟨-, -, more, hmore, rfl, rfl⟩ := splitHostShare_eq hsplit hhost hshare
  have hlength := length_components_drop more hmore
  rw [render_eq, writtenSegments, if_neg (by simp)]
  simp only [List.length_append, List.length_cons, List.length_nil]
  have htwo : r"\\".toList.length = 2 := rfl
  omega

/-- A share is rendered no longer than it was written. -/
theorem length_render_unc (h : RootForm text .unc root rest) :
    (render .unc root ((resolveDots (rest.splitOn '\\')).map clean)).length ≤ text.length := by
  cases h with
  | verbatimUnc hbegins hhost hshare hsplit =>
    refine (length_components_share hhost hshare hsplit).trans ?_
    have hlen := length_eq_of_eqIgnoreAsciiCase hbegins
    rw [List.length_take, show verbatimUnc.length = 8 from rfl] at hlen
    rw [List.length_drop]
    omega
  | unc hpath hhost hshare hsplit =>
    refine (length_components_share hhost hshare hsplit).trans ?_
    rw [hpath, List.length_append]
    have htwo : r"\\".toList.length = 2 := rfl
    omega

/-- Behind a verbatim prefix a share is rendered shorter than it was written. -/
theorem length_render_verbatimUnc (hroot : splitRoot text = .ok (.unc, root, rest))
    (hverbatim : verbatim <+: text) :
    (render .unc root ((resolveDots (rest.splitOn '\\')).map clean)).length < text.length := by
  rw [splitRoot_eq] at hroot
  split_ifs at hroot with h8 hunc h4 hbegins h11 hglobal hdevice
  · obtain ⟨-, host, share, hhost, hshare, hsplit, rfl⟩ := uncRoot_eq_ok hroot
    refine (length_components_share hhost hshare hsplit).trans_lt ?_
    have hlen := length_eq_of_eqIgnoreAsciiCase hunc
    rw [List.length_take, show verbatimUnc.length = 8 from rfl] at hlen
    rw [List.length_drop]
    omega
  · cases hroot
  · exact absurd (driveRoot_eq_ok hroot).1 (by decide)
  · cases hroot
  · exact absurd ((beginsWithCi_verbatim_iff text).2 hverbatim) hbegins

/-- A drive with something below it is rendered no longer than it was written. -/
theorem length_render_drive (h : RootForm text .driveRooted root rest)
    (hne : (resolveDots (rest.splitOn '\\')).map clean ≠ []) :
    (render .driveRooted root ((resolveDots (rest.splitOn '\\')).map clean)).length ≤
      text.length := by
  have hdrive {letter : Char} {below drive : Text} (hspells : SpellsDrive letter below drive)
      (hne : (resolveDots (below.splitOn '\\')).map clean ≠ []) :
      (render .driveRooted [letter.toUpper, ':']
        ((resolveDots (below.splitOn '\\')).map clean)).length ≤ drive.length := by
    have hcomponents := length_components_le (below.splitOn '\\')
    rw [length_joinSegments_splitOn] at hcomponents
    rw [render_eq, writtenSegments, if_neg (by simp [hne]), List.length_append]
    obtain ⟨-, rfl | ⟨rfl, rfl⟩⟩ := hspells
    · simp only [List.length_cons, List.length_nil]
      omega
    · exact absurd rfl hne
  cases h with
  | verbatimDrive hpath hspells =>
    refine (hdrive hspells hne).trans ?_
    rw [hpath, List.length_append]
    omega
  | drive hspells => exact hdrive hspells hne

/-- Behind a separator the names below a device root are rendered no longer than written. -/
theorem length_render_device (below : Text) (hbelow : below = [] ∨ below.head? = some '\\') :
    (render .device root ((resolveDots (below.splitOn '\\')).map clean)).length ≤
      (root ++ below).length := by
  rw [render_eq, writtenSegments, if_neg (by simp), List.length_append, List.length_append]
  rcases hbelow with rfl | hhead
  · simp [resolveDots, resolveStep]
  · obtain ⟨below, rfl⟩ : ∃ tail, below = '\\' :: tail := by
      cases below with
      | nil => cases hhead
      | cons c tail => exact ⟨tail, by rw [Option.some.inj hhead]⟩
    have hsplit : ('\\' :: below).splitOn '\\' = [] :: below.splitOn '\\' := by
      rw [show '\\' :: below = [] ++ '\\' :: below from rfl,
        List.splitOn_append_cons_self_of_not_mem (by simp)]
    have hlength := length_components_le (below.splitOn '\\')
    rw [length_joinSegments_splitOn] at hlength
    rw [hsplit, List.length_cons]
    exact Nat.add_le_add_left hlength _

/-! ## What a second reading needs -/

/-- Trimming the end of a text stops at the separator its root ends in. -/
theorem trimEndMatches_root (hroot : root = verbatim ∨ root = deviceRoot ∨ root = ntRoot)
    (below : Text) :
    trimEndMatches isWhitespace (root ++ below) = root ++ trimEndMatches isWhitespace below := by
  have hend : root = root.take 3 ++ ['\\'] := by rcases hroot with rfl | rfl | rfl <;> rfl
  rw [hend, List.append_assoc, List.append_assoc]
  exact trimEndMatches_append_cons _ _ _ (by decide)

theorem trimEndMatches_joinSegments (segments : List Text) :
    trimEndMatches isWhitespace (joinSegments segments) = [] ∨
      (trimEndMatches isWhitespace (joinSegments segments)).head? = some '\\' := by
  cases segments with
  | nil => exact .inl rfl
  | cons first segments =>
    refine .inr ?_
    have htrim := trimEndMatches_append_cons isWhitespace [] (first ++ joinSegments segments)
      (show isWhitespace '\\' = false by decide)
    rw [List.nil_append] at htrim
    rw [joinSegments_cons, htrim]
    rfl

theorem not_isGlobalroot {below : Text} (h : below = [] ∨ below.head? = some '\\') :
    ¬ isGlobalroot below = true := by
  cases below with
  | nil => decide
  | cons c below =>
    obtain rfl : c = '\\' := Option.some.inj (h.resolve_left (List.cons_ne_nil _ _))
    rw [isGlobalroot, Bool.or_eq_true, not_or]
    refine ⟨fun hbegins ↦ ?_, fun heq ↦ ?_⟩
    · exact absurd ((beginsWithCi_cons_iff _ _ _ _).1 hbegins).1 (by decide)
    · exact absurd ((eqIgnoreAsciiCase_cons_iff _ _ _ _).1 heq).1 (by decide)

section SecondReading

variable {root' rest' : Text} {components : List Text}

/-- What a rendering with the same root and components was read from. -/
structure ReadsBack (kind : PathKind) (root : Text) (components : List Text) (rest' : Text) :
    Prop where
  splits : splitRoot (trimEndMatches isWhitespace (render kind root components)) =
    .ok (kind, root, rest')
  components_eq : components = (resolveDots (rest'.splitOn '\\')).map clean

theorem ReadsBack.stableRoot (h : ReadsBack kind root components rest') :
    StableRoot kind root := by
  obtain ⟨hsplit, hcomponents⟩ := h
  have hle : (trimEndMatches isWhitespace (render kind root components)).length ≤
      (render kind root components).length := (prefix_trimEndMatches _ _).length_le
  have hbegins {want : Text} (hwant : want = verbatim ∨ want = deviceRoot ∨ want = ntRoot)
      (hbegins : want <+: root) :
      want <+: trimEndMatches isWhitespace (render kind root components) := by
    obtain ⟨more, rfl⟩ := hbegins
    rw [render_eq, List.append_assoc, trimEndMatches_root hwant]
    exact List.prefix_append _ _
  cases kind with
  | driveRooted => trivial
  | unc =>
    constructor
    · intro hverbatim
      have hshorter := length_render_verbatimUnc hsplit (hbegins (.inl rfl) hverbatim)
      rw [← hcomponents] at hshorter
      omega
    · intro hdevice
      have hbegins := hbegins (.inr (.inl rfl)) hdevice
      have hnot : ¬ verbatim <+: trimEndMatches isWhitespace (render .unc root components) := by
        intro hverbatim
        have hsame := (List.prefix_of_prefix_length_le hverbatim hbegins
          (by decide)).eq_of_length (by decide)
        exact absurd hsame (by decide)
      have hcuts := (splitRoot_returns_iff _).1 (by rw [hsplit]; exact Outcome.returns_ok _)
      rw [splitRoot_of_not_verbatim hnot hcuts,
        if_pos ((beginsWithCi_deviceRoot_iff _).2 hbegins)] at hsplit
      cases hsplit
  | device =>
    rintro rfl
    obtain ⟨htext, hcases⟩ := eq_append_of_rootForm (splitRoot_eq_ok hsplit)
    rw [render_eq, trimEndMatches_root (.inl rfl)] at htext
    have hrest := List.append_cancel_left htext
    rcases hcases with ⟨-, hglobal⟩ | hroot | hroot
    · exact not_isGlobalroot (hrest ▸ trimEndMatches_joinSegments _) hglobal
    · exact absurd hroot (by decide)
    · exact absurd hroot (by decide)

/-- A rendering that is read back is not trimmed: a shorter text renders no longer. -/
theorem ReadsBack.trim_eq (h : ReadsBack kind root components rest') :
    trimEndMatches isWhitespace (render kind root components) = render kind root components := by
  have hstable := h.stableRoot
  obtain ⟨hsplit, hcomponents⟩ := h
  have hform := splitRoot_eq_ok hsplit
  have hlength (hle : (render kind root components).length ≤
      (trimEndMatches isWhitespace (render kind root components)).length) :=
    (prefix_trimEndMatches isWhitespace (render kind root components)).eq_of_length_le hle
  cases kind with
  | driveRooted =>
    by_cases hbare : components = []
    · rw [render_eq, writtenSegments, if_pos ⟨rfl, hbare⟩]
      exact trimEndMatches_append_cons _ _ _ (by decide)
    · refine hlength ?_
      have hdrive := length_render_drive hform (hcomponents ▸ hbare)
      rwa [← hcomponents] at hdrive
  | unc =>
    refine hlength ?_
    have hunc := length_render_unc hform
    rwa [← hcomponents] at hunc
  | device =>
    refine hlength ?_
    obtain ⟨htext, hcases⟩ := eq_append_of_rootForm hform
    have hroot : root = verbatim ∨ root = deviceRoot ∨ root = ntRoot := hcases.imp And.left id
    have hrest : rest' = trimEndMatches isWhitespace
        (joinSegments (writtenSegments .device components)) := by
      rw [render_eq, trimEndMatches_root hroot] at htext
      exact (List.append_cancel_left htext).symm
    have hdevice := @length_render_device root rest'
      (hrest ▸ trimEndMatches_joinSegments _)
    rwa [← hcomponents, ← htext] at hdevice

end SecondReading

/-- A path that is read back from its rendering was spelled stably. -/
theorem isStable_of_canonicalise {original : Text} (hform : RootForm original kind root rest)
    (hslash : '/' ∉ original)
    (hplain : ∀ raw ∈ rest.splitOn '\\', IsName raw → IsPlain kind raw)
    (h : canonicaliseSyntactic (pathOf kind root (rest.splitOn '\\')).text =
      .ok (pathOf kind root (rest.splitOn '\\'))) :
    IsStable kind root (rest.splitOn '\\') := by
  set segments := rest.splitOn '\\' with hsegments
  set components := (resolveDots segments).map clean with hcomponents
  obtain ⟨-, root', rest', hroot', hwalk', htext', -⟩ := exists_walk_of_canonicalise h
  change splitRoot (trim (unify (render kind root components))) = .ok (kind, root', rest')
    at hroot'
  change normaliseComponents rest' (trim (unify (render kind root components))) kind =
    .ok (components, hasShort segments) at hwalk'
  change render kind root components = render kind root' components at htext'
  have hunify : unify (render kind root components) = render kind root components :=
    unify_eq_self (not_mem_render hform (by decide) (by decide) hslash)
  rw [render_eq, render_eq] at htext'
  obtain rfl := List.append_cancel_right htext'
  have htrim : trim (render kind root components) =
      trimEndMatches isWhitespace (render kind root components) := by
    rw [render_eq]
    exact trim_eq_trimEndMatches hform _
  rw [hunify, htrim] at hroot' hwalk'
  have hreads : ReadsBack kind root components rest' :=
    ⟨hroot', (normaliseSegments_root_eq_ok hwalk').1⟩
  have hself := hreads.trim_eq
  obtain ⟨hcutsIff, hwhiteIff⟩ := spelled_iff hform segments
  rw [hself] at hroot' hwalk'
  have hcuts : CutsRoot (render kind root components) :=
    (splitRoot_returns_iff _).1 (by rw [hroot']; exact Outcome.returns_ok _)
  refine ⟨hreads.stableRoot, hcutsIff.1 hcuts,
    hwhiteIff.1 ((trimEndMatches_eq_self_iff _ _).1 hself), fun hshort ↦ ?_⟩
  rw [render_eq] at hcuts
  obtain ⟨rest'', hroot'', hwalk''⟩ :=
    splitRoot_rendered hform hreads.stableRoot not_mem_written hcuts
  rw [← render_eq, hroot'] at hroot''
  simp only [Outcome.ok.injEq, Prod.mk.injEq, true_and] at hroot''
  subst hroot''
  rw [normaliseComponents, hwalk'', hcomponents,
    normaliseSegments_written (plain_resolveDots hplain)] at hwalk'
  simp only [Outcome.ok.injEq, Prod.mk.injEq, true_and] at hwalk'
  rw [hwalk', hshort]

end Rendering

/-- A canonical path is read back from its own text exactly when it was spelled stably. -/
theorem canonicalise_again_iff {text : Text} {path : CanonicalPath}
    (h : canonicaliseSyntactic text = .ok path) :
    canonicaliseSyntactic path.text = .ok path ↔ StableSpelling text := by
  obtain ⟨hnul, kind, root, rest, hroot, hplain, rfl⟩ := canonicaliseSyntactic_eq_ok h
  obtain ⟨hnul', hslash⟩ := not_mem_trim_unify hnul
  have hform := splitRoot_eq_ok hroot
  have hspelling : StableSpelling text ↔ IsStable kind root (rest.splitOn '\\') := by
    constructor
    · exact fun hstable ↦ hstable kind root rest hroot
    · intro hstable kind' root' rest' hroot'
      rw [hroot] at hroot'
      simp only [Outcome.ok.injEq, Prod.mk.injEq] at hroot'
      obtain ⟨rfl, rfl, rfl⟩ := hroot'
      exact hstable
  rw [hspelling]
  exact ⟨isStable_of_canonicalise hform hslash hplain,
    canonicalise_rendered hform hnul' hslash hplain⟩

/-- `C:\GAMES\FOO` is read back, so its spelling is stable. -/
theorem canonicalise_again_iff_foo : StableSpelling r"c:/Games/Foo".toList :=
  (@canonicalise_again_iff r"c:/Games/Foo".toList
    ⟨r"C:\GAMES\FOO".toList, .driveRooted, some 'C', ["GAMES".toList, "FOO".toList], false, false⟩
    (by decide)).1 (by decide)

/-- The rendering of a path below `GLOBALROOT` has a doubled separator, and is no absolute path. -/
theorem globalroot_is_not_read_back :
    ¬ ∀ (text : Text) (path : CanonicalPath), canonicaliseSyntactic text = .ok path →
      canonicaliseSyntactic path.text = .ok path := by
  intro h
  have hpath := h r"\\?\GLOBALROOT\x".toList
    ⟨r"\\?\\GLOBALROOT\X".toList, .device, none, ["GLOBALROOT".toList, "X".toList], false, false⟩
    (by decide)
  exact absurd hpath (by decide)

end WardSweep.Paths
