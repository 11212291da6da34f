import WardSweep.Safety.Sound
import WardSweep.Safety.Spelling
import WardSweep.Rust.Matches
import WardSweep.Scan.Libraries

/-!
# Where an Epic game is installed

The library of a game is the text before the last separator of its install location.  It is read as
the folder above the game only where that text ends like the name of a folder.
-/

namespace WardSweep.Libraries

open Utf8 Str Paths Denylist

/-! ## Steps of a walk -/

/-- What one segment does to the components above it. -/
inductive Step (out : List Text) : Text → List Text → Prop
  | noise {raw : Text} (h : raw = [] ∨ raw = ".".toList) : Step out raw out
  | up (h : out ≠ []) : Step out "..".toList out.dropLast
  | name {raw : Text} (h : IsName raw) (plain : IsPlain .driveRooted raw) :
    Step out raw (out ++ [clean raw])

/-- All that one segment can do. -/
theorem Step.inv {out components : List Text} {raw : Text} (h : Step out raw components) :
    ((raw = [] ∨ raw = ".".toList) ∧ components = out) ∨
      (raw = "..".toList ∧ out ≠ [] ∧ components = out.dropLast) ∨
        (IsName raw ∧ IsPlain .driveRooted raw ∧ components = out ++ [clean raw]) := by
  cases h with
  | noise h => exact .inl ⟨h, rfl⟩
  | up h => exact .inr (.inl ⟨rfl, h, rfl⟩)
  | name h plain => exact .inr (.inr ⟨h, plain, rfl⟩)

/-- A walk below a drive that ends at some components. -/
def Walks (segments components : List Text) : Prop :=
  ∃ original flag, normaliseSegments original .driveRooted segments [] false =
    .ok (components, flag)

theorem step_of_normaliseSegments {original raw : Text} {out components : List Text}
    {short flag : Bool} (h : normaliseSegments original .driveRooted [raw] out short =
      .ok (components, flag)) : Step out raw components := by
  rcases segment_cases raw with hnoise | rfl | hname
  · rw [normaliseSegments_noise hnoise] at h
    obtain ⟨rfl, -⟩ := Prod.mk.inj (Outcome.ok.inj h)
    exact .noise hnoise
  · rw [normaliseSegments_up] at h
    split_ifs at h with hroot
    obtain ⟨rfl, -⟩ := Prod.mk.inj (Outcome.ok.inj h)
    exact .up hroot
  · rw [normaliseSegments_name hname] at h
    split_ifs at h with hempty hcolon
    obtain ⟨rfl, -⟩ := Prod.mk.inj (Outcome.ok.inj h)
    exact .name hname ⟨hempty, fun hkind hmem ↦ hcolon ⟨hkind, hmem⟩⟩

theorem Step.exists_normaliseSegments {raw : Text} {out components : List Text}
    (h : Step out raw components) (original : Text) (short : Bool) :
    ∃ flag, normaliseSegments original .driveRooted [raw] out short = .ok (components, flag) := by
  cases h with
  | noise h => exact ⟨short, normaliseSegments_noise h⟩
  | up h => exact ⟨short, by rw [normaliseSegments_up, if_neg h, normaliseSegments_nil]⟩
  | name h plain => exact ⟨_, normaliseSegments_plain h plain⟩

theorem walks_concat_iff {segments components : List Text} {raw : Text} :
    Walks (segments ++ [raw]) components ↔ ∃ out, Walks segments out ∧ Step out raw components := by
  constructor
  · rintro ⟨original, flag, h⟩
    rw [normaliseSegments_append] at h
    obtain ⟨⟨out, short⟩, hfirst, hlast⟩ := (Outcome.bind_eq_ok_iff _ _ _).mp h
    exact ⟨out, ⟨original, short, hfirst⟩, step_of_normaliseSegments hlast⟩
  · rintro ⟨out, ⟨original, short, hfirst⟩, hstep⟩
    obtain ⟨flag, hlast⟩ := hstep.exists_normaliseSegments original short
    refine ⟨original, flag, ?_⟩
    rw [normaliseSegments_append, hfirst, Outcome.bind_ok, hlast]

theorem Step.unique {raw : Text} {out components components' : List Text}
    (h : Step out raw components) (h' : Step out raw components') : components = components' := by
  obtain ⟨flag, hread⟩ := h.exists_normaliseSegments [] false
  obtain ⟨flag', hread'⟩ := h'.exists_normaliseSegments [] false
  exact (Prod.mk.inj (Outcome.ok.inj (hread.symm.trans hread'))).1

theorem Walks.unique {segments components components' : List Text} (h : Walks segments components)
    (h' : Walks segments components') : components = components' := by
  obtain ⟨original, flag, hread⟩ := h
  obtain ⟨original', flag', hread'⟩ := h'
  have hsame := normaliseSegments_ok_congr original hread'
  exact (Prod.mk.inj (Outcome.ok.inj (hread.symm.trans hsame))).1

theorem walks_nil_iff {components : List Text} : Walks [] components ↔ components = [] := by
  constructor
  · rintro ⟨original, flag, h⟩
    exact (Prod.mk.inj (Outcome.ok.inj h)).1.symm
  · rintro rfl
    exact ⟨[], false, rfl⟩

/-! ## Blanks at the end of a name -/

/-- Without the blanks at its end a segment is read as the same name. -/
def EndsPlainly (raw : Text) : Prop := strip (trimEnd raw) = strip raw

instance (raw : Text) : Decidable (EndsPlainly raw) :=
  inferInstanceAs (Decidable (strip (trimEnd raw) = strip raw))

theorem endsPlainly_of_clean_eq {raw : Text} (h : clean (trimEnd raw) = clean raw) :
    EndsPlainly raw := by
  have hlength := congrArg List.length h
  rw [clean, clean, length_toAsciiUppercase, length_toAsciiUppercase] at hlength
  have hshort : strip (trimEnd raw) <+: raw :=
    (strip_prefix_self _).trans (prefix_trimEndMatches _ _)
  exact (List.prefix_of_prefix_length_le hshort (strip_prefix_self raw) hlength.le).eq_of_length
    hlength

/-- A step that ends plainly is the same step without the blanks. -/
theorem Step.trimEnd {raw : Text} {out components : List Text} (h : Step out raw components)
    (hplain : EndsPlainly raw) : Step out (trimEnd raw) components := by
  cases h with
  | noise h =>
    rcases h with rfl | rfl
    · exact .noise (.inl rfl)
    · exact .noise (.inr rfl)
  | up h => exact .up h
  | name h plain =>
    have hstrip : strip (Str.trimEnd raw) = strip raw := hplain
    have hclean : clean (Str.trimEnd raw) = clean raw := congrArg toAsciiUppercase hstrip
    rw [← hclean]
    refine .name (isName_of_strip_ne_nil (hstrip ▸ plain.1)) ?_
    rw [IsPlain, hstrip]
    exact plain

/-- Only a name can end in blanks that are part of it. -/
theorem name_of_not_endsPlainly {raw : Text} {out components : List Text}
    (h : Step out raw components) (hblank : ¬ EndsPlainly raw) :
    IsPlain .driveRooted raw ∧ components = out ++ [clean raw] := by
  cases h with
  | noise h =>
    rcases h with rfl | rfl
    · exact absurd (by decide) hblank
    · exact absurd (by decide) hblank
  | up h => exact absurd (by decide) hblank
  | name h plain => exact ⟨plain, rfl⟩

/-! ## The folder above -/

/-- Which last segments `above` and `last` of an install location, below a drive and so many
components deep, leave the text before the last separator a folder the game is in. -/
def KeepsFolder (depth : ℕ) (above last : Text) : Prop :=
  if EndsPlainly above then last = ".".toList ∨ last ≠ "..".toList ∧ 2 ≤ depth
  else if trimEnd above = [] ∨ trimEnd above = ".".toList then
    last = "..".toList ∨ last = ".".toList ∧ 2 ≤ depth
  else trimEnd above = "..".toList ∧ last = "..".toList ∧ 2 ≤ depth

/-- A folder is an install location or the folder above it, and no drive. -/
def IsFolderOf (location folder : List Text) : Prop :=
  folder ≠ [] ∧ (folder = location ∨ folder = location.dropLast)

theorem isFolderOf_iff_of_step {out location : List Text} {last : Text} (h : Step out last location)
    (hlast : last ≠ []) (hlocation : location ≠ []) :
    IsFolderOf location out ↔ last = ".".toList ∨ last ≠ "..".toList ∧ 2 ≤ location.length := by
  cases h with
  | noise h =>
    obtain rfl := h.resolve_left hlast
    exact iff_of_true ⟨hlocation, .inl rfl⟩ (.inl rfl)
  | up h =>
    refine iff_of_false ?_ ?_
    · rintro ⟨-, hsame | hsame⟩
      all_goals
        have hlength := congrArg List.length hsame
        have hpos := List.length_pos_of_ne_nil h
        simp only [List.length_dropLast] at hlength
        omega
    · rintro (hdot | ⟨hup, -⟩)
      · exact absurd hdot (by decide)
      · exact hup rfl
  | name h plain =>
    rw [IsFolderOf, List.dropLast_concat, List.length_append, List.length_singleton,
      or_iff_right h.2.1]
    constructor
    · rintro ⟨hne, -⟩
      have hpos := List.length_pos_of_ne_nil hne
      exact ⟨h.2.2, by omega⟩
    · rintro ⟨-, hdeep⟩
      exact ⟨List.ne_nil_of_length_pos (by omega), .inr rfl⟩

/-- The folder above, its text without the blanks at its end, against the install location. -/
theorem exists_isFolderOf_iff {top out location : List Text} {above last : Text}
    (habove : Step top above out) (h : Step out last location) (hlast : last ≠ [])
    (hlocation : location ≠ []) :
    (∃ folder, Step top (trimEnd above) folder ∧ IsFolderOf location folder) ↔
      KeepsFolder location.length above last := by
  unfold KeepsFolder
  by_cases hends : EndsPlainly above
  · rw [if_pos hends, ← isFolderOf_iff_of_step h hlast hlocation]
    have hstep := habove.trimEnd hends
    constructor
    · rintro ⟨folder, hfolder, hkept⟩
      exact hfolder.unique hstep ▸ hkept
    · exact fun hkept ↦ ⟨out, hstep, hkept⟩
  rw [if_neg hends]
  obtain ⟨hplain, rfl⟩ := name_of_not_endsPlainly habove hends
  have hlonger {longer : List Text} (hlonger : longer.length ≠ location.length)
      (hshorter : longer.length + 1 ≠ location.length) : ¬ IsFolderOf location longer := by
    rintro ⟨-, rfl | rfl⟩
    · exact hlonger rfl
    · rw [List.length_dropLast] at hshorter
      have hpos := List.length_pos_of_ne_nil hlocation
      omega
  by_cases hnoise : trimEnd above = [] ∨ trimEnd above = ".".toList
  · -- the blanks are the whole of the name, or hide that it is a dot
    have hunique : (∃ folder, Step top (trimEnd above) folder ∧ IsFolderOf location folder) ↔
        IsFolderOf location top := by
      constructor
      · rintro ⟨folder, hfolder, hkept⟩
        exact hfolder.unique (.noise hnoise) ▸ hkept
      · exact fun hkept ↦ ⟨top, .noise hnoise, hkept⟩
    rw [if_pos hnoise, hunique]
    cases h with
    | noise h =>
      obtain rfl := h.resolve_left hlast
      rw [IsFolderOf, List.dropLast_concat, List.length_append, List.length_singleton]
      constructor
      · rintro ⟨hne, -⟩
        have hpos := List.length_pos_of_ne_nil hne
        exact .inr ⟨rfl, by omega⟩
      · rintro (hup | ⟨-, hdeep⟩)
        · exact absurd hup (by decide)
        · exact ⟨List.ne_nil_of_length_pos (by omega), .inr rfl⟩
    | up h =>
      rw [List.dropLast_concat] at hlocation ⊢
      exact iff_of_true ⟨hlocation, .inl rfl⟩ (.inl rfl)
    | name h plain =>
      refine iff_of_false (hlonger ?_ ?_) ?_
      · simp
      · simp
      · rintro (hup | ⟨hdot, -⟩)
        · exact h.2.2 hup
        · exact h.2.1 hdot
  rw [if_neg hnoise]
  by_cases hup : trimEnd above = "..".toList
  · -- the blanks hide that it is a step up
    have hfolder {folder : List Text} (hstep : Step top (trimEnd above) folder) :
        top ≠ [] ∧ folder = top.dropLast := by
      rw [hup] at hstep
      cases hstep with
      | noise h => exact absurd h (by decide)
      | up h => exact ⟨h, rfl⟩
      | name h plain => exact absurd rfl h.2.2
    cases h with
    | noise h =>
      obtain rfl := h.resolve_left hlast
      refine iff_of_false ?_ fun h ↦ absurd h.2.1 (by decide)
      rintro ⟨folder, hstep, hkept⟩
      obtain ⟨hne, rfl⟩ := hfolder hstep
      have hpos := List.length_pos_of_ne_nil hne
      refine hlonger ?_ ?_ hkept
      · simp only [List.length_dropLast, List.length_append, List.length_singleton]
        omega
      · simp only [List.length_dropLast, List.length_append, List.length_singleton]
        omega
    | up h =>
      rw [List.dropLast_concat] at hlocation ⊢
      constructor
      · rintro ⟨folder, hstep, hne, -⟩
        obtain ⟨-, rfl⟩ := hfolder hstep
        have hpos := List.length_pos_of_ne_nil hne
        rw [List.length_dropLast] at hpos
        exact ⟨hup, rfl, by omega⟩
      · rintro ⟨-, -, hdeep⟩
        refine ⟨top.dropLast, hup ▸ .up hlocation, List.ne_nil_of_length_pos ?_, .inr rfl⟩
        rw [List.length_dropLast]
        omega
    | name h plain =>
      refine iff_of_false ?_ fun hkept ↦ h.2.2 hkept.2.1
      rintro ⟨folder, hstep, hkept⟩
      obtain ⟨hne, rfl⟩ := hfolder hstep
      have hpos := List.length_pos_of_ne_nil hne
      refine hlonger ?_ ?_ hkept
      · simp only [List.length_dropLast, List.length_append, List.length_singleton]
        omega
      · simp only [List.length_dropLast, List.length_append, List.length_singleton]
        omega
  · -- the blanks are part of another name
    refine iff_of_false ?_ fun hkept ↦ hup hkept.1
    rintro ⟨folder, hstep, hkept⟩
    have hfolder : folder = top ++ [clean (trimEnd above)] := by
      generalize trimEnd above = blankless at hstep hnoise hup ⊢
      cases hstep with
      | noise h => exact absurd h hnoise
      | up h => exact absurd rfl hup
      | name h plain => rfl
    have hother : top ++ [clean (trimEnd above)] ≠ top ++ [clean above] := by
      intro hsame
      have hclean := List.append_cancel_left hsame
      exact hends (endsPlainly_of_clean_eq (List.cons.inj hclean).1)
    subst hfolder
    cases h with
    | noise h =>
      rw [IsFolderOf, List.dropLast_concat] at hkept
      rcases hkept.2 with hsame | hsame
      · exact hother hsame
      · have hlength := congrArg List.length hsame
        simp at hlength
    | up h =>
      rw [List.dropLast_concat] at hkept hlonger
      refine hlonger ?_ ?_ hkept
      · simp
      · rw [List.length_append, List.length_singleton]
        omega
    | name h plain =>
      rw [IsFolderOf, List.dropLast_concat] at hkept
      rcases hkept.2 with hsame | hsame
      · have hlength := congrArg List.length hsame
        simp at hlength
      · exact hother hsame

/-- Right below a drive, where the install location is its own library. -/
theorem exists_isFolderOf_root_iff {location : List Text} {last : Text}
    (h : Step [] last location) :
    (∃ folder, Step [] (trimEnd last) folder ∧ IsFolderOf location folder) ↔
      location ≠ [] ∧ EndsPlainly last := by
  constructor
  · rintro ⟨folder, hstep, hne, hsame⟩
    have hlocation : folder = location := by
      rcases hsame with hsame | rfl
      · exact hsame
      · cases h with
        | noise h => exact absurd rfl hne
        | up h => exact absurd rfl h
        | name h plain => exact absurd rfl hne
    subst hlocation
    refine ⟨hne, ?_⟩
    by_contra hends
    obtain ⟨-, rfl⟩ := name_of_not_endsPlainly h hends
    rcases hstep.inv with ⟨-, hfolder⟩ | ⟨-, hroot, -⟩ | ⟨-, -, hfolder⟩
    · exact hne hfolder
    · exact hroot rfl
    · exact hends (endsPlainly_of_clean_eq (List.cons.inj hfolder.symm).1)
  · rintro ⟨hne, hends⟩
    exact ⟨location, h.trimEnd hends, hne, .inl rfl⟩

/-! ## Texts of folders -/

/-- A drive and the segments below it, as they are written behind a verbatim prefix or nothing. -/
def driveText (lead : Text) (letter : Char) (segments : List Text) : Text :=
  lead ++ letter :: ':' :: joinSegments segments

/-- How the text of a path on a drive is put together. -/
structure IsDriveText (text lead : Text) (letter : Char) (segments : List Text) : Prop where
  text_eq : text = driveText lead letter segments
  lead : lead = [] ∨ lead = verbatim
  letter : isAsciiAlphabetic letter.toNat = true
  segments : ∀ segment ∈ segments, '\\' ∉ segment ∧ '/' ∉ segment ∧ '\x00' ∉ segment

theorem cuts_of_begin {text text' : Text} {offset : ℕ} (h : Cuts text offset)
    (hbegin : text' <+: text) :
    Cuts text' offset := by
  obtain ⟨tail, rfl⟩ := hbegin
  intro hoffset
  have hlong : offset ≤ byteLen (text' ++ tail) := by
    rw [byteLen_append]
    omega
  obtain ⟨left, right, hsplit, hleft⟩ := h hlong
  rcases List.append_eq_append_iff.mp hsplit with ⟨more, rfl, -⟩ | ⟨more, rfl, -⟩
  · rw [byteLen_append] at hleft
    have hnil : byteLen more = 0 := by omega
    rw [byteLen_eq_zero_iff] at hnil
    exact ⟨text', [], (List.append_nil _).symm, by rw [← hleft, hnil]; rfl⟩
  · exact ⟨left, more, rfl, hleft⟩

theorem beginsWithCi_of_begin {text text' want : Text} (h : beginsWithCi text' want = true)
    (hbegin : text' <+: text) : beginsWithCi text want = true := by
  obtain ⟨tail, rfl⟩ := hbegin
  have hlength := length_eq_of_eqIgnoreAsciiCase h
  rw [List.length_take] at hlength
  rw [beginsWithCi, List.take_append_of_le_length (by omega)]
  exact h

/-- Where a text can be cut, so can what it begins with. -/
theorem cutsRoot_of_prefix {text text' : Text} (h : CutsRoot text) (hbegin : text' <+: text)
    (hunc : beginsWithCi text verbatimUnc = false) : CutsRoot text' := by
  obtain ⟨h8, hrest⟩ := h
  obtain ⟨h4, h11⟩ := hrest hunc
  refine ⟨cuts_of_begin h8 hbegin, fun _ ↦ ⟨cuts_of_begin h4 hbegin, fun hverbatim ↦ ?_⟩⟩
  exact cuts_of_begin (h11 (beginsWithCi_of_begin hverbatim hbegin)) (hbegin.drop 4)

theorem not_verbatimUnc_of_driveRooted {text root rest : Text}
    (h : splitRoot text = .ok (.driveRooted, root, rest)) :
    beginsWithCi text verbatimUnc = false := by
  rw [splitRoot_eq] at h
  split_ifs at h with h8 hunc h4 hverbatim h11 hglobal hdevice
  · cases (uncRoot_eq_ok h).1
  all_goals exact Bool.eq_false_iff.mpr hunc

namespace IsDriveText

variable {text lead : Text} {letter : Char} {segments : List Text}

/-- The root of such a text is its drive. -/
theorem splitRoot_eq {first : Text} (h : IsDriveText text lead letter (first :: segments))
    (hcuts : CutsRoot text) :
    ∃ rest, splitRoot text = .ok (.driveRooted, [letter.toUpper, ':'], rest) ∧
      rest.splitOn '\\' = first :: segments := by
  refine ⟨first ++ joinSegments segments, ?_, ?_⟩
  · have hspells : SpellsDrive letter (first ++ joinSegments segments)
        (letter :: ':' :: '\\' :: (first ++ joinSegments segments)) := ⟨h.letter, .inl rfl⟩
    have htext : text = lead ++ letter :: ':' :: '\\' :: (first ++ joinSegments segments) :=
      h.text_eq
    rcases h.lead with rfl | rfl
    · rw [htext] at hcuts ⊢
      exact splitRoot_of_drive hspells hcuts
    · rw [htext] at hcuts ⊢
      exact splitRoot_of_verbatimDrive hspells hcuts
  · apply splitOn_joinSegments
    · exact (h.segments first List.mem_cons_self).1
    · exact fun segment hsegment ↦ (h.segments segment (List.mem_cons_of_mem _ hsegment)).1

theorem not_mem {c : Char} (h : IsDriveText text lead letter segments) (hc : c = '/' ∨ c = '\x00') :
    c ∉ text := by
  have hletter := h.letter
  rw [h.text_eq, driveText, List.mem_append, not_or, List.mem_cons, not_or, List.mem_cons, not_or]
  refine ⟨?_, ?_, ?_, ?_⟩
  · rcases h.lead with rfl | rfl
    · exact List.not_mem_nil
    · rcases hc with rfl | rfl <;> decide
  · rintro rfl
    rcases hc with rfl | rfl <;> exact absurd hletter (by decide)
  · rintro rfl
    rcases hc with hc | hc <;> exact absurd hc (by decide)
  · intro hmem
    obtain ⟨segment, hsegment, hin⟩ := List.mem_flatMap.mp hmem
    obtain ⟨-, hslash, hnul⟩ := h.segments segment hsegment
    rcases List.mem_cons.mp hin with rfl | hin
    · rcases hc with hc | hc <;> exact absurd hc (by decide)
    · rcases hc with rfl | rfl
      · exact hslash hin
      · exact hnul hin

/-- No blank comes before such a text. -/
theorem trim_eq (h : IsDriveText text lead letter segments) : trim text = trimEnd text := by
  have hletter : isWhitespace letter = false := not_isWhitespace_of_isAsciiAlphabetic h.letter
  rw [trim, trimMatches, trimEnd, h.text_eq, driveText]
  rcases h.lead with rfl | rfl
  · rw [List.nil_append, List.dropWhile_cons_of_neg (by simp [hletter])]
  · rfl

/-- Trimming such a text trims the last segment. -/
theorem trim_concat {init : List Text} {last : Text}
    (h : IsDriveText text lead letter (init ++ [last])) :
    IsDriveText (trim text) lead letter (init ++ [trimEnd last]) where
  text_eq := by
    have htext : text = (lead ++ letter :: ':' :: joinSegments init) ++ '\\' :: last := by
      rw [h.text_eq, driveText, joinSegments_append, joinSegments_cons, joinSegments_nil,
        List.append_nil]
      simp only [List.append_assoc, List.cons_append]
    rw [h.trim_eq, trimEnd, htext, trimEndMatches_append_cons _ _ _ (by decide), driveText,
      joinSegments_append, joinSegments_cons, joinSegments_nil, List.append_nil]
    simp only [List.append_assoc, List.cons_append]
    rfl
  lead := h.lead
  letter := h.letter
  segments segment hsegment := by
    rcases List.mem_append.mp hsegment with hinit | hlast
    · exact h.segments segment (List.mem_append_left _ hinit)
    · obtain rfl := List.mem_singleton.mp hlast
      obtain ⟨hseparator, hslash, hnul⟩ :=
        h.segments last (List.mem_append_right _ List.mem_cons_self)
      have hsub := (prefix_trimEndMatches isWhitespace last).subset
      exact ⟨fun hmem ↦ hseparator (hsub hmem), fun hmem ↦ hslash (hsub hmem),
        fun hmem ↦ hnul (hsub hmem)⟩

/-- A path on a drive is read from such a text exactly when the walk below the drive ends. -/
theorem canonicalises_iff {init : List Text} {last : Text}
    (h : IsDriveText text lead letter (init ++ [last])) (hcuts : CutsRoot (trim text))
    {components : List Text} :
    (∃ path, canonicaliseSyntactic text = .ok path ∧ path.kind = .driveRooted ∧
      path.drive = some letter.toUpper ∧ path.components = components) ↔
        Walks (init ++ [trimEnd last]) components := by
  have htrimmed := h.trim_concat
  obtain ⟨first, segments, hsegments⟩ :=
    List.exists_cons_of_ne_nil
      (List.append_ne_nil_of_right_ne_nil init (List.cons_ne_nil (trimEnd last) []))
  rw [hsegments] at htrimmed ⊢
  obtain ⟨rest, hroot, hsplit⟩ := htrimmed.splitRoot_eq hcuts
  have hunify : unify text = text := unify_eq_self (h.not_mem (.inl rfl))
  constructor
  · rintro ⟨path, hpath, -, -, rfl⟩
    obtain ⟨-, root, rest', hroot', hwalk, -⟩ := exists_walk_of_canonicalise hpath
    rw [hunify, hroot] at hroot'
    obtain ⟨hkind, hroot'⟩ := Prod.mk.inj (Outcome.ok.inj hroot')
    obtain ⟨-, rfl⟩ := Prod.mk.inj hroot'
    rw [normaliseComponents, hsplit, ← hkind] at hwalk
    exact ⟨_, _, hwalk⟩
  · rintro ⟨original, flag, hwalk⟩
    have hempty : trim (unify text) ≠ [] := by
      rw [hunify, htrimmed.text_eq, driveText]
      simp
    have hcanonical := canonicaliseSyntactic_of_walk (h.not_mem (.inr rfl)) hempty
      (by rw [hunify]; exact hroot)
      (by rw [normaliseComponents, hsplit]; exact normaliseSegments_ok_congr _ hwalk)
    refine ⟨_, hcanonical, rfl, ?_, rfl⟩
    exact congrArg some (toUpper_toUpper letter)

end IsDriveText

/-! ## The install location -/

/-- Segments end in empty ones behind the last that is not. -/
theorem exists_concat_replicate {segments : List Text} (h : ∃ segment ∈ segments, segment ≠ []) :
    ∃ front last count, last ≠ [] ∧ segments = front ++ [last] ++ List.replicate count [] := by
  induction segments using List.reverseRecOn with
  | nil =>
    obtain ⟨segment, hsegment, -⟩ := h
    cases hsegment
  | append_singleton segments last ih =>
    by_cases hlast : last = []
    · subst hlast
      have hmore : ∃ segment ∈ segments, segment ≠ [] := by
        obtain ⟨segment, hsegment, hne⟩ := h
        rcases List.mem_append.mp hsegment with hmem | hmem
        · exact ⟨segment, hmem, hne⟩
        · exact absurd (List.mem_singleton.mp hmem) hne
      obtain ⟨front, last, count, hne, rfl⟩ := ih hmore
      exact ⟨front, last, count + 1, hne, by rw [List.replicate_succ', List.append_assoc _ _ [[]]]⟩
    · exact ⟨segments, last, 0, hlast, by simp⟩

theorem joinSegments_replicate (count : ℕ) :
    joinSegments (List.replicate count []) = List.replicate count '\\' := by
  induction count with
  | zero => rfl
  | succ count ih => rw [List.replicate_succ, joinSegments_cons, ih]; rfl

theorem walks_append_replicate {segments components : List Text} {count : ℕ}
    (h : Walks (segments ++ List.replicate count []) components) : Walks segments components := by
  induction count with
  | zero => rwa [List.replicate_zero, List.append_nil] at h
  | succ count ih =>
    rw [List.replicate_succ', ← List.append_assoc, walks_concat_iff] at h
    obtain ⟨out, hout, hstep⟩ := h
    exact ih (hstep.unique (.noise (.inl rfl)) ▸ hout)

/-- An install location on a drive, its separators at the end left out. -/
structure IsLocation (text lead : Text) (letter : Char) (front : List Text) (last : Text)
    (components : List Text) : Prop where
  normalised_eq : normalised text = some (driveText lead letter (front ++ [last]))
  isDriveText : IsDriveText (driveText lead letter (front ++ [last])) lead letter (front ++ [last])
  last_ne : last ≠ []
  walks : Walks (front ++ [last]) components
  cuts : ∀ text', text' <+: driveText lead letter (front ++ [last]) → CutsRoot text'

theorem trim_subset (text : Text) : ∀ c ∈ trim text, c ∈ text := fun _ hc ↦
  (List.dropWhile_suffix _).subset ((prefix_trimEndMatches _ _).subset hc)

theorem isDrive_driveText {lead : Text} {letter : Char} {segments : List Text} (h : segments ≠ []) :
    isDrive (driveText lead letter segments) = false := by
  obtain ⟨first, more, rfl⟩ := List.exists_cons_of_ne_nil h
  have hlong : byteLen (driveText lead letter (first :: more)) ≠ 2 := by
    rw [driveText, joinSegments_cons, byteLen_append, byteLen_cons, byteLen_cons, byteLen_cons]
    have hcolon : ':'.utf8Size = 1 := rfl
    have hseparator : '\\'.utf8Size = 1 := rfl
    have hletter := letter.utf8Size_pos
    omega
  rw [isDrive, beq_eq_false_iff_ne.mpr hlong, Bool.false_and]

/-- The separators behind the last segment are what is taken from the text. -/
theorem normalised_of_trim {text lead : Text} {letter : Char} {front : List Text} {last : Text}
    {count : ℕ} (h : trim (unify text) = driveText lead letter (front ++ [last]) ++
      List.replicate count '\\') (hlast : last ≠ []) (hseparator : '\\' ∉ last) :
    normalised text = some (driveText lead letter (front ++ [last])) := by
  have hend : trimEndMatches (· == '\\') (driveText lead letter (front ++ [last])) =
      driveText lead letter (front ++ [last]) := by
    rw [trimEndMatches_eq_self_iff]
    intro c hc
    have htext : driveText lead letter (front ++ [last]) =
        (lead ++ letter :: ':' :: (joinSegments front ++ ['\\'])) ++ last := by
      rw [driveText, joinSegments_append, joinSegments_cons, joinSegments_nil, List.append_nil]
      simp only [List.append_assoc, List.cons_append, List.nil_append]
    rw [htext, List.getLast?_append_of_ne_nil _ hlast] at hc
    rw [beq_eq_false_iff_ne]
    rintro rfl
    exact hseparator (List.mem_of_getLast? hc)
  have hcut : trimEndMatches (· == '\\') (unify (trim text)) =
      driveText lead letter (front ++ [last]) := by
    rw [unify_trim, h, trimEndMatches_append_of_forall, hend]
    intro c hc
    rw [List.eq_of_mem_replicate hc]
    rfl
  have hne : front ++ [last] ≠ [] := List.append_ne_nil_of_right_ne_nil _ (List.cons_ne_nil _ _)
  simp only [normalised, hcut, isDrive_driveText hne]
  rw [if_neg Bool.false_ne_true, if_neg]
  simp [driveText]

theorem exists_isLocation {text : Text} {location : CanonicalPath}
    (h : canonicaliseSyntactic text = .ok location) (hkind : location.kind = .driveRooted)
    (hdeep : location.components ≠ []) :
    ∃ lead letter front last, IsLocation text lead letter front last location.components ∧
      location.drive = some letter.toUpper := by
  obtain ⟨hnul, root, rest, hroot, hwalk, -, hdrive, -⟩ := exists_walk_of_canonicalise h
  rw [hkind] at hroot hwalk hdrive
  have hwalks : Walks (rest.splitOn '\\') location.components := ⟨_, _, hwalk⟩
  have hcuts : CutsRoot (trim (unify text)) := by
    rw [← splitRoot_returns_iff, hroot]
    exact Outcome.returns_ok _
  -- the drive, and that something is below it
  have hspelled : ∃ lead letter, (lead = [] ∨ lead = verbatim) ∧
      isAsciiAlphabetic letter.toNat = true ∧ root = [letter.toUpper, ':'] ∧
        trim (unify text) = lead ++ letter :: ':' :: '\\' :: rest := by
    have hbelow {letter : Char} {rest drive : Text}
        (hwalks : Walks (rest.splitOn '\\') location.components)
        (hspells : SpellsDrive letter rest drive) : drive = letter :: ':' :: '\\' :: rest := by
      rcases hspells.2 with hdrive | ⟨-, rfl⟩
      · exact hdrive
      · have hnil : Walks [[]] [] := ⟨[], false, rfl⟩
        exact absurd (hwalks.unique hnil) hdeep
    cases splitRoot_eq_ok hroot with
    | @verbatimDrive letter rest drive hpath hspells =>
      exact ⟨verbatim, letter, .inr rfl, hspells.1, rfl, hbelow hwalks hspells ▸ hpath⟩
    | @drive letter rest hspells =>
      exact ⟨[], letter, .inl rfl, hspells.1, rfl, hbelow hwalks hspells⟩
  obtain ⟨lead, letter, hlead, hletter, rfl, htext⟩ := hspelled
  obtain ⟨first, more, hsplit, hrest, -, -⟩ := exists_splitOn rest
  have hjoined : '\\' :: rest = joinSegments (rest.splitOn '\\') := by
    rw [hsplit, joinSegments_cons, ← hrest]
  have hsome : ∃ segment ∈ rest.splitOn '\\', segment ≠ [] := by
    by_contra hnone
    push Not at hnone
    have hempty := List.eq_replicate_of_mem hnone
    rw [hempty, ← List.nil_append (List.replicate _ _)] at hwalks
    exact hdeep (walks_nil_iff.mp (walks_append_replicate hwalks))
  obtain ⟨front, last, count, hlast, hsegments⟩ := exists_concat_replicate hsome
  rw [hsegments] at hwalks hjoined
  have hwhole : trim (unify text) =
      driveText lead letter (front ++ [last]) ++ List.replicate count '\\' := by
    rw [htext, hjoined, joinSegments_append, joinSegments_replicate, driveText]
    simp only [List.append_assoc, List.cons_append]
  have hplain : ∀ segment ∈ front ++ [last], '\\' ∉ segment ∧ '/' ∉ segment ∧ '\x00' ∉ segment := by
    intro segment hsegment
    have hmem : segment ∈ rest.splitOn '\\' := hsegments ▸ List.mem_append_left _ hsegment
    have hsub {c : Char} (hc : c ∈ segment) : c ∈ unify text := by
      apply trim_subset
      rw [htext]
      exact List.mem_append_right _ (List.mem_cons_of_mem _ (List.mem_cons_of_mem _
        (List.mem_cons_of_mem _ (mem_of_mem_splitOn hmem hc))))
    refine ⟨?_, fun hslash ↦ (mem_unify (hsub hslash)).1 rfl, fun hzero ↦ ?_⟩
    · exact Delimited.not_mem_of_mem_splitOn hmem
    · rcases (mem_unify (hsub hzero)).2 with heq | hin
      · exact absurd heq (by decide)
      · exact hnul hin
  refine ⟨lead, letter, front, last, ⟨?_, ⟨rfl, hlead, hletter, hplain⟩, hlast,
    walks_append_replicate hwalks, ?_⟩, ?_⟩
  · exact normalised_of_trim hwhole hlast
      (hplain last (List.mem_append_right _ List.mem_cons_self)).1
  · intro text' hbegin
    refine cutsRoot_of_prefix hcuts (hbegin.trans ?_) (not_verbatimUnc_of_driveRooted hroot)
    rw [hwhole]
    exact List.prefix_append _ _
  · rw [hdrive]
    exact congrArg some (toUpper_toUpper letter)

/-! ## The library of an install location -/

theorem rsplitOnce_driveText {lead : Text} {letter : Char} {init : List Text} {last : Text}
    (h : '\\' ∉ last) : rsplitOnce (driveText lead letter (init ++ [last])) ['\\'] =
      some (driveText lead letter init, last) := by
  have htext : driveText lead letter (init ++ [last]) =
      driveText lead letter init ++ '\\' :: last := by
    rw [driveText, driveText, joinSegments_append, joinSegments_cons, joinSegments_nil,
      List.append_nil]
    simp only [List.append_assoc, List.cons_append]
  rw [htext, rsplitOnce_append_cons h]

theorem utf8Size_of_isAsciiAlphabetic {letter : Char} (h : isAsciiAlphabetic letter.toNat = true) :
    letter.utf8Size = 1 := by
  have hlt := lt_of_isAsciiAlphabetic h
  rw [Char.utf8Size_eq_one_iff, UInt32.le_iff_toNat_le]
  exact Nat.le_of_lt_succ hlt

/-- A drive as a library of its own. -/
theorem isDrive_bare {letter : Char} (h : isAsciiAlphabetic letter.toNat = true) :
    isDrive [letter, ':'] = true := by
  rw [isDrive, byteLen_cons, utf8Size_of_isAsciiAlphabetic h]
  rfl

theorem isDrive_verbatim {letter : Char} (h : isAsciiAlphabetic letter.toNat = true) :
    isDrive (verbatim ++ [letter, ':']) = false := by
  rw [isDrive, byteLen_append, byteLen_cons, utf8Size_of_isAsciiAlphabetic h]
  rfl

/-- A library is a folder on the drive of the install location. -/
def IsLibraryOf (location library : CanonicalPath) : Prop :=
  library.kind = .driveRooted ∧ library.drive = location.drive ∧
    IsFolderOf location.components library.components

/-- The last two segments of an install location leave its library a folder the game is in. -/
def KeepsLibrary (location : CanonicalPath) (installLocation : Text) : Prop :=
  match rsplitOnce installLocation ['\\'] with
  | none => False
  | some (parent, last) =>
    if isDrive parent then EndsPlainly last
    else
      match rsplitOnce parent ['\\'] with
      | none => False
      | some (_, above) => KeepsFolder location.components.length above last

/-- What is read from the text of a folder on the drive is the library of an install location
exactly when the walk to it ends at a folder the game is in. -/
theorem exists_isLibraryOf_iff {text lead : Text} {letter : Char} {init : List Text} {last : Text}
    {location : CanonicalPath} (h : IsDriveText text lead letter (init ++ [last]))
    (hcuts : CutsRoot (trim text)) (hdrive : location.drive = some letter.toUpper) :
    (∃ library, canonicaliseSyntactic text = .ok library ∧ IsLibraryOf location library) ↔
      ∃ folder, Walks (init ++ [trimEnd last]) folder ∧ IsFolderOf location.components folder := by
  constructor
  · rintro ⟨library, hlibrary, hkind, hsame, hfolder⟩
    exact ⟨_, (h.canonicalises_iff hcuts).mp ⟨library, hlibrary, hkind, hsame.trans hdrive, rfl⟩,
      hfolder⟩
  · rintro ⟨folder, hwalks, hfolder⟩
    obtain ⟨library, hlibrary, hkind, hsame, rfl⟩ := (h.canonicalises_iff hcuts).mpr hwalks
    exact ⟨library, hlibrary, hkind, hsame.trans hdrive.symm, hfolder⟩

/-- Nothing is below a drive on its own. -/
theorem components_of_verbatim {letter : Char} {library : CanonicalPath}
    (h : IsDriveText (driveText verbatim letter []) verbatim letter [])
    (hcuts : CutsRoot (trim (driveText verbatim letter [])))
    (hlibrary : canonicaliseSyntactic (driveText verbatim letter []) = .ok library) :
    library.components = [] := by
  have hend : trim (driveText verbatim letter []) = verbatim ++ [letter, ':'] := by
    refine h.trim_eq.trans ((trimEndMatches_eq_self_iff _ _).mpr fun c hc ↦ ?_)
    obtain rfl := Option.some.inj hc
    rfl
  rw [hend] at hcuts
  have hspells : SpellsDrive letter [] [letter, ':'] := ⟨h.letter, .inr ⟨rfl, rfl⟩⟩
  have hroot := splitRoot_of_verbatimDrive hspells hcuts
  obtain ⟨-, root, rest, hroot', hwalk, -⟩ := exists_walk_of_canonicalise hlibrary
  rw [unify_eq_self (h.not_mem (.inl rfl)), hend, hroot] at hroot'
  obtain ⟨-, hrest⟩ := Prod.mk.inj (Outcome.ok.inj hroot')
  obtain ⟨-, rfl⟩ := Prod.mk.inj hrest
  exact (Prod.mk.inj (Outcome.ok.inj hwalk)).1.symm

/-- The library of an install location on a drive is a folder the game is in exactly when the last
two segments of the location leave it one. -/
theorem epicLibraryOf_iff {text : Text} {location : CanonicalPath}
    (h : canonicaliseSyntactic text = .ok location) (hkind : location.kind = .driveRooted)
    (hdeep : location.components ≠ []) :
    ∃ installLocation, normalised text = some installLocation ∧
      ((∃ library, canonicaliseSyntactic (epicLibraryOf installLocation) = .ok library ∧
        IsLibraryOf location library) ↔ KeepsLibrary location installLocation) := by
  obtain ⟨lead, letter, front, last, hlocation, hdrive⟩ := exists_isLocation h hkind hdeep
  refine ⟨_, hlocation.normalised_eq, ?_⟩
  have htext := hlocation.isDriveText
  have hlast := (htext.segments last (List.mem_append_right _ List.mem_cons_self)).1
  obtain ⟨out, hout, hstep⟩ := walks_concat_iff.mp hlocation.walks
  have hcuts {text' : Text} {segments : List Text} (h' : IsDriveText text' lead letter segments)
      (hbegin : text' <+: driveText lead letter (front ++ [last])) : CutsRoot (trim text') := by
    refine hlocation.cuts _ (List.IsPrefix.trans ?_ hbegin)
    rw [h'.trim_eq]
    exact prefix_trimEndMatches _ _
  rw [epicLibraryOf, KeepsLibrary, rsplitOnce_driveText hlast]
  dsimp only
  rcases List.eq_nil_or_concat front with rfl | ⟨init, above, rfl⟩
  · obtain rfl := walks_nil_iff.mp hout
    rcases htext.lead with rfl | rfl
    · -- the game is right below its drive
      have hbare : isDrive (driveText [] letter []) = true := isDrive_bare htext.letter
      have hroot := exists_isFolderOf_root_iff hstep
      rw [and_iff_right hdeep] at hroot
      rw [hbare, if_pos rfl, if_neg (by simp),
        exists_isLibraryOf_iff htext (hcuts htext List.prefix_rfl) hdrive, ← hroot]
      simp only [walks_concat_iff, walks_nil_iff, exists_eq_left]
    · -- behind a verbatim prefix the drive is not seen to be one
      have hbare : isDrive (driveText verbatim letter []) = false := isDrive_verbatim htext.letter
      have hsplit : rsplitOnce (driveText verbatim letter []) ['\\'] =
          some (r"\\?".toList, [letter, ':']) := by
        refine @rsplitOnce_append_cons r"\\?".toList [letter, ':'] '\\' ?_
        rw [List.mem_cons, not_or]
        exact ⟨(ne_backslash_of_isAsciiAlphabetic htext.letter).symm, by decide⟩
      have hverbatim : IsDriveText (driveText verbatim letter []) verbatim letter [] :=
        ⟨rfl, .inr rfl, htext.letter, by simp⟩
      have hbegin : driveText verbatim letter [] <+: driveText verbatim letter ([] ++ [last]) := by
        rw [driveText, driveText, joinSegments_append, joinSegments_nil, List.nil_append]
        exact ⟨joinSegments [last], by simp⟩
      rw [hbare, if_neg Bool.false_ne_true, if_pos ⟨by simp [driveText], rfl⟩, hsplit]
      refine iff_of_false ?_ ?_
      · rintro ⟨library, hlibrary, -, -, hfolder⟩
        exact hfolder.1 (components_of_verbatim hverbatim (hcuts hverbatim hbegin) hlibrary)
      · intro hkept
        have hplain : EndsPlainly [letter, ':'] := by
          unfold EndsPlainly
          rw [trimEnd, (trimEndMatches_eq_self_iff _ _).mpr fun c hc ↦ ?_]
          obtain rfl := Option.some.inj hc
          rfl
        have hdepth : location.components.length = 1 := by
          rcases hstep.inv with ⟨-, hnil⟩ | ⟨-, hroot, -⟩ | ⟨-, -, hname⟩
          · exact absurd hnil hdeep
          · exact absurd rfl hroot
          · rw [hname]
            rfl
        simp only [KeepsFolder, if_pos hplain, hdepth] at hkept
        rcases hkept with rfl | ⟨-, hdeep⟩
        · rcases hstep.inv with ⟨-, hnil⟩ | ⟨-, hroot, -⟩ | ⟨hname, -⟩
          · exact hdeep hnil
          · exact hroot rfl
          · exact hname.2.1 rfl
        · omega
  · -- the folder above the game is below the drive
    rw [List.concat_eq_append] at *
    obtain ⟨top, htop, habove⟩ := walks_concat_iff.mp hout
    have hsegments : ∀ segment ∈ init ++ [above], '\\' ∉ segment ∧ '/' ∉ segment ∧
        '\x00' ∉ segment :=
      fun segment hsegment ↦ htext.segments segment (List.mem_append_left _ hsegment)
    have hparent : IsDriveText (driveText lead letter (init ++ [above])) lead letter
        (init ++ [above]) :=
      ⟨rfl, htext.lead, htext.letter, hsegments⟩
    have hbegin : driveText lead letter (init ++ [above]) <+:
        driveText lead letter (init ++ [above] ++ [last]) := by
      refine ⟨joinSegments [last], ?_⟩
      rw [driveText, driveText, joinSegments_append _ [last]]
      simp only [List.append_assoc, List.cons_append]
    have hbelow : init ++ [above] ≠ [] :=
      List.append_ne_nil_of_right_ne_nil _ (List.cons_ne_nil _ _)
    have hone := (hsegments above (List.mem_append_right _ List.mem_cons_self)).1
    rw [isDrive_driveText hbelow, if_neg Bool.false_ne_true, if_pos ⟨by simp [driveText], rfl⟩,
      rsplitOnce_driveText hone, exists_isLibraryOf_iff hparent (hcuts hparent hbegin) hdrive]
    dsimp only
    rw [← exists_isFolderOf_iff habove hstep hlocation.last_ne hdeep]
    have hwalks (folder : List Text) : Walks (init ++ [trimEnd above]) folder ↔
        Step top (trimEnd above) folder := by
      rw [walks_concat_iff]
      constructor
      · rintro ⟨top', htop', hfolder⟩
        exact htop'.unique htop ▸ hfolder
      · exact fun hfolder ↦ ⟨top, htop, hfolder⟩
    simp only [hwalks]

/-! ## Two install locations -/

/-- A game in the library its launcher made. -/
def shooterText : Text := r"D:\Epic Games\ExampleShooter".toList

def shooterLocation : CanonicalPath where
  text := r"D:\EPIC GAMES\EXAMPLESHOOTER".toList
  kind := .driveRooted
  drive := some 'D'
  components := ["EPIC GAMES".toList, "EXAMPLESHOOTER".toList]
  shortName := false
  resolvedViaHandle := false

theorem epicLibraryOf_shooter :
    ∃ installLocation, normalised shooterText = some installLocation ∧
      ((∃ library, canonicaliseSyntactic (epicLibraryOf installLocation) = .ok library ∧
        IsLibraryOf shooterLocation library) ↔ KeepsLibrary shooterLocation installLocation) :=
  epicLibraryOf_iff (by decide +kernel) rfl (by decide)

/-- A game right below its drive, behind two separators. -/
def doubledText : Text := r"D:\\ExampleShooter".toList

/-- The library of such a game is the whole drive. -/
theorem not_isLibraryOf_doubled :
    ∃ location, canonicaliseSyntactic doubledText = .ok location ∧ location.kind = .driveRooted ∧
      location.components ≠ [] ∧ normalised doubledText = some doubledText ∧
        ¬ ∃ library, canonicaliseSyntactic (epicLibraryOf doubledText) = .ok library ∧
          IsLibraryOf location library := by
  refine ⟨⟨r"D:\EXAMPLESHOOTER".toList, .driveRooted, some 'D', ["EXAMPLESHOOTER".toList], false,
    false⟩, by decide +kernel, rfl, by decide, by decide +kernel, ?_⟩
  rintro ⟨library, hlibrary, -, -, hfolder⟩
  have hdrive : canonicaliseSyntactic (epicLibraryOf doubledText) =
      .ok ⟨r"D:\".toList, .driveRooted, some 'D', [], false, false⟩ := by
    decide +kernel
  obtain rfl := Outcome.ok.inj (hlibrary.symm.trans hdrive)
  exact hfolder.1 rfl

end WardSweep.Libraries
