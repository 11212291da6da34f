import WardSweep.Scan.Components
import WardSweep.Scan.Images
import WardSweep.Suggest.Attribution

/-!
# Image paths that are read alike

The drafter strips the kernel's prefix and quotes from an image path and keeps the rest; the auditor
takes off quotes, or else everything behind the first extension of a program or driver.  The two
read one file name in the paths told here, and in no others.
-/

namespace WardSweep.Suggest

open Utf8 Str

/-! ## File names -/

@[simp] theorem fileName_nil : fileName [] = [] := rfl

theorem fileName_append_cons (lead rest : Text) :
    fileName (lead ++ '\\' :: rest) = fileName rest := by
  unfold fileName
  rw [List.splitOn_append_cons_self, List.getLastD_eq_getLast?, List.getLastD_eq_getLast?,
    List.getLast?_append_of_ne_nil _ (List.splitOn_ne_nil _ _),
    List.getLast?_eq_some_getLast (List.splitOn_ne_nil _ _)]
  rfl

theorem fileName_of_not_mem {text : Text} (h : '\\' ∉ text) : fileName text = text := by
  rw [fileName, List.splitOn_eq_singleton h]
  rfl

/-- A text is a file name, or a file name behind a separator. -/
theorem fileName_spec (text : Text) : '\\' ∉ fileName text ∧
    ('\\' ∉ text ∧ fileName text = text ∨ ∃ lead, text = lead ++ '\\' :: fileName text) := by
  by_cases hmem : '\\' ∈ text
  · obtain ⟨name, lead, hreverse, hname⟩ :=
      List.eq_append_cons_of_mem (List.mem_reverse.mpr hmem)
    have htext : text = lead.reverse ++ '\\' :: name.reverse := by
      rw [← List.reverse_reverse text, hreverse]
      simp
    have hnot : '\\' ∉ name.reverse := by rwa [List.mem_reverse]
    have hfile : fileName text = name.reverse := by
      rw [htext, fileName_append_cons, fileName_of_not_mem hnot]
    rw [hfile]
    exact ⟨hnot, .inr ⟨lead.reverse, htext⟩⟩
  · rw [fileName_of_not_mem hmem]
    exact ⟨hmem, .inl ⟨hmem, rfl⟩⟩

/-- What stands in front of a separator is not in the file name. -/
theorem fileName_append_of_mem (lead : Text) {text : Text} (h : '\\' ∈ text) :
    fileName (lead ++ text) = fileName text := by
  rcases (fileName_spec text).2 with ⟨hnot, -⟩ | ⟨inner, htext⟩
  · exact absurd h hnot
  · rw [htext, ← List.append_assoc, fileName_append_cons, fileName_append_cons]

theorem fileName_append_of_not_mem (text : Text) {tail : Text} (h : '\\' ∉ tail) :
    fileName (text ++ tail) = fileName text ++ tail := by
  obtain ⟨hname, hspec⟩ := fileName_spec text
  rcases hspec with ⟨hnot, hfile⟩ | ⟨lead, htext⟩
  · rw [hfile, fileName_of_not_mem]
    exact List.not_mem_append hnot h
  · have hwhole : text ++ tail = lead ++ '\\' :: (fileName text ++ tail) := by
      rw [← List.cons_append, ← List.append_assoc, ← htext]
    rw [hwhole, fileName_append_cons, fileName_of_not_mem (List.not_mem_append hname h)]

theorem fileName_ne_nil_iff {text : Text} : fileName text ≠ [] ↔ ∃ c ∈ text.getLast?, c ≠ '\\' := by
  rcases List.eq_nil_or_concat' text with rfl | ⟨init, last, rfl⟩
  · simp
  · rw [List.getLast?_concat]
    simp only [Option.mem_some_iff, exists_eq_left']
    by_cases hlast : last = '\\'
    · rw [hlast, fileName_append_cons]
      simp
    · have hnot : '\\' ∉ [last] := fun hmem ↦ hlast (List.mem_singleton.mp hmem).symm
      rw [fileName_append_of_not_mem init hnot]
      simp [hlast]

/-- The auditor's file name is the last component, unless that is empty. -/
theorem any_fileName_iff {text : Text} {holds : Text → Bool} :
    (Scan.fileName text).any holds = true ↔ fileName text ≠ [] ∧ holds (fileName text) = true := by
  have hlast : (text.splitOn '\\').getLast? = some (fileName text) := by
    rw [fileName, List.getLastD_eq_getLast?,
      List.getLast?_eq_some_getLast (List.splitOn_ne_nil _ _)]
    rfl
  rw [Scan.fileName, hlast]
  cases hname : fileName text with
  | nil => simp
  | cons c name => simp

/-- A text ends in a file name: its last character is no separator and no white space. -/
def EndsInName (text : Text) : Prop := ∃ c ∈ text.getLast?, c ≠ '\\' ∧ isWhitespace c = false

def StartsBlank (text : Text) : Prop := ∃ c ∈ text.head?, isWhitespace c = true

theorem EndsInName.fileName_ne_nil {text : Text} (h : EndsInName text) : fileName text ≠ [] := by
  obtain ⟨c, hc, hname, -⟩ := h
  exact fileName_ne_nil_iff.mpr ⟨c, hc, hname⟩

/-! ## Trimming -/

theorem not_mem_blank {c : Char} (hc : isWhitespace c = false) {blank : Text}
    (hblank : ∀ d ∈ blank, isWhitespace d = true) : c ∉ blank := by
  intro hmem
  rw [hblank c hmem] at hc
  cases hc

theorem head_trim (text : Text) : ∀ c ∈ (trim text).head?, isWhitespace c = false := by
  intro c hc
  obtain ⟨more, hmore⟩ := List.head?_eq_some_iff.mp hc
  obtain ⟨rest, hrest⟩ := prefix_trimEndMatches isWhitespace (text.dropWhile isWhitespace)
  have hdropped : text.dropWhile isWhitespace = c :: (more ++ rest) := by
    rw [← hrest]
    exact congrArg (· ++ rest) hmore
  have hhead := List.head?_dropWhile_not isWhitespace text
  rw [hdropped] at hhead
  simpa using hhead

theorem last_trim (text : Text) : ∀ c ∈ (trim text).getLast?, isWhitespace c = false :=
  (trimEndMatches_eq_self_iff isWhitespace _).mp (trimEndMatches_idem isWhitespace _)

theorem exists_lead_trim {text : Text} (hlast : ∀ c ∈ text.getLast?, isWhitespace c = false) :
    ∃ lead, text = lead ++ trim text ∧ ∀ c ∈ lead, isWhitespace c = true := by
  obtain ⟨lead, tail, htext, hlead, htail⟩ := exists_trimMatches isWhitespace text
  change text = lead ++ trim text ++ tail at htext
  rcases List.eq_nil_or_concat' tail with rfl | ⟨init, last, rfl⟩
  · exact ⟨lead, by rwa [List.append_nil] at htext, hlead⟩
  · have hkept : isWhitespace last = false := by
      apply hlast last
      rw [htext, ← List.append_assoc, List.getLast?_concat]
      rfl
    exact absurd (List.mem_append_right init List.mem_cons_self) (not_mem_blank hkept htail)

/-- Blanks in front of a text are in no file name when the text has a folder. -/
theorem fileName_trim {text : Text} (hlast : ∀ c ∈ text.getLast?, isWhitespace c = false)
    (hfirst : StartsBlank text → '\\' ∈ text) : fileName (trim text) = fileName text := by
  obtain ⟨lead, htext, hlead⟩ := exists_lead_trim hlast
  cases lead with
  | nil => exact congrArg fileName htext.symm
  | cons first lead =>
    have hmem := hfirst ⟨first, by rw [htext]; rfl, hlead first List.mem_cons_self⟩
    rw [htext] at hmem
    have hfolder := (List.mem_append.mp hmem).resolve_left (not_mem_blank (by decide) hlead)
    conv_rhs => rw [htext]
    exact (fileName_append_of_mem _ hfolder).symm

theorem trim_trim (text : Text) : trim (trim text) = trim text :=
  trimMatches_eq_self isWhitespace (head_trim text) (last_trim text)

/-- Trimming a text leaves its file name alone when it ends in it, and has a folder in front of it
where it starts with a blank. -/
theorem any_fileName_trim_iff (text : Text) :
    (Scan.fileName (trim text)).any (eqIgnoreAsciiCase · (fileName text)) = true ↔
      EndsInName text ∧ (StartsBlank text → '\\' ∈ text) := by
  obtain ⟨lead, tail, htext, hlead, htail⟩ := exists_trimMatches isWhitespace text
  change text = lead ++ trim text ++ tail at htext
  rw [any_fileName_iff, eqIgnoreAsciiCase_eq_true_iff]
  have hleadName : '\\' ∉ lead := not_mem_blank (by decide) hlead
  have htailName : '\\' ∉ tail := not_mem_blank (by decide) htail
  constructor
  · rintro ⟨hne, hsame⟩
    have hlength : (fileName (trim text)).length = (fileName text).length := by
      simpa [toAsciiLowercase] using congrArg List.length hsame
    have hshown : fileName text = fileName (lead ++ trim text) ++ tail := by
      conv_lhs => rw [htext]
      exact fileName_append_of_not_mem _ htailName
    by_cases hfolder : '\\' ∈ trim text
    · rw [fileName_append_of_mem lead hfolder] at hshown
      rw [hshown, List.length_append, left_eq_add, List.length_eq_zero_iff] at hlength
      rw [hlength, List.append_nil] at htext
      obtain ⟨c, hc, hname⟩ := fileName_ne_nil_iff.mp hne
      have hlast : c ∈ text.getLast? := by
        rw [htext, List.getLast?_append, Option.mem_def.mp hc]
        rfl
      refine ⟨⟨c, hlast, hname, last_trim text c hc⟩, fun _ ↦ ?_⟩
      rw [htext]
      exact List.mem_append_right _ hfolder
    · have hnone : '\\' ∉ lead ++ trim text := List.not_mem_append hleadName hfolder
      rw [fileName_of_not_mem hnone] at hshown
      rw [hshown, fileName_of_not_mem hfolder] at hlength
      simp only [List.length_append] at hlength
      obtain rfl : lead = [] := List.length_eq_zero_iff.mp (by omega)
      obtain rfl : tail = [] := List.length_eq_zero_iff.mp (by omega)
      rw [List.nil_append, List.append_nil] at htext
      obtain ⟨c, hc, hname⟩ := fileName_ne_nil_iff.mp hne
      refine ⟨⟨c, htext ▸ hc, hname, last_trim text c hc⟩, ?_⟩
      rintro ⟨d, hd, hblank⟩
      rw [htext] at hd
      rw [head_trim text d hd] at hblank
      cases hblank
  · rintro ⟨⟨c, hc, hname, hblank⟩, hfirst⟩
    have hkept : fileName (trim text) = fileName text := by
      apply fileName_trim _ hfirst
      intro d hd
      rwa [Option.mem_unique hd hc]
    rw [hkept]
    exact ⟨fileName_ne_nil_iff.mpr ⟨c, hc, hname⟩, rfl⟩

/-! ## Where an image without quotes ends -/

/-- An image without quotes ends at its first extension, or else where the text ends. -/
structure EndsImage (image behind : Text) : Prop where
  first : ∀ extension ∈ Scan.imageExtensions, ∀ front rest,
    toAsciiLowercase image = front ++ (extension ++ rest) → rest = []
  last : behind = [] ∨ ∃ extension ∈ Scan.imageExtensions, extension <:+ toAsciiLowercase image

/-- A text up to its first extension. -/
def cutImage (text : Text) : Text := (Scan.imageEnd (toAsciiLowercase text)).elim text text.take

theorem length_le_of_endsImage {image behind : Text} (h : EndsImage image behind) {extension : Text}
    (hmem : extension ∈ Scan.imageExtensions) {start : ℕ}
    (hbegin : extension <+: (toAsciiLowercase (image ++ behind)).drop start) :
    image.length ≤ start + 4 := by
  by_contra hshort
  obtain ⟨rest, hrest⟩ := hbegin
  have hfour := Scan.length_of_mem_imageExtensions hmem
  have hinside : toAsciiLowercase image = (toAsciiLowercase image).take start ++
      (extension ++ (toAsciiLowercase image).drop (start + 4)) := by
    have hstands : extension = ((toAsciiLowercase image).drop start).take 4 := by
      have hwhole : extension = ((toAsciiLowercase (image ++ behind)).drop start).take 4 := by
        rw [← hrest, ← hfour, List.take_left]
      rw [hwhole, toAsciiLowercase_append, List.drop_append_of_le_length,
        List.take_append_of_le_length]
      · rw [List.length_drop, length_toAsciiLowercase]
        omega
      · rw [length_toAsciiLowercase]
        omega
    rw [hstands, ← List.drop_drop, List.take_append_drop, List.take_append_drop]
  have hnil := h.first extension hmem _ _ hinside
  rw [List.drop_eq_nil_iff, length_toAsciiLowercase] at hnil
  omega

theorem cutImage_of_endsImage {image behind : Text} (h : EndsImage image behind) :
    cutImage (image ++ behind) = image := by
  unfold cutImage
  cases hend : Scan.imageEnd (toAsciiLowercase (image ++ behind)) with
  | none =>
    have hnil : behind = [] := by
      apply h.last.resolve_right
      rintro ⟨extension, hmem, front, hfront⟩
      have hstands : extension <+: (toAsciiLowercase (image ++ behind)).drop front.length := by
        rw [toAsciiLowercase_append, ← hfront, List.append_assoc, List.drop_left]
        exact List.prefix_append _ _
      obtain ⟨stop, -, hstop⟩ := Scan.exists_imageEnd hmem hstands
      rw [hend] at hstop
      cases hstop
    rw [Option.elim_none, hnil, List.append_nil]
  | some stop =>
    obtain ⟨⟨extension, hmem, start, hbegin, rfl⟩, hleast⟩ := Scan.imageEnd_eq_some_iff.mp hend
    have hlow := length_le_of_endsImage h hmem hbegin
    rw [Option.elim_some]
    rcases h.last with rfl | ⟨other, hother, front, hfront⟩
    · rw [List.append_nil, List.take_of_length_le hlow]
    · have hstands : other <+: (toAsciiLowercase (image ++ behind)).drop front.length := by
        rw [toAsciiLowercase_append, ← hfront, List.append_assoc, List.drop_left]
        exact List.prefix_append _ _
      have hhigh := hleast other hother front.length hstands
      have hlength : front.length + 4 = image.length := by
        rw [← Scan.length_of_mem_imageExtensions hother, ← List.length_append, hfront,
          length_toAsciiLowercase]
      have hstop : start + 4 = image.length := by omega
      rw [hstop, List.take_left]

theorem exists_endsImage (text : Text) :
    ∃ behind, text = cutImage text ++ behind ∧ EndsImage (cutImage text) behind := by
  unfold cutImage
  cases hend : Scan.imageEnd (toAsciiLowercase text) with
  | none =>
    refine ⟨[], (List.append_nil _).symm, ?_, .inl rfl⟩
    intro extension hmem front rest hlowered
    have hstands : extension <+: (toAsciiLowercase text).drop front.length := by
      rw [Option.elim_none] at hlowered
      rw [hlowered, List.drop_left]
      exact List.prefix_append _ _
    obtain ⟨stop, -, hstop⟩ := Scan.exists_imageEnd hmem hstands
    rw [hend] at hstop
    cases hstop
  | some stop =>
    obtain ⟨⟨extension, hmem, start, hbegin, hstop⟩, hleast⟩ := Scan.imageEnd_eq_some_iff.mp hend
    have htake : toAsciiLowercase (text.take stop) = (toAsciiLowercase text).take stop :=
      List.map_take
    rw [Option.elim_some]
    refine ⟨text.drop stop, (List.take_append_drop stop text).symm, ?_, .inr ⟨extension, hmem, ?_⟩⟩
    · intro other hother front rest hlowered
      rw [htake] at hlowered
      have hlength := congrArg List.length hlowered
      rw [List.length_take, List.length_append, List.length_append,
        Scan.length_of_mem_imageExtensions hother] at hlength
      have hstands : other <+: (toAsciiLowercase text).drop front.length := by
        rw [← List.take_append_drop stop (toAsciiLowercase text), hlowered, List.append_assoc,
          List.append_assoc, List.drop_left]
        exact List.prefix_append _ _
      have hfirst := hleast other hother front.length hstands
      exact List.length_eq_zero_iff.mp (by omega)
    · obtain ⟨rest, hrest⟩ := hbegin
      have hfour := Scan.length_of_mem_imageExtensions hmem
      have hcut : (toAsciiLowercase text).take stop = (toAsciiLowercase text).take start ++
          extension := by
        rw [← hstop, List.take_add, ← hrest, ← hfour, List.take_left]
      rw [htake, hcut]
      exact List.suffix_append _ _

/-! ## What the auditor reads -/

/-- What stands in front of a separator that a text has in any case. -/
theorem exists_append_cons_of_isPrefixOf {want text : Text}
    (h : (want ++ ['\\']).isPrefixOf (toAsciiLowercase text) = true) :
    ∃ lead, text = lead ++ '\\' :: text.drop (want.length + 1) := by
  obtain ⟨rest, hrest⟩ := List.isPrefixOf_iff_prefix.mp h
  rw [List.append_assoc] at hrest
  obtain ⟨lead, more, rfl, hlead, hmore⟩ := List.map_eq_append_iff.mp hrest.symm
  obtain ⟨c, below, rfl, hc, -⟩ := List.map_eq_cons_iff.mp hmore
  obtain rfl : c = '\\' := (toLower_eq_iff (by decide)).mp hc
  refine ⟨lead, ?_⟩
  have hlength : want.length = lead.length := by rw [← hlead, List.length_map]
  rw [hlength, ← List.drop_drop, List.drop_left]
  rfl

/-- The auditor's file name is the one in the text that is left of an image. -/
theorem imageName_eq (configured : Text) :
    Scan.imageName configured = Scan.fileName (Scan.imageText configured) := by
  have hfront (want : Text) (h : (want ++ ['\\']).isPrefixOf
      (toAsciiLowercase (Scan.imageText configured)) = true) :
      Scan.fileName ((Scan.imageText configured).drop (want.length + 1)) =
        Scan.fileName (Scan.imageText configured) := by
    obtain ⟨lead, htext⟩ := exists_append_cons_of_isPrefixOf h
    conv_rhs => rw [htext, Scan.fileName_append]
  unfold Scan.imageName Scan.imageFile
  dsimp only
  split_ifs with hnone hsystem hplaceholder hnative hfolder
  · rw [hnone]
    rfl
  · exact (Scan.fileName_append [] _).trans (hfront r"\systemroot".toList hsystem)
  · exact (Scan.fileName_append [] _).trans (hfront r"%systemroot%".toList hplaceholder)
  · exact hfront r"\??".toList hnative
  · exact Scan.fileName_append [] _
  · rfl

/-- The image in a text without white space around it: what stands in quotes, or else what stands in
front of the end of the first extension. -/
inductive ImageIn (text image : Text) : Prop
  | quoted {inside more : Text} (hquote : '"' ∉ inside)
      (htext : text = '"' :: (inside ++ '"' :: more))
    (himage : image = trim inside)
  | unclosed {inside : Text} (hquote : '"' ∉ inside) (htext : text = '"' :: inside)
    (himage : image = trim inside)
  | bare {behind : Text} (hstart : text.head? ≠ some '"') (htext : text = image ++ behind)
    (hends : EndsImage image behind)

theorem takeWhile_quote {inside : Text} (hquote : '"' ∉ inside) (more : Text) :
    (inside ++ '"' :: more).takeWhile (· != '"') = inside := by
  have hall : ∀ c ∈ inside, (c != '"') = true := fun c hc ↦
    bne_iff_ne.mpr fun h ↦ hquote (h ▸ hc)
  rw [List.takeWhile_append_of_pos hall, List.takeWhile_cons_of_neg (by decide), List.append_nil]

theorem takeWhile_of_not_mem_quote {inside : Text} (hquote : '"' ∉ inside) :
    inside.takeWhile (· != '"') = inside :=
  List.takeWhile_eq_self_iff.mpr fun _ hc ↦ bne_iff_ne.mpr fun h ↦ hquote (h ▸ hc)

theorem stripPrefix_quote_of_head {text : Text} (h : text.head? ≠ some '"') :
    stripPrefix text ['"'] = none := by
  cases text with
  | nil => rfl
  | cons c text =>
    have hne : ¬ '"' = c := fun hsame ↦ h (congrArg some hsame.symm)
    simp [stripPrefix, hne]

/-- Nothing is trimmed from an image that is cut out of a text without white space around it. -/
theorem trim_cutImage (configured : Text) :
    trim (cutImage (trim configured)) = cutImage (trim configured) := by
  obtain ⟨behind, htext, hends⟩ := exists_endsImage (trim configured)
  apply trimMatches_eq_self
  · intro c hc
    apply head_trim configured c
    rw [htext, List.head?_append, Option.mem_def.mp hc]
    rfl
  · intro c hc
    rcases hends.last with rfl | ⟨extension, hmem, front, hfront⟩
    · rw [List.append_nil] at htext
      exact last_trim configured c (htext ▸ hc)
    · have hletter : ∀ extension ∈ Scan.imageExtensions,
          (extension.getLast?).all (fun last ↦ !isWhitespace last) = true := by decide +kernel
      have hlast : c.toLower ∈ extension.getLast? := by
        have hwhole :
            (toAsciiLowercase (cutImage (trim configured))).getLast? = some c.toLower := by
          rw [toAsciiLowercase, List.getLast?_map, Option.mem_def.mp hc]
          rfl
        have hne : extension ≠ [] := List.ne_nil_of_length_pos
          (by rw [Scan.length_of_mem_imageExtensions hmem]; decide)
        rwa [← hfront, List.getLast?_append_of_ne_nil _ hne] at hwhole
      have hkept := hletter extension hmem
      rw [Option.mem_def.mp hlast, Option.all_some, Bool.not_eq_true'] at hkept
      rwa [← isWhitespace_toLower]

theorem trim_imageText (configured : Text) :
    trim (Scan.imageText configured) = Scan.imageText configured := by
  unfold Scan.imageText
  dsimp only
  split <;> exact trim_trim _

theorem imageIn_iff {configured image : Text} :
    ImageIn (trim configured) image ↔ Scan.imageText configured = image := by
  unfold Scan.imageText
  dsimp only
  constructor
  · intro h
    cases h with
    | quoted hquote htext himage =>
      rw [htext, himage]
      exact congrArg trim (takeWhile_quote hquote _)
    | unclosed hquote htext himage =>
      rw [htext, himage]
      exact congrArg trim (takeWhile_of_not_mem_quote hquote)
    | bare hstart htext hends =>
      rw [stripPrefix_quote_of_head hstart]
      dsimp only
      rw [← cutImage, trim_cutImage, htext, cutImage_of_endsImage hends]
  · rintro rfl
    by_cases hstart : (trim configured).head? = some '"'
    · obtain ⟨rest, hrest⟩ := List.head?_eq_some_iff.mp hstart
      rw [hrest]
      by_cases hmem : '"' ∈ rest
      · obtain ⟨inside, more, rfl, hquote⟩ := List.eq_append_cons_of_mem hmem
        exact .quoted hquote rfl (congrArg trim (takeWhile_quote hquote more))
      · exact .unclosed hmem rfl (congrArg trim (takeWhile_of_not_mem_quote hmem))
    · rw [stripPrefix_quote_of_head hstart]
      dsimp only
      obtain ⟨behind, htext, hends⟩ := exists_endsImage (trim configured)
      rw [← cutImage, trim_cutImage]
      exact .bare hstart htext hends

/-- An image path without white space around it holds the path of a file of this name, in any
case. -/
def NamesFile (text file : Text) : Prop :=
  ∃ image, ImageIn text image ∧ fileName image ≠ [] ∧ eqIgnoreAsciiCase (fileName image) file = true

/-- The auditor reads the file names that a path holds. -/
theorem any_imageName_iff (configured file : Text) :
    (Scan.imageName configured).any (eqIgnoreAsciiCase · file) = true ↔
      NamesFile (trim configured) file := by
  rw [imageName_eq, any_fileName_iff, NamesFile]
  simp only [imageIn_iff, exists_eq_left']

/-! ## What both read -/

/-- The kernel's prefix of a path. -/
def nativePrefix : Text := r"\??\".toList

/-- Both programs read one file name in an image path without white space around it. -/
inductive SpeltAlike (text : Text) : Prop
  /-- What stands in quotes ends in a file name, and has no blank in front of it. -/
  | quoted {inside more : Text} (hquote : '"' ∉ inside)
    (htext : text = '"' :: (inside ++ '"' :: more)) (hname : EndsInName inside)
    (hfirst : StartsBlank inside → '\\' ∈ inside)
  /-- What stands behind a quote that is never closed has a folder and ends in a file name. -/
  | unclosed {inside : Text} (hquote : '"' ∉ inside) (htext : text = '"' :: inside)
    (hname : EndsInName inside) (hfolder : '\\' ∈ inside)
  /-- The first extension, if there is one, ends the text, or the file name that it ends stands at
  the end of the text once more. -/
  | bare {image behind : Text} (hstart : text.head? ≠ some '"')
    (hopen : ∀ inside more, '"' ∉ inside → text ≠ nativePrefix ++ '"' :: (inside ++ '"' :: more))
    (hfirst : ∀ rest, text = nativePrefix ++ rest → StartsBlank rest → '\\' ∈ rest)
    (htext : text = image ++ behind) (hends : EndsImage image behind) (hname : EndsInName image)
    (hbehind : behind = [] ∨ ∃ folder again, behind = folder ++ '\\' :: again ∧ '\\' ∉ again ∧
      eqIgnoreAsciiCase (fileName image) again = true)
  /-- Behind the kernel's prefix, the file name that the first extension ends is the one in
  quotes. -/
  | nativeQuoted {inside more image behind : Text} (hquote : '"' ∉ inside)
    (hnative : text = nativePrefix ++ '"' :: (inside ++ '"' :: more))
    (htext : text = image ++ behind)
    (hends : EndsImage image behind) (hname : EndsInName image)
    (hsame : eqIgnoreAsciiCase (fileName image) (fileName inside) = true)

section

variable {configured : Text}

theorem normaliseImage_quoted {inside more : Text} (hquote : '"' ∉ inside)
    (htext : trim configured = '"' :: (inside ++ '"' :: more)) :
    normaliseImage configured = inside := by
  unfold normaliseImage
  rw [htext]
  have hmem : '"' ∈ inside ++ '"' :: more := by simp
  exact (if_pos hmem).trans (takeWhile_quote hquote more)

theorem normaliseImage_unclosed {inside : Text} (hquote : '"' ∉ inside)
    (htext : trim configured = '"' :: inside) : normaliseImage configured = '"' :: inside := by
  have hkept : trim ('"' :: inside) = '"' :: inside := by rw [← htext, trim_trim]
  unfold normaliseImage
  rw [htext]
  exact (if_neg hquote).trans hkept

theorem normaliseImage_nativeQuoted {inside more : Text} (hquote : '"' ∉ inside)
    (htext : trim configured = nativePrefix ++ '"' :: (inside ++ '"' :: more)) :
    normaliseImage configured = inside := by
  unfold normaliseImage
  rw [htext]
  have hmem : '"' ∈ inside ++ '"' :: more := by simp
  exact (if_pos hmem).trans (takeWhile_quote hquote more)

theorem normaliseImage_bare (hstart : (trim configured).head? ≠ some '"')
    (hopen : ∀ inside more, '"' ∉ inside →
      trim configured ≠ nativePrefix ++ '"' :: (inside ++ '"' :: more)) :
    normaliseImage configured = trim configured ∧ ¬ nativePrefix <+: trim configured ∨
      ∃ rest, trim configured = nativePrefix ++ rest ∧ normaliseImage configured = trim rest := by
  unfold normaliseImage
  by_cases hnative : nativePrefix <+: trim configured
  · obtain ⟨rest, hrest⟩ := hnative
    refine .inr ⟨rest, hrest.symm, ?_⟩
    have hstrip : stripPrefix (trim configured) r"\??\".toList = some rest := by
      rw [← hrest]
      rfl
    rw [hstrip, Option.getD_some]
    by_cases hhead : rest.head? = some '"'
    · obtain ⟨inside, rfl⟩ := List.head?_eq_some_iff.mp hhead
      have hnone : '"' ∉ inside := by
        intro hmem
        obtain ⟨front, more, rfl, hquote⟩ := List.eq_append_cons_of_mem hmem
        exact hopen front more hquote hrest.symm
      exact if_neg hnone
    · dsimp only
      rw [stripPrefix_quote_of_head hhead]
  · refine .inl ⟨?_, hnative⟩
    have hstrip : stripPrefix (trim configured) r"\??\".toList = none :=
      if_neg (by rwa [List.isPrefixOf_iff_prefix])
    rw [hstrip, Option.getD_none]
    dsimp only
    rw [stripPrefix_quote_of_head hstart]
    exact trim_trim configured

/-- Behind the first extension of a path without quotes, the drafter reads a file name that ignoring
case is the auditor's exactly when nothing is there or the name is there once more. -/
theorem same_fileName_iff (image behind : Text) :
    eqIgnoreAsciiCase (fileName image) (fileName (image ++ behind)) = true ↔
      behind = [] ∨ ∃ folder again, behind = folder ++ '\\' :: again ∧ '\\' ∉ again ∧
        eqIgnoreAsciiCase (fileName image) again = true := by
  obtain ⟨hagain, hspec⟩ := fileName_spec behind
  constructor
  · intro hsame
    rcases hspec with ⟨hnot, -⟩ | ⟨folder, hbehind⟩
    · rw [fileName_append_of_not_mem image hnot, eqIgnoreAsciiCase_eq_true_iff] at hsame
      have hlength := congrArg List.length hsame
      simp only [length_toAsciiLowercase, List.length_append] at hlength
      exact .inl (List.length_eq_zero_iff.mp (by omega))
    · have hmem : '\\' ∈ behind := by rw [hbehind]; simp
      rw [fileName_append_of_mem image hmem] at hsame
      exact .inr ⟨folder, _, hbehind, hagain, hsame⟩
  · rintro (rfl | ⟨folder, again, rfl, hnot, hsame⟩)
    · rw [List.append_nil]
      exact eqIgnoreAsciiCase_eq_true_iff.mpr rfl
    · rwa [← List.append_assoc, fileName_append_cons, fileName_of_not_mem hnot]

/-- The path of a file behind the kernel's prefix goes on with what is behind the prefix. -/
theorem exists_image_below_native {first : Char} {more image behind : Text}
    (htext : image ++ behind = nativePrefix ++ first :: more) (hends : EndsImage image behind)
    (hname : EndsInName image) (hfolder : '\\' ∉ first :: more) :
    ∃ inside, image = nativePrefix ++ first :: inside ∧ '\\' ∉ first :: inside := by
  obtain ⟨c, hc, hne, -⟩ := hname
  rcases List.append_eq_append_iff.mp htext with
    ⟨tail, hnative, hbehind⟩ | ⟨inside, himage, hinside⟩
  · obtain ⟨extension, hmem, hsuffix⟩ := hends.last.resolve_left (by rw [hbehind]; simp)
    have hfour := hsuffix.length_le
    rw [Scan.length_of_mem_imageExtensions hmem, length_toAsciiLowercase] at hfour
    have hlength := congrArg List.length hnative
    rw [List.length_append, show nativePrefix.length = 4 from rfl] at hlength
    obtain rfl : tail = [] := List.length_eq_zero_iff.mp (by omega)
    rw [List.append_nil] at hnative
    rw [← hnative] at hc
    exact absurd (Option.some.inj hc).symm hne
  · cases inside with
    | nil =>
      rw [himage, List.append_nil] at hc
      exact absurd (Option.some.inj hc).symm hne
    | cons d inside =>
      obtain ⟨rfl, rfl⟩ := List.cons_eq_cons.mp hinside
      have hsub : first :: inside ⊆ first :: (inside ++ behind) :=
        List.cons_subset_cons first (List.subset_append_left inside behind)
      exact ⟨inside, himage, fun hmem ↦ hfolder (hsub hmem)⟩

/-- Trimming what is behind the kernel's prefix changes the file name that is compared exactly when
there is a blank in front of it and no folder. -/
theorem same_trim_iff {rest image behind : Text} (hrest : trim configured = nativePrefix ++ rest)
    (htext : trim configured = image ++ behind) (hends : EndsImage image behind)
    (hname : EndsInName image) :
    eqIgnoreAsciiCase (fileName image) (fileName (trim rest)) = true ↔
      eqIgnoreAsciiCase (fileName image) (fileName (image ++ behind)) = true ∧
        (StartsBlank rest → '\\' ∈ rest) := by
  have hlast : ∀ c ∈ rest.getLast?, isWhitespace c = false := by
    intro c hc
    apply last_trim configured c
    rw [hrest, List.getLast?_append, Option.mem_def.mp hc]
    rfl
  have hmark : nativePrefix = r"\??".toList ++ ['\\'] := rfl
  have hbehind (text : Text) : fileName (nativePrefix ++ text) = fileName text := by
    rw [hmark, List.append_assoc]
    exact fileName_append_cons _ text
  by_cases hfirst : StartsBlank rest → '\\' ∈ rest
  · rw [and_iff_left hfirst, fileName_trim hlast hfirst, ← htext, hrest, hbehind]
  · refine iff_of_false (fun hsame ↦ ?_) fun h ↦ hfirst h.2
    rw [Classical.not_imp] at hfirst
    obtain ⟨⟨first, hhead, hblank⟩, hfolder⟩ := hfirst
    obtain ⟨more, rfl⟩ := List.head?_eq_some_iff.mp hhead
    obtain ⟨inside, rfl, hnot⟩ :=
      exists_image_below_native (htext.symm.trans hrest) hends hname hfolder
    have hshown : '\\' ∉ trim (first :: more) := by
      obtain ⟨lead, hwhole, -⟩ := exists_lead_trim hlast
      rw [hwhole] at hfolder
      exact fun hmem ↦ hfolder (List.mem_append_right lead hmem)
    rw [hbehind, fileName_of_not_mem hnot, fileName_of_not_mem hshown,
      eqIgnoreAsciiCase_eq_true_iff] at hsame
    cases htrim : trim (first :: more) with
    | nil =>
      rw [htrim] at hsame
      cases hsame
    | cons d shown =>
      rw [htrim] at hsame
      have hlower : first.toLower = d.toLower := (List.cons_eq_cons.mp hsame).1
      have hkept := head_trim (first :: more) d (by rw [htrim]; rfl)
      rw [← isWhitespace_toLower, ← hlower, isWhitespace_toLower, hblank] at hkept
      cases hkept

/-- Behind a quote that is never closed the drafter keeps the quote, so the two read one file name
exactly when a folder is in front of it. -/
theorem any_fileName_unclosed_iff (inside : Text) :
    (Scan.fileName (trim inside)).any (eqIgnoreAsciiCase · (fileName ('"' :: inside))) = true ↔
      EndsInName inside ∧ '\\' ∈ inside := by
  by_cases hfolder : '\\' ∈ inside
  · rw [← List.singleton_append, fileName_append_of_mem _ hfolder, any_fileName_trim_iff,
      and_iff_left hfolder]
    exact and_iff_left fun _ ↦ hfolder
  · refine iff_of_false (fun hsame ↦ ?_) fun h ↦ hfolder h.2
    obtain ⟨lead, tail, hwhole, -, -⟩ := exists_trimMatches isWhitespace inside
    change inside = lead ++ trim inside ++ tail at hwhole
    have hshown : '\\' ∉ trim inside := by
      rw [hwhole] at hfolder
      exact fun hmem ↦ hfolder (List.mem_append_left tail (List.mem_append_right lead hmem))
    have hquoted : '\\' ∉ '"' :: inside := by simpa using hfolder
    rw [any_fileName_iff, fileName_of_not_mem hshown, fileName_of_not_mem hquoted,
      eqIgnoreAsciiCase_eq_true_iff] at hsame
    -- the quote makes the drafter's name longer than the auditor's
    have hlength := congrArg List.length hsame.2
    have hlonger := congrArg List.length hwhole
    simp only [length_toAsciiLowercase, List.length_cons, List.length_append] at hlength hlonger
    omega

/-- The two programs read one file name, but for case, in these paths and in no others. -/
theorem speltAlike_iff (configured : Text) :
    (Scan.imageName configured).any (eqIgnoreAsciiCase · (fileName (normaliseImage configured))) =
        true ↔ SpeltAlike (trim configured) := by
  rw [imageName_eq]
  have himage : ImageIn (trim configured) (Scan.imageText configured) := imageIn_iff.mpr rfl
  constructor
  · intro hsame
    cases himage with
    | quoted hquote htext himage =>
      rw [himage, normaliseImage_quoted hquote htext, any_fileName_trim_iff] at hsame
      exact .quoted hquote htext hsame.1 hsame.2
    | unclosed hquote htext himage =>
      rw [himage, normaliseImage_unclosed hquote htext, any_fileName_unclosed_iff] at hsame
      exact .unclosed hquote htext hsame.1 hsame.2
    | @bare behind hstart htext hends =>
      obtain ⟨hne, hsame⟩ := any_fileName_iff.mp hsame
      have hname : EndsInName (Scan.imageText configured) := by
        obtain ⟨c, hc, hseparator⟩ := fileName_ne_nil_iff.mp hne
        refine ⟨c, hc, hseparator, ?_⟩
        rw [← trim_imageText] at hc
        exact last_trim _ c hc
      by_cases hopen : ∃ inside more, '"' ∉ inside ∧
          trim configured = nativePrefix ++ '"' :: (inside ++ '"' :: more)
      · obtain ⟨inside, more, hquote, hnative⟩ := hopen
        rw [normaliseImage_nativeQuoted hquote hnative] at hsame
        exact .nativeQuoted hquote hnative htext hends hname hsame
      · have hopen' : ∀ inside more, '"' ∉ inside →
            trim configured ≠ nativePrefix ++ '"' :: (inside ++ '"' :: more) :=
          fun inside more hquote hnative ↦ hopen ⟨inside, more, hquote, hnative⟩
        rcases normaliseImage_bare hstart hopen' with ⟨hwhole, hnot⟩ | ⟨rest, hrest, htrim⟩
        · rw [hwhole, htext] at hsame
          exact .bare hstart hopen' (fun rest hrest ↦ absurd ⟨rest, hrest.symm⟩ hnot) htext hends
            hname ((same_fileName_iff _ _).mp hsame)
        · rw [htrim, same_trim_iff hrest htext hends hname] at hsame
          refine .bare hstart hopen' (fun other hother ↦ ?_) htext hends hname
            ((same_fileName_iff _ _).mp hsame.1)
          rw [List.append_cancel_left (hother.symm.trans hrest)]
          exact hsame.2
  · intro hspelt
    cases hspelt with
    | quoted hquote htext hname hfirst =>
      rw [imageIn_iff.mp (.quoted hquote htext rfl), normaliseImage_quoted hquote htext,
        any_fileName_trim_iff]
      exact ⟨hname, hfirst⟩
    | unclosed hquote htext hname hfolder =>
      rw [imageIn_iff.mp (.unclosed hquote htext rfl), normaliseImage_unclosed hquote htext,
        any_fileName_unclosed_iff]
      exact ⟨hname, hfolder⟩
    | bare hstart hopen hfirst htext hends hname hbehind =>
      rw [imageIn_iff.mp (.bare hstart htext hends), any_fileName_iff]
      refine ⟨hname.fileName_ne_nil, ?_⟩
      rcases normaliseImage_bare hstart hopen with ⟨hwhole, -⟩ | ⟨rest, hrest, htrim⟩
      · rw [hwhole, htext]
        exact (same_fileName_iff _ _).mpr hbehind
      · rw [htrim, same_trim_iff hrest htext hends hname]
        exact ⟨(same_fileName_iff _ _).mpr hbehind, hfirst rest hrest⟩
    | nativeQuoted hquote hnative htext hends hname hsame =>
      have hstart : (trim configured).head? ≠ some '"' := by
        rw [hnative]
        exact fun hhead ↦ absurd (Option.some.inj hhead) (by decide)
      rw [imageIn_iff.mp (.bare hstart htext hends), normaliseImage_nativeQuoted hquote hnative,
        any_fileName_iff]
      exact ⟨hname.fileName_ne_nil, hsame⟩

end

end WardSweep.Suggest
