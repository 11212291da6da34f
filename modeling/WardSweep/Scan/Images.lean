import WardSweep.Rust.Matches
import WardSweep.Safety.Canonical
import WardSweep.Scan.Engine

/-!
# Spellings of an image

Windows writes the image of a service in quotes or without them, with arguments or without, and with
the kernel's own words for its directory.  Without quotes the auditor cuts the text behind the first
extension of a program or driver, so a name that holds one is cut short.
-/

namespace WardSweep.Scan

open Utf8 Str Paths

/-! ## How a file is written -/

/-- The extensions that end an image. -/
def imageExtensions : List Text := [".exe", ".sys", ".dll"].map String.toList

/-- A file on a drive that ends in one of these extensions, in any case. -/
def IsImagePath (file : Text) : Prop :=
  (∃ letter below, isAsciiAlphabetic letter.toNat = true ∧ file = letter :: ':' :: '\\' :: below) ∧
    ∃ extension ∈ imageExtensions, extension <:+ toAsciiLowercase file

/-- What may be written for the front of a path. -/
inductive Front (systemRoot : Text) : Text → Text → Prop
  /-- `X:\` as it is -/
  | plain {letter : Char} (hletter : isAsciiAlphabetic letter.toNat = true) :
    Front systemRoot [letter, ':', '\\'] [letter, ':', '\\']
  /-- `\??\X:\` -/
  | native {letter : Char} (hletter : isAsciiAlphabetic letter.toNat = true) :
    Front systemRoot [letter, ':', '\\'] (r"\??\".toList ++ [letter, ':', '\\'])
  /-- `\SystemRoot\` -/
  | systemRoot {root written : Text} (hroot : eqIgnoreAsciiCase root systemRoot = true)
    (hwritten : eqIgnoreAsciiCase written r"\SystemRoot\".toList = true) :
    Front systemRoot (root ++ ['\\']) written
  /-- `%SystemRoot%\` -/
  | placeholder {root written : Text} (hroot : eqIgnoreAsciiCase root systemRoot = true)
    (hwritten : eqIgnoreAsciiCase written r"%SystemRoot%\".toList = true) :
    Front systemRoot (root ++ ['\\']) written
  /-- a bare `system32\` -/
  | system32 {root folder : Text} (hroot : eqIgnoreAsciiCase root systemRoot = true)
    (hfolder : eqIgnoreAsciiCase folder r"system32\".toList = true) :
    Front systemRoot (root ++ '\\' :: folder) folder

/-- A way to write a file as the image of a service. -/
structure Spelling (systemRoot file : Text) where
  base : Text
  written : Text
  body : Text
  file_eq : file = base ++ body
  front : Front systemRoot base written
  quoted : Bool
  arguments : Text
  separated : quoted = true ∨ arguments = [] ∨ ∃ more, arguments = ' ' :: more

namespace Spelling

variable {systemRoot file : Text} (spelling : Spelling systemRoot file)

/-- The text that is written. -/
def text : Text :=
  if spelling.quoted then
    '"' :: (spelling.written ++ (spelling.body ++ '"' :: spelling.arguments))
  else spelling.written ++ (spelling.body ++ spelling.arguments)

/-- The auditor reads the file, up to the case of the system root. -/
def Recovers : Prop :=
  ∃ image, imageFile spelling.text systemRoot = some image ∧
    (image = file ∨ ∃ root below, file = root ++ '\\' :: below ∧
      eqIgnoreAsciiCase root systemRoot = true ∧ image = systemRoot ++ '\\' :: below)

/-- In quotes, the path holds no quote; without them, no extension but at its end. -/
def EndsLast : Prop :=
  if spelling.quoted then '"' ∉ spelling.body
  else ∀ extension ∈ imageExtensions, ∀ front behind,
    toAsciiLowercase spelling.body = front ++ (extension ++ behind) → behind = []

end Spelling

/-! ## Where an image ends -/

theorem length_of_mem_imageExtensions {extension : Text} (h : extension ∈ imageExtensions) :
    extension.length = 4 := by
  revert extension
  decide

/-- Where some extension is first found to end. -/
theorem mem_imageEnds_iff {lowered : Text} {stop : ℕ} :
    stop ∈ [".exe", ".sys", ".dll"].filterMap (fun extension ↦
      (find lowered extension.toList).map (· + extension.toList.length)) ↔
        ∃ extension ∈ imageExtensions, ∃ start, find lowered extension = some start ∧
          start + 4 = stop := by
  rw [List.mem_filterMap]
  constructor
  · intro h
    obtain ⟨extension, hmem, hstop⟩ := h
    obtain ⟨start, hfind, hsum⟩ := Option.map_eq_some_iff.mp hstop
    rw [length_of_mem_imageExtensions (List.mem_map_of_mem hmem)] at hsum
    exact ⟨extension.toList, List.mem_map_of_mem hmem, start, hfind, hsum⟩
  · intro h
    obtain ⟨extension, hextension, start, hfind, hsum⟩ := h
    obtain ⟨name, hname, rfl⟩ := List.mem_map.mp hextension
    refine ⟨name, hname, Option.map_eq_some_iff.mpr ⟨start, hfind, ?_⟩⟩
    rw [length_of_mem_imageExtensions hextension, hsum]

/-- An image is cut where an extension ends, and none ends before. -/
theorem imageEnd_eq_some_iff {lowered : Text} {stop : ℕ} :
    imageEnd lowered = some stop ↔
      (∃ extension ∈ imageExtensions, ∃ start, extension <+: lowered.drop start ∧
        start + 4 = stop) ∧
        ∀ extension ∈ imageExtensions, ∀ start, extension <+: lowered.drop start →
          stop ≤ start + 4 := by
  unfold imageEnd
  rw [List.min?_eq_some_iff, mem_imageEnds_iff]
  constructor
  · intro h
    obtain ⟨⟨extension, hmem, start, hfind, hstop⟩, hleast⟩ := h
    refine ⟨⟨extension, hmem, start, prefix_of_find hfind, hstop⟩, ?_⟩
    intro extension hmem start hbegin
    obtain ⟨first, hle, hfirst⟩ := exists_find_of_prefix hbegin
    have hbound := hleast (first + 4) (mem_imageEnds_iff.mpr ⟨extension, hmem, first, hfirst, rfl⟩)
    omega
  · intro h
    obtain ⟨⟨extension, hmem, start, hbegin, hstop⟩, hleast⟩ := h
    constructor
    · obtain ⟨first, hle, hfirst⟩ := exists_find_of_prefix hbegin
      have hbound := hleast extension hmem first (prefix_of_find hfirst)
      exact ⟨extension, hmem, first, hfirst, by omega⟩
    · intro other hother
      obtain ⟨extension, hmem, start, hfind, rfl⟩ := mem_imageEnds_iff.mp hother
      exact hleast extension hmem start (prefix_of_find hfind)

/-! ## The front of an image -/

/-- An image with the kernel's own words for its directory written out. -/
def writtenOutImage (systemRoot text : Text) : Text :=
  if r"\systemroot\".toList.isPrefixOf (toAsciiLowercase text) then systemRoot ++
    '\\' :: text.drop 12
  else if r"%systemroot%\".toList.isPrefixOf (toAsciiLowercase text) then
    systemRoot ++ '\\' :: text.drop 13
  else if r"\??\".toList.isPrefixOf (toAsciiLowercase text) then text.drop 4
  else if r"system32\".toList.isPrefixOf (toAsciiLowercase text) then systemRoot ++ '\\' :: text
  else text

theorem imageFile_eq (configured systemRoot : Text) :
    imageFile configured systemRoot =
      if imageText configured = [] then none
      else some (writtenOutImage systemRoot (imageText configured)) := by
  unfold imageFile writtenOutImage
  dsimp only
  split_ifs <;> rfl

/-- One front reads as another that differs at most in the case of the system root. -/
def ReadsAs (systemRoot base read : Text) : Prop :=
  read = base ∨ ∃ root folder, base = root ++ '\\' :: folder ∧
    eqIgnoreAsciiCase root systemRoot = true ∧ read = systemRoot ++ '\\' :: folder

theorem ReadsAs.length_eq {systemRoot base read : Text} (h : ReadsAs systemRoot base read) :
    read.length = base.length := by
  rcases h with rfl | ⟨root, folder, rfl, hroot, rfl⟩
  · rfl
  · rw [List.length_append, List.length_append, length_eq_of_eqIgnoreAsciiCase hroot]

theorem isPrefixOf_lowercase_append {want written : Text}
    (hwritten : toAsciiLowercase written = want)
    (body : Text) : want.isPrefixOf (toAsciiLowercase (written ++ body)) = true := by
  rw [List.isPrefixOf_iff_prefix, toAsciiLowercase_append, hwritten]
  exact List.prefix_append _ _

namespace Front

variable {systemRoot base written : Text}

/-- The front that is written is read as the front of the path. -/
theorem exists_readsAs (h : Front systemRoot base written) :
    ∃ read, ReadsAs systemRoot base read ∧
      ∀ body, writtenOutImage systemRoot (written ++ body) = read ++ body := by
  cases h with
  | @plain letter hletter =>
    refine ⟨_, .inl rfl, fun body ↦ ?_⟩
    have hnot (c : Char) (hc : isAsciiAlphabetic c.toNat = false) :
        (c == letter.toLower) = false := by
      rw [beq_eq_false_iff_ne]
      intro hsame
      rw [eq_comm, toLower_eq_iff hc] at hsame
      rw [hsame, hc] at hletter
      cases hletter
    have hwritten : toAsciiLowercase ([letter, ':', '\\'] ++ body) =
        letter.toLower :: ':' :: '\\' :: toAsciiLowercase body := rfl
    have hroot : r"\systemroot\".toList.isPrefixOf
        (letter.toLower :: ':' :: '\\' :: toAsciiLowercase body) = false :=
      Bool.and_eq_false_iff.mpr (.inl (hnot _ (by decide)))
    have hplaceholder : r"%systemroot%\".toList.isPrefixOf
        (letter.toLower :: ':' :: '\\' :: toAsciiLowercase body) = false :=
      Bool.and_eq_false_iff.mpr (.inl (hnot _ (by decide)))
    have hnative : r"\??\".toList.isPrefixOf
        (letter.toLower :: ':' :: '\\' :: toAsciiLowercase body) = false :=
      Bool.and_eq_false_iff.mpr (.inl (hnot _ (by decide)))
    have hfolder : r"system32\".toList.isPrefixOf
        (letter.toLower :: ':' :: '\\' :: toAsciiLowercase body) = false :=
      Bool.and_eq_false_iff.mpr (.inr rfl)
    simp only [writtenOutImage, hwritten, hroot, hplaceholder, hnative, hfolder, Bool.false_eq_true,
      if_false]
  | @native letter hletter =>
    refine ⟨_, .inl rfl, fun body ↦ ?_⟩
    have hlower : toAsciiLowercase (r"\??\".toList ++ [letter, ':', '\\'] ++ body) =
        r"\??\".toList ++ toAsciiLowercase ([letter, ':', '\\'] ++ body) := rfl
    have hroot (below : Text) : r"\systemroot\".toList.isPrefixOf (r"\??\".toList ++ below) =
        false :=
      rfl
    have hplaceholder (below : Text) :
        r"%systemroot%\".toList.isPrefixOf (r"\??\".toList ++ below) = false := rfl
    have hnative (below : Text) : r"\??\".toList.isPrefixOf (r"\??\".toList ++ below) = true :=
      List.isPrefixOf_iff_prefix.mpr (List.prefix_append _ _)
    simp only [writtenOutImage, hlower, hroot, hplaceholder, hnative, Bool.false_eq_true, if_false,
      if_true]
    rfl
  | @systemRoot root written hroot hwritten =>
    refine ⟨_, .inr ⟨root, [], rfl, hroot, rfl⟩, fun body ↦ ?_⟩
    have hdrop : (written ++ body).drop 12 = body :=
      List.drop_left' (length_eq_of_eqIgnoreAsciiCase hwritten)
    have hlower : toAsciiLowercase written = r"\systemroot\".toList :=
      eqIgnoreAsciiCase_eq_true_iff.mp hwritten
    unfold writtenOutImage
    rw [if_pos (isPrefixOf_lowercase_append hlower body), hdrop]
    simp
  | @placeholder root written hroot hwritten =>
    refine ⟨_, .inr ⟨root, [], rfl, hroot, rfl⟩, fun body ↦ ?_⟩
    have hdrop : (written ++ body).drop 13 = body :=
      List.drop_left' (length_eq_of_eqIgnoreAsciiCase hwritten)
    have hlower : toAsciiLowercase written = r"%systemroot%\".toList :=
      eqIgnoreAsciiCase_eq_true_iff.mp hwritten
    have hfirst : ¬ r"\systemroot\".toList.isPrefixOf (toAsciiLowercase (written ++ body)) =
        true := by
      rw [toAsciiLowercase_append, hlower]
      exact Bool.false_ne_true
    unfold writtenOutImage
    rw [if_neg hfirst, if_pos (isPrefixOf_lowercase_append hlower body), hdrop]
    simp
  | system32 hroot hfolder =>
    refine ⟨_, .inr ⟨_, written, rfl, hroot, rfl⟩, fun body ↦ ?_⟩
    have hlower : toAsciiLowercase written = r"system32\".toList :=
      eqIgnoreAsciiCase_eq_true_iff.mp hfolder
    have hfirst : ¬ r"\systemroot\".toList.isPrefixOf (toAsciiLowercase (written ++ body)) =
        true := by
      rw [toAsciiLowercase_append, hlower]
      exact Bool.false_ne_true
    have hsecond : ¬ r"%systemroot%\".toList.isPrefixOf (toAsciiLowercase (written ++ body)) =
        true := by
      rw [toAsciiLowercase_append, hlower]
      exact Bool.false_ne_true
    have hthird : ¬ r"\??\".toList.isPrefixOf (toAsciiLowercase (written ++ body)) = true := by
      rw [toAsciiLowercase_append, hlower]
      exact Bool.false_ne_true
    unfold writtenOutImage
    rw [if_neg hfirst, if_neg hsecond, if_neg hthird,
      if_pos (isPrefixOf_lowercase_append hlower body)]
    simp

end Front

/-- A text that holds no quote and no dot, ends in a separator and begins with no blank. -/
structure IsFront (written : Text) : Prop where
  no_quote : '"' ∉ written
  no_dot : '.' ∉ toAsciiLowercase written
  ends : ∃ lead, written = lead ++ ['\\']
  begins : ∃ first more, written = first :: more ∧ isWhitespace first = false

/-- All of this is seen in lower case. -/
theorem isFront_of_lowercase {written front : Text} {first : Char}
    (h : toAsciiLowercase written = first :: front ++ ['\\']) (hfirst : isWhitespace first = false)
    (hquote : '"' ∉ first :: front) (hdot : '.' ∉ first :: front) : IsFront written where
  no_quote := by
    rw [← mem_toAsciiLowercase_iff (by decide), h, List.mem_append, not_or]
    exact ⟨hquote, by decide⟩
  no_dot := by
    rw [h, List.mem_append, not_or]
    exact ⟨hdot, by decide⟩
  ends := by
    obtain ⟨lead, last, rfl, -, hlast⟩ := List.map_eq_append_iff.mp h
    obtain ⟨c, rfl, hc⟩ := List.map_eq_singleton_iff.mp hlast
    rw [(toLower_eq_iff (by decide)).mp hc]
    exact ⟨lead, rfl⟩
  begins := by
    cases written with
    | nil => cases h
    | cons c more =>
      refine ⟨c, more, rfl, ?_⟩
      rw [← isWhitespace_toLower, (List.cons.inj h).1]
      exact hfirst

theorem Front.isFront {systemRoot base written : Text} (h : Front systemRoot base written) :
    IsFront written := by
  have hletters {letter c : Char} (hletter : isAsciiAlphabetic letter.toNat = true)
      (hc : isAsciiAlphabetic c.toNat = false) : c ≠ letter.toLower := by
    intro hsame
    rw [eq_comm, toLower_eq_iff hc] at hsame
    rw [hsame, hc] at hletter
    cases hletter
  cases h with
  | @plain letter hletter =>
    have hlower : toAsciiLowercase [letter, ':', '\\'] = letter.toLower :: [':'] ++ ['\\'] := rfl
    apply isFront_of_lowercase hlower
    · rw [isWhitespace_toLower]
      exact not_isWhitespace_of_isAsciiAlphabetic hletter
    · simp [hletters hletter (show isAsciiAlphabetic '"'.toNat = false by decide)]
    · simp [hletters hletter (show isAsciiAlphabetic '.'.toNat = false by decide)]
  | @native letter hletter =>
    have hlower : toAsciiLowercase (r"\??\".toList ++ [letter, ':', '\\']) =
        '\\' :: ['?', '?', '\\', letter.toLower, ':'] ++ ['\\'] := rfl
    apply isFront_of_lowercase hlower (by decide)
    · simp [hletters hletter (show isAsciiAlphabetic '"'.toNat = false by decide)]
    · simp [hletters hletter (show isAsciiAlphabetic '.'.toNat = false by decide)]
  | systemRoot _ hwritten =>
    have hlower : toAsciiLowercase written = '\\' :: "systemroot".toList ++ ['\\'] :=
      eqIgnoreAsciiCase_eq_true_iff.mp hwritten
    exact isFront_of_lowercase hlower (by decide) (by decide) (by decide)
  | placeholder _ hwritten =>
    have hlower : toAsciiLowercase written = '%' :: "systemroot%".toList ++ ['\\'] :=
      eqIgnoreAsciiCase_eq_true_iff.mp hwritten
    exact isFront_of_lowercase hlower (by decide) (by decide) (by decide)
  | system32 _ hfolder =>
    have hlower : toAsciiLowercase written = 's' :: "ystem32".toList ++ ['\\'] :=
      eqIgnoreAsciiCase_eq_true_iff.mp hfolder
    exact isFront_of_lowercase hlower (by decide) (by decide) (by decide)

/-! ## What is cut from the text -/

/-- A text that ends in a separator, and what is behind it without the blanks at its end, is what
trimming leaves of both. -/
theorem IsFront.trim_append {written : Text} (h : IsFront written) (rest : Text) :
    trim (written ++ rest) = written ++ trimEndMatches isWhitespace rest := by
  obtain ⟨lead, hends⟩ := h.ends
  obtain ⟨first, more, hbegins, hblank⟩ := h.begins
  have hkept : (written ++ rest).dropWhile isWhitespace = written ++ rest := by
    rw [hbegins]
    exact List.dropWhile_cons_of_neg (by rw [hblank]; exact Bool.false_ne_true)
  rw [trim, trimMatches, hkept, hends, List.append_assoc, List.append_assoc]
  exact trimEndMatches_append_cons _ lead rest (by decide)

/-- Where an extension stands, an image is cut, there or before. -/
theorem exists_imageEnd {lowered extension : Text} (hmem : extension ∈ imageExtensions) {start : ℕ}
    (h : extension <+: lowered.drop start) : ∃ stop ≤ start + 4, imageEnd lowered = some stop := by
  cases hend : imageEnd lowered with
  | none =>
    unfold imageEnd at hend
    rw [List.min?_eq_none_iff] at hend
    obtain ⟨first, -, hfirst⟩ := exists_find_of_prefix h
    have hlisted := mem_imageEnds_iff.mpr ⟨extension, hmem, first, hfirst, rfl⟩
    rw [hend] at hlisted
    cases hlisted
  | some stop => exact ⟨stop, (imageEnd_eq_some_iff.mp hend).2 extension hmem start h, rfl⟩

/-- An extension does not begin in a front without a dot. -/
theorem exists_of_prefix_drop {front rest extension : Text} (hfront : '.' ∉ front)
    (hmem : extension ∈ imageExtensions) {start : ℕ}
    (h : extension <+: (front ++ rest).drop start) :
    ∃ inside, start = front.length + inside ∧ extension <+: rest.drop inside := by
  have hdot : ∀ extension ∈ imageExtensions, ∃ more, extension = '.' :: more := by
    intro extension hextension
    obtain ⟨name, hname, rfl⟩ := List.mem_map.mp hextension
    simp only [List.mem_cons, List.not_mem_nil, or_false] at hname
    rcases hname with rfl | rfl | rfl <;> exact ⟨_, rfl⟩
  obtain ⟨more, rfl⟩ := hdot extension hmem
  rcases Nat.lt_or_ge start front.length with hlt | hge
  · rw [List.drop_append_of_le_length hlt.le, List.drop_eq_getElem_cons hlt, List.cons_append,
      List.cons_prefix_cons] at h
    exact absurd (h.1 ▸ List.getElem_mem hlt) hfront
  · obtain ⟨inside, rfl⟩ := Nat.exists_eq_add_of_le hge
    rw [← List.drop_drop, List.drop_left] at h
    exact ⟨inside, rfl, h⟩

theorem Front.exists_base {systemRoot base written : Text} (h : Front systemRoot base written) :
    ∃ lead, base = lead ++ ['\\'] := by
  cases h with
  | plain => exact ⟨[_, ':'], rfl⟩
  | native => exact ⟨[_, ':'], rfl⟩
  | systemRoot => exact ⟨_, rfl⟩
  | placeholder => exact ⟨_, rfl⟩
  | @system32 root folder hroot hfolder =>
    obtain ⟨lead, hlead⟩ := (Front.system32 hroot hfolder).isFront.ends
    exact ⟨root ++ '\\' :: lead, by rw [hlead]; simp⟩

/-- An extension that ends a text behind a separator is in what stands behind it. -/
theorem exists_of_suffix_append {extension lead body : Text} (hmem : extension ∈ imageExtensions)
    (h : extension <:+ lead ++ ['\\'] ++ body) : ∃ front, body = front ++ extension := by
  have hseparator : ∀ extension ∈ imageExtensions, '\\' ∉ extension := by decide
  rcases List.suffix_or_suffix_of_suffix h (List.suffix_append _ body) with hin | hout
  · obtain ⟨front, hfront⟩ := hin
    exact ⟨front, hfront.symm⟩
  · obtain ⟨more, rfl⟩ := hout
    obtain ⟨before, hbefore⟩ := h
    rw [← List.append_assoc] at hbefore
    have hseen := List.append_cancel_right hbefore
    rcases List.eq_nil_or_concat more with rfl | ⟨init, last, rfl⟩
    · exact ⟨[], rfl⟩
    · rw [List.concat_eq_append, ← List.append_assoc] at hseen
      obtain ⟨-, hlast⟩ := List.append_inj' hseen rfl
      refine absurd ?_ (hseparator _ hmem)
      simp [(List.cons.inj hlast).1]

namespace Spelling

variable {systemRoot file : Text} {spelling : Spelling systemRoot file}

/-- The extension of a file is in what follows its front. -/
theorem exists_extension (h : IsImagePath file) :
    ∃ extension ∈ imageExtensions, ∃ front, toAsciiLowercase spelling.body =
      front ++ extension := by
  obtain ⟨-, extension, hmem, hsuffix⟩ := h
  obtain ⟨lead, hbase⟩ := spelling.front.exists_base
  have hlower : toAsciiLowercase file =
      toAsciiLowercase lead ++ ['\\'] ++ toAsciiLowercase spelling.body := by
    calc
      toAsciiLowercase file = toAsciiLowercase (lead ++ ['\\'] ++ spelling.body) :=
        congrArg toAsciiLowercase (hbase ▸ spelling.file_eq)
      _ = toAsciiLowercase lead ++ ['\\'] ++ toAsciiLowercase spelling.body := by
        rw [toAsciiLowercase_append, toAsciiLowercase_append]
        rfl
  rw [hlower] at hsuffix
  exact ⟨extension, hmem, exists_of_suffix_append hmem hsuffix⟩

/-- What follows the front of a file ends in no blank. -/
theorem exists_last (h : IsImagePath file) :
    ∃ lead last, spelling.body = lead ++ [last] ∧ isWhitespace last = false := by
  obtain ⟨extension, hmem, front, hbody⟩ := spelling.exists_extension h
  have hblank : ∀ extension ∈ imageExtensions, ∃ lead last, extension = lead ++ [last] ∧
      isWhitespace last = false := by
    intro extension hmem
    refine ⟨extension.dropLast, extension.getLastD ' ', ?_⟩
    revert extension
    decide
  obtain ⟨lead, last, rfl, hlast⟩ := hblank extension hmem
  rw [← List.append_assoc] at hbody
  obtain ⟨before, behind, hsplit, -, hbehind⟩ := List.map_eq_append_iff.mp hbody
  obtain ⟨c, rfl, rfl⟩ := List.map_eq_singleton_iff.mp hbehind
  exact ⟨before, c, hsplit, (isWhitespace_toLower c).symm.trans hlast⟩

/-- The first extension in a text without quotes ends with what follows the front or inside it, and
it ends with it exactly when there is no extension before. -/
theorem exists_cut (h : IsImagePath file) (arguments : Text) :
    ∃ cut ≤ spelling.body.length,
      imageEnd (toAsciiLowercase (spelling.written ++ (spelling.body ++ arguments))) =
        some (spelling.written.length + cut) ∧
      (cut = spelling.body.length ↔ ∀ extension ∈ imageExtensions, ∀ front behind,
        toAsciiLowercase spelling.body = front ++ (extension ++ behind) → behind = []) := by
  have hdot := spelling.front.isFront.no_dot
  have hlower : toAsciiLowercase (spelling.written ++ (spelling.body ++ arguments)) =
      toAsciiLowercase spelling.written ++
        (toAsciiLowercase spelling.body ++ toAsciiLowercase arguments) := by
    rw [toAsciiLowercase_append, toAsciiLowercase_append]
  have hwritten := length_toAsciiLowercase spelling.written
  have hbody := length_toAsciiLowercase spelling.body
  rw [hlower, ← hwritten, ← hbody]
  generalize toAsciiLowercase spelling.written = written at hdot ⊢
  -- an extension inside the path, with what stands before it, is an extension of the whole text
  have hstands (extension front behind : Text)
      (hsplit : toAsciiLowercase spelling.body = front ++ (extension ++ behind)) :
      extension <+: (written ++ (toAsciiLowercase spelling.body ++ toAsciiLowercase arguments)).drop
        (written.length + front.length) := by
    rw [hsplit, ← List.drop_drop, List.drop_left, List.append_assoc, List.drop_left,
      List.append_assoc]
    exact List.prefix_append _ _
  obtain ⟨extension, hmem, front, hends⟩ := spelling.exists_extension h
  have hfirst := hstands extension front [] (by rw [List.append_nil]; exact hends)
  obtain ⟨stop, hstop, hend⟩ := exists_imageEnd hmem hfirst
  obtain ⟨⟨first, hmemFirst, start, hbegin, rfl⟩, hleast⟩ := imageEnd_eq_some_iff.mp hend
  obtain ⟨inside, rfl, hinside⟩ := exists_of_prefix_drop hdot hmemFirst hbegin
  have hbound : inside + 4 ≤ (toAsciiLowercase spelling.body).length := by
    rw [hends, List.length_append, length_of_mem_imageExtensions hmem]
    omega
  refine ⟨inside + 4, hbound, hend, ?_⟩
  constructor
  · intro hcut other hother before behind hsplit
    have hle := hleast other hother _ (hstands other before behind hsplit)
    rw [hsplit, List.length_append, List.length_append,
      length_of_mem_imageExtensions hother] at hcut
    exact List.length_eq_zero_iff.mp (by omega)
  · intro hlast
    have hwithin : first <+: (toAsciiLowercase spelling.body).drop inside := by
      rw [List.drop_append_of_le_length (by omega)] at hinside
      refine List.prefix_of_prefix_length_le hinside (List.prefix_append _ _) ?_
      rw [List.length_drop, length_of_mem_imageExtensions hmemFirst]
      omega
    obtain ⟨behind, hbehind⟩ := hwithin
    have hnil := hlast first hmemFirst ((toAsciiLowercase spelling.body).take inside) behind
      (by rw [hbehind, List.take_append_drop])
    rw [hnil, List.append_nil] at hbehind
    have hlength := congrArg List.length hbehind
    rw [List.length_drop, length_of_mem_imageExtensions hmemFirst] at hlength
    omega

/-- In quotes, the text is cut at the first quote of the path, or behind it. -/
theorem imageText_quoted (h : spelling.quoted = true) :
    imageText spelling.text = spelling.written ++
      trimEndMatches isWhitespace (spelling.body.takeWhile (· != '"')) := by
  have hquote := spelling.front.isFront.no_quote
  have htrim : trim spelling.text = '"' :: (spelling.written ++ (spelling.body ++ '"' ::
      trimEndMatches isWhitespace spelling.arguments)) := by
    rw [text, if_pos h, trim, trimMatches, List.dropWhile_cons_of_neg (by decide)]
    rw [← List.cons_append, ← List.append_assoc,
      trimEndMatches_append_cons _ _ _ (show isWhitespace '"' = false by decide)]
    simp
  have htake : (spelling.written ++ (spelling.body ++ '"' ::
      trimEndMatches isWhitespace spelling.arguments)).takeWhile (· != '"') =
        spelling.written ++ spelling.body.takeWhile (· != '"') := by
    rw [List.takeWhile_append_of_pos (fun c hc ↦ ?_), List.takeWhile_append]
    · split_ifs with hall
      · rw [List.takeWhile_cons_of_neg (by simp), List.append_nil]
        exact congrArg _ (List.IsPrefix.eq_of_length (List.takeWhile_prefix _) hall).symm
      · rfl
    · rw [bne_iff_ne]
      rintro rfl
      exact hquote hc
  rw [imageText, htrim]
  change trim (List.takeWhile (· != '"') (spelling.written ++ (spelling.body ++ '"' ::
    trimEndMatches isWhitespace spelling.arguments))) = _
  rw [htake, spelling.front.isFront.trim_append]

/-- Without quotes, it is cut behind the first extension. -/
theorem imageText_unquoted (h : IsImagePath file) (hquoted : spelling.quoted = false) {cut : ℕ}
    (hcut : cut ≤ spelling.body.length)
    (hend : imageEnd (toAsciiLowercase (spelling.written ++ (spelling.body ++
      trimEndMatches isWhitespace spelling.arguments))) = some (spelling.written.length + cut)) :
    imageText spelling.text =
      spelling.written ++ trimEndMatches isWhitespace (spelling.body.take cut) := by
  have hfront := spelling.front.isFront
  obtain ⟨lead, last, hbody, hlast⟩ := spelling.exists_last h
  have htrim : trim spelling.text = spelling.written ++ (spelling.body ++
      trimEndMatches isWhitespace spelling.arguments) := by
    rw [text, hquoted, if_neg Bool.false_ne_true, hfront.trim_append, hbody, List.append_assoc,
      List.append_assoc]
    exact congrArg _ (trimEndMatches_append_cons _ lead _ hlast)
  obtain ⟨first, more, hbegins, -⟩ := hfront.begins
  have hunquoted (rest : Text) : stripPrefix (spelling.written ++ rest) ['"'] = none := by
    have hne : ¬ '"' = first := by
      rintro rfl
      exact hfront.no_quote (hbegins ▸ List.mem_cons_self)
    rw [hbegins]
    simp [stripPrefix, hne]
  unfold imageText
  dsimp only
  rw [htrim, hunquoted]
  dsimp only
  rw [hend, Option.elim_some, List.take_length_add_append,
    List.take_append_of_le_length hcut, hfront.trim_append]

/-- The text is read as the front and some first part of what follows it, and as all of it exactly
when the extension of the file is where its first one ends. -/
theorem exists_imageText (h : IsImagePath file) :
    ∃ read, imageText spelling.text = spelling.written ++ read ∧ read <+: spelling.body ∧
      (read = spelling.body ↔ spelling.EndsLast) := by
  obtain ⟨lead, last, hbody, hlast⟩ := spelling.exists_last h
  have hwhole : trimEndMatches isWhitespace spelling.body = spelling.body := by
    rw [hbody, trimEndMatches_concat, hlast, if_neg Bool.false_ne_true]
  cases hquoted : spelling.quoted with
  | true =>
    refine ⟨_, spelling.imageText_quoted hquoted,
      (prefix_trimEndMatches _ _).trans (List.takeWhile_prefix _), ?_⟩
    have hkept : spelling.body.takeWhile (· != '"') = spelling.body ↔ '"' ∉ spelling.body := by
      rw [List.takeWhile_eq_self_iff]
      simp only [bne_iff_ne]
      exact ⟨fun hall hmem ↦ hall _ hmem rfl, fun hnot c hc hsame ↦ hnot (hsame ▸ hc)⟩
    rw [EndsLast, if_pos hquoted, ← hkept]
    constructor
    · intro hall
      apply (List.takeWhile_prefix _).eq_of_length_le
      calc
        spelling.body.length =
            (trimEndMatches isWhitespace
              (spelling.body.takeWhile (· != '"'))).length := by rw [hall]
        _ ≤ (spelling.body.takeWhile (· != '"')).length := (prefix_trimEndMatches _ _).length_le
    · intro hall
      rw [hall, hwhole]
  | false =>
    obtain ⟨cut, hcut, hend, hiff⟩ :=
      spelling.exists_cut h (trimEndMatches isWhitespace spelling.arguments)
    refine ⟨_, spelling.imageText_unquoted h hquoted hcut hend,
      (prefix_trimEndMatches _ _).trans (List.take_prefix _ _), ?_⟩
    rw [EndsLast, if_neg (by rw [hquoted]; exact Bool.false_ne_true), ← hiff]
    constructor
    · intro hall
      have hlength := congrArg List.length hall
      have hle := (prefix_trimEndMatches isWhitespace (spelling.body.take cut)).length_le
      rw [List.length_take] at hle
      omega
    · intro hall
      rw [hall, List.take_length, hwhole]

/-! ## Whether the auditor reads the file -/

/-- The auditor reads the file that a spelling writes exactly when nothing inside the path ends it:
no quote, when it is in quotes, and no extension before its end, when it is not. -/
theorem recovers_iff (h : IsImagePath file) (spelling : Spelling systemRoot file) :
    spelling.Recovers ↔ spelling.EndsLast := by
  obtain ⟨read, htext, hbegin, hiff⟩ := spelling.exists_imageText h
  obtain ⟨base, hreads, hwritten⟩ := spelling.front.exists_readsAs
  obtain ⟨first, more, hbegins, -⟩ := spelling.front.isFront.begins
  have himage : imageFile spelling.text systemRoot = some (base ++ read) := by
    rw [imageFile_eq, htext, hwritten, if_neg (by rw [hbegins]; exact List.cons_ne_nil _ _)]
  rw [← hiff]
  constructor
  · intro hrecovers
    obtain ⟨image, hread, hsame⟩ := hrecovers
    rw [himage] at hread
    obtain rfl := Option.some.inj hread
    have hlength : (base ++ read).length = file.length := by
      rcases hsame with hfile | ⟨root, below, hfile, hroot, himage⟩
      · rw [hfile]
      · rw [himage, hfile, List.length_append, List.length_append,
          length_eq_of_eqIgnoreAsciiCase hroot]
    rw [spelling.file_eq, List.length_append, List.length_append, hreads.length_eq] at hlength
    exact hbegin.eq_of_length (by omega)
  · intro hall
    refine ⟨_, himage, ?_⟩
    rw [hall]
    rcases hreads with rfl | ⟨root, folder, hbase, hroot, rfl⟩
    · exact .inl spelling.file_eq.symm
    · refine .inr ⟨root, folder ++ spelling.body, ?_, hroot, ?_⟩
      · calc
          file = spelling.base ++ spelling.body := spelling.file_eq
          _ = root ++ '\\' :: (folder ++ spelling.body) := by
            rw [hbase, List.append_assoc, List.cons_append]
      · rw [List.append_assoc, List.cons_append]

end Spelling

theorem isImagePath_vgk : IsImagePath r"C:\WINDOWS\System32\drivers\vgk.sys".toList :=
  ⟨⟨'C', r"WINDOWS\System32\drivers\vgk.sys".toList, by decide, rfl⟩,
    ".sys".toList, by decide, r"c:\windows\system32\drivers\vgk".toList, by decide⟩

/-- A driver below the system root, with the kernel's own word for the root and with arguments. -/
def vgkSpelling : Spelling r"C:\Windows".toList r"C:\WINDOWS\System32\drivers\vgk.sys".toList where
  base := r"C:\WINDOWS\".toList
  written := r"\SYSTEMROOT\".toList
  body := r"System32\drivers\vgk.sys".toList
  file_eq := rfl
  front := .systemRoot
    (show eqIgnoreAsciiCase r"C:\WINDOWS".toList r"C:\Windows".toList = true by decide) (by decide)
  quoted := false
  arguments := " -k boot".toList
  separated := .inr (.inr ⟨"-k boot".toList, rfl⟩)

/-- It is read, so nothing inside its path ends it. -/
theorem recovers_vgk : vgkSpelling.Recovers ∧ vgkSpelling.EndsLast := by
  have hread : vgkSpelling.Recovers :=
    ⟨r"C:\Windows\System32\drivers\vgk.sys".toList, by decide +kernel,
      .inr ⟨r"C:\WINDOWS".toList, r"System32\drivers\vgk.sys".toList, rfl, by decide, rfl⟩⟩
  exact ⟨hread, (vgkSpelling.recovers_iff isImagePath_vgk).mp hread⟩

/-- A driver in a directory whose name holds an extension, written without quotes. -/
def guardSpelling : Spelling r"C:\Windows".toList r"C:\Games\Guard.System\guard.sys".toList where
  base := r"C:\".toList
  written := r"C:\".toList
  body := r"Games\Guard.System\guard.sys".toList
  file_eq := rfl
  front := .plain (by decide)
  quoted := false
  arguments := []
  separated := .inr (.inl rfl)

/-- Another file is read than the one that is registered. -/
theorem not_recovers_guard :
    IsImagePath r"C:\Games\Guard.System\guard.sys".toList ∧
      imageFile guardSpelling.text r"C:\Windows".toList = some r"C:\Games\Guard.Sys".toList ∧
      ¬ guardSpelling.Recovers := by
  have hread : imageFile guardSpelling.text r"C:\Windows".toList =
      some r"C:\Games\Guard.Sys".toList := by decide +kernel
  refine ⟨⟨⟨'C', r"Games\Guard.System\guard.sys".toList, by decide, rfl⟩, ".sys".toList, by decide,
    r"c:\games\guard.system\guard".toList, by decide⟩, hread, ?_⟩
  intro hrecovers
  obtain ⟨image, himage, hsame⟩ := hrecovers
  rw [hread] at himage
  obtain rfl := Option.some.inj himage
  have hlength : r"C:\Games\Guard.Sys".toList.length ≠
      r"C:\Games\Guard.System\guard.sys".toList.length := by decide
  rcases hsame with hfile | ⟨root, below, hfile, hroot, himage⟩
  · exact hlength (congrArg List.length hfile)
  · apply hlength
    rw [himage, hfile, List.length_append, List.length_append,
      length_eq_of_eqIgnoreAsciiCase hroot]

end WardSweep.Scan
