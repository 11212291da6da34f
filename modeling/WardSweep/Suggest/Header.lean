import WardSweep.Ordered.Filling
import WardSweep.Rust.Joined
import WardSweep.Suggest.Draft

/-!
# The header of a draft

A draft is written as TOML with its notes as comments above the entry.  The notes are wrapped and
cannot end their comment, but a publisher's name is written as it is.
-/

namespace WardSweep.Suggest

open Utf8 Str Schema

/-! ## Wrapping -/

/-- `str::split_whitespace`. -/
def splitWhitespace (text : Text) : List Text :=
  (text.splitOnP isWhitespace).filter fun word ↦ !word.isEmpty

/-- The lines that are done and the one that is filled. -/
structure Wrapping where
  lines : List Text
  current : Text

/-- What one more word makes of the lines. -/
def Wrapping.push (width : ℕ) (wrapping : Wrapping) (word : Text) : Wrapping :=
  let broken : Wrapping :=
    if !wrapping.current.isEmpty && width < byteLen wrapping.current + 1 + byteLen word then
      ⟨wrapping.lines ++ [wrapping.current], []⟩
    else wrapping
  { broken with
    current := (if broken.current.isEmpty then broken.current else broken.current ++ [' ']) ++
      word }

def Wrapping.done (wrapping : Wrapping) : List Text :=
  if wrapping.current.isEmpty then wrapping.lines else wrapping.lines ++ [wrapping.current]

/-- Wrap a note so the header stays readable. -/
def wrap (text : Text) (width : ℕ) : List Text :=
  ((splitWhitespace text).foldl (Wrapping.push width) ⟨[], []⟩).done

/-! ## Lines of words -/

/-- The words of a line with a space between them. -/
def unwords (line : List Text) : Text := [' '].intercalate line

theorem byteLen_unwords (line : List Text) :
    byteLen (unwords line) = Filling.extent byteLen line := by
  induction line with
  | nil => rfl
  | cons word line ih =>
    cases line with
    | nil => simp [unwords, Filling.extent]
    | cons next line =>
      have hspace : byteLen [' '] = 1 := rfl
      rw [unwords, List.intercalate_cons_cons, byteLen_append, byteLen_append, ← unwords,
        ih, hspace]
      simp only [Filling.extent, List.map_cons, List.sum_cons, List.length_cons]
      omega

theorem isEmpty_unwords {line : List Text} (h : ∀ word ∈ line, word ≠ []) :
    (unwords line).isEmpty = line.isEmpty := by
  rw [Bool.eq_iff_iff, List.isEmpty_iff, List.isEmpty_iff]
  exact Joined.intercalate_eq_nil_iff h

theorem unwords_concat {line : List Text} (h : ∀ word ∈ line, word ≠ []) (word : Text) :
    unwords (line ++ [word]) =
      (if (unwords line).isEmpty then unwords line else unwords line ++ [' ']) ++ word := by
  rw [isEmpty_unwords h]
  split_ifs with hline
  · rw [List.isEmpty_iff.mp hline]
    simp [unwords]
  · exact Joined.intercalate_concat (fun hnil ↦ hline (List.isEmpty_iff.mpr hnil)) word

theorem push_of_full {width : ℕ} {current word : Text}
    (h : !current.isEmpty && width < byteLen current + 1 + byteLen word) (lines : List Text) :
    (⟨lines, current⟩ : Wrapping).push width word = ⟨lines ++ [current], word⟩ := by
  rw [Wrapping.push]
  dsimp only
  rw [if_pos h]
  rfl

theorem push_of_room {width : ℕ} {current word : Text}
    (h : ¬ (!current.isEmpty && width < byteLen current + 1 + byteLen word)) (lines : List Text) :
    (⟨lines, current⟩ : Wrapping).push width word =
      ⟨lines, (if current.isEmpty then current else current ++ [' ']) ++ word⟩ := by
  rw [Wrapping.push]
  dsimp only
  rw [if_neg h]

/-- Wrapping fills lines with words. -/
theorem done_foldl_push {width : ℕ} {line words : List Text} (lines : List Text)
    (hline : ∀ word ∈ line, word ≠ []) (hwords : ∀ word ∈ words, word ≠ []) :
    (words.foldl (Wrapping.push width) ⟨lines, unwords line⟩).done =
      lines ++ (Filling.fillFrom byteLen width line words).map unwords := by
  induction words generalizing lines line with
  | nil =>
    rw [List.foldl_nil, Wrapping.done, isEmpty_unwords hline, Filling.fillFrom]
    split_ifs with hempty <;> simp
  | cons word words ih =>
    rw [List.forall_mem_cons] at hwords
    have hone : ∀ other ∈ [word], other ≠ [] := by simpa using hwords.1
    have hcondition :
        (!(unwords line).isEmpty && width < byteLen (unwords line) + 1 + byteLen word) =
          (!line.isEmpty && width < Filling.extent byteLen line + 1 + byteLen word) := by
      rw [isEmpty_unwords hline, byteLen_unwords]
    rw [List.foldl_cons, Filling.fillFrom, ← hcondition]
    split_ifs with hfull
    · have hword : unwords [word] = word := List.intercalate_singleton
      have hrest := ih (lines ++ [unwords line]) hone hwords.2
      rw [hword] at hrest
      rw [push_of_full hfull, hrest, List.map_cons, List.append_assoc, List.singleton_append]
    · rw [push_of_room hfull, ← unwords_concat hline]
      refine ih lines ?_ hwords.2
      rw [List.forall_mem_append]
      exact ⟨hline, hone⟩

theorem ne_nil_of_mem_splitWhitespace {text word : Text} (h : word ∈ splitWhitespace text) :
    word ≠ [] := by
  simpa using (List.mem_filter.mp h).2

theorem wrap_eq (text : Text) (width : ℕ) :
    wrap text width = (Filling.fill byteLen width (splitWhitespace text)).map unwords := by
  rw [wrap, Filling.fill, ← List.nil_append (List.map _ _)]
  exact done_foldl_push [] (List.forall_mem_nil _) fun word ↦ ne_nil_of_mem_splitWhitespace

/-- The words of a text put on lines that are no longer than the width, but for a line of one
word. -/
structure Wraps (width : ℕ) (text : Text) (lines : List (List Text)) : Prop where
  words : lines.flatten = splitWhitespace text
  nonempty : ∀ line ∈ lines, line ≠ []
  fits : ∀ line ∈ lines, byteLen (unwords line) ≤ width ∨ line.length = 1

theorem wraps_iff_layout {width : ℕ} {text : Text} {lines : List (List Text)} :
    Wraps width text lines ↔ Filling.Layout byteLen width (splitWhitespace text) lines := by
  constructor
  · rintro ⟨hwords, hnonempty, hfits⟩
    refine ⟨hwords, hnonempty, fun line hline ↦ ?_⟩
    rw [Filling.Fits, ← byteLen_unwords]
    exact hfits line hline
  · rintro ⟨hwords, hnonempty, hfits⟩
    refine ⟨hwords, hnonempty, fun line hline ↦ ?_⟩
    rw [byteLen_unwords]
    exact hfits line hline

/-- A note is wrapped with its words in their order, none lost, in lines that are no longer than
they must be, and with no more lines than are needed. -/
theorem wrap_fewest (text : Text) (width : ℕ) :
    (∃ lines, Wraps width text lines ∧ wrap text width = lines.map unwords) ∧
      ∀ lines, Wraps width text lines → (wrap text width).length ≤ lines.length := by
  constructor
  · exact ⟨_, wraps_iff_layout.mpr (Filling.layout_fill _), wrap_eq text width⟩
  · intro lines hlines
    rw [wrap_eq, List.length_map]
    exact Filling.length_fill_le (wraps_iff_layout.mp hlines)

/-! ## The header -/

/-- A number with spaces before it up to a width. -/
def rightAligned (width n : ℕ) : Text :=
  List.replicate (width - (decimal n).length) ' ' ++ decimal n

/-- One `writeln!`. -/
def writeln (text : Text) : Text := text ++ ['\n']

/-- The lines of a note: the first begins with a dash. -/
def noteLines (note : Text) : List Text :=
  (wrap note 74).zipIdx.map fun line ↦
    "#   ".toList ++ (if line.2 = 0 then "- ".toList else "  ".toList) ++ line.1

/-- What is said of a publisher. -/
def signerLine (signer : Text × ℕ) : Text :=
  "#   ".toList ++ rightAligned 5 signer.2 ++ " file(s)  ".toList ++ signer.1

/-- What is written above the entry. -/
def header (draft : Draft) (generatedUtc : Text) : List Text :=
  ["# DRAFT — generated ".toList ++ generatedUtc,
    "# REVIEW EVERY FIELD BEFORE SUBMITTING.".toList,
    "#".toList,
    "# This is a hypothesis produced from an observation diff, not an entry.".toList,
    "# CONTRIBUTING.md rejects entries that are not derived from a diff; it does".toList,
    "# not accept one that was derived from a diff and never read.".toList,
    "#".toList] ++
  (if draft.signers.isEmpty then []
    else "# Publishers seen in this diff:".toList :: draft.signers.map signerLine ++
      ["#".toList]) ++
  "# Before submitting:".toList :: draft.review.flatMap noteLines

/-- The draft as TOML, with what the serialiser makes of the entry below the header. -/
def toToml (toStringPretty : AntiCheat → Except Text Text) (draft : Draft) (generatedUtc : Text) :
    Except Text Text :=
  (toStringPretty draft.entry).map fun body ↦
    (header draft generatedUtc).flatMap writeln ++ '\n' :: body

/-! ## What is no comment -/

/-- The lines of a text that are no comments. -/
def entryLines (text : Text) : List Text :=
  (text.splitOn '\n').filter fun line ↦ line.head? != some '#'

/-- Whatever a text goes on with on another line is a comment too. -/
def StaysComment (text : Text) : Prop :=
  ∀ line ∈ (text.splitOn '\n').tail, line.head? = some '#'

theorem splitOn_flatMap_writeln (lines : List Text) (rest : Text) :
    (lines.flatMap writeln ++ rest).splitOn '\n' =
      lines.flatMap (·.splitOn '\n') ++ rest.splitOn '\n' := by
  induction lines with
  | nil => rfl
  | cons line lines ih =>
    rw [List.flatMap_cons, writeln, List.append_assoc, List.append_assoc, List.singleton_append,
      List.splitOn_append_cons_self, ih, List.flatMap_cons, List.append_assoc]

theorem entryLines_flatMap_writeln (lines : List Text) (rest : Text) :
    entryLines (lines.flatMap writeln ++ rest) =
      lines.flatMap (fun line ↦ entryLines line) ++ entryLines rest := by
  rw [entryLines, splitOn_flatMap_writeln, List.filter_append, List.filter_flatMap]
  rfl

theorem splitOn_append_of_not_mem {lead : Text} (h : '\n' ∉ lead) (text : Text) :
    (lead ++ text).splitOn '\n' = (text.splitOn '\n').modifyHead (lead ++ ·) := by
  induction lead with
  | nil =>
    rw [List.nil_append]
    cases text.splitOn '\n' <;> rfl
  | cons c lead ih =>
    rw [List.mem_cons, not_or] at h
    rw [List.cons_append, List.splitOn_cons_eq_if_modifyHead, if_neg (by simpa using Ne.symm h.1),
      ih h.2, List.modifyHead_modifyHead]
    rfl

/-- A line that begins as a comment is one to its end as long as what is appended stays in it. -/
theorem entryLines_comment {lead text : Text} (hlead : '\n' ∉ lead)
    (hmark : lead.head? = some '#') :
    entryLines (lead ++ text) = [] ↔ StaysComment text := by
  obtain ⟨first, tail, hsplit⟩ := List.exists_cons_of_ne_nil (List.splitOn_ne_nil '\n' text)
  rw [entryLines, splitOn_append_of_not_mem hlead, StaysComment, hsplit, List.modifyHead_cons,
    List.tail_cons, List.filter_cons_of_neg (by simp [List.head?_append, hmark]),
    List.filter_eq_nil_iff]
  simp

theorem staysComment_of_not_mem {text : Text} (h : '\n' ∉ text) : StaysComment text := by
  rw [StaysComment, List.splitOn_eq_singleton h]
  exact List.forall_mem_nil _

theorem not_isWhitespace_of_mem_word {text word : Text}
    (hword : word ∈ splitWhitespace text) {c : Char}
    (hc : c ∈ word) : isWhitespace c = false := by
  have hpart := (List.mem_filter.mp hword).1
  clear hword
  induction text generalizing word with
  | nil => simp_all
  | cons first text ih =>
    rw [List.splitOnP_cons_eq_if_modifyHead] at hpart
    split_ifs at hpart with hblank
    · rcases List.mem_cons.mp hpart with rfl | hrest
      · cases hc
      · exact ih hc hrest
    · obtain ⟨part, parts, hsplit⟩ :=
        List.exists_cons_of_ne_nil (List.splitOnP_ne_nil isWhitespace text)
      rw [hsplit, List.modifyHead_cons] at hpart
      rcases List.mem_cons.mp hpart with rfl | hrest
      · rcases List.mem_cons.mp hc with rfl | hc
        · exact Bool.not_eq_true _ ▸ hblank
        · exact ih hc (hsplit ▸ List.mem_cons_self)
      · exact ih hc (hsplit ▸ List.mem_cons_of_mem _ hrest)

theorem not_mem_wrap {text line : Text} {width : ℕ} (h : line ∈ wrap text width) : '\n' ∉ line := by
  rw [wrap_eq, List.mem_map] at h
  obtain ⟨words, hwords, rfl⟩ := h
  intro hc
  rcases Joined.mem_of_mem_intercalate hc with hspace | ⟨word, hword, hc⟩
  · exact absurd hspace (by decide)
  · have hlisted : word ∈ splitWhitespace text := by
      rw [← (@Filling.layout_fill _ byteLen width (splitWhitespace text)).flatten]
      exact List.mem_flatten.mpr ⟨words, hwords, hword⟩
    exact absurd (not_isWhitespace_of_mem_word hlisted hc) (by decide)

theorem entryLines_noteLines (note : Text) {line : Text} (h : line ∈ noteLines note) :
    entryLines line = [] := by
  obtain ⟨⟨wrapped, index⟩, hwrapped, rfl⟩ := List.mem_map.mp h
  have hline := not_mem_wrap (List.fst_mem_of_mem_zipIdx hwrapped)
  refine (entryLines_comment ?_ ?_).mpr (staysComment_of_not_mem hline)
  · dsimp only
    split_ifs <;> decide
  · rfl

theorem not_mem_rightAligned (width n : ℕ) : '\n' ∉ rightAligned width n := by
  rw [rightAligned, List.mem_append, not_or]
  constructor
  · exact fun h ↦ absurd (List.eq_of_mem_replicate h) (by decide)
  · exact fun h ↦ absurd (Nat.isDigit_of_mem_toDigits (by decide) (by decide) h) (by decide)

theorem entryLines_signerLine (signer : Text × ℕ) :
    entryLines (signerLine signer) = [] ↔ StaysComment signer.1 := by
  refine entryLines_comment ?_ rfl
  rw [List.mem_append, List.mem_append, not_or, not_or]
  exact ⟨⟨by decide, not_mem_rightAligned 5 signer.2⟩, by decide⟩

/-- The header is a comment exactly when neither the time nor a publisher's name ends one. -/
theorem entryLines_header_iff (draft : Draft) (generatedUtc : Text) :
    (∀ line ∈ header draft generatedUtc, entryLines line = []) ↔
      StaysComment generatedUtc ∧ ∀ signer ∈ draft.signers, StaysComment signer.1 := by
  have htitle : entryLines ("# DRAFT — generated ".toList ++ generatedUtc) = [] ↔
      StaysComment generatedUtc := entryLines_comment (by decide) rfl
  have hfixed : ∀ line ∈ ["# REVIEW EVERY FIELD BEFORE SUBMITTING.".toList,
      "#".toList, "# This is a hypothesis produced from an observation diff, not an entry.".toList,
      "# CONTRIBUTING.md rejects entries that are not derived from a diff; it does".toList,
      "# not accept one that was derived from a diff and never read.".toList, "#".toList],
      entryLines line = [] := by decide
  have hnotes : ∀ line ∈ "# Before submitting:".toList :: draft.review.flatMap noteLines,
      entryLines line = [] := by
    rw [List.forall_mem_cons]
    refine ⟨by decide, fun line hline ↦ ?_⟩
    obtain ⟨note, -, hnote⟩ := List.mem_flatMap.mp hline
    exact entryLines_noteLines note hnote
  have hsigners : (∀ line ∈ (if draft.signers.isEmpty then []
      else "# Publishers seen in this diff:".toList :: draft.signers.map signerLine ++
        ["#".toList]),
      entryLines line = []) ↔ ∀ signer ∈ draft.signers, StaysComment signer.1 := by
    split_ifs with hempty
    · rw [List.isEmpty_iff.mp hempty]
      simp
    · rw [List.forall_mem_append, List.forall_mem_cons, List.forall_mem_map]
      simp only [entryLines_signerLine]
      constructor
      · exact fun h ↦ h.1.2
      · exact fun h ↦ ⟨⟨by decide, h⟩, by decide⟩
  rw [header, List.forall_mem_append, List.forall_mem_append, List.forall_mem_cons,
    htitle, hsigners]
  constructor
  · exact fun h ↦ ⟨h.1.1.1, h.1.2⟩
  · exact fun h ↦ ⟨⟨⟨h.1, hfixed⟩, h.2⟩, hnotes⟩

/-- Besides its comments a draft is its entry, exactly when whatever follows a line break in the
time or in a publisher's name is marked as a comment. -/
theorem entryLines_toToml_iff {toStringPretty : AntiCheat → Except Text Text} {draft : Draft}
    {generatedUtc text body : Text} (hbody : toStringPretty draft.entry = .ok body)
    (h : toToml toStringPretty draft generatedUtc = .ok text) :
    entryLines text = [] :: entryLines body ↔
      StaysComment generatedUtc ∧ ∀ signer ∈ draft.signers, StaysComment signer.1 := by
  rw [toToml, hbody] at h
  obtain rfl := Except.ok.inj h
  have hblank : entryLines ('\n' :: body) = [] :: entryLines body := by
    rw [entryLines, ← List.nil_append (_ :: _), List.splitOn_append_cons_self, List.filter_append]
    rfl
  rw [entryLines_flatMap_writeln, hblank, List.append_left_eq_self, List.flatMap_eq_nil_iff,
    entryLines_header_iff]

/-! ## A publisher whose name ends its comment -/

def sampleEntry : AntiCheat where
  id := "REVIEW-me".toList
  display := "REVIEW: Acme".toList
  vendor := none
  kind := .usermode
  shared := true
  sharedEvidence := none
  risk := .medium
  authenticodeCn := []
  fileHashes := []
  services := []
  drivers := []
  paths := []
  registry := []
  tasks := []
  firewallRules := []
  eventSources := []
  officialUninstall := none

/-- The entry as it is serialised. -/
def sampleBody : Text :=
  (["[[anticheat]]", "id = \"REVIEW-me\"", "display = \"REVIEW: Acme\"", "kind = \"usermode\"",
    "shared = true", "risk = \"medium\"", "authenticode_cn = []", "file_hashes = []",
    "services = []",
    "drivers = []", "paths = []", "registry = []", "tasks = []", "firewall_rules = []",
    "event_sources = []"].map String.toList).flatMap writeln

def samplePretty (_ : AntiCheat) : Except Text Text := .ok sampleBody

def sampleDraft : Draft where
  entry := sampleEntry
  signers := [("Acme\nrisk = 0".toList, 3)]
  review := ["confirm the start type rather than assuming this one generalises.".toList]

theorem entryLines_toToml_sample :
    ∃ text, toToml samplePretty sampleDraft "2026-10-09T18:10:13.637Z".toList = .ok text ∧
      (entryLines text = [] :: entryLines sampleBody ↔
        StaysComment "2026-10-09T18:10:13.637Z".toList ∧
          ∀ signer ∈ sampleDraft.signers, StaysComment signer.1) :=
  ⟨_, rfl, @entryLines_toToml_iff samplePretty _ _ _ _ rfl rfl⟩

end WardSweep.Suggest
