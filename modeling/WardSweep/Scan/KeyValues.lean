import WardSweep.Scan.Libraries

/-!
# Valve's key-values text

The text format of Steam's library list: quoted and bare strings, braces and comments.  A tokenizer
feeds a parser that calls itself for each block.
-/

namespace WardSweep.Libraries

open Utf8 Str

/-- A value in Valve's key-values text format. -/
inductive Value where
  | text (text : Text)
  | block (entries : List (Text × Value))

inductive Token where
  | text (text : Text)
  | opens
  | closes
  deriving DecidableEq, Repr

/-- What holds of the value of every entry of a block holds of the block. -/
@[elab_as_elim]
theorem Value.induct {motive : Value → Prop} (text : ∀ text, motive (.text text))
    (block : ∀ entries, (∀ entry ∈ entries, motive entry.2) → motive (.block entries))
    (value : Value) : motive value := by
  apply @Value.rec motive (fun entries ↦ ∀ entry ∈ entries, motive entry.2)
    (fun entry ↦ motive entry.2) text block
  · exact fun entry hentry ↦ absurd hentry List.not_mem_nil
  · intro first rest hfirst hrest entry hentry
    cases hentry with
    | head => exact hfirst
    | tail _ hentry => exact hrest entry hentry
  · exact fun _ _ hvalue ↦ hvalue

/-! ## Tokens -/

/-- What a backslash before a character means inside quotes. -/
def unescape : Char → Char
  | 'n' => '\n'
  | 't' => '\t'
  | escaped => escaped

/-- The value of a quoted string, behind its opening quote, and what follows the closing one. -/
def quoted : Text → Option (Text × Text)
  | [] => none
  | '"' :: rest => some ([], rest)
  | ['\\'] => none
  | '\\' :: escaped :: rest => (quoted rest).map fun read ↦ (unescape escaped :: read.1, read.2)
  | other :: rest => (quoted rest).map fun read ↦ (other :: read.1, read.2)

/-- A character that no bare string goes on with. -/
def endsBare (c : Char) : Bool := isWhitespace c || c == '{' || c == '}' || c == '"'

/-- One turn of the tokenizer's loop: what it pushes, and the rest. -/
def lexeme (first : Char) (rest : Text) : Except Text (List Token × Text) :=
  match first with
  | '{' => .ok ([.opens], rest)
  | '}' => .ok ([.closes], rest)
  | '"' =>
    match quoted rest with
    | some (value, rest) => .ok ([.text value], rest)
    | none => .error "unterminated string".toList
  | first =>
    if first = '/' ∧ rest.head? = some '/' then .ok ([], (rest.dropWhile (· != '\n')).drop 1)
    else if isWhitespace first then .ok ([], rest)
    else .ok ([.text (first :: rest.takeWhile fun c ↦ !endsBare c)],
      rest.dropWhile fun c ↦ !endsBare c)

theorem length_quoted {text value rest : Text} (h : quoted text = some (value, rest)) :
    rest.length ≤ text.length := by
  fun_induction quoted text generalizing value with
  | case1 => cases h
  | case2 tail =>
    obtain ⟨-, rfl⟩ := Prod.mk.inj (Option.some.inj h)
    exact Nat.le_succ _
  | case3 => cases h
  | case4 escaped tail ih =>
    obtain ⟨read, hread, hparts⟩ := Option.map_eq_some_iff.mp h
    obtain ⟨-, rfl⟩ := Prod.mk.inj hparts
    have hle := ih hread
    simp only [List.length_cons]
    omega
  | case5 other tail _ _ _ ih =>
    obtain ⟨read, hread, hparts⟩ := Option.map_eq_some_iff.mp h
    obtain ⟨-, rfl⟩ := Prod.mk.inj hparts
    have hle := ih hread
    simp only [List.length_cons]
    omega

theorem length_lexeme {first : Char} {rest rest' : Text} {tokens : List Token}
    (h : lexeme first rest = .ok (tokens, rest')) : rest'.length ≤ rest.length := by
  unfold lexeme at h
  split at h
  · obtain ⟨-, rfl⟩ := Prod.mk.inj (Except.ok.inj h)
    exact le_rfl
  · obtain ⟨-, rfl⟩ := Prod.mk.inj (Except.ok.inj h)
    exact le_rfl
  · split at h
    · next value after hquoted =>
      obtain ⟨-, rfl⟩ := Prod.mk.inj (Except.ok.inj h)
      exact length_quoted hquoted
    · cases h
  · split_ifs at h
    · obtain ⟨-, rfl⟩ := Prod.mk.inj (Except.ok.inj h)
      rw [List.length_drop]
      exact (Nat.sub_le _ _).trans (List.dropWhile_suffix _).length_le
    · obtain ⟨-, rfl⟩ := Prod.mk.inj (Except.ok.inj h)
      exact le_rfl
    · obtain ⟨-, rfl⟩ := Prod.mk.inj (Except.ok.inj h)
      exact (List.dropWhile_suffix _).length_le

def tokenise : Text → Except Text (List Token)
  | [] => .ok []
  | first :: rest =>
    match _h : lexeme first rest with
    | .ok (tokens, rest') => (tokenise rest').map (tokens ++ ·)
    | .error error => .error error
termination_by text => text.length
decreasing_by exact Nat.lt_succ_of_le (length_lexeme _h)

/-! ## Entries -/

/-- What the parser has read of some tokens, and what it has not. -/
structure Parsed (tokens : List Token) where
  entries : List (Text × Value)
  rest : List Token
  length_le : rest.length ≤ tokens.length

/-- What is left after a block and the entries behind it is shorter than what the block opens. -/
theorem length_block_le {key : Text} {rest after rest' : List Token}
    (hblock : (Token.closes :: after).length ≤ rest.length) (hmore : rest'.length ≤ after.length) :
    rest'.length ≤ (Token.text key :: Token.opens :: rest).length := by
  simp only [List.length_cons] at hblock ⊢
  omega

theorem length_lt_pair (first second : Token) (rest : List Token) :
    rest.length < (first :: second :: rest).length := by
  simp only [List.length_cons]
  omega

theorem length_lt_block {key : Text} {rest after : List Token}
    (hblock : (Token.closes :: after).length ≤ rest.length) :
    after.length < (Token.text key :: Token.opens :: rest).length := by
  simp only [List.length_cons] at hblock ⊢
  omega

/-- Entries up to a closing brace or the end. -/
def entries : (tokens : List Token) → Except Text (Parsed tokens)
  | [] => .ok ⟨[], [], le_rfl⟩
  | .closes :: rest => .ok ⟨[], .closes :: rest, le_rfl⟩
  | .opens :: _ => .error "a block with no key".toList
  | .text key :: .text text :: rest =>
    match entries rest with
    | .ok ⟨more, rest', hle⟩ => .ok ⟨(key, .text text) :: more, rest', Nat.le_add_right_of_le
        (Nat.le_add_right_of_le hle)⟩
    | .error error => .error error
  | .text key :: .opens :: rest =>
    match entries rest with
    | .ok ⟨inner, .closes :: after, hle⟩ =>
      match entries after with
      | .ok ⟨more, rest', hle'⟩ =>
          .ok ⟨(key, .block inner) :: more, rest', length_block_le hle hle'⟩
      | .error error => .error error
    | .ok _ => .error ("`".toList ++ key ++ "` is never closed".toList)
    | .error error => .error error
  | .text key :: .closes :: _ => .error ("`".toList ++ key ++ "` has no value".toList)
  | [.text key] => .error ("`".toList ++ key ++ "` has no value".toList)
termination_by tokens => tokens.length
decreasing_by
  · exact length_lt_pair _ _ rest
  · exact length_lt_pair _ _ rest
  · exact length_lt_block hle

/-- Parse key-values text into its top-level entries. -/
def keyValues (text : Text) : Except Text (List (Text × Value)) := do
  let tokens ← tokenise text
  let parsed ← entries tokens
  if parsed.rest = [] then .ok parsed.entries else .error "unbalanced `\x7d`".toList

/-! ## The lexical grammar -/

/-- The characters between two quotes and the value they spell: a quote or a backslash stands only
behind a backslash. -/
inductive Spells : Text → Text → Prop
  | empty : Spells [] []
  | plain {c : Char} {body value : Text} (hquote : c ≠ '"') (hback : c ≠ '\\')
    (more : Spells body value) : Spells (c :: body) (c :: value)
  | escaped {c : Char} {body value : Text} (more : Spells body value) :
    Spells ('\\' :: c :: body) (unescape c :: value)

/-- No closing quote follows. -/
def IsOpen (text : Text) : Prop :=
  ∀ body value rest, Spells body value → text ≠ body ++ '"' :: rest

/-- Reading lexeme by lexeme, a text gives some tokens before a rest of it. -/
inductive Scanned : Text → List Token → Text → Prop
  | start {text : Text} : Scanned text [] text
  | opens {text rest : Text} {tokens : List Token} (more : Scanned text tokens rest) :
    Scanned ('{' :: text) (.opens :: tokens) rest
  | closes {text rest : Text} {tokens : List Token} (more : Scanned text tokens rest) :
    Scanned ('}' :: text) (.closes :: tokens) rest
  | string {body value text rest : Text} {tokens : List Token} (spells : Spells body value)
    (more : Scanned text tokens rest) :
    Scanned ('"' :: (body ++ '"' :: text)) (.text value :: tokens) rest
  | comment {body text rest : Text} {tokens : List Token} (line : '\n' ∉ body)
    (more : Scanned text tokens rest) :
    Scanned ('/' :: '/' :: (body ++ '\n' :: text)) tokens rest
  | lastComment {body : Text} (line : '\n' ∉ body) : Scanned ('/' :: '/' :: body) [] []
  | blank {c : Char} {text rest : Text} {tokens : List Token} (isBlank : isWhitespace c = true)
    (more : Scanned text tokens rest) : Scanned (c :: text) tokens rest
  | bare {c : Char} {word text rest : Text} {tokens : List Token}
    (inside : ∀ d ∈ c :: word, endsBare d = false) (noComment : ¬ (c = '/' ∧ word.head? = some '/'))
    (ends : ∀ d ∈ text.head?, endsBare d = true) (more : Scanned text tokens rest) :
    Scanned (c :: (word ++ text)) (.text (c :: word) :: tokens) rest

theorem quoted_of_spells {body value : Text} (h : Spells body value) (rest : Text) :
    quoted (body ++ '"' :: rest) = some (value, rest) := by
  induction h with
  | empty => rfl
  | @plain c body value hquote hback _ ih =>
    rw [List.cons_append, quoted, ih, Option.map_some]
    · exact hquote
    · rintro rfl
      exact absurd rfl hback
    · rintro _ _ rfl
      exact absurd rfl hback
  | @escaped c body value _ ih =>
    rw [List.cons_append, List.cons_append, quoted, ih, Option.map_some]

theorem exists_spells_of_quoted {text value rest : Text} (h : quoted text = some (value, rest)) :
    ∃ body, Spells body value ∧ text = body ++ '"' :: rest := by
  fun_induction quoted text generalizing value with
  | case1 => cases h
  | case2 tail =>
    obtain ⟨rfl, rfl⟩ := Prod.mk.inj (Option.some.inj h)
    exact ⟨[], .empty, rfl⟩
  | case3 => cases h
  | case4 escaped tail ih =>
    obtain ⟨read, hread, hparts⟩ := Option.map_eq_some_iff.mp h
    obtain ⟨rfl, rfl⟩ := Prod.mk.inj hparts
    obtain ⟨body, hspells, rfl⟩ := ih hread
    exact ⟨_, .escaped hspells, rfl⟩
  | case5 other tail hquote hlast hback ih =>
    obtain ⟨read, hread, hparts⟩ := Option.map_eq_some_iff.mp h
    obtain ⟨rfl, rfl⟩ := Prod.mk.inj hparts
    obtain ⟨body, hspells, rfl⟩ := ih hread
    refine ⟨other :: body, .plain hquote ?_ hspells, rfl⟩
    rintro rfl
    cases body with
    | nil => exact hback _ _ rfl rfl
    | cons c body => exact hback _ _ rfl rfl

theorem quoted_eq_none_iff {text : Text} : quoted text = none ↔ IsOpen text := by
  constructor
  · rintro h body value rest hspells rfl
    rw [quoted_of_spells hspells] at h
    cases h
  · intro h
    cases hread : quoted text with
    | none => rfl
    | some read =>
      obtain ⟨body, hspells, htext⟩ := exists_spells_of_quoted hread
      exact absurd htext (h body read.1 read.2 hspells)

theorem Scanned.of_nil {tokens : List Token} {rest : Text} (h : Scanned [] tokens rest) :
    tokens = [] ∧ rest = [] := by
  cases h
  exact ⟨rfl, rfl⟩

/-- What the tokenizer reads in one turn is read by the grammar. -/
theorem scanned_of_lexeme {first : Char} {text text' rest : Text} {tokens more : List Token}
    (h : lexeme first text = .ok (tokens, text')) (hmore : Scanned text' more rest) :
    Scanned (first :: text) (tokens ++ more) rest := by
  unfold lexeme at h
  split at h
  · obtain ⟨rfl, rfl⟩ := Prod.mk.inj (Except.ok.inj h)
    exact .opens hmore
  · obtain ⟨rfl, rfl⟩ := Prod.mk.inj (Except.ok.inj h)
    exact .closes hmore
  · split at h
    · next value after hquoted =>
      obtain ⟨rfl, rfl⟩ := Prod.mk.inj (Except.ok.inj h)
      obtain ⟨body, hspells, rfl⟩ := exists_spells_of_quoted hquoted
      exact .string hspells hmore
    · cases h
  · next hopens hcloses hquote =>
    have hends : endsBare first = isWhitespace first := by
      rw [endsBare, beq_eq_false_iff_ne.mpr hopens, beq_eq_false_iff_ne.mpr hcloses,
        beq_eq_false_iff_ne.mpr hquote, Bool.or_false, Bool.or_false, Bool.or_false]
    split_ifs at h with hcomment hblank
    · obtain ⟨rfl, rfl⟩ := Prod.mk.inj (Except.ok.inj h)
      obtain ⟨rfl, hslash⟩ := hcomment
      obtain ⟨body, rfl⟩ := List.head?_eq_some_iff.mp hslash
      rw [List.dropWhile_cons_of_pos (by decide)] at hmore
      by_cases hline : '\n' ∈ body
      · obtain ⟨line, after, rfl, hnone⟩ := List.eq_append_cons_of_mem hline
        have hdrop : (line ++ '\n' :: after).dropWhile (· != '\n') = '\n' :: after := by
          rw [List.dropWhile_append_of_pos, List.dropWhile_cons_of_neg (by decide)]
          intro c hc
          rw [bne_iff_ne]
          rintro rfl
          exact hnone hc
        rw [hdrop] at hmore
        exact .comment hnone hmore
      · have hdrop : body.dropWhile (· != '\n') = [] := by
          rw [List.dropWhile_eq_nil_iff]
          intro c hc
          rw [bne_iff_ne]
          rintro rfl
          exact hline hc
        rw [hdrop] at hmore
        obtain ⟨rfl, rfl⟩ := hmore.of_nil
        exact .lastComment hline
    · obtain ⟨rfl, rfl⟩ := Prod.mk.inj (Except.ok.inj h)
      exact .blank hblank hmore
    · obtain ⟨rfl, rfl⟩ := Prod.mk.inj (Except.ok.inj h)
      have htext : first :: text = first :: (text.takeWhile (fun c ↦ !endsBare c) ++
          text.dropWhile fun c ↦ !endsBare c) := by
        rw [List.takeWhile_append_dropWhile]
      rw [htext]
      refine .bare ?_ ?_ ?_ hmore
      · rw [List.forall_mem_cons, hends, Bool.eq_false_iff.mpr hblank]
        refine ⟨rfl, fun c hc ↦ ?_⟩
        simpa using List.mem_takeWhile_imp hc
      · rintro ⟨rfl, hhead⟩
        refine hcomment ⟨rfl, ?_⟩
        cases text with
        | nil => cases hhead
        | cons c text =>
          rw [List.takeWhile_cons] at hhead
          split at hhead
          · exact hhead
          · cases hhead
      · intro c hc
        have hnot := List.head?_dropWhile_not (fun c ↦ !endsBare c) text
        rw [Option.mem_def.mp hc] at hnot
        simpa using hnot

theorem lexeme_eq_error_iff {first : Char} {text error : Text} :
    lexeme first text = .error error ↔
      first = '"' ∧ IsOpen text ∧ error = "unterminated string".toList := by
  unfold lexeme
  split
  · simp
  · simp
  · rw [← quoted_eq_none_iff]
    cases quoted text with
    | some read => simp
    | none => simp [eq_comm]
  · next hquote => split_ifs <;> exact iff_of_false (fun h ↦ nomatch h) fun h ↦ hquote h.1

theorem lexeme_bare {c : Char} {word text : Text} (hinside : ∀ d ∈ c :: word, endsBare d = false)
    (hcomment : ¬ (c = '/' ∧ word.head? = some '/')) (hends : ∀ d ∈ text.head?, endsBare d = true) :
    lexeme c (word ++ text) = .ok ([.text (c :: word)], text) := by
  obtain ⟨hc, hword⟩ := List.forall_mem_cons.mp hinside
  have hword' : ∀ d ∈ word, (!endsBare d) = true := by
    intro d hd
    rw [hword d hd]
    rfl
  have hslash : ¬ (c = '/' ∧ (word ++ text).head? = some '/') := by
    rintro ⟨rfl, hhead⟩
    cases word with
    | nil => exact absurd (hends '/' hhead) (by decide)
    | cons d word => exact hcomment ⟨rfl, hhead⟩
  have hstop : text.dropWhile (fun d ↦ !endsBare d) = text ∧
      text.takeWhile (fun d ↦ !endsBare d) = [] := by
    cases text with
    | nil => exact ⟨rfl, rfl⟩
    | cons d text =>
      have hd := hends d rfl
      exact ⟨List.dropWhile_cons_of_neg (by simp [hd]), List.takeWhile_cons_of_neg (by simp [hd])⟩
  have hblank : isWhitespace c = false := by
    simp only [endsBare, Bool.or_eq_false_iff] at hc
    exact hc.1.1.1
  unfold lexeme
  split
  · exact absurd hc (by decide)
  · exact absurd hc (by decide)
  · exact absurd hc (by decide)
  · rw [if_neg hslash, hblank, if_neg Bool.false_ne_true, List.takeWhile_append_of_pos hword',
      List.dropWhile_append_of_pos hword', hstop.1, hstop.2, List.append_nil]

theorem lexeme_opens (text : Text) : lexeme '{' text = .ok ([.opens], text) := rfl

theorem lexeme_closes (text : Text) : lexeme '}' text = .ok ([.closes], text) := rfl

theorem lexeme_string {body value : Text} (h : Spells body value) (text : Text) :
    lexeme '"' (body ++ '"' :: text) = .ok ([.text value], text) := by
  rw [lexeme, quoted_of_spells h]

theorem lexeme_comment (text : Text) :
    lexeme '/' ('/' :: text) = .ok ([], (text.dropWhile (· != '\n')).drop 1) := rfl

theorem lexeme_blank {c : Char} (h : isWhitespace c = true) (text : Text) :
    lexeme c text = .ok ([], text) := by
  unfold lexeme
  split
  · exact absurd h (by decide)
  · exact absurd h (by decide)
  · exact absurd h (by decide)
  · have hslash : ¬ (c = '/' ∧ text.head? = some '/') := by
      rintro ⟨rfl, -⟩
      exact absurd h (by decide)
    rw [if_neg hslash, if_pos h]

theorem tokenise_cons {first : Char} {text text' : Text} {tokens : List Token}
    (h : lexeme first text = .ok (tokens, text')) :
    tokenise (first :: text) = (tokenise text').map (tokens ++ ·) := by
  rw [tokenise]
  split
  · next hread =>
    obtain ⟨rfl, rfl⟩ := Prod.mk.inj (Except.ok.inj (h.symm.trans hread))
    rfl
  · next hread => cases h.symm.trans hread

theorem map_append_append (tokens more : List Token) (read : Except Text (List Token)) :
    (read.map (more ++ ·)).map (tokens ++ ·) = read.map (tokens ++ more ++ ·) := by
  cases read with
  | ok all => exact congrArg Except.ok (List.append_assoc _ _ _).symm
  | error error => rfl

theorem ne_newline_of_not_mem {line : Text} (h : '\n' ∉ line) :
    ∀ c ∈ line, (c != '\n') = true := by
  intro c hc
  rw [bne_iff_ne]
  rintro rfl
  exact h hc

/-- The tokenizer goes on behind what the grammar has read. -/
theorem tokenise_of_scanned {text rest : Text} {tokens : List Token}
    (h : Scanned text tokens rest) :
    tokenise text = (tokenise rest).map (tokens ++ ·) := by
  induction h with
  | @start text => cases tokenise text <;> rfl
  | opens _ ih =>
    rw [tokenise_cons (lexeme_opens _), ih, map_append_append]
    rfl
  | closes _ ih =>
    rw [tokenise_cons (lexeme_closes _), ih, map_append_append]
    rfl
  | string spells _ ih =>
    rw [tokenise_cons (lexeme_string spells _), ih, map_append_append]
    rfl
  | comment line _ ih =>
    rw [tokenise_cons (lexeme_comment _), List.dropWhile_append_of_pos (ne_newline_of_not_mem line),
      List.dropWhile_cons_of_neg (by decide), List.drop_one, List.tail_cons, ih, map_append_append]
    rfl
  | lastComment line =>
    rw [tokenise_cons (lexeme_comment _),
      List.dropWhile_eq_nil_iff.mpr (ne_newline_of_not_mem line), List.drop_nil]
  | blank isBlank _ ih =>
    rw [tokenise_cons (lexeme_blank isBlank _), ih, map_append_append]
    rfl
  | bare inside noComment ends _ ih =>
    rw [tokenise_cons (lexeme_bare inside noComment ends), ih, map_append_append]
    rfl

/-- The tokenizer reads a text to its end when the grammar does. -/
theorem tokenise_eq_ok_iff {text : Text} {tokens : List Token} :
    tokenise text = .ok tokens ↔ Scanned text tokens [] := by
  constructor
  · intro h
    fun_induction tokenise text generalizing tokens with
    | case1 =>
      obtain rfl := Except.ok.inj h
      exact .start
    | case2 first text read text' hlexeme ih =>
      cases hrest : tokenise text' with
      | error error =>
        rw [hrest] at h
        cases h
      | ok more =>
        rw [hrest] at h
        obtain rfl := Except.ok.inj h
        exact scanned_of_lexeme hlexeme (ih hrest)
    | case3 => cases h
  · intro h
    rw [tokenise_of_scanned h, tokenise]
    exact congrArg Except.ok (List.append_nil _)

/-- The tokenizer fails exactly where it comes to a quoted string that does not end. -/
theorem tokenise_eq_error_iff {text error : Text} :
    tokenise text = .error error ↔ error = "unterminated string".toList ∧
      ∃ tokens rest, Scanned text tokens ('"' :: rest) ∧ IsOpen rest := by
  constructor
  · intro h
    fun_induction tokenise text with
    | case1 => cases h
    | case2 first text read text' hlexeme ih =>
      cases hrest : tokenise text' with
      | ok more =>
        rw [hrest] at h
        cases h
      | error found =>
        rw [hrest] at h
        obtain rfl := Except.error.inj h
        obtain ⟨hmessage, tokens, rest, hscanned, hopen⟩ := ih hrest
        exact ⟨hmessage, read ++ tokens, rest, scanned_of_lexeme hlexeme hscanned, hopen⟩
    | case3 first text found hlexeme =>
      obtain rfl := Except.error.inj h
      obtain ⟨rfl, hopen, hmessage⟩ := lexeme_eq_error_iff.mp hlexeme
      exact ⟨hmessage, [], text, .start, hopen⟩
  · rintro ⟨rfl, tokens, rest, hscanned, hopen⟩
    rw [tokenise_of_scanned hscanned, tokenise]
    have hlexeme := lexeme_eq_error_iff.mpr ⟨rfl, hopen, rfl⟩
    split
    · next hread => cases hlexeme.symm.trans hread
    · next hread =>
      obtain rfl := Except.error.inj (hlexeme.symm.trans hread)
      rfl

/-! ## The grammar of entries -/

/-- The tokens of a list of entries: each a key and a text, or a key and a block. -/
inductive Doc : List (Text × Value) → List Token → Prop
  | empty : Doc [] []
  | text {key text : Text} {entries : List (Text × Value)} {tokens : List Token}
    (more : Doc entries tokens) :
    Doc ((key, .text text) :: entries) (.text key :: .text text :: tokens)
  | block {key : Text} {inside entries : List (Text × Value)} {insideTokens tokens : List Token}
    (inner : Doc inside insideTokens) (more : Doc entries tokens) :
    Doc ((key, .block inside) :: entries)
      (.text key :: .opens :: (insideTokens ++ .closes :: tokens))

/-- Nothing or a closing brace follows. -/
def Stops (tokens : List Token) : Prop := ∀ token ∈ tokens.head?, token = .closes

/-- What the parser reads is a list of entries, and it stops where no entry follows. -/
theorem doc_of_entries {tokens : List Token} {parsed : Parsed tokens}
    (h : entries tokens = .ok parsed) :
    (∃ read, Doc parsed.entries read ∧ tokens = read ++ parsed.rest) ∧ Stops parsed.rest := by
  fun_induction entries tokens with
  | case1 =>
    obtain rfl := Except.ok.inj h
    exact ⟨⟨[], .empty, rfl⟩, fun token htoken ↦ absurd htoken (Option.not_mem_none token)⟩
  | case2 rest =>
    obtain rfl := Except.ok.inj h
    exact ⟨⟨[], .empty, rfl⟩, fun token htoken ↦ (Option.some.inj htoken).symm⟩
  | case3 => cases h
  | case4 key text rest more rest' hle hread ih =>
    obtain rfl := Except.ok.inj h
    obtain ⟨⟨read, hdoc, htokens⟩, hstops⟩ := ih hread
    exact ⟨⟨_, .text hdoc, congrArg (.text key :: .text text :: ·) htokens⟩, hstops⟩
  | case5 => cases h
  | case6 key rest inner after hle hread more rest' hle' hafter ih ih' =>
    obtain rfl := Except.ok.inj h
    obtain ⟨⟨inside, hinner, hrest⟩, -⟩ := ih hread
    obtain ⟨⟨read, hmore, htokens⟩, hstops⟩ := ih' hafter
    refine ⟨⟨_, .block hinner hmore, ?_⟩, hstops⟩
    calc
      Token.text key :: Token.opens :: rest
        = .text key :: .opens :: (inside ++ .closes :: after) :=
          congrArg (.text key :: .opens :: ·) hrest
      _ = .text key :: .opens :: (inside ++ .closes :: (read ++ rest')) :=
        congrArg (fun tokens ↦ .text key :: .opens :: (inside ++ .closes :: tokens)) htokens
      _ = .text key :: .opens :: (inside ++ .closes :: read) ++ rest' := by simp
  | case7 => cases h
  | case8 => cases h
  | case9 => cases h
  | case10 => cases h
  | case11 => cases h

/-- The entries that are read and the tokens that are not. -/
def readEntries (tokens : List Token) : Except Text (List (Text × Value) × List Token) :=
  (entries tokens).map fun parsed ↦ (parsed.entries, parsed.rest)

theorem readEntries_stops {tokens : List Token} (h : Stops tokens) :
    readEntries tokens = .ok ([], tokens) := by
  cases tokens with
  | nil => rw [readEntries, entries, Except.map]
  | cons token tokens =>
    obtain rfl := h token rfl
    rw [readEntries, entries, Except.map]

theorem readEntries_text {key text : Text} {tokens rest : List Token} {more : List (Text × Value)}
    (h : readEntries tokens = .ok (more, rest)) :
    readEntries (.text key :: .text text :: tokens) = .ok ((key, .text text) :: more, rest) := by
  unfold readEntries at h
  rw [readEntries, entries]
  cases hread : entries tokens with
  | error error =>
    rw [hread] at h
    cases h
  | ok parsed =>
    rw [hread] at h
    obtain ⟨rfl, rfl⟩ := Prod.mk.inj (Except.ok.inj h)
    rfl

theorem readEntries_block {key : Text} {tokens after rest : List Token}
    {inside more : List (Text × Value)} (h : readEntries tokens = .ok (inside, .closes :: after))
    (hafter : readEntries after = .ok (more, rest)) :
    readEntries (.text key :: .opens :: tokens) = .ok ((key, .block inside) :: more, rest) := by
  unfold readEntries at h hafter
  rw [readEntries, entries]
  cases hread : entries tokens with
  | error error =>
    rw [hread] at h
    cases h
  | ok parsed =>
    rw [hread] at h
    obtain ⟨parsedInside, parsedRest, hle⟩ := parsed
    obtain ⟨rfl, hrest⟩ := Prod.mk.inj (Except.ok.inj h)
    change parsedRest = _ at hrest
    subst hrest
    cases hmore : entries after with
    | error error =>
      rw [hmore] at hafter
      cases hafter
    | ok parsedMore =>
      rw [hmore] at hafter
      obtain ⟨rfl, rfl⟩ := Prod.mk.inj (Except.ok.inj hafter)
      simp only [hmore]
      rfl

/-- The parser reads every list of entries, up to where no entry follows. -/
theorem readEntries_of_doc {parsed : List (Text × Value)} {read : List Token} (h : Doc parsed read)
    {rest : List Token} (hrest : Stops rest) : readEntries (read ++ rest) = .ok (parsed, rest) := by
  induction h generalizing rest with
  | empty => exact readEntries_stops hrest
  | text _ ih => exact readEntries_text (ih hrest)
  | block _ _ ih ih' =>
    rw [List.cons_append, List.cons_append, List.append_assoc, List.cons_append]
    exact readEntries_block (ih fun token htoken ↦ (Option.some.inj htoken).symm) (ih' hrest)

theorem stops_nil : Stops [] := fun _ htoken ↦ nomatch htoken

theorem Doc.unique {parsed parsed' : List (Text × Value)} {tokens : List Token}
    (h : Doc parsed tokens)
    (h' : Doc parsed' tokens) : parsed = parsed' := by
  have hread := readEntries_of_doc h stops_nil
  have hread' := readEntries_of_doc h' stops_nil
  exact (Prod.mk.inj (Except.ok.inj (hread.symm.trans hread'))).1

theorem keyValues_eq_ok_iff {text : Text} {parsed : List (Text × Value)} :
    keyValues text = .ok parsed ↔ ∃ tokens, tokenise text = .ok tokens ∧ Doc parsed tokens := by
  unfold keyValues
  cases htokens : tokenise text with
  | error error => exact iff_of_false (fun h ↦ nomatch h) fun ⟨_, h, _⟩ ↦ nomatch h
  | ok tokens =>
    have hwhole : (∃ tokens', Except.ok (ε := Text) tokens = .ok tokens' ∧ Doc parsed tokens') ↔
        Doc parsed tokens := by
      simp
    rw [hwhole]
    cases hread : entries tokens with
    | error error =>
      simp only [bind, Except.bind, hread]
      refine iff_of_false (fun h ↦ nomatch h) fun hdoc ↦ ?_
      have hok := readEntries_of_doc hdoc stops_nil
      rw [List.append_nil, readEntries, hread] at hok
      cases hok
    | ok read =>
      simp only [bind, Except.bind, hread]
      constructor
      · intro h
        split_ifs at h with hnil
        obtain rfl := Except.ok.inj h
        obtain ⟨⟨consumed, hdoc, hall⟩, -⟩ := doc_of_entries hread
        rw [hnil, List.append_nil] at hall
        exact hall ▸ hdoc
      · intro hdoc
        have hok := readEntries_of_doc hdoc stops_nil
        rw [List.append_nil, readEntries, hread] at hok
        obtain ⟨rfl, hnil⟩ := Prod.mk.inj (Except.ok.inj hok)
        rw [if_pos hnil]

/-! ## Writing key-values text -/

/-- A character inside quotes. -/
def escapeChar : Char → Text
  | '"' => ['\\', '"']
  | '\\' => ['\\', '\\']
  | '\n' => ['\\', 'n']
  | '\t' => ['\\', 't']
  | c => [c]

def escape (value : Text) : Text := value.flatMap escapeChar

mutual

/-- A value in quotes or braces. -/
def writeValue : Value → Text
  | .text text => '"' :: (escape text ++ ['"'])
  | .block entries => '{' :: '\n' :: (writeEntries entries ++ ['}'])

/-- Entries, one a line. -/
def writeEntries : List (Text × Value) → Text
  | [] => []
  | (key, value) :: entries =>
    '"' :: (escape key ++ '"' :: '\t' :: (writeValue value ++ '\n' :: writeEntries entries))

end

mutual

/-- The tokens of a value. -/
def valueTokens : Value → List Token
  | .text text => [.text text]
  | .block entries => .opens :: (entriesTokens entries ++ [.closes])

def entriesTokens : List (Text × Value) → List Token
  | [] => []
  | (key, value) :: entries => .text key :: (valueTokens value ++ entriesTokens entries)

end

theorem spells_escape (value : Text) : Spells (escape value) value := by
  induction value with
  | nil => exact .empty
  | cons c value ih =>
    have hcons : escape (c :: value) = escapeChar c ++ escape value := List.flatMap_cons
    rw [hcons]
    unfold escapeChar
    split
    · exact .escaped ih
    · exact .escaped ih
    · exact .escaped ih
    · exact .escaped ih
    · next hquote hback _ _ => exact .plain hquote hback ih

/-- Written entries are scanned as their tokens, when every value of them is. -/
theorem scanned_writeEntries_of {parsed : List (Text × Value)}
    (hvalues : ∀ entry ∈ parsed, ∀ (text rest : Text) (tokens : List Token),
      Scanned text tokens rest →
        Scanned (writeValue entry.2 ++ text) (valueTokens entry.2 ++ tokens) rest)
    {text rest : Text} {tokens : List Token} (h : Scanned text tokens rest) :
    Scanned (writeEntries parsed ++ text) (entriesTokens parsed ++ tokens) rest := by
  induction parsed with
  | nil => exact h
  | cons entry parsed ih =>
    obtain ⟨hvalue, hmore⟩ := List.forall_mem_cons.mp hvalues
    have hblank : Scanned ('\n' :: (writeEntries parsed ++ text))
        (entriesTokens parsed ++ tokens) rest :=
      .blank (by decide) (ih hmore)
    have hstring := Scanned.string (spells_escape entry.1)
      (.blank (by decide : isWhitespace '\t' = true) (hvalue _ _ _ hblank))
    simpa only [writeEntries, entriesTokens, List.cons_append, List.append_assoc] using hstring

theorem scanned_writeValue (value : Value) : ∀ (text rest : Text) (tokens : List Token),
    Scanned text tokens rest →
      Scanned (writeValue value ++ text) (valueTokens value ++ tokens) rest := by
  induction value using Value.induct with
  | text value =>
    intro text rest tokens h
    have hstring := Scanned.string (spells_escape value) h
    simpa only [writeValue, valueTokens, List.cons_append, List.append_assoc, List.nil_append]
      using hstring
  | block entries ih =>
    intro text rest tokens h
    have hblock : Scanned ('{' :: '\n' :: (writeEntries entries ++ '}' :: text))
        (.opens :: (entriesTokens entries ++ .closes :: tokens)) rest :=
      .opens (.blank (by decide) (scanned_writeEntries_of ih (.closes h)))
    simpa only [writeValue, valueTokens, List.cons_append, List.append_assoc, List.nil_append]
      using hblock

theorem tokenise_writeEntries (parsed : List (Text × Value)) :
    tokenise (writeEntries parsed) = .ok (entriesTokens parsed) := by
  rw [tokenise_eq_ok_iff]
  have hscanned :=
    scanned_writeEntries_of (fun entry (_ : entry ∈ parsed) ↦ scanned_writeValue entry.2)
    (@Scanned.start [])
  rwa [List.append_nil, List.append_nil] at hscanned

theorem doc_entriesTokens_of {parsed : List (Text × Value)}
    (hblocks : ∀ entry ∈ parsed, ∀ inside, entry.2 = .block inside →
      Doc inside (entriesTokens inside)) : Doc parsed (entriesTokens parsed) := by
  induction parsed with
  | nil => exact .empty
  | cons entry parsed ih =>
    obtain ⟨hblock, hmore⟩ := List.forall_mem_cons.mp hblocks
    obtain ⟨key, value⟩ := entry
    cases value with
    | text text => exact .text (ih hmore)
    | block inside =>
      have hentry := @Doc.block key _ _ _ _ (hblock inside rfl) (ih hmore)
      simpa only [entriesTokens, valueTokens, List.cons_append, List.append_assoc, List.nil_append]
        using hentry

theorem doc_entriesTokens (parsed : List (Text × Value)) : Doc parsed (entriesTokens parsed) := by
  have hblock (value : Value) : ∀ inside, value = .block inside →
      Doc inside (entriesTokens inside) := by
    induction value using Value.induct with
    | text text => exact fun _ h ↦ nomatch h
    | block entries ih =>
      rintro _ ⟨⟩
      exact doc_entriesTokens_of ih
  exact doc_entriesTokens_of fun entry _ ↦ hblock entry.2

/-- Tokenizing fails exactly at a quoted string without an end; a tree is returned exactly for the
tokens it is derived from, all of them, and there is one tree at most; and what is written is read
back. -/
theorem keyValues_exact :
    (∀ text error, tokenise text = .error error ↔ error = "unterminated string".toList ∧
      ∃ tokens rest, Scanned text tokens ('"' :: rest) ∧ IsOpen rest) ∧
      (∀ text tokens, tokenise text = .ok tokens ↔ Scanned text tokens []) ∧
        (∀ text parsed, keyValues text = .ok parsed ↔
          ∃ tokens, tokenise text = .ok tokens ∧ Doc parsed tokens) ∧
          (∀ tokens parsed parsed', Doc parsed tokens → Doc parsed' tokens → parsed = parsed') ∧
            ∀ parsed, keyValues (writeEntries parsed) = .ok parsed := by
  refine ⟨fun _ _ ↦ tokenise_eq_error_iff, fun _ _ ↦ tokenise_eq_ok_iff,
    fun _ _ ↦ keyValues_eq_ok_iff, fun _ _ _ ↦ Doc.unique, fun parsed ↦ ?_⟩
  exact keyValues_eq_ok_iff.mpr ⟨_, tokenise_writeEntries parsed, doc_entriesTokens parsed⟩

end WardSweep.Libraries
