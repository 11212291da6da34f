import WardSweep.Observe.Format
import WardSweep.Redact.Passes
import WardSweep.Redact.Residual
import WardSweep.Redact.Turns

/-!
# What kind of document is left

A redacted document has the shape of the original.  It is still a diff or a snapshot with the words
of its enumerations exactly when no name stands on its own in one of those words: the words are
strings like any other.
-/

namespace WardSweep.Redact

open Utf8 Str Json Observe

/-! ## The shape -/

theorem shape_maskedItems {items : List Value}
    (h : ∀ item ∈ items, (masked item).shape = item.shape) :
    Value.shapeOfItems (maskedItems items) = Value.shapeOfItems items := by
  induction items with
  | nil => rfl
  | cons item items ih =>
    obtain ⟨hitem, hitems⟩ := List.forall_mem_cons.mp h
    rw [maskedItems, Value.shapeOfItems, Value.shapeOfItems, hitem, ih hitems]

theorem shape_maskedFields (targets : List Text × Bool) {fields : List (Text × Value)}
    (h : ∀ field ∈ fields, (masked field.2).shape = field.2.shape) :
    Value.shapeOfFields (maskedFields targets fields) = Value.shapeOfFields fields := by
  induction fields with
  | nil => rfl
  | cons field fields ih =>
    obtain ⟨hfield, hfields⟩ := List.forall_mem_cons.mp h
    obtain ⟨key, value⟩ := field
    cases value with
    | string text => rw [maskedFields, Value.shapeOfFields, Value.shapeOfFields, ih hfields]; rfl
    | null => exact congrArg₂ List.cons (Prod.ext rfl hfield) (ih hfields)
    | bool value => exact congrArg₂ List.cons (Prod.ext rfl hfield) (ih hfields)
    | number digits => exact congrArg₂ List.cons (Prod.ext rfl hfield) (ih hfields)
    | array items => exact congrArg₂ List.cons (Prod.ext rfl hfield) (ih hfields)
    | object inner => exact congrArg₂ List.cons (Prod.ext rfl hfield) (ih hfields)

theorem shape_masked (value : Value) : (masked value).shape = value.shape := by
  induction value using Value.induct with
  | null => rfl
  | bool value => rfl
  | number digits => rfl
  | string text => rfl
  | array items ih => exact congrArg Value.array (shape_maskedItems ih)
  | object fields ih => exact congrArg Value.object (shape_maskedFields (maskTargets fields) ih)

/-- Redaction changes strings only. -/
theorem shape_redactDocument (value : Value) (extra : Extra) :
    (redactDocument value extra).1.shape = value.shape := by
  have hdocument : (redactDocument value extra).1 =
      (masked value).mapStrings (redactString (gatherNames value extra).table) := by
    rw [← rewrite_fst]
    rfl
  rw [hdocument, Value.shape_mapStrings, shape_masked]

/-! ## Reading what is left -/

/-- The keys under which an identifier is masked. -/
def IsMaskKey (key : Text) : Prop := key ∈ ["data", "before", "after"].map String.toList

instance (key : Text) : Decidable (IsMaskKey key) := inferInstanceAs (Decidable (_ ∈ _))

theorem isMaskKey_of_maskField {fields : List (Text × Value)} {key text result : Text}
    (h : maskField (maskTargets fields) key text = some result) : IsMaskKey key := by
  unfold maskField at h
  split at h
  · next hcontains =>
    have hmem : key ∈ (maskTargets fields).1 := by simpa using hcontains
    unfold maskTargets at hmem
    split at hmem
    · exact List.mem_cons.mpr (.inl (List.mem_singleton.mp hmem))
    · split at hmem
      · exact List.mem_cons_of_mem _ hmem
      · exact absurd hmem List.not_mem_nil
  · cases h

/-- The fields of an object after masking and rewriting, one by one. -/
theorem forall₂_maskedFields (change : Text → Text) {targets : List Text × Bool}
    (htargets : ∀ key text result, maskField targets key text = some result → IsMaskKey key)
    (fields : List (Text × Value)) :
    List.Forall₂ (fun field field' ↦ field'.1 = field.1 ∧
      (field'.2 = (masked field.2).mapStrings change ∨ IsMaskKey field.1 ∧
        ∃ text text', field.2 = .string text ∧ field'.2 = .string text'))
      fields (Value.mapStringsOfFields change (maskedFields targets fields)) := by
  induction fields with
  | nil => exact .nil
  | cons field fields ih =>
    obtain ⟨key, value⟩ := field
    cases value with
    | string text =>
      rw [maskedFields, Value.mapStringsOfFields]
      refine .cons ⟨rfl, ?_⟩ ih
      cases hmask : maskField targets key text with
      | none => exact .inl rfl
      | some result => exact .inr ⟨htargets key text result hmask, text, change result, rfl, rfl⟩
    | null => exact .cons ⟨rfl, .inl rfl⟩ ih
    | bool value => exact .cons ⟨rfl, .inl rfl⟩ ih
    | number digits => exact .cons ⟨rfl, .inl rfl⟩ ih
    | array items => exact .cons ⟨rfl, .inl rfl⟩ ih
    | object inner => exact .cons ⟨rfl, .inl rfl⟩ ih

/-- Redaction changes each string on its own, except under the keys it masks. -/
theorem rewritesStrings_masked (change : Text → Text) :
    RewritesStrings (fun value ↦ (masked value).mapStrings change) change IsMaskKey where
  null := rfl
  bool _ := rfl
  number _ := rfl
  string _ := rfl
  array items := by
    have hitems : Value.mapStringsOfItems change (maskedItems items) =
        items.map fun item ↦ (masked item).mapStrings change := by
      induction items with
      | nil => rfl
      | cons item items ih => rw [maskedItems, Value.mapStringsOfItems, ih, List.map_cons]
    exact congrArg Value.array hitems
  object fields := ⟨_, rfl, forall₂_maskedFields change
    (fun _ _ _ h ↦ isMaskKey_of_maskField h) fields⟩

/-! ## Words -/

/-- The words of the enumerations of a diff and of a snapshot. -/
def enumWords : List Text := changeKindWords ++ domainWords ++ launcherWords

/-- No rule finds anything in a word, nor is one the hex of bytes. -/
theorem rules_of_mem_enumWords : ∀ word ∈ enumWords,
    applyRules word = (word, []) ∧ decodeHex (splitBinary word).2 = none ∧ '%' ∉ word := by
  decide +kernel

theorem mem_of_mem_bareNamesFrom {text placeholder : Text} {length : ℕ} {starts : List ℕ}
    {cursor : ℕ}
    (h : (bareNamesFrom text placeholder length cursor starts).2 = true) :
    ∀ c ∈ placeholder, c ∈ (bareNamesFrom text placeholder length cursor starts).1 := by
  induction starts generalizing cursor with
  | nil => cases h
  | cons start starts ih =>
    rw [bareNamesFrom] at h ⊢
    split
    · next hlt =>
      rw [if_pos hlt] at h
      exact ih h
    · next hlt =>
      rw [if_neg hlt] at h
      split
      · exact fun c hc ↦ List.mem_append_left _ (List.mem_append_right _ hc)
      · next halone =>
        rw [if_neg halone] at h
        exact ih h

/-- A name that is replaced leaves a percent sign. -/
theorem percent_mem_applyBareName {state : Text × List Text} {name : Text × Text}
    (hplaceholder : '%' ∈ name.2)
    (h : ('%' ∈ state.1 ∧ state.2 ≠ []) ∨ StandsAlone state.1 name.1) :
    '%' ∈ (applyBareName state name).1 ∧ (applyBareName state name).2 ≠ [] := by
  rw [applyBareName]
  cases hreplaced : replaceBareName state.1 name.1 name.2 with
  | none =>
    have hnot := (replaceBareName_isSome_iff state.1 name.1 name.2).not.mp
      (by rw [hreplaced]; decide)
    exact h.resolve_right hnot
  | some result =>
    refine ⟨?_, List.append_ne_nil_of_right_ne_nil _ (List.cons_ne_nil _ _)⟩
    unfold replaceBareName at hreplaced
    split at hreplaced
    · next hfrom =>
      obtain rfl := Option.some.inj hreplaced
      have hmem := mem_of_mem_bareNamesFrom (congrArg Prod.snd hfrom) '%' hplaceholder
      rwa [hfrom] at hmem
    · cases hreplaced

theorem foldl_applyBareName_of_none {names : List (Text × Text)} {text : Text} {used : List Text}
    (h : ∀ name ∈ names, ¬ StandsAlone text name.1) :
    names.foldl applyBareName (text, used) = (text, used) := by
  induction names with
  | nil => rfl
  | cons name names ih =>
    obtain ⟨hname, hnames⟩ := List.forall_mem_cons.mp h
    have hnone : replaceBareName text name.1 name.2 = none := by
      rw [← Option.not_isSome_iff_eq_none, replaceBareName_isSome_iff]
      exact hname
    rw [List.foldl_cons, applyBareName, hnone]
    exact ih hnames

theorem percent_mem_foldl {names : List (Text × Text)} (hnames : ∀ name ∈ names, '%' ∈ name.2)
    {state : Text × List Text}
    (h : ('%' ∈ state.1 ∧ state.2 ≠ []) ∨ ∃ name ∈ names, StandsAlone state.1 name.1) :
    '%' ∈ (names.foldl applyBareName state).1 ∧ (names.foldl applyBareName state).2 ≠ [] := by
  induction names generalizing state with
  | nil => exact h.resolve_right fun ⟨name, hname, _⟩ ↦ absurd hname List.not_mem_nil
  | cons name names ih =>
    obtain ⟨hname, hrest⟩ := List.forall_mem_cons.mp hnames
    rw [List.foldl_cons]
    apply ih hrest
    by_cases halone : ('%' ∈ state.1 ∧ state.2 ≠ []) ∨ StandsAlone state.1 name.1
    · exact .inl (percent_mem_applyBareName hname halone)
    · rw [not_or] at halone
      obtain ⟨other, hother, hstands⟩ := h.resolve_left halone.1
      have hnone : replaceBareName state.1 name.1 name.2 = none := by
        rw [← Option.not_isSome_iff_eq_none, replaceBareName_isSome_iff]
        exact halone.2
      rw [applyBareName, hnone]
      rcases List.mem_cons.mp hother with rfl | hother
      · exact absurd hstands halone.2
      · exact .inr ⟨other, hother, hstands⟩

/-- A text with a percent sign spells no bytes. -/
theorem applyHex_of_percent {state : Text × List Text} (h : '%' ∈ state.1)
    (names : List (Text × Text)) : applyHex state names = state := by
  have hrest : '%' ∈ (splitBinary state.1).2 := by
    unfold splitBinary
    split
    · next rest hstrip =>
      have hsplit : state.1 = binaryPrefix ++ rest := (stripPrefix_eq_some_iff _ _ _).mp hstrip
      rw [hsplit] at h
      exact (List.mem_append.mp h).resolve_left (by decide)
    · exact h
  have hdecode : decodeHex (splitBinary state.1).2 = none := by
    rw [decodeHex, if_pos]
    rw [Bool.or_eq_true, Bool.not_eq_true', List.all_eq_false]
    exact .inr ⟨'%', hrest, by decide⟩
  rw [applyHex, replaceInHex, hdecode]

/-- A word of an enumeration is kept exactly when no name stands on its own in it, and is no word
otherwise. -/
theorem redactString_word {names : List (Text × Text)} (hnames : ∀ name ∈ names, '%' ∈ name.2)
    {word : Text} (hword : word ∈ enumWords) :
    (redactString names word = word ↔ ∀ name ∈ names, ¬ StandsAlone word name.1) ∧
      (redactString names word = word ∨ redactString names word ∉ enumWords) := by
  obtain ⟨hrules, hhex, hplain⟩ := rules_of_mem_enumWords word hword
  by_cases hnone : ∀ name ∈ names, ¬ StandsAlone word name.1
  · have hsame : redactString names word = word := by
      rw [redactString, redactTextWith, hrules, foldl_applyBareName_of_none hnone, applyHex,
        replaceInHex, hhex]
      rfl
    exact ⟨iff_of_true hsame hnone, .inl hsame⟩
  · push Not at hnone
    have hfold : '%' ∈ (names.foldl applyBareName (word, [])).1 ∧
        (names.foldl applyBareName (word, [])).2 ≠ [] := percent_mem_foldl hnames (.inr hnone)
    obtain ⟨hpercent, hused⟩ := hfold
    have hchanged : '%' ∈ redactString names word := by
      rw [redactString, redactTextWith, hrules, applyHex_of_percent hpercent, if_neg]
      · exact hpercent
      · rwa [List.isEmpty_iff]
    have hne : redactString names word ≠ word := by
      intro hsame
      rw [hsame] at hchanged
      exact hplain hchanged
    refine ⟨iff_of_false hne ?_, .inr fun hmem ↦ (rules_of_mem_enumWords _ hmem).2.2 hchanged⟩
    push Not
    exact hnone

/-! ## Diffs and snapshots -/

section Types

variable {rewrite : Value → Value} {change : Text → Text}
  (hrewrite : RewritesStrings rewrite change IsMaskKey)

/-- What a reader reads of a document it reads again where the enumeration words are kept. -/
abbrev ReadsAgain (rewrite : Value → Value) (change : Text → Text) (reader : Reader) : Prop :=
  Respects rewrite change (· ∈ enumWords) reader

/-- A field is read after redaction as it was, under whatever key. -/
def KeepsField (rewrite : Value → Value) (change : Text → Text) (field : Field) : Prop :=
  ReadsAgain rewrite change field.reader ∧ (IsMaskKey field.key → IgnoresText field.reader)

theorem keepsField_required {key : String} {reader : Reader} (h : ReadsAgain rewrite change reader)
    (hkey : ¬ IsMaskKey key.toList) : KeepsField rewrite change (required key reader) :=
  ⟨h, fun hmask ↦ absurd hmask hkey⟩

theorem keepsField_defaulted {key : String} {reader : Reader} (h : ReadsAgain rewrite change reader)
    (hkey : ¬ IsMaskKey key.toList) : KeepsField rewrite change (defaulted key reader) :=
  ⟨h, fun hmask ↦ absurd hmask hkey⟩

include hrewrite

theorem keepsField_string (key : String) : KeepsField rewrite change (required key readString) :=
  ⟨respects_readString hrewrite, fun _ _ _ ↦ rfl⟩

theorem keepsField_record (key : String) {schema : List Field}
    (h : ReadsAgain rewrite change (readStruct true schema)) :
    KeepsField rewrite change (optional key (readStruct true schema)) :=
  ⟨respects_readOption hrewrite h, fun _ _ _ ↦ rfl⟩

theorem keepsField_defaultedString (key : String) :
    KeepsField rewrite change (defaulted key readString) :=
  ⟨respects_readString hrewrite, fun _ _ _ ↦ rfl⟩

theorem keepsField_strings {key : String} (hkey : ¬ IsMaskKey key.toList) :
    KeepsField rewrite change (required key (readList readString)) :=
  keepsField_required (respects_readList hrewrite (respects_readString hrewrite)) hkey

theorem respects_fields (strict : Bool) {schema : List Field}
    (h : ∀ field ∈ schema, KeepsField rewrite change field) :
    ReadsAgain rewrite change (readStruct strict schema) :=
  respects_readStruct hrewrite strict (fun field hfield ↦ (h field hfield).1)
    fun field hfield ↦ (h field hfield).2

theorem keepsField_unsigned {key : String} (bits : ℕ) (hkey : ¬ IsMaskKey key.toList) :
    KeepsField rewrite change (required key (readUnsigned bits)) :=
  keepsField_required (respects_readUnsigned hrewrite bits) hkey

theorem keepsField_count {key : String} (hkey : ¬ IsMaskKey key.toList) :
    KeepsField rewrite change (defaulted key readUsize) :=
  keepsField_defaulted (respects_readUnsigned hrewrite 64) hkey

theorem keepsField_flag {key : String} (hkey : ¬ IsMaskKey key.toList) :
    KeepsField rewrite change (defaulted key readBool) :=
  keepsField_defaulted (respects_readBool hrewrite) hkey

theorem respects_readRegistryKeyRef : ReadsAgain rewrite change readRegistryKeyRef := by
  apply respects_fields hrewrite true
  simp only [List.forall_mem_cons]
  exact ⟨keepsField_string hrewrite _, keepsField_string hrewrite _,
    fun _ h ↦ absurd h List.not_mem_nil⟩

theorem respects_readBootSession : ReadsAgain rewrite change readBootSession := by
  apply respects_fields hrewrite false
  simp only [List.forall_mem_cons]
  exact ⟨keepsField_string hrewrite _, keepsField_unsigned hrewrite 64 (by decide),
    keepsField_unsigned hrewrite 64 (by decide), fun _ h ↦ absurd h List.not_mem_nil⟩

theorem respects_readRegistryPolicy : ReadsAgain rewrite change readRegistryPolicy := by
  apply respects_fields hrewrite true
  simp only [List.forall_mem_cons]
  exact ⟨keepsField_strings hrewrite (by decide), keepsField_strings hrewrite (by decide),
    keepsField_strings hrewrite (by decide), keepsField_unsigned hrewrite 64 (by decide),
    fun _ h ↦ absurd h List.not_mem_nil⟩

theorem respects_readRegistryRecord : ReadsAgain rewrite change readRegistryRecord := by
  have hvalue : ReadsAgain rewrite change readRegistryValue := by
    apply respects_fields hrewrite true
    simp only [List.forall_mem_cons]
    exact ⟨keepsField_string hrewrite _, keepsField_string hrewrite _, keepsField_string hrewrite _,
      keepsField_defaulted (respects_readOption hrewrite (respects_readUnsigned hrewrite 64))
        (by decide), fun _ h ↦ absurd h List.not_mem_nil⟩
  apply respects_fields hrewrite true
  simp only [List.forall_mem_cons]
  exact ⟨keepsField_string hrewrite _, keepsField_string hrewrite _,
    keepsField_required (respects_readList hrewrite hvalue) (by decide),
    fun _ h ↦ absurd h List.not_mem_nil⟩

theorem keepsField_text {key : String} (hkey : ¬ IsMaskKey key.toList) :
    KeepsField rewrite change (defaulted key (readOption readString)) :=
  keepsField_defaulted (respects_readOption hrewrite (respects_readString hrewrite)) hkey

theorem respects_readFileRecord : ReadsAgain rewrite change readFileRecord := by
  apply respects_fields hrewrite true
  simp only [List.forall_mem_cons]
  exact ⟨keepsField_string hrewrite _, keepsField_unsigned hrewrite 64 (by decide),
    keepsField_defaultedString hrewrite _, keepsField_text hrewrite (by decide),
    keepsField_text hrewrite (by decide), keepsField_text hrewrite (by decide),
    fun _ h ↦ absurd h List.not_mem_nil⟩

theorem respects_readServiceRecord : ReadsAgain rewrite change readServiceRecord := by
  apply respects_fields hrewrite true
  simp only [List.forall_mem_cons]
  exact ⟨keepsField_string hrewrite _, keepsField_string hrewrite _, keepsField_string hrewrite _,
    keepsField_string hrewrite _, keepsField_string hrewrite _, keepsField_string hrewrite _,
    keepsField_defaultedString hrewrite _, keepsField_defaultedString hrewrite _,
    keepsField_defaulted (respects_readList hrewrite (respects_readString hrewrite)) (by decide),
    keepsField_defaultedString hrewrite _, keepsField_flag hrewrite (by decide),
    fun _ h ↦ absurd h List.not_mem_nil⟩

/-- The changed fields of a record. -/
theorem keepsField_fields :
    KeepsField rewrite change (defaulted "fields" (readList readFieldChange)) := by
  have hchange : ReadsAgain rewrite change readFieldChange := by
    apply respects_fields hrewrite true
    simp only [List.forall_mem_cons]
    exact ⟨keepsField_string hrewrite _, keepsField_string hrewrite _, keepsField_string hrewrite _,
      fun _ h ↦ absurd h List.not_mem_nil⟩
  exact keepsField_defaulted (respects_readList hrewrite hchange) (by decide)

theorem respects_readFootprint : ReadsAgain rewrite change readFootprint := by
  apply respects_fields hrewrite true
  simp only [List.forall_mem_cons]
  exact ⟨keepsField_string hrewrite _, keepsField_string hrewrite _,
    keepsField_unsigned hrewrite 64 (by decide), fun _ h ↦ absurd h List.not_mem_nil⟩

theorem respects_readRefiltered : ReadsAgain rewrite change readRefiltered := by
  apply respects_fields hrewrite true
  simp only [List.forall_mem_cons]
  exact ⟨keepsField_count hrewrite (by decide), keepsField_count hrewrite (by decide),
    keepsField_count hrewrite (by decide), keepsField_count hrewrite (by decide),
    keepsField_count hrewrite (by decide), keepsField_count hrewrite (by decide),
    fun _ h ↦ absurd h List.not_mem_nil⟩

/-- A change that was moved aside, with its rule. -/
theorem respects_suppressed {reader : Reader} (h : ReadsAgain rewrite change reader) :
    ReadsAgain rewrite change
      (readStruct true [required "rule" readString, required "change" reader]) := by
  apply respects_fields hrewrite true
  simp only [List.forall_mem_cons]
  exact ⟨keepsField_string hrewrite _, keepsField_required h (by decide),
    fun _ h ↦ absurd h List.not_mem_nil⟩

variable (hwords : ∀ word ∈ enumWords, change word = word ∨ change word ∉ enumWords)

include hwords

/-- The words of one enumeration are kept or become no word. -/
theorem respects_words {words : List Text} (hsub : words ⊆ enumWords) :
    ReadsAgain rewrite change (readWord words) :=
  respects_readWord hrewrite (fun _ hword ↦ hsub hword) fun word hword ↦
    (hwords word (hsub hword)).imp_right fun hnot hmem ↦ hnot (hsub hmem)

theorem respects_readDomain : ReadsAgain rewrite change readDomain :=
  respects_words hrewrite hwords (by decide)

theorem respects_readChangeKind : ReadsAgain rewrite change readChangeKind :=
  respects_words hrewrite hwords (by decide)

theorem respects_readLauncher : ReadsAgain rewrite change readLauncher :=
  respects_words hrewrite hwords (by decide)

theorem respects_readCoverage : ReadsAgain rewrite change readCoverage := by
  have hdomain := respects_readDomain hrewrite hwords
  have hdenied : ReadsAgain rewrite change readAccessDenied := by
    apply respects_fields hrewrite true
    simp only [List.forall_mem_cons]
    exact ⟨keepsField_required hdomain (by decide), keepsField_string hrewrite _,
      keepsField_string hrewrite _, fun _ h ↦ absurd h List.not_mem_nil⟩
  apply respects_fields hrewrite true
  simp only [List.forall_mem_cons]
  exact ⟨keepsField_required (respects_readList hrewrite hdomain) (by decide),
    keepsField_required (respects_readList hrewrite hdomain) (by decide),
    keepsField_required (respects_readList hrewrite hdenied) (by decide),
    fun _ h ↦ absurd h List.not_mem_nil⟩

theorem respects_readLibrary : ReadsAgain rewrite change readLibrary := by
  apply respects_fields hrewrite true
  simp only [List.forall_mem_cons]
  exact ⟨keepsField_required (respects_readLauncher hrewrite hwords) (by decide),
    keepsField_string hrewrite _, fun _ h ↦ absurd h List.not_mem_nil⟩

theorem respects_readFilesystemPolicy : ReadsAgain rewrite change readFilesystemPolicy := by
  apply respects_fields hrewrite true
  simp only [List.forall_mem_cons]
  exact ⟨keepsField_strings hrewrite (by decide), keepsField_strings hrewrite (by decide),
    keepsField_strings hrewrite (by decide), keepsField_unsigned hrewrite 64 (by decide),
    keepsField_defaulted (respects_readList hrewrite (respects_readLibrary hrewrite hwords))
      (by decide),
    fun _ h ↦ absurd h List.not_mem_nil⟩

theorem respects_readSnapshot : ReadsAgain rewrite change readSnapshot := by
  have hlist {reader : Reader} (h : ReadsAgain rewrite change reader) :=
    respects_readList hrewrite h
  have hoption {reader : Reader} (h : ReadsAgain rewrite change reader) :=
    respects_readOption hrewrite h
  have hstring : ReadsAgain rewrite change readString := respects_readString hrewrite
  apply respects_fields hrewrite true
  simp only [List.forall_mem_cons]
  exact ⟨keepsField_unsigned hrewrite 32 (by decide), keepsField_string hrewrite _,
    keepsField_defaulted (respects_readMap hrewrite hstring fun _ _ ↦ rfl) (by decide),
    keepsField_defaulted (hoption (respects_readBootSession hrewrite)) (by decide),
    keepsField_string hrewrite _, keepsField_defaultedString hrewrite _,
    keepsField_required (respects_readCoverage hrewrite hwords) (by decide),
    keepsField_defaulted (hlist (respects_readServiceRecord hrewrite)) (by decide),
    keepsField_defaulted (hlist (respects_readFileRecord hrewrite)) (by decide),
    keepsField_defaulted (hlist (respects_readRegistryRecord hrewrite)) (by decide),
    keepsField_defaulted (hoption (respects_readRegistryPolicy hrewrite)) (by decide),
    keepsField_defaulted (hoption (respects_readFilesystemPolicy hrewrite hwords)) (by decide),
    keepsField_defaulted (hoption (hlist hstring)) (by decide),
    keepsField_defaulted (hoption (hlist (respects_readRegistryKeyRef hrewrite))) (by decide),
    fun _ h ↦ absurd h List.not_mem_nil⟩

theorem respects_readServiceChange : ReadsAgain rewrite change readServiceChange := by
  apply respects_fields hrewrite true
  simp only [List.forall_mem_cons]
  exact ⟨keepsField_string hrewrite _,
    keepsField_required (respects_readChangeKind hrewrite hwords) (by decide),
    keepsField_required (respects_readBool hrewrite) (by decide),
    keepsField_required (respects_readBool hrewrite) (by decide),
    keepsField_record hrewrite _ (respects_readServiceRecord hrewrite),
    keepsField_record hrewrite _ (respects_readServiceRecord hrewrite), keepsField_fields hrewrite,
    fun _ h ↦ absurd h List.not_mem_nil⟩

theorem respects_readFileChange : ReadsAgain rewrite change readFileChange := by
  apply respects_fields hrewrite true
  simp only [List.forall_mem_cons]
  exact ⟨keepsField_string hrewrite _,
    keepsField_required (respects_readChangeKind hrewrite hwords) (by decide),
    keepsField_text hrewrite (by decide),
    keepsField_required (respects_readBool hrewrite) (by decide),
    keepsField_record hrewrite _ (respects_readFileRecord hrewrite),
    keepsField_record hrewrite _ (respects_readFileRecord hrewrite), keepsField_fields hrewrite,
    fun _ h ↦ absurd h List.not_mem_nil⟩

theorem respects_readRegistryChange : ReadsAgain rewrite change readRegistryChange := by
  apply respects_fields hrewrite true
  simp only [List.forall_mem_cons]
  exact ⟨keepsField_string hrewrite _, keepsField_string hrewrite _,
    keepsField_required (respects_readChangeKind hrewrite hwords) (by decide),
    keepsField_record hrewrite _ (respects_readRegistryRecord hrewrite),
    keepsField_record hrewrite _ (respects_readRegistryRecord hrewrite), keepsField_fields hrewrite,
    fun _ h ↦ absurd h List.not_mem_nil⟩

theorem respects_readDiff : ReadsAgain rewrite change readDiff := by
  have hlist {reader : Reader} (h : ReadsAgain rewrite change reader) :=
    respects_readList hrewrite h
  have hoption {reader : Reader} (h : ReadsAgain rewrite change reader) :=
    respects_readOption hrewrite h
  have hstrings := hoption (hlist (respects_readString hrewrite))
  have hkeys := hoption (hlist (respects_readRegistryKeyRef hrewrite))
  have hservice := respects_readServiceChange hrewrite hwords
  have hfile := respects_readFileChange hrewrite hwords
  apply respects_fields hrewrite true
  simp only [List.forall_mem_cons]
  exact ⟨keepsField_unsigned hrewrite 32 (by decide),
    keepsField_defaulted (respects_readUnsigned hrewrite 32) (by decide),
    keepsField_string hrewrite _, keepsField_string hrewrite _,
    keepsField_defaulted (hoption (respects_readBool hrewrite)) (by decide),
    keepsField_defaulted hstrings (by decide), keepsField_defaulted hkeys (by decide),
    keepsField_defaulted hstrings (by decide), keepsField_defaulted hkeys (by decide),
    keepsField_required (respects_readCoverage hrewrite hwords) (by decide),
    keepsField_required (hlist hservice) (by decide),
    keepsField_required (hlist (respects_suppressed hrewrite hservice)) (by decide),
    keepsField_defaulted (hlist hfile) (by decide),
    keepsField_defaulted (hlist (respects_suppressed hrewrite hfile)) (by decide),
    keepsField_defaulted (hlist (respects_readRegistryChange hrewrite hwords)) (by decide),
    keepsField_flag hrewrite (by decide), keepsField_flag hrewrite (by decide),
    keepsField_defaulted (hlist (respects_readLibrary hrewrite hwords)) (by decide),
    keepsField_defaulted
      (respects_readMap hrewrite (respects_readUnsigned hrewrite 64) fun _ _ ↦ rfl)
      (by decide),
    keepsField_defaulted (respects_readRefiltered hrewrite) (by decide),
    keepsField_defaulted (hoption (hlist (respects_readFootprint hrewrite))) (by decide),
    fun _ h ↦ absurd h List.not_mem_nil⟩

end Types

/-! ## The document -/

/-- A redacted document has the shape of the original, and is a diff or a snapshot with the same
enumeration words where the original is one. -/
def KeepsKind (value : Value) (extra : Extra) : Prop :=
  (redactDocument value extra).1.shape = value.shape ∧
    ∀ reader ∈ [readDiff, readSnapshot], ∀ words, reader value = some words →
      reader (redactDocument value extra).1 = some words

/-- No name that the document teaches or the caller supplies stands on its own in an enumeration
word of the document. -/
def NamesNoWord (value : Value) (extra : Extra) : Prop :=
  ∀ reader ∈ [readDiff, readSnapshot], ∀ words, reader value = some words →
    ∀ word, .text word ∈ words → ∀ name, IsTaught value name ∨ IsSupplied extra name →
      ¬ StandsAlone word name

theorem standsAlone_congr {name name' : Text} (h : toAsciiLowercase name = toAsciiLowercase name')
    (text : Text) : StandsAlone text name ↔ StandsAlone text name' := by
  have hlength : name.length = name'.length := by
    have hlower := congrArg List.length h
    rwa [toAsciiLowercase, toAsciiLowercase, List.length_map, List.length_map] at hlower
  have hbytes : byteLen name = byteLen name' := by
    rw [← byteLen_toAsciiLowercase name, h, byteLen_toAsciiLowercase]
  have hempty : name.isEmpty = name'.isEmpty := by
    rw [Bool.eq_iff_iff, List.isEmpty_iff_length_eq_zero, List.isEmpty_iff_length_eq_zero, hlength]
  rw [StandsAlone, StandsAlone, findIgnoringCase, findIgnoringCase, h, hlength, hbytes, hempty]

/-- The names of the table are those that are taught or supplied, up to case. -/
theorem forall_mem_table_iff (value : Value) (extra : Extra) (text : Text) :
    (∀ name ∈ (gatherNames value extra).table, ¬ StandsAlone text name.1) ↔
      ∀ name, IsTaught value name ∨ IsSupplied extra name → ¬ StandsAlone text name := by
  constructor
  · intro h name hname
    obtain ⟨spelling, hmem, hspelling⟩ := exists_mem_table hname
    obtain ⟨entry, hentry, rfl⟩ := List.mem_map.mp hmem
    rw [← standsAlone_congr hspelling]
    exact h entry hentry
  · intro h name hname
    exact h name.1 (isTaught_or_isSupplied_of_mem_table (List.mem_map_of_mem hname))

theorem percent_mem_table {value : Value} {extra : Extra} :
    ∀ name ∈ (gatherNames value extra).table, '%' ∈ name.2 := by
  intro name hname
  rcases List.mem_append.mp hname with hname | hname
  · rcases List.mem_append.mp hname with hname | hname
    · obtain ⟨account, -, rfl⟩ := List.mem_map.mp hname
      exact (by decide : '%' ∈ userPlaceholder)
    · obtain ⟨computer, -, rfl⟩ := List.mem_map.mp hname
      exact (by decide : '%' ∈ hostPlaceholder)
  · obtain ⟨identifier, -, rfl⟩ := List.mem_map.mp hname
    exact (by decide : '%' ∈ idPlaceholder)

/-- A redacted document is still the same kind of document exactly when no name stands on its own in
one of its enumeration words. -/
theorem keepsKind_iff (value : Value) (extra : Extra) :
    KeepsKind value extra ↔ NamesNoWord value extra := by
  have hdocument : (redactDocument value extra).1 =
      (masked value).mapStrings (redactString (gatherNames value extra).table) := by
    rw [← rewrite_fst]
    rfl
  have hstands := forall_mem_table_iff value extra
  have hpercent : ∀ name ∈ (gatherNames value extra).table, '%' ∈ name.2 := percent_mem_table
  rw [KeepsKind, hdocument, and_iff_right (hdocument ▸ shape_redactDocument value extra),
    NamesNoWord]
  generalize (gatherNames value extra).table = names at hstands hpercent ⊢
  have hwords : ∀ word ∈ enumWords, redactString names word = word ∨
      redactString names word ∉ enumWords :=
    fun word hword ↦ (redactString_word hpercent hword).2
  have hrespects : ∀ reader ∈ [readDiff, readSnapshot],
      ReadsAgain (fun value ↦ (masked value).mapStrings (redactString names))
        (redactString names) reader := by
    intro reader hreader
    rcases List.mem_cons.mp hreader with rfl | hreader
    · exact respects_readDiff (rewritesStrings_masked _) hwords
    · obtain rfl := List.mem_singleton.mp hreader
      exact respects_readSnapshot (rewritesStrings_masked _) hwords
  have hkeeps : ∀ reader ∈ [readDiff, readSnapshot], ∀ words, reader value = some words →
      (KeepsWords (redactString names) words ↔
        ∀ word, .text word ∈ words → ∀ name, IsTaught value name ∨ IsSupplied extra name →
          ¬ StandsAlone word name) := by
    intro reader hreader words hread
    apply forall₂_congr
    intro word hword
    have hknown := (hrespects reader hreader).known value words hread word hword
    rw [(redactString_word hpercent hknown).1, hstands]
  constructor
  · intro hkind reader hreader words hread
    rw [← hkeeps reader hreader words hread]
    by_contra hlost
    have hnone := (hrespects reader hreader).lost value words hread hlost
    rw [hkind reader hreader words hread] at hnone
    cases hnone
  · intro hnames reader hreader words hread
    exact (hrespects reader hreader).kept value words hread
      ((hkeeps reader hreader words hread).mpr (hnames reader hreader words hread))

/-- A diff of a machine whose user is called like the word of an added file. -/
def addedDiff : Value :=
  .object [("format_version".toList, .number "2".toList),
    ("before_taken_utc".toList, .string "2026-10-01".toList),
    ("after_taken_utc".toList, .string "2026-10-02".toList),
    ("coverage".toList, .object [("captured".toList, .array [.string "filesystem".toList]),
      ("not_captured".toList, .array []), ("access_denied".toList, .array [])]),
    ("services".toList, .array []), ("suppressed".toList, .array []),
    ("files".toList, .array [.object
      [("path".toList, .string r"C:\Users\Added\game.log".toList),
        ("kind".toList, .string "added".toList),
        ("is_driver_image".toList, .bool false), ("before".toList, .null),
        ("after".toList, .null)]])]

theorem not_keepsKind_addedDiff : ¬ ∀ value extra, KeepsKind value extra := by
  intro h
  obtain ⟨-, hkind⟩ := h addedDiff noExtra
  have hread : readDiff addedDiff = some [.text "filesystem".toList, .text "added".toList] := by
    decide +kernel
  have hagain := hkind readDiff List.mem_cons_self _ hread
  revert hagain
  decide +kernel

end WardSweep.Redact
