import Mathlib.Data.List.Forall2
import WardSweep.Json.Value
import WardSweep.Rust.Matches

/-!
# Reading JSON as a type

A reader takes a JSON value as a value of some type, or does not.  What it gives is the words of the
enumerations it read on the way, in the order of the type.  A rewriting that changes strings only is
seen by a reader only where a string is such a word.
-/

namespace WardSweep.Json

open Utf8 Str

/-- A word of an enumeration as it was written: alone, or as the key of an object that holds nothing
else. -/
inductive Word where
  | text (word : Text)
  | key (word : Text)
  deriving DecidableEq, Repr

/-- Reads a value as a type, with the words of the enumerations in it. -/
abbrev Reader := Value → Option (List Word)

/-- Where a field of a structure may be left out: nowhere, among named fields, or also at the end of
an array. -/
inductive Omission where
  | never
  | named
  | always
  deriving DecidableEq, Repr

/-- A field of a structure. -/
structure Field where
  key : Text
  omission : Omission
  reader : Reader

/-! ## Readers -/

def readString : Reader
  | .string _ => some []
  | _ => none

def readBool : Reader
  | .bool _ => some []
  | _ => none

/-- An unsigned integer of so many bits. -/
def readUnsigned (bits : ℕ) : Reader
  | .number digits =>
    if !digits.isEmpty && digits.all (fun c ↦ isAsciiDigit c.toNat) &&
      digitsValue digits < 2 ^ bits then
      some []
    else none
  | _ => none

/-- An enumeration without data. -/
def readWord (words : List Text) : Reader
  | .string word => if word ∈ words then some [.text word] else none
  | .object [(word, .null)] => if word ∈ words then some [.key word] else none
  | _ => none

def readOption (reader : Reader) : Reader
  | .null => some []
  | value => reader value

def readList (reader : Reader) : Reader
  | .array items => (items.mapM reader).map List.flatten
  | _ => none

/-- A map from texts. -/
def readMap (reader : Reader) : Reader
  | .object fields => (fields.mapM fun field ↦ reader field.2).map List.flatten
  | _ => none

/-- One field among named fields.  It may not be written twice. -/
def readField (fields : List (Text × Value)) (field : Field) : Option (List Word) :=
  match fields.filter (·.1 == field.key) with
  | [] => if field.omission = .never then none else some []
  | [(_, value)] => field.reader value
  | _ => none

/-- The fields of a structure in order. -/
def readItems : List Field → List Value → Option (List Word)
  | [], [] => some []
  | [], _ :: _ => none
  | field :: schema, [] => if field.omission = .always then readItems schema [] else none
  | field :: schema, item :: items =>
    match field.reader item, readItems schema items with
    | some first, some rest => some (first ++ rest)
    | _, _ => none

/-- A structure, by the names of its fields or in their order.  A strict one has no other fields. -/
def readStruct (strict : Bool) (schema : List Field) : Reader
  | .object fields =>
    if strict && fields.any (fun field ↦ schema.all (·.key != field.1)) then none
    else (schema.mapM (readField fields)).map List.flatten
  | .array items => readItems schema items
  | _ => none

/-! ## Rewriting strings -/

/-- A rewriting of values that changes each string on its own, except that under a hidden key a
string may become any string. -/
structure RewritesStrings (rewrite : Value → Value) (change : Text → Text) (hidden : Text → Prop) :
    Prop where
  null : rewrite .null = .null
  bool : ∀ value, rewrite (.bool value) = .bool value
  number : ∀ digits, rewrite (.number digits) = .number digits
  string : ∀ text, rewrite (.string text) = .string (change text)
  array : ∀ items, rewrite (.array items) = .array (items.map rewrite)
  object : ∀ fields, ∃ fields', rewrite (.object fields) = .object fields' ∧
    List.Forall₂ (fun field field' ↦ field'.1 = field.1 ∧ (field'.2 = rewrite field.2 ∨
      hidden field.1 ∧ ∃ text text', field.2 = .string text ∧
        field'.2 = .string text')) fields fields'

/-- Every word that was written alone is kept. -/
def KeepsWords (change : Text → Text) (words : List Word) : Prop :=
  ∀ word, .text word ∈ words → change word = word

/-- A reader gives known words only. -/
def GivesKnown (known : Text → Prop) (reader : Reader) : Prop :=
  ∀ value words, reader value = some words → ∀ word, .text word ∈ words → known word

/-- What a reader reads is read after a rewriting as before where its words are kept, and not at all
elsewhere; the words written alone are known ones. -/
structure Respects (rewrite : Value → Value) (change : Text → Text) (known : Text → Prop)
    (reader : Reader) : Prop where
  known : GivesKnown known reader
  kept : ∀ value words, reader value = some words → KeepsWords change words →
    reader (rewrite value) = some words
  lost : ∀ value words, reader value = some words → ¬ KeepsWords change words →
    reader (rewrite value) = none

/-- A reader that takes one string as it takes another. -/
def IgnoresText (reader : Reader) : Prop :=
  ∀ text text', reader (.string text) = reader (.string text')

theorem keepsWords_append {change : Text → Text} {left right : List Word} :
    KeepsWords change (left ++ right) ↔ KeepsWords change left ∧ KeepsWords change right := by
  simp only [KeepsWords, List.mem_append, or_imp, forall_and]

theorem keepsWords_nil (change : Text → Text) : KeepsWords change [] :=
  fun _ hword ↦ absurd hword List.not_mem_nil

/-- Readings side by side are kept or lost together. -/
theorem mapM_kept_or_lost {α β : Type} {change : Text → Text} {read : α → Option (List Word)}
    {read' : β → Option (List Word)} {items : List α} {items' : List β}
    (h : List.Forall₂ (fun item item' ↦ ∀ words, read item = some words →
      (KeepsWords change words → read' item' = some words) ∧
        (¬ KeepsWords change words → read' item' = none)) items items')
    {lists : List (List Word)} (hlists : items.mapM read = some lists) :
    (KeepsWords change lists.flatten → items'.mapM read' = some lists) ∧
      (¬ KeepsWords change lists.flatten → items'.mapM read' = none) := by
  induction h generalizing lists with
  | nil =>
    obtain rfl : lists = [] := (Option.some.inj hlists).symm
    exact ⟨fun _ ↦ rfl, fun hlost ↦ absurd (keepsWords_nil change) hlost⟩
  | @cons item item' items items' hitem _ ih =>
    rw [List.mapM_cons] at hlists
    cases hread : read item with
    | none => simp [hread] at hlists
    | some words =>
      cases hreads : items.mapM read with
      | none => simp [hread, hreads] at hlists
      | some rest =>
        obtain rfl : lists = words :: rest := by simpa [hread, hreads] using hlists.symm
        obtain ⟨hkept, hlost⟩ := hitem words hread
        obtain ⟨hkeptRest, hlostRest⟩ := ih hreads
        rw [List.flatten_cons, keepsWords_append, List.mapM_cons]
        constructor
        · rintro ⟨hwords, hrest⟩
          rw [hkept hwords, hkeptRest hrest]
          rfl
        · intro hnot
          by_cases hwords : KeepsWords change words
          · rw [hkept hwords, hlostRest fun hrest ↦ hnot ⟨hwords, hrest⟩]
            rfl
          · rw [hlost hwords]
            rfl

/-- What readings side by side give is known when what each gives is. -/
theorem known_of_mapM {α : Type} {known : Text → Prop} {read : α → Option (List Word)}
    {items : List α}
    (h : ∀ item ∈ items, ∀ words, read item = some words → ∀ word, .text word ∈ words → known word)
    {lists : List (List Word)} (hlists : items.mapM read = some lists) :
    ∀ word, .text word ∈ lists.flatten → known word := by
  induction items generalizing lists with
  | nil =>
    obtain rfl : lists = [] := (Option.some.inj hlists).symm
    exact fun word hword ↦ absurd hword List.not_mem_nil
  | cons item items ih =>
    obtain ⟨hitem, hitems⟩ := List.forall_mem_cons.mp h
    rw [List.mapM_cons] at hlists
    cases hread : read item with
    | none => simp [hread] at hlists
    | some words =>
      cases hreads : items.mapM read with
      | none => simp [hread, hreads] at hlists
      | some rest =>
        obtain rfl : lists = words :: rest := by simpa [hread, hreads] using hlists.symm
        intro word hword
        rw [List.flatten_cons, List.mem_append] at hword
        exact hword.elim (hitem words hread word) (ih hitems hreads word)

theorem givesKnown_readList {known : Text → Prop} {reader : Reader} (h : GivesKnown known reader) :
    GivesKnown known (readList reader) := by
  intro value words hread
  cases value with
  | array items =>
    obtain ⟨lists, hlists, rfl⟩ := Option.map_eq_some_iff.mp hread
    exact known_of_mapM (fun item _ ↦ h item) hlists
  | null => cases hread
  | bool value => cases hread
  | number digits => cases hread
  | string text => cases hread
  | object fields => cases hread

theorem givesKnown_readMap {known : Text → Prop} {reader : Reader} (h : GivesKnown known reader) :
    GivesKnown known (readMap reader) := by
  intro value words hread
  cases value with
  | object fields =>
    obtain ⟨lists, hlists, rfl⟩ := Option.map_eq_some_iff.mp hread
    exact known_of_mapM (fun field _ ↦ h field.2) hlists
  | null => cases hread
  | bool value => cases hread
  | number digits => cases hread
  | string text => cases hread
  | array items => cases hread

theorem known_of_readItems {known : Text → Prop} {schema : List Field}
    (h : ∀ field ∈ schema, GivesKnown known field.reader) {items : List Value} {words : List Word}
    (hread : readItems schema items = some words) : ∀ word, .text word ∈ words → known word := by
  induction schema generalizing items words with
  | nil =>
    cases items with
    | nil =>
      obtain rfl := Option.some.inj hread
      exact fun word hword ↦ absurd hword List.not_mem_nil
    | cons item items => cases hread
  | cons field schema ih =>
    obtain ⟨hfield, hschema⟩ := List.forall_mem_cons.mp h
    cases items with
    | nil =>
      rw [readItems] at hread
      split at hread
      · exact ih hschema hread
      · cases hread
    | cons item items =>
      rw [readItems] at hread
      split at hread
      · next first rest hfirst hrest =>
        obtain rfl := Option.some.inj hread
        intro word hword
        exact (List.mem_append.mp hword).elim (hfield item first hfirst word)
          (ih hschema hrest word)
      · cases hread

theorem givesKnown_readStruct {known : Text → Prop} {strict : Bool} {schema : List Field}
    (h : ∀ field ∈ schema, GivesKnown known field.reader) :
    GivesKnown known (readStruct strict schema) := by
  intro value words hread
  cases value with
  | object fields =>
    rw [readStruct] at hread
    split at hread
    · cases hread
    · obtain ⟨lists, hlists, rfl⟩ := Option.map_eq_some_iff.mp hread
      refine known_of_mapM (fun field hfield words hwords ↦ ?_) hlists
      unfold readField at hwords
      split at hwords
      · split at hwords
        · cases hwords
        · obtain rfl := Option.some.inj hwords
          exact fun word hword ↦ absurd hword List.not_mem_nil
      · exact h field hfield _ words hwords
      · cases hwords
  | array items => exact known_of_readItems h hread
  | null => cases hread
  | bool value => cases hread
  | number digits => cases hread
  | string text => cases hread

theorem readOption_of_ne_null {reader : Reader} {value : Value} (h : value ≠ .null) :
    readOption reader value = reader value := by
  cases value with
  | null => exact absurd rfl h
  | bool value => rfl
  | number digits => rfl
  | string text => rfl
  | array items => rfl
  | object fields => rfl

section Rewriting

variable {rewrite : Value → Value} {change : Text → Text} {hidden known : Text → Prop}
  (hrewrite : RewritesStrings rewrite change hidden)

/-- The fields of a rewritten array are read as those of the array were. -/
theorem readItems_kept_or_lost {schema : List Field}
    (h : ∀ field ∈ schema, Respects rewrite change known field.reader) {items : List Value}
    {words : List Word} (hread : readItems schema items = some words) :
    (KeepsWords change words → readItems schema (items.map rewrite) = some words) ∧
      (¬ KeepsWords change words → readItems schema (items.map rewrite) = none) := by
  induction schema generalizing items words with
  | nil =>
    cases items with
    | nil =>
      obtain rfl := Option.some.inj hread
      exact ⟨fun _ ↦ rfl, fun hlost ↦ absurd (keepsWords_nil change) hlost⟩
    | cons item items => cases hread
  | cons field schema ih =>
    obtain ⟨hfield, hschema⟩ := List.forall_mem_cons.mp h
    cases items with
    | nil =>
      rw [readItems] at hread
      split at hread
      · next halways =>
        rw [List.map_nil, readItems, if_pos halways]
        exact ih hschema hread
      · cases hread
    | cons item items =>
      rw [readItems] at hread
      split at hread
      · next first rest hfirst hrest =>
        obtain rfl := Option.some.inj hread
        obtain ⟨hkept, hlost⟩ := ih hschema hrest
        rw [List.map_cons, readItems, keepsWords_append]
        constructor
        · rintro ⟨hfirstKept, hrestKept⟩
          rw [hfield.kept item first hfirst hfirstKept, hkept hrestKept]
        · intro hnot
          by_cases hfirstKept : KeepsWords change first
          · rw [hfield.kept item first hfirst hfirstKept,
              hlost fun hrestKept ↦ hnot ⟨hfirstKept, hrestKept⟩]
          · rw [hfield.lost item first hfirst hfirstKept]
      · cases hread

include hrewrite

theorem RewritesStrings.exists_object (fields : List (Text × Value)) :
    ∃ fields', rewrite (.object fields) = .object fields' := by
  obtain ⟨fields', hfields', -⟩ := hrewrite.object fields
  exact ⟨fields', hfields'⟩

theorem RewritesStrings.ne_null {value : Value} (h : value ≠ .null) : rewrite value ≠ .null := by
  cases value with
  | null => exact absurd rfl h
  | bool value => rw [hrewrite.bool]; exact Value.noConfusion
  | number digits => rw [hrewrite.number]; exact Value.noConfusion
  | string text => rw [hrewrite.string]; exact Value.noConfusion
  | array items => rw [hrewrite.array]; exact Value.noConfusion
  | object fields =>
    obtain ⟨fields', hfields'⟩ := hrewrite.exists_object fields
    rw [hfields']
    exact Value.noConfusion

/-- A reader of a scalar type reads a rewritten value as it reads the value. -/
theorem respects_of_scalar {reader : Reader}
    (hwords : ∀ value words, reader value = some words → words = []) (hstring : IgnoresText reader)
    (harray : ∀ items, reader (.array items) = none)
    (hobject : ∀ fields, reader (.object fields) = none) :
    Respects rewrite change known reader := by
  have hsame : ∀ value, reader (rewrite value) = reader value := by
    intro value
    cases value with
    | null => rw [hrewrite.null]
    | bool value => rw [hrewrite.bool]
    | number digits => rw [hrewrite.number]
    | string text => rw [hrewrite.string, hstring]
    | array items => rw [hrewrite.array, harray, harray]
    | object fields =>
      obtain ⟨fields', hfields'⟩ := hrewrite.exists_object fields
      rw [hfields', hobject, hobject]
  constructor
  · intro value words h word hword
    rw [hwords value words h] at hword
    exact absurd hword List.not_mem_nil
  · intro value words h _
    rw [hsame, h]
  · intro value words h hlost
    rw [hwords value words h] at hlost
    exact absurd (keepsWords_nil change) hlost

theorem respects_readString : Respects rewrite change known readString := by
  apply respects_of_scalar hrewrite
  · intro value words h
    cases value <;> simp_all [readString]
  · exact fun _ _ ↦ rfl
  · exact fun _ ↦ rfl
  · exact fun _ ↦ rfl

theorem respects_readBool : Respects rewrite change known readBool := by
  apply respects_of_scalar hrewrite
  · intro value words h
    cases value <;> simp_all [readBool]
  · exact fun _ _ ↦ rfl
  · exact fun _ ↦ rfl
  · exact fun _ ↦ rfl

theorem respects_readUnsigned (bits : ℕ) : Respects rewrite change known (readUnsigned bits) := by
  apply respects_of_scalar hrewrite
  · intro value words h
    cases value <;> simp_all [readUnsigned]
  · exact fun _ _ ↦ rfl
  · exact fun _ ↦ rfl
  · exact fun _ ↦ rfl

/-- A word is kept, or becomes none of the words of its enumeration. -/
theorem respects_readWord {words : List Text} (hknown : ∀ word ∈ words, known word)
    (hchange : ∀ word ∈ words, change word = word ∨ change word ∉ words) :
    Respects rewrite change known (readWord words) := by
  have hread : ∀ value read, readWord words value = some read →
      (∃ word ∈ words, value = .string word ∧ read = [.text word]) ∨
        ∃ word ∈ words, value = .object [(word, .null)] ∧ read = [.key word] := by
    intro value read h
    unfold readWord at h
    split at h
    · next word =>
      split at h
      · next hword => exact .inl ⟨word, hword, rfl, (Option.some.inj h).symm⟩
      · cases h
    · next word =>
      split at h
      · next hword => exact .inr ⟨word, hword, rfl, (Option.some.inj h).symm⟩
      · cases h
    · cases h
  have hkey : ∀ word, rewrite (.object [(word, .null)]) = .object [(word, .null)] := by
    intro word
    obtain ⟨fields', hfields', hrelated⟩ := hrewrite.object [(word, .null)]
    cases hrelated with
    | cons hfirst hrest =>
      cases hrest
      obtain ⟨hname, hvalue | ⟨-, text, text', htext, -⟩⟩ := hfirst
      · rw [hfields']
        dsimp only at hname hvalue
        rw [hrewrite.null] at hvalue
        rw [← hname, ← hvalue]
      · cases htext
  constructor
  · intro value read h other hother
    rcases hread value read h with ⟨word, hword, rfl, rfl⟩ | ⟨word, hword, rfl, rfl⟩
    · rw [Word.text.inj (List.mem_singleton.mp hother)]
      exact hknown word hword
    · cases List.mem_singleton.mp hother
  · intro value read h hkept
    rcases hread value read h with ⟨word, hword, rfl, rfl⟩ | ⟨word, hword, rfl, rfl⟩
    · rw [hrewrite.string, hkept word List.mem_cons_self]
      exact h
    · rw [hkey]
      exact h
  · intro value read h hlost
    rcases hread value read h with ⟨word, hword, rfl, rfl⟩ | ⟨word, hword, rfl, rfl⟩
    · have hchanged : change word ≠ word := by
        intro hsame
        apply hlost
        intro other hother
        obtain rfl := Word.text.inj (List.mem_singleton.mp hother)
        exact hsame
      rw [hrewrite.string, readWord, if_neg ((hchange word hword).resolve_left hchanged)]
    · apply absurd _ hlost
      intro other hother
      cases List.mem_singleton.mp hother

theorem respects_readOption {reader : Reader} (h : Respects rewrite change known reader) :
    Respects rewrite change known (readOption reader) := by
  constructor
  · intro value words hread
    by_cases hnull : value = .null
    · rw [hnull] at hread
      obtain rfl := Option.some.inj hread
      exact fun word hword ↦ absurd hword List.not_mem_nil
    · rw [readOption_of_ne_null hnull] at hread
      exact h.known value words hread
  · intro value words hread hkept
    by_cases hnull : value = .null
    · rw [hnull, hrewrite.null, ← hnull]
      exact hread
    · rw [readOption_of_ne_null hnull] at hread
      rw [readOption_of_ne_null (hrewrite.ne_null hnull)]
      exact h.kept value words hread hkept
  · intro value words hread hlost
    by_cases hnull : value = .null
    · rw [hnull] at hread
      obtain rfl := Option.some.inj hread
      exact absurd (keepsWords_nil change) hlost
    · rw [readOption_of_ne_null hnull] at hread
      rw [readOption_of_ne_null (hrewrite.ne_null hnull)]
      exact h.lost value words hread hlost

theorem respects_readList {reader : Reader} (h : Respects rewrite change known reader) :
    Respects rewrite change known (readList reader) := by
  have hboth : ∀ value words, readList reader value = some words →
      (KeepsWords change words → readList reader (rewrite value) = some words) ∧
        (¬ KeepsWords change words → readList reader (rewrite value) = none) := by
    intro value words hread
    cases value with
    | array items =>
      obtain ⟨lists, hlists, rfl⟩ := Option.map_eq_some_iff.mp hread
      have hrelated : List.Forall₂ (fun item item' ↦ ∀ words, reader item = some words →
          (KeepsWords change words → reader item' = some words) ∧
            (¬ KeepsWords change words → reader item' = none)) items (items.map rewrite) := by
        rw [List.forall₂_map_right_iff, List.forall₂_same]
        exact fun item _ words hwords ↦ ⟨h.kept item words hwords, h.lost item words hwords⟩
      obtain ⟨hkept, hlost⟩ := mapM_kept_or_lost hrelated hlists
      rw [hrewrite.array, readList]
      exact ⟨fun hwords ↦ by rw [hkept hwords]; rfl, fun hwords ↦ by rw [hlost hwords]; rfl⟩
    | null => cases hread
    | bool value => cases hread
    | number digits => cases hread
    | string text => cases hread
    | object fields => cases hread
  exact ⟨givesKnown_readList h.known, fun value words hread ↦ (hboth value words hread).1,
    fun value words hread ↦ (hboth value words hread).2⟩

/-- Under a hidden key too, a reader that ignores text keeps what it read, or loses it. -/
theorem Respects.of_field {reader : Reader} (h : Respects rewrite change known reader) {key : Text}
    (hignores : hidden key → IgnoresText reader) {value value' : Value}
    (hvalue : value' = rewrite value ∨
      hidden key ∧ ∃ text text', value = .string text ∧ value' = .string text')
    {words : List Word} (hread : reader value = some words) :
    (KeepsWords change words → reader value' = some words) ∧
      (¬ KeepsWords change words → reader value' = none) := by
  rcases hvalue with rfl | ⟨hhidden, text, text', rfl, rfl⟩
  · exact ⟨h.kept value words hread, h.lost value words hread⟩
  · have hsame : reader (.string text') = some words := by rw [hignores hhidden text' text, hread]
    refine ⟨fun _ ↦ hsame, fun hlost ↦ ?_⟩
    have hnone := h.lost (.string text) words hread hlost
    rw [hrewrite.string, hignores hhidden (change text) text, hread] at hnone
    cases hnone

theorem respects_readMap {reader : Reader} (h : Respects rewrite change known reader)
    (hignores : IgnoresText reader) : Respects rewrite change known (readMap reader) := by
  have hboth : ∀ value words, readMap reader value = some words →
      (KeepsWords change words → readMap reader (rewrite value) = some words) ∧
        (¬ KeepsWords change words → readMap reader (rewrite value) = none) := by
    intro value words hread
    cases value with
    | object fields =>
      obtain ⟨lists, hlists, rfl⟩ := Option.map_eq_some_iff.mp hread
      obtain ⟨fields', hfields', hrelated⟩ := hrewrite.object fields
      obtain ⟨hkept, hlost⟩ :=
        mapM_kept_or_lost (hrelated.imp fun field field' hfield words hwords ↦
        h.of_field hrewrite (fun _ ↦ hignores) hfield.2 hwords) hlists
      rw [hfields', readMap]
      exact ⟨fun hwords ↦ by rw [hkept hwords]; rfl, fun hwords ↦ by rw [hlost hwords]; rfl⟩
    | null => cases hread
    | bool value => cases hread
    | number digits => cases hread
    | string text => cases hread
    | array items => cases hread
  exact ⟨givesKnown_readMap h.known, fun value words hread ↦ (hboth value words hread).1,
    fun value words hread ↦ (hboth value words hread).2⟩

/-- A field of a rewritten object is read as the field was. -/
theorem readField_kept_or_lost {field : Field} (h : Respects rewrite change known field.reader)
    (hignores : hidden field.key → IgnoresText field.reader) {fields fields' : List (Text × Value)}
    (hrelated : List.Forall₂ (fun field field' ↦ field'.1 = field.1 ∧ (field'.2 = rewrite field.2 ∨
      hidden field.1 ∧ ∃ text text', field.2 = .string text ∧
        field'.2 = .string text')) fields fields')
    {words : List Word} (hread : readField fields field = some words) :
    (KeepsWords change words → readField fields' field = some words) ∧
      (¬ KeepsWords change words → readField fields' field = none) := by
  have hfilter : List.Forall₂ (fun one one' ↦ one.1 = field.key ∧ (one'.2 = rewrite one.2 ∨
      hidden one.1 ∧ ∃ text text', one.2 = .string text ∧ one'.2 = .string text'))
      (fields.filter (·.1 == field.key)) (fields'.filter (·.1 == field.key)) := by
    clear hread
    induction hrelated with
    | nil => exact .nil
    | @cons one one' _ _ hone _ ih =>
      rw [List.filter_cons, List.filter_cons, hone.1]
      by_cases hkey : (one.1 == field.key) = true
      · rw [if_pos hkey, if_pos hkey]
        exact .cons ⟨beq_iff_eq.mp hkey, hone.2⟩ ih
      · rw [if_neg hkey, if_neg hkey]
        exact ih
  rw [readField] at hread ⊢
  revert hread
  generalize fields.filter (·.1 == field.key) = found at hfilter ⊢
  generalize fields'.filter (·.1 == field.key) = found' at hfilter ⊢
  intro hread
  cases hfilter with
  | nil =>
    dsimp only at hread ⊢
    split at hread
    · cases hread
    · next hallowed =>
      obtain rfl := Option.some.inj hread
      rw [if_neg hallowed]
      exact ⟨fun _ ↦ rfl, fun hlost ↦ absurd (keepsWords_nil change) hlost⟩
  | @cons one one' _ _ hone hrest =>
    cases hrest with
    | nil =>
      obtain ⟨hkey, hvalue⟩ := hone
      rw [hkey] at hvalue
      exact h.of_field hrewrite hignores hvalue hread
    | cons _ _ => cases hread

theorem respects_readStruct (strict : Bool) {schema : List Field}
    (h : ∀ field ∈ schema, Respects rewrite change known field.reader)
    (hignores : ∀ field ∈ schema, hidden field.key → IgnoresText field.reader) :
    Respects rewrite change known (readStruct strict schema) := by
  have hboth : ∀ value words, readStruct strict schema value = some words →
      (KeepsWords change words → readStruct strict schema (rewrite value) = some words) ∧
        (¬ KeepsWords change words → readStruct strict schema (rewrite value) = none) := by
    intro value words hread
    cases value with
    | object fields =>
      obtain ⟨fields', hfields', hrelated⟩ := hrewrite.object fields
      have hkeys : (strict && fields'.any fun field ↦ schema.all (·.key != field.1)) =
          (strict && fields.any fun field ↦ schema.all (·.key != field.1)) := by
        congr 1
        clear hfields' hread
        induction hrelated with
        | nil => rfl
        | cons hone _ ih => rw [List.any_cons, List.any_cons, hone.1, ih]
      rw [readStruct] at hread
      rw [hfields', readStruct, hkeys]
      split at hread
      · cases hread
      · next hstrict =>
        obtain ⟨lists, hlists, rfl⟩ := Option.map_eq_some_iff.mp hread
        have hsame : List.Forall₂ (fun field field' ↦ ∀ words, readField fields field = some words →
            (KeepsWords change words → readField fields' field' = some words) ∧
              (¬ KeepsWords change words → readField fields' field' = none)) schema schema := by
          rw [List.forall₂_same]
          exact fun field hfield words hwords ↦ readField_kept_or_lost hrewrite (h field hfield)
            (hignores field hfield) hrelated hwords
        obtain ⟨hkept, hlost⟩ := mapM_kept_or_lost hsame hlists
        rw [if_neg hstrict]
        exact ⟨fun hwords ↦ by rw [hkept hwords]; rfl, fun hwords ↦ by rw [hlost hwords]; rfl⟩
    | array items =>
      rw [hrewrite.array]
      exact readItems_kept_or_lost h hread
    | null => cases hread
    | bool value => cases hread
    | number digits => cases hread
    | string text => cases hread
  exact ⟨givesKnown_readStruct fun field hfield ↦ (h field hfield).known,
    fun value words hread ↦ (hboth value words hread).1,
    fun value words hread ↦ (hboth value words hread).2⟩

end Rewriting

end WardSweep.Json
