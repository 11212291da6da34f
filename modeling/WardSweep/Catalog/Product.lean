import WardSweep.Catalog.Expand
import WardSweep.Ordered.Choices
import WardSweep.Rust.Matches

/-!
# Expansion is the full product

A template is literal text and placeholders.  What it expands to is one text for each way of
choosing a value at every placeholder, and whether it expands at all is decided by the template.
-/

namespace WardSweep.Expand

open Utf8 Str Ordered

/-! ## Reading a template -/

/-- A name the schema defines. -/
def isKnown (name : Text) : Bool := knownVariables.any fun known ↦ eqIgnoreAsciiCase known name

/-- A template as it is written: literal text, and then each placeholder with the literal text
behind it. -/
def written (literal : Text) : List (Text × Text) → Text
  | [] => literal
  | (name, after) :: more => literal ++ '%' :: (name ++ '%' :: written after more)

/-- The template with a value at each placeholder. -/
def fill (literal : Text) : List (Text × Text) → List Text → Text
  | (_, after) :: more, value :: choice => literal ++ value ++ fill after more choice
  | _, _ => literal

/-- How a template is read. -/
structure IsReading (template literal : Text) (placeholders : List (Text × Text)) : Prop where
  template_eq : template = written literal placeholders
  literal_plain : '%' ∉ literal
  plain : ∀ placeholder ∈ placeholders, '%' ∉ placeholder.1 ∧ '%' ∉ placeholder.2

/-- The values to choose from, placeholder by placeholder. -/
def options (values : Text → Option (List Text)) (placeholders : List (Text × Text)) :
    List (List Text) :=
  placeholders.map fun placeholder ↦ (values placeholder.1).getD []

theorem IsReading.splitOn_eq {template literal : Text} {placeholders : List (Text × Text)}
    (h : IsReading template literal placeholders) :
    template.splitOn '%' = literal :: placeholders.flatMap fun placeholder ↦
      [placeholder.1, placeholder.2] := by
  obtain ⟨rfl, hliteral, hplain⟩ := h
  induction placeholders generalizing literal with
  | nil => exact List.splitOn_eq_singleton hliteral
  | cons placeholder more ih =>
    obtain ⟨hname, hafter⟩ := hplain placeholder List.mem_cons_self
    rw [written, List.splitOn_append_cons_self_of_not_mem hliteral,
      List.splitOn_append_cons_self_of_not_mem hname,
      ih hafter fun other hother ↦ hplain other (List.mem_cons_of_mem _ hother)]
    rfl

theorem isReading_cons {literal name rest after : Text} {more : List (Text × Text)}
    (hliteral : '%' ∉ literal) (hname : '%' ∉ name) (h : IsReading rest after more) :
    IsReading (literal ++ '%' :: (name ++ '%' :: rest)) literal ((name, after) :: more) := by
  refine ⟨?_, hliteral, ?_⟩
  · rw [h.template_eq]
    rfl
  · rw [List.forall_mem_cons]
    exact ⟨⟨hname, h.literal_plain⟩, h.plain⟩

/-- A template that expands is literal text and placeholders with known names. -/
theorem exists_isReading {values : Text → Option (List Text)} {results expansions : List Text}
    {template : Text} (h : expandPieces values results (template.splitOn '%') = .ok expansions) :
    ∃ literal placeholders, IsReading template literal placeholders ∧
      ∀ placeholder ∈ placeholders, isKnown placeholder.1 = true := by
  induction hlength : template.length using Nat.strongRecOn generalizing template results with
  | ind length ih =>
    by_cases hpercent : '%' ∈ template
    · obtain ⟨literal, name, rest, rfl, hliteral, hname, hknown, hrest⟩ :=
        exists_placeholder hpercent h
      have hshorter : rest.length < length := by
        rw [← hlength]
        simp
        omega
      obtain ⟨after, more, hreading, hmore⟩ := ih rest.length hshorter hrest rfl
      refine ⟨literal, (name, after) :: more, isReading_cons hliteral hname hreading, ?_⟩
      rw [List.forall_mem_cons]
      exact ⟨hknown, hmore⟩
    · exact ⟨template, [], ⟨rfl, hpercent, by simp⟩, by simp⟩

/-- The loop puts every way of choosing behind each text there was. -/
theorem expandPieces_eq_ok {values : Text → Option (List Text)} {literal : Text}
    {placeholders : List (Text × Text)}
    (hknown : ∀ placeholder ∈ placeholders, isKnown placeholder.1 = true) (results : List Text) :
    expandPieces values results (literal :: placeholders.flatMap fun placeholder ↦
        [placeholder.1, placeholder.2]) =
      .ok (results.flatMap fun before ↦ (choices (options values placeholders)).map fun choice ↦
        before ++ fill literal placeholders choice) := by
  induction placeholders generalizing literal results with
  | nil =>
    rw [List.flatMap_nil, expandPieces]
    simp only [options, List.map_nil, choices, List.map_singleton, fill]
    exact congrArg Except.ok List.map_eq_flatMap
  | cons placeholder more ih =>
    obtain ⟨hname, hmore⟩ := List.forall_mem_cons.mp hknown
    unfold isKnown at hname
    have hpieces :
        ((placeholder :: more).flatMap fun placeholder ↦ [placeholder.1, placeholder.2]) =
        placeholder.1 :: placeholder.2 :: more.flatMap fun placeholder ↦
          [placeholder.1, placeholder.2] := rfl
    have hstep := @ih placeholder.2 hmore (results.flatMap fun before ↦
      ((values placeholder.1).getD []).map fun value ↦ before ++ literal ++ value)
    rw [hpieces, expandPieces, if_pos hname, hstep]
    simp only [options, List.map_cons, choices, fill, List.flatMap_assoc, List.flatMap_map,
      List.map_flatMap, List.map_map, Function.comp_def, List.append_assoc]

/-- Expansion succeeds with exactly the texts of all ways of choosing. -/
theorem expandWith_eq_ok_iff {values : Text → Option (List Text)} {template : Text}
    {expansions : List Text} :
    expandWith template values = .ok expansions ↔
      ∃ literal placeholders, IsReading template literal placeholders ∧
        (∀ placeholder ∈ placeholders, isKnown placeholder.1 = true) ∧
          expansions = (choices (options values placeholders)).map (fill literal placeholders) := by
  have hvalue {literal : Text} {placeholders : List (Text × Text)}
      (hreading : IsReading template literal placeholders)
      (hknown : ∀ placeholder ∈ placeholders, isKnown placeholder.1 = true) :
      expandWith template values =
        .ok ((choices (options values placeholders)).map (fill literal placeholders)) := by
    rw [expandWith, hreading.splitOn_eq, expandPieces_eq_ok hknown, List.flatMap_singleton]
    rfl
  constructor
  · intro h
    obtain ⟨literal, placeholders, hreading, hknown⟩ := exists_isReading h
    exact ⟨literal, placeholders, hreading, hknown,
      Except.ok.inj (h.symm.trans (hvalue hreading hknown))⟩
  · rintro ⟨literal, placeholders, hreading, hknown, rfl⟩
    exact hvalue hreading hknown

/-! ## Errors -/

/-- Whether the loop fails, and how, is decided by the pieces. -/
theorem expandPieces_eq_error_iff (values values' : Text → Option (List Text))
    (results results' pieces : List Text) (error : ExpandError) :
    expandPieces values results pieces = .error error ↔
      expandPieces values' results' pieces = .error error := by
  fun_induction expandPieces values results pieces generalizing results' with
  | case1 => simp [expandPieces]
  | case2 => simp [expandPieces]
  | case3 => simp [expandPieces]
  | case4 results literal name rest more hknown ih =>
    rw [expandPieces, if_pos hknown]
    exact ih _
  | case5 results literal name rest more hunknown =>
    rw [expandPieces, if_neg hunknown]

theorem expandWith_eq_error_iff (values values' : Text → Option (List Text)) (template : Text)
    (error : ExpandError) :
    expandWith template values = .error error ↔ expandWith template values' = .error error :=
  expandPieces_eq_error_iff values values' [[]] [[]] _ error

/-! ## The scanning loop -/

/-- One turn of the loop over a template: the result, or the texts so far and the rest. -/
def scanStep (values : Text → Option (List Text)) (results : List Text) (rest : Text) :
    Except ExpandError (List Text) ⊕ List Text × Text :=
  match splitOnce rest ['%'] with
  | none => .inl (.ok (results.map (· ++ rest)))
  | some (literal, after) =>
    match splitOnce after ['%'] with
    | none => .inl (.error .unterminatedVariable)
    | some (name, rest) =>
      if knownVariables.any fun known ↦ eqIgnoreAsciiCase known name then
        .inr (results.flatMap fun before ↦
          ((values name).getD []).map fun value ↦ before ++ literal ++ value, rest)
      else .inl (.error (.unknownVariable name))

/-- The loop ends with a result after some turns. -/
inductive Scans (values : Text → Option (List Text)) :
    List Text → Text → Except ExpandError (List Text) → Prop
  | ends {results : List Text} {rest : Text} {result : Except ExpandError (List Text)}
    (h : scanStep values results rest = .inl result) : Scans values results rest result
  | turn {results results' : List Text} {rest rest' : Text}
      {result : Except ExpandError (List Text)}
    (h : scanStep values results rest = .inr (results', rest'))
    (more : Scans values results' rest' result) : Scans values results rest result

theorem splitOnce_of_not_mem {text : Text} {c : Char} (h : c ∉ text) :
    splitOnce text [c] = none := by
  cases hsplit : splitOnce text [c] with
  | none => rfl
  | some parts =>
    have htext := (of_splitOnce_singleton hsplit).2
    exact absurd (htext ▸ List.mem_append_right _ List.mem_cons_self) h

/-- The loop ends, with what the pieces between the `%`s give. -/
theorem scans_expandPieces (values : Text → Option (List Text)) (results : List Text)
    (template : Text) : Scans values results template
      (expandPieces values results (template.splitOn '%')) := by
  induction hlength : template.length using Nat.strongRecOn generalizing template results with
  | ind length ih =>
    by_cases hpercent : '%' ∈ template
    swap
    · rw [List.splitOn_eq_singleton hpercent]
      refine .ends ?_
      rw [scanStep, splitOnce_of_not_mem hpercent]
      rfl
    obtain ⟨literal, after, rfl, hliteral⟩ := List.eq_append_cons_of_mem hpercent
    rw [List.splitOn_append_cons_self_of_not_mem hliteral]
    by_cases hmore : '%' ∈ after
    swap
    · rw [List.splitOn_eq_singleton hmore]
      refine .ends ?_
      rw [scanStep, splitOnce_append_cons hliteral]
      simp only [splitOnce_of_not_mem hmore]
      rfl
    obtain ⟨name, rest, rfl, hname⟩ := List.eq_append_cons_of_mem hmore
    rw [List.splitOn_append_cons_self_of_not_mem hname]
    obtain ⟨first, others, hrest⟩ := List.exists_cons_of_ne_nil (List.splitOn_ne_nil '%' rest)
    have hstep : scanStep values results (literal ++ '%' :: (name ++ '%' :: rest)) =
        if knownVariables.any fun known ↦ eqIgnoreAsciiCase known name then
          .inr (results.flatMap fun before ↦
            ((values name).getD []).map fun value ↦ before ++ literal ++ value, rest)
        else .inl (.error (.unknownVariable name)) := by
      rw [scanStep, splitOnce_append_cons hliteral]
      simp only [splitOnce_append_cons hname]
    rw [hrest, expandPieces]
    split_ifs at hstep ⊢ with hknown
    · refine .turn hstep ?_
      rw [← hrest]
      apply ih rest.length _ _ _ rfl
      rw [← hlength]
      simp
      omega
    · exact .ends hstep

/-- A loop has one result at most. -/
theorem Scans.unique {values : Text → Option (List Text)} {results : List Text} {template : Text}
    {result result' : Except ExpandError (List Text)} (h : Scans values results template result)
    (h' : Scans values results template result') : result = result' := by
  induction h with
  | ends hstep =>
    cases h' with
    | ends hstep' => exact Sum.inl.inj (hstep.symm.trans hstep')
    | turn hstep' _ => cases hstep.symm.trans hstep'
  | turn hstep _ ih =>
    cases h' with
    | ends hstep' => cases hstep.symm.trans hstep'
    | turn hstep' hmore' =>
      obtain ⟨rfl, rfl⟩ := Prod.mk.inj (Sum.inr.inj (hstep.symm.trans hstep'))
      exact ih hmore'

theorem scans_iff {values : Text → Option (List Text)} {template : Text}
    {result : Except ExpandError (List Text)} :
    Scans values [[]] template result ↔ result = expandWith template values := by
  constructor
  · intro h
    exact h.unique (scans_expandPieces values [[]] template)
  · rintro rfl
    exact scans_expandPieces values [[]] template

/-! ## The product -/

/-- The expansions are the texts of all ways of choosing, in lexicographic order; there are as many
as the product of the numbers of values, and none where a variable has none. -/
structure IsProduct (values : Text → Option (List Text)) (literal : Text)
    (placeholders : List (Text × Text)) (expansions : List Text) : Prop where
  expansions_eq : expansions = (numberedChoices (options values placeholders)).map fun choice ↦
    fill literal placeholders (choice.map Prod.fst)
  mem_iff : ∀ expansion, expansion ∈ expansions ↔ ∃ choice,
    List.Forall₂ (· ∈ ·) choice (options values placeholders) ∧
      fill literal placeholders choice = expansion
  lexicographic : (numberedChoices (options values placeholders)).Pairwise
    (List.Lex fun left right ↦ left.2 < right.2)
  length_eq : expansions.length = ((options values placeholders).map List.length).prod
  eq_nil : (∃ placeholder ∈ placeholders, values placeholder.1 = none) → expansions = []

theorem isProduct_choices (values : Text → Option (List Text)) (literal : Text)
    (placeholders : List (Text × Text)) : IsProduct values literal placeholders
      ((choices (options values placeholders)).map (fill literal placeholders)) where
  expansions_eq := by
    rw [← map_numberedChoices, List.map_map]
    rfl
  mem_iff expansion := by
    simp only [List.mem_map, mem_choices_iff]
  lexicographic := pairwise_numberedChoices _
  length_eq := by rw [List.length_map, length_choices]
  eq_nil := by
    rintro ⟨placeholder, hplaceholder, hnone⟩
    rw [choices_eq_nil_of_mem, List.map_nil]
    exact List.mem_map.mpr ⟨placeholder, hplaceholder, by rw [hnone]; rfl⟩

/-- Expansion gives the full product of the values; its errors are those of the template; and the
loop over the template ends with just that. -/
theorem expandWith_isProduct (values : Text → Option (List Text)) (template : Text) :
    (∀ expansions, expandWith template values = .ok expansions ↔
      ∃ literal placeholders, IsReading template literal placeholders ∧
        (∀ placeholder ∈ placeholders, isKnown placeholder.1 = true) ∧
          IsProduct values literal placeholders expansions) ∧
      (∀ error, expandForValidation template = .error error ↔
        ∀ values' : Text → Option (List Text), expandWith template values' = .error error) ∧
        (∀ error, expandWith template values = .error error ↔
          expandForValidation template = .error error) ∧
          ∀ result, Scans values [[]] template result ↔ result = expandWith template values := by
  refine ⟨fun expansions ↦ ?_, fun error ↦ ?_, expandWith_eq_error_iff values _ template,
    fun result ↦ scans_iff⟩
  · rw [expandWith_eq_ok_iff]
    refine exists₂_congr fun literal placeholders ↦ and_congr_right fun _ ↦
      and_congr_right fun _ ↦ ?_
    constructor
    · rintro rfl
      exact isProduct_choices values literal placeholders
    · intro h
      rw [h.expansions_eq, ← (isProduct_choices values literal placeholders).expansions_eq]
  · constructor
    · intro h values'
      exact (expandWith_eq_error_iff _ values' template error).mp h
    · intro h
      exact h candidatesFor

/-- Two libraries of one launcher, and a variable that is used twice. -/
example : expandWith "%EPIC_LIBRARY%-%EPIC_LIBRARY%".toList
    (fun _ ↦ some [['a'], ['b']]) =
      .ok ["a-a".toList, "a-b".toList, "b-a".toList, "b-b".toList] := by
  decide

end WardSweep.Expand
