import WardSweep.Redact.Clean
import WardSweep.Redact.Residual
import WardSweep.Redact.Review

/-!
# The review and the redactor

The review runs the rules of the redactor over every string again, so what it does not list is a
string that they leave alone; and a string that teaches a name is never one of those.  It does not
look at the names of registry values.  So a document in which it finds nothing is left as it is by
the redactor unless an object in it holds an identifier to mask.
-/

namespace WardSweep.Redact

open Utf8 Str Json

/-! ## What is reported was changed -/

/-- A pass reports a placeholder, and none that is empty, unless it leaves the text alone. -/
def Reports {α : Type*} (state state' : α × List Text) : Prop :=
  ∃ added, state'.2 = state.2 ++ added ∧ (∀ placeholder ∈ added, placeholder ≠ []) ∧
    (added = [] → state'.1 = state.1)

namespace Reports

variable {α : Type*} {state state' state'' : α × List Text}

theorem refl (state : α × List Text) : Reports state state :=
  ⟨[], (List.append_nil _).symm, fun _ hmem ↦ absurd hmem List.not_mem_nil, fun _ ↦ rfl⟩

theorem trans (h : Reports state state') (h' : Reports state' state'') : Reports state state'' := by
  obtain ⟨added, hadded, hne, hsame⟩ := h
  obtain ⟨added', hadded', hne', hsame'⟩ := h'
  refine ⟨added ++ added', by rw [hadded', hadded, List.append_assoc], ?_, ?_⟩
  · intro placeholder hmem
    exact (List.mem_append.mp hmem).elim (hne placeholder) (hne' placeholder)
  · intro hnil
    obtain ⟨hnil, hnil'⟩ := List.append_eq_nil_iff.mp hnil
    rw [hsame' hnil', hsame hnil]

theorem foldl {β : Type*} {pass : α × List Text → β → α × List Text} {names : List β}
    (h : ∀ name ∈ names, ∀ state, Reports state (pass state name)) (state : α × List Text) :
    Reports state (names.foldl pass state) := by
  induction names generalizing state with
  | nil => exact refl state
  | cons name names ih =>
    rw [List.foldl_cons]
    exact (h name List.mem_cons_self state).trans
      (ih (fun other hother ↦ h other (List.mem_cons_of_mem name hother)) _)

end Reports

theorem reports_applyRule (state : Text × List Text) (replaced : Option Text) {placeholder : Text}
    (h : placeholder ≠ []) : Reports state (applyRule state replaced placeholder) := by
  cases replaced with
  | none => exact .refl state
  | some result =>
    refine ⟨[placeholder], rfl, ?_, fun hnil ↦ absurd hnil (List.cons_ne_nil _ _)⟩
    intro other hmem
    rwa [List.mem_singleton.mp hmem]

theorem mem_of_mem_sidsOf {domains : List (Text × Text)} {text placeholder : Text}
    (h : placeholder ∈ (sidsOf domains text).2) : placeholder ∈ domains.map Prod.snd := by
  induction domains generalizing text with
  | nil => exact absurd h List.not_mem_nil
  | cons pair domains ih =>
    obtain ⟨domain, used⟩ := pair
    rw [sidsOf] at h
    split at h
    · rcases List.mem_cons.mp h with rfl | h
      · exact List.mem_cons_self
      · exact List.mem_cons_of_mem _ (ih h)
    · exact List.mem_cons_of_mem _ (ih h)

theorem mem_of_mem_sidBytesOf {domains : List (Text × Text)} {wide : Bool} {bytes : List UInt8}
    {placeholder : Text} (h : placeholder ∈ (sidBytesOf wide domains bytes).2) :
    placeholder ∈ domains.map Prod.snd := by
  induction domains generalizing bytes with
  | nil => exact absurd h List.not_mem_nil
  | cons pair domains ih =>
    obtain ⟨domain, used⟩ := pair
    rw [sidBytesOf] at h
    split at h
    · rcases List.mem_cons.mp h with rfl | h
      · exact List.mem_cons_self
      · exact List.mem_cons_of_mem _ (ih h)
    · exact List.mem_cons_of_mem _ (ih h)

theorem ne_nil_of_mem_identifyingSids :
    ∀ placeholder ∈ identifyingSids.map Prod.snd, placeholder ≠ [] := by
  decide

theorem reports_applyTextSids (state : Text × List Text) : Reports state (applyTextSids state) := by
  unfold applyTextSids replaceSids
  split
  · next result placeholders hresult =>
    split at hresult
    · cases hresult
    · next used hused hsids =>
      obtain ⟨rfl, rfl⟩ := Prod.mk.inj (Option.some.inj hresult)
      refine ⟨_, rfl, ?_, fun hnil ↦ (hused hnil).elim⟩
      intro placeholder hmem
      have hmem' : placeholder ∈ (sidsOf identifyingSids state.1).2 := by
        rw [hsids]
        exact hmem
      exact ne_nil_of_mem_identifyingSids placeholder (mem_of_mem_sidsOf hmem')
  · exact .refl state

theorem reports_applyRules (text : Text) : Reports (text, []) (applyRules text) := by
  have hemails := reports_applyRule (text, []) (replaceEmails text)
    (by decide : emailPlaceholder ≠ [])
  have hprofiles (state : Text × List Text) :=
    reports_applyRule state (replaceUserProfiles state.1) (by decide : userPlaceholder ≠ [])
  have hhosts (state : Text × List Text) :=
    reports_applyRule state (replaceUncHosts state.1) (by decide : hostPlaceholder ≠ [])
  exact (hemails.trans (hprofiles _)).trans ((reports_applyTextSids _).trans (hhosts _))

theorem reports_applySids (wide : Bool) (state : List UInt8 × List Text) :
    Reports state (applySids wide state) := by
  unfold applySids replaceSidsInBytes
  split
  · next rebuilt placeholders hresult =>
    split at hresult
    · cases hresult
    · next used hused hsids =>
      obtain ⟨rfl, rfl⟩ := Prod.mk.inj (Option.some.inj hresult)
      refine ⟨_, rfl, ?_, fun hnil ↦ (hused hnil).elim⟩
      intro placeholder hmem
      have hmem' : placeholder ∈ (sidBytesOf wide identifyingSids state.1).2 := by
        rw [hsids]
        exact hmem
      exact ne_nil_of_mem_identifyingSids placeholder (mem_of_mem_sidBytesOf hmem')
  · exact .refl state

theorem reports_applyEncoded (name : Text) {placeholder : Text} (h : placeholder ≠ []) (wide : Bool)
    (state : List UInt8 × List Text) :
    Reports state (applyEncoded name placeholder wide state) := by
  unfold applyEncoded
  split
  · exact .refl state
  · refine ⟨[placeholder], rfl, ?_, fun hnil ↦ absurd hnil (List.cons_ne_nil _ _)⟩
    intro other hmem
    rwa [List.mem_singleton.mp hmem]

section Names

variable {names : List (Text × Text)} (hnames : ∀ name ∈ names, name.2 ≠ [])

include hnames

theorem reports_applyHex (state : Text × List Text) : Reports state (applyHex state names) := by
  unfold applyHex
  split
  · next replaced placeholders hreplaced =>
    unfold replaceInHex at hreplaced
    split at hreplaced
    · cases hreplaced
    · next bytes _ =>
      simp only [Option.ite_none_left_eq_some, Option.some.injEq, Prod.mk.injEq] at hreplaced
      obtain ⟨hused, -, rfl⟩ := hreplaced
      have hreports : Reports (bytes, [])
          (names.foldl applyName (applySids true (applySids false (bytes, [])))) := by
        refine Reports.trans (reports_applySids false _)
          (Reports.trans (reports_applySids true _) ?_)
        apply Reports.foldl
        intro name hname state
        exact (reports_applyEncoded name.1 (hnames name hname) false state).trans
          (reports_applyEncoded name.1 (hnames name hname) true _)
      obtain ⟨added, hadded, hne, -⟩ := hreports
      rw [List.nil_append] at hadded
      refine ⟨_, rfl, hadded ▸ hne, ?_⟩
      intro hnil
      rw [hnil] at hused
      exact absurd rfl hused
  · exact .refl state

/-- Nothing is replaced in a text for which nothing is reported. -/
theorem reports_redactTextWith (text : Text) : Reports (text, []) (redactTextWith text names) := by
  refine Reports.trans (reports_applyRules text) (Reports.trans ?_ (reports_applyHex hnames _))
  apply Reports.foldl
  exact fun name hname state ↦ reports_applyRule _ _ (hnames name hname)

theorem redactString_eq (text : Text) :
    redactString names text = (redactTextWith text names).1 := by
  obtain ⟨added, hadded, -, hsame⟩ := reports_redactTextWith hnames text
  rw [List.nil_append] at hadded
  rw [redactString]
  split
  · next hnone =>
    rw [hadded, List.isEmpty_iff] at hnone
    exact (hsame hnone).symm
  · rfl

end Names

/-- Without names, the redactor changes a text only when the review would list it. -/
theorem redactString_eq_self_of_stillRedacts {text : Text} (h : stillRedacts text = none) :
    redactString [] text = text := by
  have hnames : ∀ name ∈ ([] : List (Text × Text)), name.2 ≠ [] :=
    fun _ hmem ↦ absurd hmem List.not_mem_nil
  rw [redactString_eq hnames]
  obtain ⟨added, hadded, hne, hsame⟩ := reports_redactTextWith hnames text
  rw [List.nil_append] at hadded
  by_contra hchanged
  have hnil : added ≠ [] := fun hnil ↦ hchanged (hsame hnil)
  obtain ⟨first, rest, rfl⟩ := List.exists_cons_of_ne_nil hnil
  have hjoined : ([','].intercalate (first :: rest)).isEmpty = false := by
    have hfirst := hne first List.mem_cons_self
    obtain ⟨c, more, rfl⟩ := List.exists_cons_of_ne_nil hfirst
    cases rest with
    | nil => simp
    | cons next rest => simp
  rw [stillRedacts, hadded] at h
  simp only [hjoined, Bool.not_false, Bool.true_and, bne_iff_ne, ne_eq, ite_eq_right_iff,
    reduceCtorEq, imp_false, not_not] at h
  exact hchanged h

/-! ## A text that teaches a name -/

theorem namesNoProfile_joinSegments {first : Text} {segments : List Text} (hfirst : '\\' ∉ first)
    (hsegments : ∀ segment ∈ segments, '\\' ∉ segment) :
    NamesNoProfile (first ++ joinSegments segments) ↔ KeepsBelow [] segments := by
  rw [NamesNoProfile, splitOn_joinSegments first _ hfirst hsegments, List.tail_cons]

/-- A text that teaches a name names a profile that is replaced. -/
theorem not_namesNoProfile_of_profileName {text name : Text} (h : profileName text = some name) :
    ¬ NamesNoProfile text := by
  unfold profileName at h
  split at h
  · next drive rest hpath =>
    simp only [Option.ite_none_right_eq_some, Option.ite_none_left_eq_some, Bool.and_eq_true] at h
    obtain ⟨⟨hdrive, husers⟩, hname, -⟩ := h
    obtain ⟨segment, segments, -, rfl, hsegment, hsegments⟩ := exists_splitOn rest
    rw [List.isPrefixOf_iff_prefix, users_prefix_iff hsegment] at husers
    obtain ⟨husers, hne⟩ := husers
    obtain ⟨profile, segments, rfl⟩ := List.exists_cons_of_ne_nil hne
    have hprofile := hsegments profile List.mem_cons_self
    have hlength : segment.length = 5 := by
      have := congrArg List.length husers
      rwa [length_toAsciiLowercase] at this
    have hdrop : (segment ++ joinSegments (profile :: segments)).drop "users\\".length =
        profile ++ joinSegments segments := by
      rw [joinSegments_cons, List.append_cons]
      exact List.drop_left' (by rw [List.length_append, hlength]; rfl)
    rw [hdrop, segmentName_append hprofile] at hname
    have hreplaced : keepsProfile profile = false := by
      simp only [Bool.or_eq_true, not_or, Bool.not_eq_true] at hname
      rw [keepsProfile, hname.1.1.1, hname.1.1.2, hname.1.2]
      rfl
    have hdriveSlash : '\\' ∉ [drive, ':'] := by
      intro hmem
      rcases List.mem_cons.mp hmem with rfl | hmem
      · exact absurd hdrive (by decide)
      · exact absurd (List.mem_singleton.mp hmem) (by decide)
    have hbelow (previous : Text) : ¬ KeepsBelow previous (segment :: profile :: segments) := by
      rintro ⟨-, hkeeps, -⟩
      rw [hkeeps husers] at hreplaced
      cases hreplaced
    have hall : ∀ other ∈ segment :: profile :: segments, '\\' ∉ other := by
      intro other hother
      rcases List.mem_cons.mp hother with rfl | hother
      · exact hsegment
      · exact hsegments other hother
    cases hdevice : stripPrefix text r"\\?\".toList with
    | none =>
      rw [hdevice, Option.getD_none] at hpath
      have htext : text = [drive, ':'] ++ joinSegments (segment :: profile :: segments) := by
        rw [hpath]
        rfl
      rw [htext, namesNoProfile_joinSegments hdriveSlash hall]
      exact hbelow []
    | some path =>
      rw [hdevice, Option.getD_some] at hpath
      have htext : text = [] ++
          joinSegments ([] :: ['?'] :: [drive, ':'] :: segment :: profile :: segments) := by
        rw [(stripPrefix_eq_some_iff _ _ _).mp hdevice, hpath]
        rfl
      rw [htext, namesNoProfile_joinSegments List.not_mem_nil]
      · rintro ⟨-, -, -, hkeeps⟩
        exact hbelow _ hkeeps
      · intro other hother
        rcases List.mem_cons.mp hother with rfl | hother
        · exact List.not_mem_nil
        · rcases List.mem_cons.mp hother with rfl | hother
          · decide
          · rcases List.mem_cons.mp hother with rfl | hother
            · exact hdriveSlash
            · exact hall other hother
  · cases h

/-- A text that teaches a name is changed by the redactor. -/
theorem redactString_ne_of_profileName {text name : Text} (h : profileName text = some name) :
    redactString [] text ≠ text := by
  rw [redactString_eq fun _ hmem ↦ absurd hmem List.not_mem_nil]
  intro hsame
  have hclean := namesNoProfile_redactTextWith text
  rw [hsame] at hclean
  exact not_namesNoProfile_of_profileName h hclean

/-! ## A masked text -/

/-- A text that holds a colon ends there in a masked identifier. -/
def MasksAfterColon (text : Text) : Prop :=
  text.dropWhile (· != ':') = [] ∨ text.dropWhile (· != ':') = ':' :: idPlaceholder

theorem masksAfterColon_colon {text : Text} :
    MasksAfterColon (':' :: text) ↔ text = idPlaceholder := by
  simp [MasksAfterColon]

theorem masksAfterColon_append {text : Text} (h : ':' ∉ text) (rest : Text) :
    MasksAfterColon (text ++ rest) ↔ MasksAfterColon rest := by
  have hall : ∀ c ∈ text, (c != ':') = true := by
    intro c hc
    rw [bne_iff_ne]
    rintro rfl
    exact h hc
  rw [MasksAfterColon, MasksAfterColon, List.dropWhile_append_of_pos hall]

theorem masksAfterColon_of_not_mem {text : Text} (h : ':' ∉ text) : MasksAfterColon text := by
  have hnil := (masksAfterColon_append h []).mpr (.inl rfl)
  rwa [List.append_nil] at hnil

theorem MasksAfterColon.tail {c : Char} {text : Text} (h : MasksAfterColon (c :: text)) :
    MasksAfterColon text := by
  by_cases hc : c = ':'
  · rw [hc, masksAfterColon_colon] at h
    rw [h]
    exact masksAfterColon_of_not_mem (by decide)
  · rw [← List.singleton_append, masksAfterColon_append] at h
    · exact h
    · exact fun hmem ↦ hc (List.mem_singleton.mp hmem).symm

theorem MasksAfterColon.of_append {text rest : Text} (h : MasksAfterColon (text ++ rest)) :
    MasksAfterColon rest := by
  induction text with
  | nil => exact h
  | cons c text ih => exact ih h.tail

/-- What changes a text, but not a masked identifier, may change it behind a character. -/
theorem MasksAfterColon.cons {c : Char} {text text' : Text} (h : MasksAfterColon (c :: text))
    (htext : MasksAfterColon text → MasksAfterColon text')
    (hmask : text = idPlaceholder → text' = text) :
    MasksAfterColon (c :: text') := by
  by_cases hc : c = ':'
  · rw [hc, masksAfterColon_colon] at h ⊢
    rw [hmask h, h]
  · have hnot : ':' ∉ [c] := fun hmem ↦ hc (List.mem_singleton.mp hmem).symm
    rw [← List.singleton_append, masksAfterColon_append hnot] at h ⊢
    exact htext h

/-- Before what is masked, addresses are replaced as ever. -/
theorem masksAfterColon_emailsFrom {pending text : Text} {passing : ℕ}
    (hpassing : passing ≠ 0 → pending = []) (h : MasksAfterColon (pending ++ text)) :
    MasksAfterColon (emailsFrom pending passing text).1 := by
  induction text generalizing pending passing with
  | nil => simpa [emailsFrom] using h
  | cons c rest ih =>
    cases passing with
    | succ passing =>
      obtain rfl := hpassing (Nat.succ_ne_zero passing)
      exact ih (fun _ ↦ rfl) (MasksAfterColon.tail h)
    | zero =>
      have hnext : MasksAfterColon (emailsFrom (pending ++ [c]) 0 rest).1 := by
        apply ih fun hne ↦ absurd rfl hne
        rwa [List.append_assoc, List.singleton_append]
      rw [emailsFrom]
      by_cases hsign : (c == '@') = true
      · rw [if_pos hsign]
        rw [beq_iff_eq] at hsign
        subst hsign
        simp only
        split
        · have hcolon : ':' ∉ pending := by
            intro hmem
            obtain ⟨front, back, rfl⟩ := List.append_of_mem hmem
            rw [List.append_assoc] at h
            have hmask := masksAfterColon_colon.mp h.of_append
            have hsign : '@' ∈ idPlaceholder := hmask ▸ List.mem_append_right _ List.mem_cons_self
            exact absurd hsign (by decide)
          have hkept : ':' ∉ pending.rdropWhile isLocalByte ++ emailPlaceholder := by
            intro hmem
            rcases List.mem_append.mp hmem with hmem | hmem
            · exact hcolon ((List.rdropWhile_prefix isLocalByte (l := pending)).subset hmem)
            · exact absurd hmem (by decide)
          rw [masksAfterColon_append hcolon] at h
          rw [masksAfterColon_append hkept]
          exact ih (fun _ ↦ rfl) h.tail
        · exact hnext
      · rw [if_neg hsign]
        exact hnext

/-- Before what is masked, profiles are replaced as ever. -/
theorem masksAfterColon_profilesFrom {text : Text} (h : MasksAfterColon text) (passing : ℕ) :
    MasksAfterColon (profilesFrom passing text).1 := by
  induction text generalizing passing with
  | nil => cases passing <;> exact h
  | cons c rest ih =>
    cases passing with
    | succ passing => exact ih h.tail passing
    | zero =>
      rw [profilesFrom]
      by_cases hmatch : usersSegment.isPrefixOf (toAsciiLowercase (c :: rest)) = true
      · rw [if_pos hmatch]
        have hseven : ':' ∉ (c :: rest).take usersSegment.length := by
          have htake := List.prefix_iff_eq_take.mp (List.isPrefixOf_iff_prefix.mp hmatch)
          rw [toAsciiLowercase, ← List.map_take, ← toAsciiLowercase] at htake
          rw [← mem_toAsciiLowercase_iff (by decide), ← htake]
          decide
        simp only
        split
        · next hkeeps =>
          rw [masksAfterColon_append]
          · exact ih h.tail _
          · exact fun hmem ↦ (List.mem_append.mp hmem).elim hseven
              (not_mem_of_keepsProfile hkeeps (by decide) (by decide))
        · rw [masksAfterColon_append]
          · exact ih h.tail _
          · exact fun hmem ↦ (List.mem_append.mp hmem).elim hseven
              fun hmem ↦ absurd hmem (by decide)
      · rw [if_neg hmatch]
        refine h.cons (fun hrest ↦ ih hrest 0) ?_
        rintro rfl
        decide

/-- Before what is masked, SIDs are replaced as ever. -/
theorem masksAfterColon_sidsFrom {domain placeholder : Text}
    (hdomain : IsSidDomain domain placeholder) (hcolon : ':' ∉ placeholder) {text : Text}
    (h : MasksAfterColon text) : MasksAfterColon (sidsFrom domain placeholder 0 text).1 := by
  induction text using sidsFrom_induct hdomain with
  | nil => exact h
  | keep c rest hno ih =>
    rw [sidsFrom_keep hno]
    refine h.cons ih ?_
    rintro rfl
    rw [sidsFrom_of_not_mem hdomain (by decide)]
  | done rest ih =>
    rw [masksAfterColon_append hcolon] at h
    rw [sidsFrom_done hdomain, masksAfterColon_append hcolon]
    exact ih h
  | taken run rest hrun hrest hdone ih =>
    have hdomainColon : ':' ∉ domain := fun hmem ↦ hcolon (hdomain.begins.subset hmem)
    have hrunColon : ':' ∉ run := fun hmem ↦ absurd (hrun _ hmem) (by decide)
    rw [masksAfterColon_append hdomainColon, masksAfterColon_append hrunColon] at h
    rw [sidsFrom_taken hdomain hrun hrest hdone, masksAfterColon_append hcolon]
    exact ih h

theorem masksAfterColon_sidsOf {domains : List (Text × Text)}
    (hdomains : ∀ pair ∈ domains, IsSidDomain pair.1 pair.2 ∧ ':' ∉ pair.2) {text : Text}
    (h : MasksAfterColon text) : MasksAfterColon (sidsOf domains text).1 := by
  induction domains generalizing text with
  | nil => exact h
  | cons pair domains ih =>
    have hrest := fun other hother ↦ hdomains other (List.mem_cons_of_mem pair hother)
    obtain ⟨domain, placeholder⟩ := pair
    obtain ⟨hdomain, hcolon⟩ := hdomains _ List.mem_cons_self
    have hclean := masksAfterColon_sidsFrom hdomain hcolon h
    rw [sidsOf]
    split
    · next replaced hreplaced =>
      unfold replaceSidDomain at hreplaced
      split at hreplaced
      · next result hresult =>
        rw [hresult] at hclean
        exact ih hrest (Option.some.inj hreplaced ▸ hclean)
      · cases hreplaced
    · exact ih hrest h

theorem masksAfterColon_uncHost {text replaced : Text}
    (hreplaced : replaceUncHosts text = some replaced) (h : MasksAfterColon text) :
    MasksAfterColon replaced := by
  unfold replaceUncHosts at hreplaced
  split at hreplaced
  · cases hreplaced
  · next rest hrest =>
    obtain rfl := (stripPrefix_eq_some_iff _ _ _).mp hrest
    simp only [Option.ite_none_left_eq_some, Option.some.injEq] at hreplaced
    obtain ⟨-, -, rfl⟩ := hreplaced
    rw [masksAfterColon_append (by decide)]
    have hsplit := List.take_append_drop (segmentName rest).length rest
    rw [← hsplit, ← List.append_assoc] at h
    exact h.of_append

theorem masksAfterColon_applyHex {state : Text × List Text} (names : List (Text × Text))
    (h : MasksAfterColon state.1) : MasksAfterColon (applyHex state names).1 := by
  cases hbinary : stripPrefix state.1 binaryPrefix with
  | some rest =>
    -- What follows `binary:` is masked, and no hex.
    have htext := (stripPrefix_eq_some_iff _ _ _).mp hbinary
    have hrest : rest = idPlaceholder := by
      have hcolon : MasksAfterColon ("binary".toList ++ ':' :: rest) := by
        rw [htext] at h
        exact h
      exact masksAfterColon_colon.mp hcolon.of_append
    have hhex : replaceInHex (splitBinary state.1).2 names = none := by
      have hdecode : decodeHex idPlaceholder = none := by decide
      have hsplit : (splitBinary state.1).2 = idPlaceholder := by rw [splitBinary, hbinary, ← hrest]
      rw [hsplit, replaceInHex, hdecode]
    rw [applyHex, hhex]
    exact h
  | none =>
    have hsplit : (splitBinary state.1).1 = [] := by rw [splitBinary, hbinary]
    rcases applyHex_cases state names with hsame | ⟨bytes, upper, hhex⟩
    · rwa [hsame]
    · rw [hhex, hsplit, List.nil_append]
      exact masksAfterColon_of_not_mem (not_mem_encodeHex bytes upper (by decide))

theorem masksAfterColon_applyRules {text : Text} (h : MasksAfterColon text) :
    MasksAfterColon (applyRules text).1 := by
  have hemails : MasksAfterColon
      (applyRule (text, []) (replaceEmails text) emailPlaceholder).1 := by
    have hclean : MasksAfterColon (emailsFrom [] 0 text).1 :=
      masksAfterColon_emailsFrom (fun _ ↦ rfl) h
    unfold replaceEmails
    split
    · next result hresult =>
      rw [hresult] at hclean
      exact hclean
    · exact h
  have hprofiles {state : Text × List Text} (h : MasksAfterColon state.1) :
      MasksAfterColon (applyRule state (replaceUserProfiles state.1) userPlaceholder).1 := by
    have hclean := masksAfterColon_profilesFrom h 0
    unfold replaceUserProfiles
    split
    · next result hresult =>
      rw [hresult] at hclean
      exact hclean
    · exact h
  have hsids {state : Text × List Text} (h : MasksAfterColon state.1) :
      MasksAfterColon (applyTextSids state).1 := by
    have hcolon : ∀ pair ∈ identifyingSids, ':' ∉ pair.2 := by decide
    have hclean := masksAfterColon_sidsOf
      (fun pair hpair ↦ ⟨isSidDomain_of_mem hpair, hcolon pair hpair⟩) h
    unfold applyTextSids replaceSids
    split
    · next result placeholders hresult =>
      split at hresult
      · cases hresult
      · next result' used hused =>
        rw [hused] at hclean
        rwa [← (Prod.mk.inj (Option.some.inj hresult)).1]
    · exact h
  have hhosts {state : Text × List Text} (h : MasksAfterColon state.1) :
      MasksAfterColon (applyRule state (replaceUncHosts state.1) hostPlaceholder).1 := by
    cases hreplaced : replaceUncHosts state.1 with
    | none => exact h
    | some replaced => exact masksAfterColon_uncHost hreplaced h
  exact hhosts (hsids (hprofiles hemails))

theorem masksAfterColon_redactString {text : Text} (h : MasksAfterColon text) :
    MasksAfterColon (redactString [] text) := by
  rw [redactString_eq fun _ hmem ↦ absurd hmem List.not_mem_nil]
  exact masksAfterColon_applyHex [] (masksAfterColon_applyRules h)

/-- What the redactor makes of a masked identifier is not what was masked. -/
theorem redactString_ne_of_maskText {typed : Bool} {text masked : Text}
    (h : maskText typed text = some masked) : redactString [] masked ≠ text := by
  have hwhole {data : Text} (hdata : (data.isEmpty || data == idPlaceholder) = false) :
      redactString [] idPlaceholder ≠ data := by
    have hsame : redactString [] idPlaceholder = idPlaceholder := by decide +kernel
    rw [hsame]
    rintro rfl
    exact absurd hdata (by decide)
  unfold maskText at h
  cases hsplit : splitOnce text [':'] with
  | none =>
    simp only [hsplit, Option.ite_none_left_eq_some, Option.some.injEq] at h
    obtain ⟨hdata, rfl⟩ := h
    exact hwhole (Bool.eq_false_iff.mpr hdata)
  | some parts =>
    obtain ⟨kind, data⟩ := parts
    simp only [hsplit] at h
    cases typed with
    | false =>
      simp only [Bool.false_eq_true, if_false, Option.ite_none_left_eq_some, Option.some.injEq] at h
      obtain ⟨hdata, rfl⟩ := h
      exact hwhole (Bool.eq_false_iff.mpr hdata)
    | true =>
      simp only [if_true, Option.ite_none_left_eq_some, Option.some.injEq] at h
      obtain ⟨hdata, rfl⟩ := h
      obtain ⟨hkind, htext⟩ := of_splitOnce_singleton hsplit
      intro hsame
      have hmasks := masksAfterColon_redactString
        ((masksAfterColon_append hkind _).mpr (masksAfterColon_colon.mpr rfl))
      rw [hsame, htext, masksAfterColon_append hkind, masksAfterColon_colon] at hmasks
      rw [hmasks] at hdata
      exact hdata (by decide)

/-! ## A document in which nothing is found -/

/-- No object of a document holds an identifier to mask: a string `data` beside a `name`, or a
string `before` or `after` beside a `field`, that says it is one and is not masked yet. -/
def HoldsNoIdentifier (value : Value) : Prop :=
  ∀ fields ∈ value.objects, ∀ key text, (key, .string text) ∈ fields →
    maskField (maskTargets fields) key text = none

theorem findings_eq_nil_iff (hits : List Hit) : findings hits = [] ↔ hits = [] := by
  rw [findings, List.filterMap_eq_nil_iff]
  constructor
  · intro h
    cases hits with
    | nil => rfl
    | cons hit hits =>
      have hkind := h hit.kind (by cases hit.kind <;> decide)
      have hfilter : (hit :: hits).filter (fun other ↦ other.kind == hit.kind) =
          hit :: hits.filter fun other ↦ other.kind == hit.kind :=
        List.filter_cons_of_pos (beq_self_eq_true _)
      rw [hfilter] at hkind
      cases hkind
  · rintro rfl kind -
    rfl

theorem stillRedacts_of_check {place : Place} {text : Text} (h : check place text = []) :
    stillRedacts text = none := by
  rw [← Option.toList_eq_nil_iff, ← List.map_eq_nil_iff (f := fun applied ↦
    (⟨.unredacted, applied, applied, place.path⟩ : Hit))]
  unfold check at h
  simp only at h
  split at h
  · exact (List.append_eq_nil_iff.mp h).2
  · simp only [List.append_eq_nil_iff] at h
    exact h.1.1.1

/-- The review goes over every string. -/
theorem stillRedacts_of_visit {value : Value} {place : Place} (h : visit place value = []) :
    ∀ text ∈ value.strings, stillRedacts text = none := by
  induction value using Value.induct generalizing place with
  | null => exact fun text htext ↦ absurd htext List.not_mem_nil
  | bool value => exact fun text htext ↦ absurd htext List.not_mem_nil
  | number digits => exact fun text htext ↦ absurd htext List.not_mem_nil
  | string text =>
    intro other hother
    obtain rfl := List.mem_singleton.mp hother
    exact stillRedacts_of_check h
  | array items ih =>
    rw [visit] at h
    rw [Value.strings]
    generalize 0 = index at h
    induction items generalizing index with
    | nil => exact fun text htext ↦ absurd htext List.not_mem_nil
    | cons item items ihItems =>
      rw [visitItems, List.append_eq_nil_iff] at h
      rw [Value.stringsOfItems, List.forall_mem_append]
      exact ⟨ih item List.mem_cons_self h.1,
        ihItems (fun other hother ↦ ih other (List.mem_cons_of_mem item hother)) _ h.2⟩
  | object fields ih =>
    rw [visit] at h
    rw [Value.strings]
    generalize place.enter fields = inside at h
    induction fields with
    | nil => exact fun text htext ↦ absurd htext List.not_mem_nil
    | cons field fields ihFields =>
      rw [visitFields, List.append_eq_nil_iff, List.append_eq_nil_iff] at h
      rw [Value.stringsOfFields, List.forall_mem_append]
      exact ⟨ih field List.mem_cons_self h.1.2,
        ihFields (fun other hother ↦ ih other (List.mem_cons_of_mem field hother)) h.2⟩

theorem stillRedacts_of_review {value : Value} (h : review value = []) :
    ∀ text ∈ value.strings, stillRedacts text = none :=
  stillRedacts_of_visit ((findings_eq_nil_iff _).mp h)

/-- A document in which the review finds nothing teaches no name. -/
theorem table_eq_nil_of_review {value : Value} (h : review value = []) :
    (gatherNames value noExtra).table = [] := by
  have hnone : discoverNames value = [] := by
    rw [List.eq_nil_iff_forall_not_mem]
    intro name hname
    obtain ⟨text, htext, hpath⟩ := mem_discoverNames_iff.mp hname
    exact redactString_ne_of_profileName hpath
      (redactString_eq_self_of_stillRedacts (stillRedacts_of_review h text htext))
  simp only [gatherNames, noExtra, supply, hnone, Names.table, List.map_nil, List.append_nil]

theorem mapStrings_maskedItems_eq_self_iff {items : List Value}
    (ih : ∀ item ∈ items, (∀ text ∈ item.strings, redactString [] text = text) →
      ((masked item).mapStrings (redactString []) = item ↔ HoldsNoIdentifier item))
    (h : ∀ text ∈ Value.stringsOfItems items, redactString [] text = text) :
    Value.mapStringsOfItems (redactString []) (maskedItems items) = items ↔
      ∀ fields ∈ Value.objectsOfItems items, ∀ key text, (key, Value.string text) ∈ fields →
        maskField (maskTargets fields) key text = none := by
  induction items with
  | nil => exact iff_of_true rfl fun fields hfields ↦ absurd hfields List.not_mem_nil
  | cons item items ihItems =>
    rw [Value.stringsOfItems, List.forall_mem_append] at h
    rw [maskedItems, Value.mapStringsOfItems, List.cons.injEq, ih item List.mem_cons_self h.1,
      ihItems (fun other hother ↦ ih other (List.mem_cons_of_mem item hother)) h.2,
      Value.objectsOfItems, List.forall_mem_append, HoldsNoIdentifier]

/-- The fields of an object are left alone exactly when none of its strings is masked and nothing
below is. -/
theorem mapStrings_maskedFields_eq_self_iff (targets : List Text × Bool)
    {fields : List (Text × Value)}
    (ih : ∀ field ∈ fields, (∀ text ∈ field.2.strings, redactString [] text = text) →
      ((masked field.2).mapStrings (redactString []) = field.2 ↔ HoldsNoIdentifier field.2))
    (h : ∀ text ∈ Value.stringsOfFields fields, redactString [] text = text) :
    Value.mapStringsOfFields (redactString []) (maskedFields targets fields) = fields ↔
      (∀ key text, (key, Value.string text) ∈ fields → maskField targets key text = none) ∧
        ∀ inner ∈ Value.objectsOfFields fields, ∀ key text, (key, Value.string text) ∈ inner →
          maskField (maskTargets inner) key text = none := by
  induction fields with
  | nil =>
    exact iff_of_true rfl ⟨fun key text hmem ↦ absurd hmem List.not_mem_nil,
      fun inner hinner ↦ absurd hinner List.not_mem_nil⟩
  | cons field fields ihFields =>
    rw [Value.stringsOfFields, List.forall_mem_append] at h
    have hfield := ih field List.mem_cons_self h.1
    have hrest := ihFields (fun other hother ↦ ih other (List.mem_cons_of_mem field hother)) h.2
    obtain ⟨key, value⟩ := field
    have hother (hnot : ∀ text, value ≠ .string text) :
        (∀ other text, (other, Value.string text) ∈ (key, value) :: fields →
          maskField targets other text = none) ↔
          ∀ other text, (other, Value.string text) ∈ fields →
            maskField targets other text = none := by
      refine forall₂_congr fun other text ↦ imp_congr_left ?_
      rw [List.mem_cons, or_iff_right]
      exact fun heq ↦ hnot text (Prod.mk.inj heq).2.symm
    have hbranch (hnot : ∀ text, value ≠ .string text)
        (hmasked : maskedFields targets ((key, value) :: fields) =
          (key, masked value) :: maskedFields targets fields) :
        Value.mapStringsOfFields (redactString []) (maskedFields targets ((key, value) :: fields)) =
            (key, value) :: fields ↔
          (∀ other text, (other, Value.string text) ∈ (key, value) :: fields →
            maskField targets other text = none) ∧
            ∀ inner ∈ Value.objectsOfFields ((key, value) :: fields), ∀ key text,
              (key, Value.string text) ∈ inner → maskField (maskTargets inner) key text = none := by
      rw [hmasked, Value.mapStringsOfFields, List.cons.injEq, hrest, Prod.mk.injEq,
        and_iff_right rfl, hfield, hother hnot, Value.objectsOfFields, List.forall_mem_append,
        HoldsNoIdentifier]
      exact and_left_comm
    cases value with
    | string text =>
      have htext : redactString [] ((maskField targets key text).getD text) = text ↔
          maskField targets key text = none := by
        cases hmask : maskField targets key text with
        | none => exact iff_of_true (h.1 text List.mem_cons_self) rfl
        | some masked =>
          refine iff_of_false ?_ (Option.some_ne_none masked)
          rw [maskField] at hmask
          split at hmask
          · exact redactString_ne_of_maskText hmask
          · cases hmask
      have hown : (∀ other text', (other, Value.string text') ∈ (key, Value.string text) :: fields →
          maskField targets other text' = none) ↔ maskField targets key text = none ∧
            ∀ other text', (other, Value.string text') ∈ fields →
              maskField targets other text' = none := by
        constructor
        · exact fun hall ↦ ⟨hall key text List.mem_cons_self,
            fun other text' hmem ↦ hall other text' (List.mem_cons_of_mem _ hmem)⟩
        · rintro ⟨hfirst, hall⟩ other text' hmem
          cases hmem with
          | head => exact hfirst
          | tail _ hmem => exact hall other text' hmem
      rw [maskedFields, Value.mapStringsOfFields, List.cons.injEq, hrest, Prod.mk.injEq,
        and_iff_right rfl, Value.mapStrings, Value.string.injEq, htext, hown,
        Value.objectsOfFields, Value.objects, List.nil_append, and_assoc]
    | null => exact hbranch (fun text h ↦ by cases h) rfl
    | bool value => exact hbranch (fun text h ↦ by cases h) rfl
    | number digits => exact hbranch (fun text h ↦ by cases h) rfl
    | array items => exact hbranch (fun text h ↦ by cases h) rfl
    | object inner => exact hbranch (fun text h ↦ by cases h) rfl

/-- Where the rules leave every string alone, the redactor leaves a value alone exactly when it has
nothing to mask. -/
theorem mapStrings_masked_eq_self_iff {value : Value}
    (h : ∀ text ∈ value.strings, redactString [] text = text) :
    (masked value).mapStrings (redactString []) = value ↔ HoldsNoIdentifier value := by
  induction value using Value.induct with
  | null => exact iff_of_true rfl fun fields hfields ↦ absurd hfields List.not_mem_nil
  | bool value => exact iff_of_true rfl fun fields hfields ↦ absurd hfields List.not_mem_nil
  | number digits => exact iff_of_true rfl fun fields hfields ↦ absurd hfields List.not_mem_nil
  | string text =>
    refine iff_of_true ?_ fun fields hfields ↦ absurd hfields List.not_mem_nil
    exact congrArg Value.string (h text List.mem_cons_self)
  | array items ih =>
    rw [masked, Value.mapStrings, Value.array.injEq]
    exact mapStrings_maskedItems_eq_self_iff ih h
  | object fields ih =>
    rw [masked, Value.mapStrings, Value.object.injEq,
      mapStrings_maskedFields_eq_self_iff (maskTargets fields) ih h, HoldsNoIdentifier,
      Value.objects, List.forall_mem_cons]

/-- A document in which the review finds nothing is left as it is by the redactor exactly when no
object in it holds an identifier to mask. -/
theorem redactDocument_eq_self_iff {value : Value} (h : review value = []) :
    (redactDocument value noExtra).1 = value ↔ HoldsNoIdentifier value := by
  have hdocument : (redactDocument value noExtra).1 =
      (masked value).mapStrings (redactString []) := by
    rw [← table_eq_nil_of_review h, ← rewrite_fst]
    rfl
  rw [hdocument]
  exact mapStrings_masked_eq_self_iff fun text htext ↦
    redactString_eq_self_of_stillRedacts (stillRedacts_of_review h text htext)

/-- A diff that holds a session identifier, with its before and after data. -/
def sessionDocument : Value :=
  .object [("fields".toList, .array [.object
    [("field".toList, .string "LastSessionId".toList), ("before".toList, .string "sz:aaa".toList),
      ("after".toList, .string "sz:bbb".toList)]])]

/-- The review finds nothing in the diff, and the redactor masks the identifier. -/
theorem not_redactDocument_eq_self_sessionDocument :
    ¬ ∀ value, review value = [] → (redactDocument value noExtra).1 = value := by
  intro h
  have hreview : review sessionDocument = [] := by decide +kernel
  have hstrings := congrArg Value.strings (h sessionDocument hreview)
  revert hstrings
  decide +kernel

/-- A value that names no identifier is left as it is. -/
theorem redactDocument_eq_self_versionValue :
    (redactDocument (.object [("name".toList, .string "version".toList),
      ("data".toList, .string "1.2.3".toList)]) noExtra).1 =
        .object [("name".toList, .string "version".toList),
          ("data".toList, .string "1.2.3".toList)] := by
  refine (redactDocument_eq_self_iff ?_).mpr ?_
  · decide +kernel
  · intro fields hfields key text hmem
    obtain rfl := List.mem_singleton.mp hfields
    have htargets : maskTargets [("name".toList, .string "version".toList),
        ("data".toList, .string "1.2.3".toList)] = ([], false) := by decide +kernel
    rw [htargets]
    rfl

end WardSweep.Redact
