import WardSweep.Redact.Kind
import WardSweep.Redact.Pieces

/-!
# Short names

A name shorter than `minNameLen` is a token in half the strings of a document.  A supplied one never
enters the table of names, so it goes only with a piece that one of the rules or a longer name takes
out: besides the name of a profile directory, an e-mail address, a SID, the host of a UNC path, or
what a longer name spells.  One that a profile path teaches does enter the table.
-/

namespace WardSweep.Redact

open Utf8 Str Json

/-- A document keeps its keys and whatever is not a string, and every string, once the identifiers
are masked, is rewritten by accepted pieces. -/
def RedactedBy (accepts : PieceKind → Text → Prop) (value : Value) (extra : Extra) : Prop :=
  (redactDocument value extra).1.shape = value.shape ∧
    List.Forall₂ (RewrittenBy (gatherNames value extra).table accepts) (masked value).strings
      (redactDocument value extra).1.strings

/-- A caller supplied a name, whatever its length, or a profile path of the document teaches it. -/
def IsKnown (value : Value) (extra : Extra) (name : Text) : Prop :=
  (∃ supplied ∈ extra.accounts ++ extra.computers ++ extra.identifiers, trim supplied = name) ∨
    IsTaught value name

/-- A known name shorter than `minNameLen` is never replaced on its own, and is replaced only as the
name of a profile directory. -/
def KeepsShortNames (value : Value) (extra : Extra) : Prop :=
  RedactedBy (fun kind text ↦ ∀ name, IsKnown value extra name → byteLen name < minNameLen →
    eqIgnoreAsciiCase text name = true → kind = .profile) value extra

/-- A name of the table is long enough, or a profile path of the document teaches it. -/
theorem isLong_or_isTaught {value : Value} {extra : Extra} {text name placeholder : Text}
    (hname : (name, placeholder) ∈ (gatherNames value extra).table)
    (hsame : eqIgnoreAsciiCase text name = true) :
    minNameLen ≤ byteLen text ∨
      ∃ name, IsTaught value name ∧ eqIgnoreAsciiCase text name = true := by
  rcases isTaught_or_isSupplied_of_mem_table (List.mem_map_of_mem hname) with htaught | hsupplied
  · exact .inr ⟨name, htaught, hsame⟩
  · left
    rw [← byteLen_toAsciiLowercase, eqIgnoreAsciiCase_eq_true_iff.mp hsame,
      byteLen_toAsciiLowercase]
    exact hsupplied.1

/-- What is replaced in a document is an e-mail address, the name of a profile directory, a SID, the
host of a UNC path, or a name that stands on its own and is long enough or taught.  So a shorter
name that no profile path teaches is never replaced on its own, in text or in hex. -/
theorem redactedBy_longNames (value : Value) (extra : Extra) :
    RedactedBy (fun kind text ↦ kind = .name → minNameLen ≤ byteLen text ∨
      ∃ name, IsTaught value name ∧ eqIgnoreAsciiCase text name = true) value extra := by
  have hstrings : (redactDocument value extra).1.strings =
      (masked value).strings.map (redactString (gatherNames value extra).table) :=
    strings_rewrite _ value
  refine ⟨shape_redactDocument value extra, ?_⟩
  rw [hstrings, List.forall₂_map_right_iff, List.forall₂_same]
  intro text _
  apply (rewrittenBy_redactString _ text).mono
  · intro kind before span after placed hpiece _ hkind
    subst hkind
    cases hpiece with
    | name hname hsame _ => exact isLong_or_isTaught hname hsame
  · intro kind text before span after placed hpiece _ hkind
    subst hkind
    cases hpiece with
    | name wide hname _ _ => exact isLong_or_isTaught hname (eqIgnoreAsciiCase_eq_true_iff.mpr rfl)

/-! ## Hosts -/

/-- A document with a host of two letters. -/
def hostDocument : Value := .array [.string r"\\pc\share".toList]

/-- A caller that knows a computer of two letters. -/
def hostExtra : Extra := ⟨[], ["pc".toList], []⟩

/-- The host of a UNC path goes whatever its length. -/
theorem not_keepsShortNames_hostDocument :
    ¬ ∀ (value : Value) (extra : Extra), KeepsShortNames value extra := by
  intro h
  obtain ⟨-, hkeeps⟩ := h hostDocument hostExtra
  have htable : (gatherNames hostDocument hostExtra).table = [] := by decide +kernel
  have hresult : (redactDocument hostDocument hostExtra).1.strings =
      [r"\\%COMPUTER%\share".toList] := by decide +kernel
  have hmasked : (masked hostDocument).strings = [r"\\pc\share".toList] := by decide +kernel
  rw [htable, hresult, hmasked, List.forall₂_cons] at hkeeps
  have hkept := hkeeps.1.eq_of_never ?_ (by decide +kernel)
  · exact absurd hkept (by decide +kernel)
  · rintro before span after placed hsplit ⟨kind, hpiece, haccepts⟩
    have hmem {c : Char} (hc : c ∈ span) : c ∈ r"\\pc\share".toList := by
      rw [hsplit]
      exact List.mem_append_right _ (List.mem_append_left _ hc)
    cases hpiece with
    | email => exact absurd (hmem (c := '@') (by simp)) (by decide)
    | profile hbelow _ _ =>
      have hinfix : usersSegment <:+: toAsciiLowercase r"\\pc\share".toList := by
        rw [hsplit, toAsciiLowercase, List.map_append]
        exact hbelow.isInfix.trans (List.prefix_append _ _).isInfix
      exact absurd hinfix (by decide)
    | sid hdomain _ =>
      have hfirst := List.mem_of_mem_head? (sidDomain_facts _ hdomain).2.1
      exact absurd (hmem (List.mem_append_left _ hfirst)) (by decide)
    | host hrun _ _ _ =>
      have hrest : span ++ after = r"pc\share".toList :=
        ((List.append_right_inj r"\\".toList).mp hsplit).symm
      have hhost : span = "pc".toList := by
        rw [← hrun, hrest]
        decide
      have hknown : IsKnown hostDocument hostExtra "pc".toList :=
        .inl ⟨"pc".toList, by decide, by decide⟩
      exact absurd (haccepts _ hknown (by decide) (by rw [hhost]; decide)) (by decide)
    | name hname => exact absurd hname List.not_mem_nil

end WardSweep.Redact
