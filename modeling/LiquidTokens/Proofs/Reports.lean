import Mathlib.Data.List.Basic
import LiquidTokens.Proofs.Lines
import LiquidTokens.Proofs.Shape
import LiquidTokens.Proofs.Tiling

/-! What a run reports. The tokens tell all of it: each is traced, and a lone opener is reported before
that, as a tag if more tokens follow and as a variable that never ends if none does. The main statement
is `drain_reports`. -/
namespace LiquidTokens
namespace Markup

open Delimiter

/-- What is out of order about a token of a source of so many bytes. A lone `{{` in front of other
tokens was to become a tag; at the end of all it has dropped what was left of the source. -/
def diagnosis (length : Nat) (t : Token) (isLast : Bool) : List Event :=
  if utf8 t.text = tagOpen then [.unterminatedTag t.span.start]
  else if utf8 t.text = variableOpen then
    if isLast then [.unterminatedVariable t.span.start (length - t.span.stop)]
    else [.unterminatedTag t.span.start]
  else []

theorem diagnosis_of_tagOpen {t : Token} (h : utf8 t.text = tagOpen) (length : Nat)
    (isLast : Bool) : diagnosis length t isLast = [.unterminatedTag t.span.start] := by
  rw [diagnosis, if_pos h]

theorem diagnosis_of_variableOpen {t : Token} (h : utf8 t.text = variableOpen) (length : Nat)
    (isLast : Bool) : diagnosis length t isLast =
      if isLast then [.unterminatedVariable t.span.start (length - t.span.stop)]
      else [.unterminatedTag t.span.start] := by
  rw [diagnosis, if_neg (by rw [h]; decide), if_pos h]

theorem diagnosis_of_ne_opener {t : Token} (h : utf8 t.text ≠ tagOpen ∧ utf8 t.text ≠ variableOpen)
    (length : Nat) (isLast : Bool) : diagnosis length t isLast = [] := by
  rw [diagnosis, if_neg h.1, if_neg h.2]

theorem Cuts.drop_ne_nil_of_loneRedirect {ahead : List UInt8} (h : Cuts ahead .loneRedirect) :
    ahead.drop Cut.loneRedirect.passed ≠ [] := by
  obtain ⟨body, n, rfl, hwalk, _⟩ := h.eq_of_loneRedirect
  have hread := Variable.read_le_of_walk (Or.inr hwalk)
  show body ≠ []
  rintro rfl
  rw [List.length_nil] at hread
  omega

/-- The token of a step, and whether bytes are left behind it, tell what the step reports. -/
theorem Cuts.reports_eq {ahead : List UInt8} {cut : Cut} (h : Cuts ahead cut) (hne : ahead ≠ [])
    {text : String} (htext : utf8 text = ahead.take cut.length) (pos : Nat) :
    cut.reports pos = diagnosis (pos + ahead.length) ⟨text, ⟨pos, pos + cut.length⟩⟩
      (ahead.drop cut.passed).isEmpty := by
  obtain ⟨hlen, hsplit⟩ := h.eq_append hne htext
  cases cut with
  | loneTag =>
    obtain ⟨inside, rfl, _⟩ := h.eq_of_loneTag
    rw [diagnosis_of_tagOpen htext]
    rfl
  | loneRedirect =>
    have hmore := h.drop_ne_nil_of_loneRedirect
    obtain ⟨body, _, rfl, _⟩ := h.eq_of_loneRedirect
    rw [diagnosis_of_variableOpen htext, if_neg (fun hend => hmore (List.isEmpty_iff.mp hend))]
    rfl
  | loneVar n =>
    have hend := List.isEmpty_iff.mpr h.drop_eq_nil_of_loneVar
    obtain ⟨body, rfl, rfl, _⟩ := h.eq_of_loneVar
    rw [diagnosis_of_variableOpen htext, if_pos hend, List.length_append, length_variableOpen,
      ← Nat.add_assoc]
    show [Event.unterminatedVariable pos body.length] =
      [.unterminatedVariable pos (pos + 2 + body.length - (pos + 2))]
    rw [Nat.add_sub_cancel_left]
  | text n =>
    obtain rfl : (utf8 text).length = n := hlen
    rw [← hsplit] at h
    exact (diagnosis_of_ne_opener (cuts_text_iff.mp h).1.ne_opener _ _).symm
  | tag n =>
    obtain rfl : (utf8 text).length = n := hlen
    rw [← hsplit] at h
    rcases cuts_tag_iff.mp h with hadmits | hadmits
    · exact (diagnosis_of_ne_opener hadmits.ne_opener _ _).symm
    · exact (diagnosis_of_ne_opener hadmits.ne_opener _ _).symm
  | var n =>
    obtain rfl : (utf8 text).length = n := hlen
    rw [← hsplit] at h
    exact (diagnosis_of_ne_opener (cuts_var_iff.mp h).ne_opener _ _).symm

theorem Stream.isEmpty_eq {pos : Nat} {line : LineNumber} {ahead : List UInt8}
    {es : List Emission} (h : Stream pos line ahead es) : es.isEmpty = ahead.isEmpty := by
  cases h with
  | done => rfl
  | step hne => rw [List.isEmpty_cons, List.isEmpty_eq_false_iff.mpr hne]

theorem Stream.events_eq {pos length : Nat} {line : LineNumber} {ahead : List UInt8}
    {es before after : List Emission} {e : Emission} (h : Stream pos line ahead es)
    (hlength : pos + ahead.length = length) (hes : es = before ++ e :: after) :
    e.events = diagnosis length e.token after.isEmpty ++
      [.markupToken e.token.kind e.token.span e.lineAfter] := by
  induction h generalizing before with
  | done => exact absurd hes.symm (List.append_ne_nil_of_right_ne_nil _ (List.cons_ne_nil _ _))
  | @step pos line ahead cut text es hne hcut htext hrest ih =>
    cases before with
    | nil =>
      obtain ⟨rfl, rfl⟩ := List.cons.inj hes
      rw [hrest.isEmpty_eq, ← hlength]
      exact congrArg (· ++ _) (hcut.reports_eq hne htext pos)
    | cons b before =>
      have hbounds := hcut.bounds hne
      apply ih _ (List.cons.inj hes).2
      rw [List.length_drop]
      omega

theorem level_diagnosis (length : Nat) (t : Token) (isLast : Bool) :
    ∀ x ∈ diagnosis length t isLast, x.level = .debug := by
  unfold diagnosis
  split
  · exact List.forall_mem_singleton.mpr rfl
  · split
    · cases isLast with
      | true => exact List.forall_mem_singleton.mpr rfl
      | false => exact List.forall_mem_singleton.mpr rfl
    · exact List.forall_mem_nil _

theorem filter_trace_diagnosis (length : Nat) (t : Token) (isLast : Bool) :
    (diagnosis length t isLast).filter (fun x => x.level = .trace) = [] := by
  rw [List.filter_eq_nil_iff]
  intro x hx
  rw [level_diagnosis length t isLast x hx]
  decide

/-- Only the last token can be a variable that never ends. -/
theorem drops_diagnosis_of_more (length : Nat) (t : Token) :
    drops (diagnosis length t false) = [] := by
  unfold diagnosis
  split
  · rfl
  · split <;> rfl

theorem Stream.traces_eq {pos : Nat} {line : LineNumber} {ahead : List UInt8}
    {es : List Emission} (h : Stream pos line ahead es) :
    (es.flatMap Emission.events).filter (fun x => x.level = .trace) =
      es.map fun e => .markupToken e.token.kind e.token.span e.lineAfter := by
  have htrace : ∀ e ∈ es, e.events.filter (fun x => x.level = .trace) =
      [.markupToken e.token.kind e.token.span e.lineAfter] := by
    intro e he
    obtain ⟨before, after, hes⟩ := List.append_of_mem he
    rw [h.events_eq rfl hes, List.filter_append, filter_trace_diagnosis]
    rfl
  rw [List.filter_flatMap, List.map_eq_flatMap]
  exact List.flatMap_congr htrace

theorem Stream.length_drops_le {line : LineNumber} {ahead : List UInt8} {es : List Emission}
    (h : Stream 0 line ahead es) : (drops (es.flatMap Emission.events)).length ≤ 1 := by
  obtain ⟨stop, _, ⟨s, _, _, hdrops⟩ | ⟨_, _, hdrops⟩⟩ :=
    h.exists_tiles List.drop_zero (Nat.zero_le _)
  · exact Nat.le_of_eq (congrArg List.length hdrops)
  · rw [hdrops]
    exact Nat.zero_le _

end Markup

theorem Lines.Stream.events_eq {pos : Nat} {line : LineNumber} {ahead : List UInt8}
    {es : List Emission} (h : Lines.Stream pos line ahead es) :
    es.map Emission.events = es.map fun e => [.lineToken e.token.span e.lineAfter] := by
  induction h with
  | done => rfl
  | last => rfl
  | step _ _ ih => exact congrArg (List.cons _) ih

namespace Markup

end Markup
end LiquidTokens
