import LiquidTokens.Exhaustion
import LiquidTokens.Proofs.Cut

/-! The run of a tokenizer through markup, as a list of emissions that the bytes ahead determine. The
main statement is `Markup.exists_stream`. -/
namespace LiquidTokens
namespace Markup

open Delimiter

def emission (pos : Nat) (line : LineNumber) (cut : Cut) (text : String) : Emission :=
  let token : Token := ⟨text, ⟨pos, pos + cut.length⟩⟩
  let lineAfter := line.advance token.newlines
  ⟨token, line, lineAfter, cut.reports pos ++ [Tokenizer.trace .markup token lineAfter]⟩

/-- What is emitted while the bytes `ahead`, which start at the offset `pos`, are read to their end. -/
inductive Stream : Nat → LineNumber → List UInt8 → List Emission → Prop
  | done {pos : Nat} {line : LineNumber} : Stream pos line [] []
  | step {pos : Nat} {line : LineNumber} {ahead : List UInt8} {cut : Cut} {text : String}
    {es : List Emission} (hne : ahead ≠ []) (hcut : Cuts ahead cut)
    (htext : utf8 text = ahead.take cut.length)
    (hrest : Stream (pos + cut.passed) (emission pos line cut text).lineAfter
      (ahead.drop cut.passed) es) :
    Stream pos line ahead (emission pos line cut text :: es)

theorem Stream.eq_nil {pos : Nat} {line : LineNumber} {es : List Emission}
    (h : Stream pos line [] es) : es = [] := by
  cases h with
  | done => rfl
  | step hne => exact absurd rfl hne

theorem Cuts.drop_eq_nil_of_loneVar {ahead : List UInt8} {n : Nat} (h : Cuts ahead (.loneVar n)) :
    ahead.drop (Cut.loneVar n).passed = [] := by
  obtain ⟨body, rfl, rfl, _⟩ := h.eq_of_loneVar
  have hlen : (variableOpen ++ body).length = (Cut.loneVar body.length).passed := by
    rw [List.length_append, length_variableOpen]
    rfl
  rw [← hlen, List.drop_length]

theorem Stream.eq_nil_of_loneVar {pos : Nat} {line : LineNumber} {ahead : List UInt8} {n : Nat}
    {es : List Emission} (hcut : Cuts ahead (.loneVar n))
    (h : Stream pos line (ahead.drop (Cut.loneVar n).passed) es) : es = [] := by
  rw [hcut.drop_eq_nil_of_loneVar] at h
  exact h.eq_nil

theorem Stream.exists_cut {pos : Nat} {line : LineNumber} {ahead : List UInt8}
    {es : List Emission} (h : Stream pos line ahead es) {e : Emission} (he : e ∈ es) :
    ∃ k cut, e.token.span = ⟨pos + k, pos + k + cut.length⟩ ∧ ahead.drop k ≠ [] ∧
      Cuts (ahead.drop k) cut ∧ utf8 e.token.text = (ahead.drop k).take cut.length := by
  induction h with
  | done => cases he
  | @step pos line ahead cut text es hne hcut htext hrest ih =>
    rcases List.mem_cons.mp he with rfl | he
    · exact ⟨0, cut, rfl, hne, hcut, htext⟩
    · obtain ⟨k, cut', hspan, hne', hcut', htext'⟩ := ih he
      rw [List.drop_drop] at hne' hcut' htext'
      rw [Nat.add_assoc] at hspan
      exact ⟨cut.passed + k, cut', hspan, hne', hcut', htext'⟩

end Markup

namespace Tokenizer

open Markup

theorem exists_next_markup {t : Tokenizer} (hm : t.mode = .markup) (hb : t.cursor.OnBoundary)
    (he : t.cursor.atEnd = false) :
    ∃ cut text t', Cuts t.cursor.rest cut ∧ utf8 text = t.cursor.rest.take cut.length ∧
      t.next = .ok (some (emission t.cursor.pos t.line cut text), t') ∧ t'.mode = .markup ∧
      t'.cursor = t.cursor.forward cut.passed ∧ t'.cursor.OnBoundary ∧
      t'.line = (emission t.cursor.pos t.line cut text).lineAfter := by
  obtain ⟨p, hp, hfits, hfollows⟩ := Piece.exists_cut hb he
  have hspan := hfollows.span_eq
  have htext : utf8 p.token.text = t.cursor.rest.take (Cut.ofBytes t.cursor.rest).length := by
    rw [hfits.utf8_eq, hspan, Nat.add_sub_cancel_left]
  have htoken : p.token = ⟨p.token.text,
      ⟨t.cursor.pos, t.cursor.pos + (Cut.ofBytes t.cursor.rest).length⟩⟩ := by
    rw [← hspan]
  refine ⟨Cut.ofBytes t.cursor.rest, p.token.text,
    { t with cursor := p.after, line := t.line.advance p.token.newlines }, cuts_ofBytes _, htext,
    ?_, hm, hfollows.after_eq, hfits.onBoundary, ?_⟩
  · refine next_eq_some_iff.mpr ⟨he, p, _, piece_of_markup hm hp, ?_, rfl⟩
    rw [hfollows.reports_eq, hm]
    simp only [emission, ← htoken]
  · simp only [emission, ← htoken]

theorem exists_take_markup {t : Tokenizer} (hm : t.mode = .markup) (hb : t.cursor.OnBoundary)
    {n : Nat} (hn : t.unread ≤ n) :
    ∃ es last, t.take n = .ok (es, last) ∧ last.next = .ok (none, last) ∧
      Stream t.cursor.pos t.line t.cursor.rest es := by
  have hend (t : Tokenizer) (h : t.cursor.atEnd = true) (_ : t.mode = .markup) :
      Stream t.cursor.pos t.line t.cursor.rest [] := by
    rw [Cursor.rest_eq_nil_iff.mpr h]
    exact .done
  have hstep (t t' : Tokenizer) (e : Emission) (es : List Emission) (hb : t.cursor.OnBoundary)
      (he : t.cursor.atEnd = false) (hnext : t.next = .ok (some e, t'))
      (hrest : t'.mode = .markup → Stream t'.cursor.pos t'.line t'.cursor.rest es)
      (hm : t.mode = .markup) : Stream t.cursor.pos t.line t.cursor.rest (e :: es) := by
    have hne : t.cursor.rest ≠ [] := by
      rw [ne_eq, Cursor.rest_eq_nil_iff, he]
      exact Bool.false_ne_true
    obtain ⟨cut, text, t₁, hcut, htext, hnext₁, hm₁, hc₁, _, hl₁⟩ := exists_next_markup hm hb he
    obtain ⟨rfl, rfl⟩ := next_inj hnext hnext₁
    have hs := hrest hm₁
    rw [hc₁, hl₁] at hs
    exact .step hne hcut htext hs
  obtain ⟨es, last, htake, hlast, hs⟩ := exists_take_of_step hend hstep hb hn
  exact ⟨es, last, htake, hlast, hs hm⟩

end Tokenizer

/-- A text is drained into the stream of its bytes. -/
theorem Markup.exists_stream (text : String) (line : LineNumber) :
    ∃ es last, (Tokenizer.start .markup text line).drain = .ok (es, last) ∧
      last.next = .ok (none, last) ∧ Stream 0 line (utf8 text) es :=
  Tokenizer.exists_take_markup rfl (Tokenizer.onBoundary_start ..) (Nat.le_refl _)

end LiquidTokens
