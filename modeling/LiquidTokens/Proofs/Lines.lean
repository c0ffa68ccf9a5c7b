import LiquidTokens.Proofs.Stream

/-! The run of a tokenizer through lines, as a list of emissions that the bytes ahead determine. The
main statement is `Lines.exists_stream`. -/
namespace LiquidTokens
namespace Lines

open Delimiter

def emission (pos : Nat) (line : LineNumber) (text : String) : Emission :=
  let token : Token := ⟨text, ⟨pos, pos + (utf8 text).length⟩⟩
  ⟨token, line, line.advance 1, [Tokenizer.trace .line token (line.advance 1)]⟩

/-- What is emitted while the bytes ahead, which start at the offset `pos`, are read to their end. Only
the last line may have no newline behind it, and then it is not empty. -/
inductive Stream : Nat → LineNumber → List UInt8 → List Emission → Prop
  | done {pos : Nat} {line : LineNumber} : Stream pos line [] []
  | last {pos : Nat} {line : LineNumber} {text : String} (hne : utf8 text ≠ [])
    (hfree : newline ∉ utf8 text) : Stream pos line (utf8 text) [emission pos line text]
  | step {pos : Nat} {line : LineNumber} {text : String} {behind : List UInt8} {es : List Emission}
    (hfree : newline ∉ utf8 text)
    (hrest : Stream (pos + ((utf8 text).length + 1)) (line.advance 1) behind es) :
    Stream pos line (utf8 text ++ newline :: behind) (emission pos line text :: es)

theorem Stream.eq_nil {pos : Nat} {line : LineNumber} {es : List Emission}
    (h : Stream pos line [] es) : es = [] := by
  generalize hnil : ([] : List UInt8) = ahead at h
  cases h with
  | done => rfl
  | last hne => exact absurd hnil.symm hne
  | step => exact absurd hnil.symm (List.append_ne_nil_of_right_ne_nil _ (List.cons_ne_nil _ _))

end Lines

theorem Delimiter.newline_not_mem_take {l : List UInt8} {n : Nat}
    (h : ∀ m < n, Delimiter.startsNewline (l.drop m) = false) : Delimiter.newline ∉ l.take n := by
  intro hmem
  obtain ⟨before, behind, hsplit⟩ := List.append_of_mem hmem
  have hlt : before.length < n := by
    have hlen := congrArg List.length hsplit
    rw [List.length_take, List.length_append, List.length_cons] at hlen
    omega
  have hl : l = before ++ Delimiter.newline :: (behind ++ l.drop n) := by
    rw [← List.cons_append, ← List.append_assoc, ← hsplit, List.take_append_drop]
  have hnot := h before.length hlt
  rw [hl, List.drop_left] at hnot
  cases hnot

/-- The end of a line is in front of the first newline, or at the end of all. -/
theorem Cursor.exists_nextLineEnd (c : Cursor) :
    ∃ bytes, c.nextLineEnd = c.forward bytes.length ∧ Delimiter.newline ∉ bytes ∧
      (c.rest = bytes ∨ ∃ behind, c.rest = bytes ++ Delimiter.newline :: behind) := by
  rw [nextLineEnd]
  cases hs : Search.seek Delimiter.startsNewline 0 c.rest with
  | none =>
    rw [Search.seek_eq_none_iff] at hs
    refine ⟨c.rest, by simp [toEnd], ?_, Or.inl rfl⟩
    rw [← List.take_length (l := c.rest)]
    exact Delimiter.newline_not_mem_take fun m hm => hs m (Nat.le_of_lt hm)
  | some n =>
    obtain ⟨hn, hseen, hfirst⟩ := Search.seek_zero_eq_some_iff.mp hs
    refine ⟨c.rest.take n, by simp [List.length_take_of_le hn],
      Delimiter.newline_not_mem_take hfirst, Or.inr ?_⟩
    cases hd : c.rest.drop n with
    | nil => simp [hd] at hseen
    | cons b behind =>
      rw [hd, Delimiter.startsNewline_cons, beq_iff_eq] at hseen
      exact ⟨behind, by rw [← hseen, ← hd, List.take_append_drop]⟩

namespace Piece

open Delimiter

theorem exists_line_cut {c : Cursor} (hc : c.OnBoundary) (he : c.atEnd = false) :
    ∃ p, line c = .ok p ∧ p.after.OnBoundary ∧
      p.token.span = ⟨c.pos, c.pos + (utf8 p.token.text).length⟩ ∧ p.reports = [] ∧
      newline ∉ utf8 p.token.text ∧
      (c.rest = utf8 p.token.text ∧ p.after = c.forward (utf8 p.token.text).length ∨
        ∃ behind, c.rest = utf8 p.token.text ++ newline :: behind ∧
          p.after = c.forward ((utf8 p.token.text).length + 1)) := by
  obtain ⟨p, hp, hfits, _⟩ := exists_line hc he
  obtain ⟨bytes, hend, hfree, hrest⟩ := c.exists_nextLineEnd
  refine ⟨p, hp, hfits.onBoundary, ?_⟩
  rw [line_eq, hend] at hp
  obtain ⟨q, hq, hp⟩ := Checked.bind_eq_ok_iff.mp hp
  obtain ⟨hspan, hafter, hreports⟩ := eq_of_upTo hq
  have hstop : q.token.span.stop - c.pos = bytes.length := by
    rw [hspan, Cursor.pos_forward, Nat.add_sub_cancel_left]
  rcases hrest with hrest | ⟨behind, hrest⟩
  · have hatEnd : (c.forward bytes.length).atEnd = true := by
      rw [← Cursor.rest_eq_nil_iff, Cursor.rest_forward, hrest, List.drop_length]
    rw [if_pos hatEnd] at hp
    obtain rfl := Except.ok.inj hp
    have htext : utf8 q.token.text = bytes := by
      rw [hfits.utf8_eq, hstop, hrest, List.take_length]
    rw [htext]
    exact ⟨hspan, hreports, hfree, Or.inl ⟨hrest, hafter⟩⟩
  · have hnot : ¬ (c.forward bytes.length).atEnd = true := by
      rw [← Cursor.rest_eq_nil_iff, Cursor.rest_forward, hrest, List.drop_left]
      exact List.cons_ne_nil _ _
    rw [if_neg hnot] at hp
    obtain ⟨d, hd, hp⟩ := Checked.bind_eq_ok_iff.mp hp
    obtain ⟨_, rfl⟩ := Cursor.advance_eq_ok_iff.mp hd
    obtain rfl := Except.ok.inj hp
    have htext : utf8 q.token.text = bytes := by
      rw [hfits.utf8_eq, hstop, hrest, List.take_left]
    rw [htext]
    exact ⟨hspan, hreports, hfree, Or.inr ⟨behind, hrest, Cursor.forward_forward ..⟩⟩

end Piece

namespace Tokenizer

open Lines

theorem exists_next_line {t : Tokenizer} (hm : t.mode = .line) (hb : t.cursor.OnBoundary)
    (he : t.cursor.atEnd = false) :
    ∃ text t', t.next = .ok (some (emission t.cursor.pos t.line text), t') ∧ t'.mode = .line ∧
      t'.cursor.OnBoundary ∧ t'.line = t.line.advance 1 ∧ Delimiter.newline ∉ utf8 text ∧
      (t.cursor.rest = utf8 text ∧ t'.cursor = t.cursor.forward (utf8 text).length ∨
        ∃ behind, t.cursor.rest = utf8 text ++ Delimiter.newline :: behind ∧
          t'.cursor = t.cursor.forward ((utf8 text).length + 1)) := by
  obtain ⟨p, hp, hb', hspan, hreports, hfree, hcut⟩ := Piece.exists_line_cut hb he
  have htoken : p.token = ⟨p.token.text,
      ⟨t.cursor.pos, t.cursor.pos + (utf8 p.token.text).length⟩⟩ := by
    rw [← hspan]
  refine ⟨p.token.text, { t with cursor := p.after, line := t.line.advance 1 }, ?_, hm, hb', rfl,
    hfree, hcut⟩
  refine next_eq_some_iff.mpr ⟨he, p, 1, piece_of_line hm hp, ?_, rfl⟩
  rw [hreports, hm]
  simp only [emission, ← htoken, List.nil_append]

theorem exists_take_lines {t : Tokenizer} (hm : t.mode = .line) (hb : t.cursor.OnBoundary)
    {n : Nat} (hn : t.unread ≤ n) :
    ∃ es last, t.take n = .ok (es, last) ∧ last.next = .ok (none, last) ∧
      Stream t.cursor.pos t.line t.cursor.rest es := by
  have hend (t : Tokenizer) (h : t.cursor.atEnd = true) (_ : t.mode = .line) :
      Stream t.cursor.pos t.line t.cursor.rest [] := by
    rw [Cursor.rest_eq_nil_iff.mpr h]
    exact .done
  have hstep (t t' : Tokenizer) (e : Emission) (es : List Emission) (hb : t.cursor.OnBoundary)
      (he : t.cursor.atEnd = false) (hnext : t.next = .ok (some e, t'))
      (hrest : t'.mode = .line → Stream t'.cursor.pos t'.line t'.cursor.rest es)
      (hm : t.mode = .line) : Stream t.cursor.pos t.line t.cursor.rest (e :: es) := by
    obtain ⟨text, t₁, hnext₁, hm₁, _, hl₁, hfree, hcut⟩ := exists_next_line hm hb he
    obtain ⟨rfl, rfl⟩ := next_inj hnext hnext₁
    have hs := hrest hm₁
    rw [hl₁] at hs
    rcases hcut with ⟨hall, hc₁⟩ | ⟨behind, hahead, hc₁⟩
    · rw [hc₁, Cursor.rest_forward, hall, List.drop_length] at hs
      have hne : utf8 text ≠ [] := by
        rw [← hall, ne_eq, Cursor.rest_eq_nil_iff, he]
        exact Bool.false_ne_true
      rw [hs.eq_nil, hall]
      exact .last hne hfree
    · rw [hc₁, Cursor.rest_forward, hahead, List.append_cons, List.drop_left' (by simp)] at hs
      rw [hahead]
      exact .step hfree hs
  obtain ⟨es, last, htake, hlast, hs⟩ := exists_take_of_step hend hstep hb hn
  exact ⟨es, last, htake, hlast, hs hm⟩

end Tokenizer

/-- A text is drained into the lines of its bytes. -/
theorem Lines.exists_stream (text : String) (line : LineNumber) :
    ∃ es last, (Tokenizer.start .line text line).drain = .ok (es, last) ∧
      last.next = .ok (none, last) ∧ Stream 0 line (utf8 text) es :=
  Tokenizer.exists_take_lines rfl (Tokenizer.onBoundary_start ..) (Nat.le_refl _)

end LiquidTokens
