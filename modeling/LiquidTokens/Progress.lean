import LiquidTokens.Boundary
import LiquidTokens.Proofs.Walk
import LiquidTokens.Tokenizer

/-! Every step from a place between two characters succeeds, moves on, and stops at such a place. The
main statements are `Piece.exists_markup` and `Piece.exists_line`. -/
namespace LiquidTokens

open Delimiter

namespace Piece

/-- A piece starts at the cursor, holds the text of its span, and leaves the cursor further on, at a
boundary of the same source. -/
structure Fits (c : Cursor) (p : Piece) : Prop where
  source_eq : p.after.source = c.source
  onBoundary : p.after.OnBoundary
  start_eq : p.token.span.start = c.pos
  stop_le : p.token.span.stop ≤ p.after.pos
  slice_eq : c.source.slice p.token.span.start p.token.span.stop = .ok p.token.text

theorem Fits.utf8_eq {c : Cursor} {p : Piece} (h : Fits c p) :
    utf8 p.token.text = c.rest.take (p.token.span.stop - c.pos) := by
  have hslice := Source.slice_eq_ok_iff.mp h.slice_eq
  rw [hslice.2.2.2, h.start_eq, c.rest_eq]

theorem exists_token {s : Source} {a b : Nat} (hab : a ≤ b) (ha : s.OnBoundary a)
    (hb : s.OnBoundary b) :
    ∃ text, s.slice a b = .ok text ∧ Token.ofSpan text ⟨a, b⟩ = .ok ⟨text, ⟨a, b⟩⟩ := by
  have hslice := Source.slice_of_onBoundary hab ha hb
  have hsize := Source.utf8ByteSize_of_slice hslice
  exact ⟨_, hslice, Token.ofSpan_eq_ok_iff.mpr ⟨hab, hsize, rfl⟩⟩

theorem upTo_eq_ok {start : Nat} {after : Cursor} (reports : List Event) (h : start ≤ after.pos)
    (hs : after.source.OnBoundary start) (ha : after.OnBoundary) :
    ∃ text, upTo start after reports = .ok ⟨⟨text, ⟨start, after.pos⟩⟩, after, reports⟩ ∧
      after.source.slice start after.pos = .ok text := by
  obtain ⟨text, hslice, htoken⟩ := exists_token h hs ha
  refine ⟨text, ?_, hslice⟩
  simp only [upTo, Cursor.sliceFrom, Cursor.slice, hslice, Span.between_of_le h, htoken, bind,
    Except.bind, pure, Except.pure]

theorem exists_fits_upTo (c after : Cursor) (reports : List Event) (hs : after.source = c.source)
    (hle : c.pos ≤ after.pos) (hc : c.OnBoundary) (ha : after.OnBoundary) :
    ∃ p, upTo c.pos after reports = .ok p ∧ Fits c p ∧ p.after = after ∧
      p.token.span.stop = after.pos ∧ p.reports = reports := by
  have hc' : after.source.OnBoundary c.pos := hs ▸ hc
  obtain ⟨text, hok, htext⟩ := upTo_eq_ok reports hle hc' ha
  exact ⟨_, hok, ⟨hs, ha, rfl, Nat.le_refl _, hs ▸ htext⟩, rfl, rfl, rfl⟩

theorem exists_text {c : Cursor} (hc : c.OnBoundary) (he : c.atEnd = false) :
    ∃ p, text c = .ok p ∧ Fits c p ∧ c.pos < p.token.span.stop := by
  have hlt : c.pos + 1 ≤ c.source.length := by
    simp only [Cursor.atEnd, decide_eq_false_iff_not] at he
    omega
  obtain ⟨hm, hle⟩ := Cursor.onBoundary_nextMarkup (c := c.forward 1) hlt
  rw [Cursor.pos_forward] at hle
  have hsrc : (c.forward 1).nextMarkup.source = c.source := by
    obtain ⟨n, hn⟩ := Cursor.nextMarkup_eq_forward (c.forward 1)
    rw [hn]
    rfl
  obtain ⟨p, hp, hf, _, hstop, _⟩ := exists_fits_upTo c _ [] hsrc (by omega) hc hm
  exact ⟨p, (text_eq hlt).trans hp, hf, by omega⟩

theorem exists_tag (opener inside : Cursor) (ho : opener.OnBoundary) (hin : inside.InBounds)
    (hs : inside.source = opener.source) (hle : opener.pos ≤ inside.pos)
    (hlen : opener.pos + 2 ≤ opener.source.length) (hb : (opener.forward 2).OnBoundary) :
    ∃ p, tag opener inside = .ok p ∧ Fits opener p ∧ opener.pos < p.token.span.stop := by
  rw [tag_eq hin hlen]
  cases h : inside.behindNext? tagClose with
  | some after =>
    have hclose : closeBrace < 0x80 := by decide
    obtain ⟨ha, hsa, hpa⟩ := Cursor.onBoundary_of_behindNext? [percent] hclose h
    obtain ⟨p, hp, hf, _, hstop, _⟩ := exists_fits_upTo opener after [] (hsa.trans hs) (by omega) ho ha
    simp only [List.length_singleton] at hpa
    exact ⟨p, hp, hf, by omega⟩
  | none =>
    obtain ⟨p, hp, hf, _, hstop, _⟩ := exists_fits_upTo opener (opener.forward 2)
      [.unterminatedTag opener.pos] rfl (Nat.le_add_right _ _) ho hb
    simp only [Cursor.pos_forward] at hstop
    exact ⟨p, hp, hf, by omega⟩

/-- A walk stops behind an ASCII byte, inside the source. -/
theorem onBoundary_of_ending {body : Cursor} {k : Nat}
    (h : Variable.ending body.rest = .closed k ∨ Variable.ending body.rest = .redirected k) :
    (body.forward k).OnBoundary := by
  have hk := Variable.read_le_of_walk h
  obtain ⟨b, hb, hlast⟩ := Variable.exists_last_of_ending h
  have hbound := (Cursor.onBoundary_forward hlast hb).2
  rwa [Nat.sub_add_cancel hk.1] at hbound

theorem exists_var {c : Cursor} (hc : c.OnBoundary) (hlen : c.pos + 2 ≤ c.source.length)
    (hb : (c.forward 2).OnBoundary) :
    ∃ p, var c = .ok p ∧ Fits c p ∧ c.pos < p.token.span.stop := by
  have hin : (c.forward 2).InBounds := hlen
  rw [var_eq hlen]
  cases h : Variable.ending (c.forward 2).rest with
  | closed k =>
    have hbound := onBoundary_of_ending (Or.inl h)
    obtain ⟨p, hp, hf, _, hstop, _⟩ := exists_fits_upTo c
      ((c.forward 2).forward k) [] rfl (by simp only [Cursor.pos_forward]; omega) hc hbound
    simp only [Cursor.pos_forward] at hstop
    exact ⟨p, hp, hf, by omega⟩
  | redirected k =>
    have hbound := onBoundary_of_ending (Or.inr h)
    exact exists_tag c ((c.forward 2).forward k) hc hbound.inBounds rfl
      (by simp only [Cursor.pos_forward]; omega) hlen hb
  | unterminated =>
    obtain ⟨text, hslice, htoken⟩ := exists_token (Nat.le_add_right c.pos 2) hc hb
    refine ⟨⟨⟨text, ⟨c.pos, c.pos + 2⟩⟩, (c.forward 2).toEnd,
      [.unterminatedVariable c.pos (c.forward 2).rest.length]⟩,
      ?_, ⟨rfl, Cursor.onBoundary_toEnd hin, rfl, ?_, hslice⟩, ?_⟩
    · simp only [Cursor.slice, hslice, htoken, bind, Except.bind]
      rfl
    · exact Nat.le_add_right _ _
    · exact Nat.lt_add_of_pos_right Nat.two_pos

/-- A step through markup always finds a piece, and the piece is not empty. -/
theorem exists_markup {c : Cursor} (hc : c.OnBoundary) (he : c.atEnd = false) :
    ∃ p, markup c = .ok p ∧ Fits c p ∧ c.pos < p.token.span.stop := by
  unfold markup
  by_cases ht : c.sees tagOpen = true
  · have hlen := Cursor.length_le_of_sees ht Nat.two_pos
    have hpercent : percent < 0x80 := by decide
    have hb := Cursor.onBoundary_of_sees [openBrace] hpercent ht
    obtain ⟨p, hp, hf, hlt⟩ := exists_tag c (c.forward 2) hc hlen rfl (Nat.le_add_right _ _)
      hlen hb
    refine ⟨p, ?_, hf, hlt⟩
    rw [if_pos ht]
    have hadv : c.advance 2 = .ok (c.forward 2) := Cursor.advance_of_le hlen
    simp only [hadv, bind, Except.bind, hp]
  · rw [if_neg ht]
    by_cases hv : c.sees variableOpen = true
    · have hlen := Cursor.length_le_of_sees hv Nat.two_pos
      have hopen : openBrace < 0x80 := by decide
      have hb := Cursor.onBoundary_of_sees [openBrace] hopen hv
      rw [if_pos hv]
      exact exists_var hc hlen hb
    · rw [if_neg hv]
      exact exists_text hc he

theorem onBoundary_behind_nextLineEnd {c : Cursor} (hin : c.InBounds)
    (hend : ¬ c.nextLineEnd.atEnd = true) : (c.nextLineEnd.forward 1).OnBoundary := by
  rw [Cursor.nextLineEnd] at hend ⊢
  cases hs : Search.seek startsNewline 0 c.rest with
  | none =>
    rw [hs] at hend
    refine absurd ?_ hend
    rw [Option.map_none, Option.getD_none]
    exact (Cursor.atEnd_iff (Cursor.onBoundary_toEnd hin).inBounds).mpr (Cursor.pos_toEnd hin)
  | some m =>
    obtain ⟨k, _, rfl, hk, _⟩ := (Search.seek_eq_some_iff _ _ _).mp hs
    cases hd : c.rest.drop k with
    | nil => simp [hd] at hk
    | cons b rest =>
      rw [hd, startsNewline_cons, beq_iff_eq] at hk
      have hbyte : c.rest[k]? = some newline := by
        rw [← List.head?_drop, hd, List.head?_cons, hk]
      rw [Option.map_some, Option.getD_some, Nat.zero_add, Cursor.forward_forward]
      exact (Cursor.onBoundary_forward hbyte (by decide)).2

/-- A step through lines always finds a piece. An empty line still moves over its newline. -/
theorem exists_line {c : Cursor} (hc : c.OnBoundary) (he : c.atEnd = false) :
    ∃ p, line c = .ok p ∧ Fits c p ∧ c.pos < p.after.pos := by
  obtain ⟨hb, hle⟩ := Cursor.onBoundary_nextLineEnd hc.inBounds
  obtain ⟨n, hn⟩ := Cursor.nextLineEnd_eq_forward c
  have hsrc : c.nextLineEnd.source = c.source := by rw [hn]; rfl
  obtain ⟨p, hp, hf, hafter, hstop, _⟩ := exists_fits_upTo c _ [] hsrc hle hc hb
  simp only [Cursor.atEnd, decide_eq_false_iff_not] at he
  rw [line_eq]
  simp only [hp, bind, Except.bind]
  by_cases hend : c.nextLineEnd.atEnd = true
  · refine ⟨p, by rw [if_pos hend]; rfl, hf, ?_⟩
    rw [hafter]
    simp only [Cursor.atEnd, decide_eq_true_eq, hsrc] at hend
    omega
  · have hlt : c.nextLineEnd.pos + 1 ≤ c.nextLineEnd.source.length := by
      simp only [Cursor.atEnd, decide_eq_true_eq] at hend
      omega
    have hskip := onBoundary_behind_nextLineEnd hc.inBounds hend
    refine ⟨{ p with after := c.nextLineEnd.forward 1 }, ?_, ?_, ?_⟩
    · rw [if_neg hend, Cursor.advance_of_le hlt]
      rfl
    · refine ⟨hsrc, hskip, hf.start_eq, ?_, hf.slice_eq⟩
      simp only [Cursor.pos_forward, hstop]
      omega
    · simp only [Cursor.pos_forward]
      omega

end Piece
end LiquidTokens
