import LiquidTokens.Exhaustion
import LiquidTokens.Proofs.Stream

/-! Calls for tokens, as many as one likes. Every step of a call is checked, and by
`Tokenizer.exists_calls` no check ever fails. Each call passes at least one byte until none is left, and
from then on nothing changes: this is `Tokenizer.calls_exhaust`. Markup has at most two tokens for three
bytes, and one more. -/
namespace LiquidTokens

namespace Tokenizer

/-- So many calls for the next token with the answer to each, also where the source is at its end. -/
def calls (t : Tokenizer) : Nat → Checked (List (Option Emission) × Tokenizer)
  | 0 => pure ([], t)
  | n + 1 => do
    let (answer, t') ← t.next
    let (answers, last) ← t'.calls n
    pure (answer :: answers, last)

@[simp] theorem calls_zero (t : Tokenizer) : t.calls 0 = .ok ([], t) := rfl

theorem calls_succ_of_next {t t' : Tokenizer} {answer : Option Emission}
    (h : t.next = .ok (answer, t')) (n : Nat) :
    t.calls (n + 1) = (fun r => (answer :: r.1, r.2)) <$> t'.calls n := by
  simp only [calls, h, bind, Except.bind]
  cases t'.calls n <;> rfl

theorem exists_calls_of_onBoundary {t : Tokenizer} (h : t.cursor.OnBoundary) (n : Nat) :
    ∃ answers last, t.calls n = .ok (answers, last) ∧ answers.length = n ∧
      last.cursor.OnBoundary ∧ last.cursor.source = t.cursor.source ∧
      t.cursor.pos ≤ last.cursor.pos ∧
      ∀ e, some e ∈ answers → t.cursor.pos ≤ e.token.span.start ∧
        e.token.span.stop ≤ last.cursor.pos ∧
        t.cursor.source.slice e.token.span.start e.token.span.stop = .ok e.token.text := by
  induction n generalizing t with
  | zero =>
    refine ⟨[], t, rfl, rfl, h, rfl, Nat.le_refl _, ?_⟩
    intro e he
    cases he
  | succ n ih =>
    cases hend : t.cursor.atEnd with
    | true =>
      have hnext := next_of_atEnd hend
      obtain ⟨answers, last, hcalls, hlen, hb, hs, hle, hcut⟩ := ih h
      refine ⟨none :: answers, last, ?_, congrArg Nat.succ hlen, hb, hs, hle, ?_⟩
      · rw [calls_succ_of_next hnext, hcalls]
        rfl
      · intro e he
        rcases List.mem_cons.mp he with he | he
        · cases he
        · exact hcut e he
    | false =>
      obtain ⟨e, t', hnext, hemits⟩ := exists_next h hend
      obtain ⟨answers, last, hcalls, hlen, hb, hs, hle, hcut⟩ := ih hemits.onBoundary
      have hlt := hemits.pos_lt
      have hstop := hemits.stop_le
      refine ⟨some e :: answers, last, ?_, congrArg Nat.succ hlen, hb,
        hs.trans hemits.source_eq, by omega, ?_⟩
      · rw [calls_succ_of_next hnext, hcalls]
        rfl
      · intro e' he
        rcases List.mem_cons.mp he with he | he
        · obtain rfl := Option.some.inj he
          exact ⟨Nat.le_of_eq hemits.start_eq.symm, by omega, hemits.slice_eq⟩
        · obtain ⟨hfrom, hto, hslice⟩ := hcut e' he
          exact ⟨by omega, hto, hemits.source_eq ▸ hslice⟩

/-- Whatever the text that fits into memory, the mode and the first line, so many calls all succeed: no
move leaves the source, no slice cuts a character, no span is reversed, no token differs in length from
its span, and no sum of offsets overflows its 64 bits. Before and after each call the cursor stands
between two characters. -/
theorem exists_calls (mode : Mode) (text : String) (hlen : text.utf8ByteSize ≤ Word.maxLength)
    (line : LineNumber) (n : Nat) :
    Word.bound text.utf8ByteSize = UInt64.size ∧
    ∃ answers last, (start mode text line).calls n = .ok (answers, last) ∧ answers.length = n ∧
      last.cursor.OnBoundary ∧ last.cursor.source = .ofText text ∧
      last.cursor.pos ≤ text.utf8ByteSize ∧
      ∀ e, some e ∈ answers → e.token.span.start ≤ e.token.span.stop ∧
        e.token.span.stop ≤ last.cursor.pos ∧
        e.token.text.utf8ByteSize = e.token.span.stop - e.token.span.start ∧
        (Source.ofText text).slice e.token.span.start e.token.span.stop = .ok e.token.text := by
  refine ⟨Word.bound_of_le hlen, ?_⟩
  obtain ⟨answers, last, hcalls, hcount, hb, hs, _, hcut⟩ :=
    exists_calls_of_onBoundary (onBoundary_start mode text line) n
  have hle : last.cursor.pos ≤ text.utf8ByteSize := by
    have hin := hb.inBounds
    rwa [Cursor.InBounds, hs] at hin
  refine ⟨answers, last, hcalls, hcount, hb, hs, hle, ?_⟩
  intro e he
  obtain ⟨_, hstop, hslice⟩ := hcut e he
  have horder := (Source.slice_eq_ok_iff.mp hslice).1
  have hsize := Source.utf8ByteSize_of_slice hslice
  exact ⟨horder, hstop, hsize, hslice⟩

/-- Text that starts with a character of two bytes, a variable that becomes a tag without a closer, and
one call more than there are tokens. -/
theorem exists_calls_of_wide_text :
    "é\x7b\x7b\x7b%é".utf8ByteSize ≤ Word.maxLength ∧
    ∃ answers last, (start .markup "é\x7b\x7b\x7b%é" none).calls 5 = .ok (answers, last) ∧
      answers.map (Option.map fun e => e.token.span) =
        [some ⟨0, 2⟩, some ⟨2, 4⟩, some ⟨4, 6⟩, some ⟨6, 8⟩, none] ∧
      last.cursor.OnBoundary ∧ last.cursor.pos ≤ "é\x7b\x7b\x7b%é".utf8ByteSize := by
  have hlen : "é\x7b\x7b\x7b%é".utf8ByteSize ≤ Word.maxLength := by decide
  obtain ⟨_, answers, last, hcalls, _, hb, _, hle, _⟩ := exists_calls .markup _ hlen none 5
  have hspans : (fun r => r.1.map (Option.map fun e => e.token.span)) <$>
      (start .markup "é\x7b\x7b\x7b%é" none).calls 5 =
        .ok [some ⟨0, 2⟩, some ⟨2, 4⟩, some ⟨4, 6⟩, some ⟨6, 8⟩, none] := by decide +kernel
  rw [hcalls] at hspans
  exact ⟨hlen, answers, last, hcalls, Except.ok.inj hspans, hb, hle⟩

-- In between it may stand inside a character, as it does behind the first byte of this text.
example : ¬ (Source.ofText "é").OnBoundary 1 := by decide

end Tokenizer

open Delimiter

namespace Markup

/-- What the bytes ahead owe to the count of tokens. A single byte can be a token only where no markup
starts. -/
def credit (ahead : List UInt8) : Nat :=
  if ahead = [] ∨ startsMarkup ahead = true then 0 else 1

theorem credit_le_one (ahead : List UInt8) : credit ahead ≤ 1 := by
  unfold credit
  split <;> omega

theorem credit_eq_one {ahead : List UInt8} (hne : ahead ≠ []) (hstart : startsMarkup ahead = false) :
    credit ahead = 1 := by
  rw [credit, if_neg]
  simp [hne, hstart]

theorem Cuts.credit_eq_zero_of_text {ahead : List UInt8} {n : Nat} (h : Cuts ahead (.text n)) :
    credit (ahead.drop n) = 0 := by
  obtain ⟨_, _, rfl⟩ := h.eq_of_text
  have hstop := (plain_eq_iff.mp (rfl : plain (ahead.drop 1) = plain (ahead.drop 1))).2.1
  rw [List.drop_drop] at hstop
  exact if_pos hstop

theorem Cuts.exists_text {ahead : List UInt8} {cut : Cut} (h : Cuts ahead cut)
    (hstart : startsMarkup ahead = false) : ∃ n, cut = .text n := by
  cases h with
  | tag | loneTag | var | redirect | loneRedirect | loneVar => cases hstart
  | text => exact ⟨_, rfl⟩

theorem Cuts.two_le_length {ahead : List UInt8} {cut : Cut} (h : Cuts ahead cut)
    (hstart : startsMarkup ahead = true) : 2 ≤ cut.length := by
  cases h with
  | tag | var | redirect | loneTag | loneRedirect | loneVar =>
    simp only [Cut.length]
    omega
  | text htag hvar =>
    obtain ⟨b, rest, rfl, rfl | rfl | rfl⟩ := startsMarkup_iff.mp hstart
    · exact absurd ⟨rest, rfl⟩ hvar
    · exact absurd ⟨rest, rfl⟩ htag
    -- An empty pair of braces is text, and no markup starts at its second byte.
    · have hplain : plain (closeBrace :: rest) ≠ 0 := by
        intro hzero
        rcases (plain_eq_iff.mp hzero).2.1 with hnil | hbrace
        · cases hnil
        · obtain ⟨_, _, hbrace, _⟩ := startsMarkup_iff.mp hbrace
          cases hbrace
      simp only [Cut.length, List.drop_succ_cons, List.drop_zero]
      omega

/-- A step pays three for its token with two for each byte that it passes. If it passes only one, the
byte was owed, and nothing is owed behind it. -/
theorem Cuts.credit_le {ahead : List UInt8} {cut : Cut} (h : Cuts ahead cut) (hne : ahead ≠ []) :
    3 + credit (ahead.drop cut.passed) ≤ 2 * cut.passed + credit ahead := by
  obtain ⟨hpos, hpassed, _⟩ := h.bounds hne
  cases hstart : startsMarkup ahead with
  | true =>
    have htwo := h.two_le_length hstart
    have hbehind := credit_le_one (ahead.drop cut.passed)
    omega
  | false =>
    obtain ⟨n, rfl⟩ := h.exists_text hstart
    have hbehind : credit (ahead.drop (Cut.text n).passed) = 0 := h.credit_eq_zero_of_text
    rw [credit_eq_one hne hstart, hbehind]
    omega

theorem Stream.three_mul_length_le {pos : Nat} {line : LineNumber} {ahead : List UInt8}
    {es : List Emission} (h : Stream pos line ahead es) :
    3 * es.length ≤ 2 * ahead.length + credit ahead := by
  -- The bound alone is lost at a token of one byte; what is owed carries it to the next step.
  induction h with
  | done => exact Nat.zero_le _
  | @step pos line ahead cut text es hne hcut htext hrest ih =>
    have hcredit := hcut.credit_le hne
    have hbounds := hcut.bounds hne
    rw [List.length_drop] at ih
    rw [List.length_cons]
    omega

end Markup

namespace Tokenizer

theorem calls_of_next_none {t : Tokenizer} (h : t.next = .ok (none, t)) (n : Nat) :
    t.calls n = .ok (List.replicate n none, t) := by
  induction n with
  | zero => rfl
  | succ n ih =>
    rw [calls_succ_of_next h, ih]
    rfl

theorem pos_lt_of_next {t t' : Tokenizer} {e : Emission} (hb : t.cursor.OnBoundary)
    (h : t.next = .ok (some e, t')) : t.cursor.pos < t'.cursor.pos := by
  have he := (next_eq_some_iff.mp h).1
  obtain ⟨e₁, t₁, hnext, hemits⟩ := exists_next hb he
  obtain ⟨_, rfl⟩ := next_inj h hnext
  exact hemits.pos_lt

/-- After any number of calls nothing comes next exactly if the cursor is at the end of the text, and
then all further calls return nothing and change nothing. A call that returns a token moves the cursor
on, also where a region is read again for want of a closer. So a run ends. It has no more tokens than
the text has bytes, and in markup three times the tokens exceed twice the bytes by one at most. -/
theorem calls_exhaust (mode : Mode) (text : String) (line : LineNumber) :
    (∀ n, ∃ answers t, (start mode text line).calls n = .ok (answers, t) ∧
      (∀ t', t.next = .ok (none, t') ↔ t.cursor.pos = text.utf8ByteSize ∧ t' = t) ∧
      (t.next = .ok (none, t) → ∀ m, t.calls m = .ok (List.replicate m none, t)) ∧
      ∀ e t', t.next = .ok (some e, t') → t.cursor.pos < t'.cursor.pos) ∧
    ∃ es last, (start mode text line).drain = .ok (es, last) ∧ last.next = .ok (none, last) ∧
      es.length ≤ text.utf8ByteSize ∧
      (mode = .markup → 3 * es.length ≤ 2 * text.utf8ByteSize + 1) := by
  constructor
  · intro n
    obtain ⟨answers, t, hcalls, _, hb, hs, _⟩ :=
      exists_calls_of_onBoundary (onBoundary_start mode text line) n
    have hend (t' : Tokenizer) :
        t.next = .ok (none, t') ↔ t.cursor.pos = text.utf8ByteSize ∧ t' = t := by
      rw [next_eq_none_iff, Cursor.atEnd_iff hb.inBounds, hs]
      rfl
    exact ⟨answers, t, hcalls, hend, calls_of_next_none, fun e t' => pos_lt_of_next hb⟩
  · have hb := onBoundary_start mode text line
    obtain ⟨es, last, hdrain, hb', hatEnd⟩ := exists_drain hb
    obtain ⟨es', last', hdrain', _, _, hs, hle, _⟩ := exists_take hb (start mode text line).unread
    obtain ⟨rfl, rfl⟩ := Prod.mk.inj (Except.ok.inj (hdrain'.symm.trans hdrain))
    have hbytes : es'.length ≤ text.utf8ByteSize := by
      have hin := hb'.inBounds
      rw [Cursor.InBounds, hs] at hin
      exact Nat.le_trans (Nat.le_add_left _ _) (Nat.le_trans hle hin)
    refine ⟨es', last', hdrain, next_of_atEnd hatEnd, hbytes, ?_⟩
    rintro rfl
    obtain ⟨es, last, hstream, _, h⟩ := Markup.exists_stream text line
    obtain ⟨rfl, rfl⟩ := Prod.mk.inj (Except.ok.inj (hdrain.symm.trans hstream))
    have hcount := h.three_mul_length_le
    have hcredit := Markup.credit_le_one (utf8 text)
    rw [length_utf8] at hcount
    omega

/-- Text around a tag without a closer has as many tokens as there can be. The tag is given up behind
its opener, which is further on than before the call. -/
theorem calls_exhaust_of_unclosed_tag :
    (∃ answers t e t', (start .markup "a\x7b%a" none).calls 1 = .ok (answers, t) ∧
      t.next = .ok (some e, t') ∧ e.token.text = "\x7b%" ∧ t.cursor.pos < t'.cursor.pos) ∧
    (∃ answers t, (start .markup "a\x7b%a" none).calls 3 = .ok (answers, t) ∧
      t.next = .ok (none, t) ∧ ∀ m, t.calls m = .ok (List.replicate m none, t)) ∧
    ∃ es last, (start .markup "a\x7b%a" none).drain = .ok (es, last) ∧ es.length = 3 ∧
      3 * es.length ≤ 2 * "a\x7b%a".utf8ByteSize + 1 := by
  obtain ⟨hcalls, es, last, hdrain, _, _, hcount⟩ := calls_exhaust .markup "a\x7b%a" none
  refine ⟨?_, ?_, es, last, hdrain, ?_, hcount rfl⟩
  · obtain ⟨answers, t, hone, _, _, hforward⟩ := hcalls 1
    have hsecond : ((start .markup "a\x7b%a" none).calls 1 >>= fun r =>
        (fun s => s.1.map fun e => e.token.text) <$> r.2.next) = .ok (some "\x7b%") := by
      decide +kernel
    rw [hone] at hsecond
    change (fun s => s.1.map fun e => e.token.text) <$> t.next = _ at hsecond
    cases hnext : t.next with
    | error f =>
      rw [hnext] at hsecond
      cases hsecond
    | ok r =>
      obtain ⟨found, t'⟩ := r
      rw [hnext] at hsecond
      obtain ⟨e, rfl, htext⟩ := Option.map_eq_some_iff.mp (Except.ok.inj hsecond)
      exact ⟨answers, t, e, t', hone, hnext, htext, hforward e t' hnext⟩
  · obtain ⟨answers, t, hthree, hend, hnone, _⟩ := hcalls 3
    have hpos : (fun r => r.2.cursor.pos) <$> (start .markup "a\x7b%a" none).calls 3 = .ok 4 := by
      decide +kernel
    rw [hthree] at hpos
    have hnext := (hend t).mpr ⟨Except.ok.inj hpos, rfl⟩
    exact ⟨answers, t, hthree, hnext, hnone hnext⟩
  · have htokens : es.map Emission.token =
        [⟨"a", ⟨0, 1⟩⟩, ⟨"\x7b%", ⟨1, 3⟩⟩, ⟨"a", ⟨3, 4⟩⟩] :=
      map_token_eq_of_drain hdrain (by decide +kernel)
    rw [← List.length_map Emission.token, htokens]
    rfl

end Tokenizer

end LiquidTokens
