import LiquidTokens.Proofs.Lines
import LiquidTokens.Proofs.Stream

/-! A tokenizer does not look behind. Where a run starts is of no account: from the same bytes ahead,
another offset only moves the spans and another line only changes the lines. So after any number of
tokens it goes on as a new one would over the rest of the text. The main statement is
`Tokenizer.drain_restart`. -/
namespace LiquidTokens

def Span.shift (n : Nat) (s : Span) : Span :=
  ⟨s.start + n, s.stop + n⟩

def Token.shift (n : Nat) (t : Token) : Token :=
  { t with span := t.span.shift n }

def Event.shift (n : Nat) : Event → Event
  | .markupToken kind span line => .markupToken kind (span.shift n) line
  | .lineToken span line => .lineToken (span.shift n) line
  | .unterminatedTag start => .unterminatedTag (start + n)
  | .unterminatedVariable start dropped => .unterminatedVariable (start + n) dropped
  | .syntaxError e => .syntaxError e

def Emission.shift (n : Nat) (e : Emission) : Emission :=
  { e with token := e.token.shift n, events := e.events.map (Event.shift n) }

namespace Markup

theorem Cut.map_shift_reports (cut : Cut) (pos n : Nat) :
    (cut.reports pos).map (Event.shift n) = cut.reports (pos + n) := by
  cases cut <;> rfl

theorem shift_emission (pos n : Nat) (line : LineNumber) (cut : Cut) (text : String) :
    (emission pos line cut text).shift n = emission (pos + n) line cut text := by
  have hspan : Span.shift n ⟨pos, pos + cut.length⟩ = ⟨pos + n, pos + n + cut.length⟩ := by
    rw [Span.shift, Nat.add_right_comm]
  simp only [emission, Emission.shift, Token.shift, List.map_append, Cut.map_shift_reports, hspan]
  simp only [List.map_cons, List.map_nil, Tokenizer.trace, Event.shift, hspan]
  rfl

theorem Stream.shift {pos : Nat} {line : LineNumber} {ahead : List UInt8} {es : List Emission}
    (h : Stream pos line ahead es) (n : Nat) :
    Stream (pos + n) line ahead (es.map (Emission.shift n)) := by
  induction h with
  | done => exact .done
  | @step pos line ahead cut text es hne hcut htext hrest ih =>
    rw [Nat.add_right_comm] at ih
    rw [List.map_cons, shift_emission]
    exact .step hne hcut htext ih

theorem Stream.map_token_eq {pos : Nat} {line line' : LineNumber} {ahead : List UInt8}
    {es es' : List Emission} (h : Stream pos line ahead es) (h' : Stream pos line' ahead es') :
    es.map Emission.token = es'.map Emission.token := by
  induction h generalizing line' es' with
  | done =>
    obtain rfl := h'.eq_nil
    rfl
  | @step pos line ahead cut text es hne hcut htext hrest ih =>
    cases h' with
    | done => exact absurd rfl hne
    | @step _ _ _ cut' text' es' _ hcut' htext' hrest' =>
      obtain rfl : cut = cut' := hcut.unique hcut'
      obtain rfl : text = text' := utf8_injective (htext.trans htext'.symm)
      rw [List.map_cons, List.map_cons, ih hrest']
      rfl

/-- Whatever its first line, the text is split into these tokens, and then it is at its end. -/
def Splits (text : String) (ts : List Token) : Prop :=
  ∀ line, ∃ es last, (Tokenizer.start .markup text line).drain = .ok (es, last) ∧
    last.next = .ok (none, last) ∧ es.map Emission.token = ts

theorem Stream.splits {line : LineNumber} {text : String} {es : List Emission}
    (h : Stream 0 line (utf8 text) es) : Splits text (es.map Emission.token) := by
  intro line'
  obtain ⟨es', last, hdrain, hlast, h'⟩ := exists_stream text line'
  exact ⟨es', last, hdrain, hlast, h'.map_token_eq h⟩

/-- Every text is split in one way. -/
theorem existsUnique_splits (text : String) : ∃! ts, Splits text ts := by
  obtain ⟨es, last, hdrain, _, h⟩ := exists_stream text none
  refine ⟨_, h.splits, fun us hus => ?_⟩
  obtain ⟨es', last', hdrain', _, rfl⟩ := hus none
  rw [hdrain] at hdrain'
  cases hdrain'
  rfl

theorem Splits.exists_stream {text : String} {ts : List Token} (h : Splits text ts)
    (line : LineNumber) : ∃ es, Stream 0 line (utf8 text) es ∧ es.map Emission.token = ts := by
  obtain ⟨es, last, hdrain, _, hs⟩ := Markup.exists_stream text line
  obtain ⟨es', last', hdrain', _, htokens⟩ := h line
  rw [hdrain] at hdrain'
  cases hdrain'
  exact ⟨es, hs, htokens⟩

end Markup

open Delimiter

theorem Markup.Stream.unique {pos : Nat} {line : LineNumber} {ahead : List UInt8}
    {es es' : List Emission} (h : Stream pos line ahead es) (h' : Stream pos line ahead es') :
    es = es' := by
  induction h generalizing es' with
  | done => exact h'.eq_nil.symm
  | @step pos line ahead cut text es hne hcut htext hrest ih =>
    cases h' with
    | done => exact absurd rfl hne
    | @step _ _ _ cut' text' es' _ hcut' htext' hrest' =>
      obtain rfl : cut = cut' := hcut.unique hcut'
      obtain rfl : text = text' := utf8_injective (htext.trans htext'.symm)
      rw [ih hrest']

namespace Lines

theorem Stream.unique {pos : Nat} {line : LineNumber} {ahead : List UInt8}
    {es es' : List Emission} (h : Stream pos line ahead es) (h' : Stream pos line ahead es') :
    es = es' := by
  induction h generalizing es' with
  | done => exact h'.eq_nil.symm
  | @last pos line text hne hfree =>
    generalize hahead : utf8 text = ahead at h'
    cases h' with
    | done => exact absurd hahead hne
    | last => rw [utf8_injective hahead]
    | step =>
      refine absurd ?_ hfree
      rw [hahead]
      exact List.mem_append_right _ List.mem_cons_self
  | @step pos line text behind es hfree hrest ih =>
    generalize hahead : utf8 text ++ newline :: behind = ahead at h'
    cases h' with
    | done => exact absurd hahead (List.append_ne_nil_of_right_ne_nil _ (List.cons_ne_nil _ _))
    | last _ hfree' =>
      refine absurd ?_ hfree'
      rw [← hahead]
      exact List.mem_append_right _ List.mem_cons_self
    | @step _ _ text' behind' es' hfree' hrest' =>
      have hother {l : List UInt8} (hl : newline ∉ l) : ∀ b ∈ l, b ≠ newline :=
        fun b hb heq => hl (heq ▸ hb)
      obtain ⟨htext, _, rfl⟩ := Search.append_cons_inj (hother hfree) (hother hfree')
        (not_not_intro rfl) (not_not_intro rfl) hahead
      obtain rfl := utf8_injective htext
      rw [ih hrest']

theorem shift_emission (pos n : Nat) (line : LineNumber) (text : String) :
    (emission pos line text).shift n = emission (pos + n) line text := by
  have hspan : Span.shift n ⟨pos, pos + (utf8 text).length⟩ =
      ⟨pos + n, pos + n + (utf8 text).length⟩ := by
    rw [Span.shift, Nat.add_right_comm]
  simp only [emission, Emission.shift, Token.shift, List.map_cons, List.map_nil, Tokenizer.trace,
    Event.shift, hspan]

theorem Stream.shift {pos : Nat} {line : LineNumber} {ahead : List UInt8} {es : List Emission}
    (h : Stream pos line ahead es) (n : Nat) :
    Stream (pos + n) line ahead (es.map (Emission.shift n)) := by
  induction h with
  | done => exact .done
  | last hne hfree =>
    rw [List.map_singleton, shift_emission]
    exact .last hne hfree
  | step hfree hrest ih =>
    rw [Nat.add_right_comm] at ih
    rw [List.map_cons, shift_emission]
    exact .step hfree ih

end Lines

namespace Tokenizer

/-- What a mode emits while it reads bytes to their end, from an offset and a line on. -/
def Runs : Mode → Nat → LineNumber → List UInt8 → List Emission → Prop
  | .markup => Markup.Stream
  | .line => Lines.Stream

section Runs

variable {mode : Mode} {pos : Nat} {line : LineNumber} {ahead : List UInt8} {es es' : List Emission}

theorem Runs.unique (h : Runs mode pos line ahead es) (h' : Runs mode pos line ahead es') :
    es = es' := by
  cases mode with
  | markup => exact Markup.Stream.unique h h'
  | line => exact Lines.Stream.unique h h'

theorem Runs.shift (h : Runs mode pos line ahead es) (n : Nat) :
    Runs mode (pos + n) line ahead (es.map (Emission.shift n)) := by
  cases mode with
  | markup => exact Markup.Stream.shift h n
  | line => exact Lines.Stream.shift h n

end Runs

theorem exists_take_runs {t : Tokenizer} (hb : t.cursor.OnBoundary) {n : Nat} (hn : t.unread ≤ n) :
    ∃ es last, t.take n = .ok (es, last) ∧ last.next = .ok (none, last) ∧
      Runs t.mode t.cursor.pos t.line t.cursor.rest es := by
  cases hm : t.mode with
  | markup => exact exists_take_markup hm hb hn
  | line => exact exists_take_lines hm hb hn

theorem take_add_of_next_none {t last : Tokenizer} {n : Nat} {es : List Emission}
    (h : t.take n = .ok (es, last)) (hlast : last.next = .ok (none, last)) (m : Nat) :
    t.take (n + m) = .ok (es, last) := by
  rw [take_add, h]
  simp only [bind, Except.bind, take_of_next_none hlast, Functor.map, Except.map, List.append_nil]

theorem runs_of_take {t last : Tokenizer} (hb : t.cursor.OnBoundary) {n : Nat} {es : List Emission}
    (h : t.take n = .ok (es, last)) (hlast : last.next = .ok (none, last)) :
    Runs t.mode t.cursor.pos t.line t.cursor.rest es := by
  have hmore := take_add_of_next_none h hlast t.unread
  obtain ⟨fs, last', hfs, _, hruns⟩ := exists_take_runs hb (Nat.le_add_left t.unread n)
  obtain ⟨rfl, rfl⟩ := Prod.mk.inj (Except.ok.inj (hmore.symm.trans hfs))
  exact hruns

/-- A run to the end can be interrupted after any number of pulls. -/
theorem exists_take_split {t last : Tokenizer} {n : Nat} {es : List Emission}
    (h : t.take n = .ok (es, last)) (hlast : last.next = .ok (none, last)) (k : Nat) :
    ∃ t' m, t.take k = .ok (es.take k, t') ∧ t'.take m = .ok (es.drop k, last) := by
  have hdone {t : Tokenizer} (hnext : t.next = .ok (none, t)) (k : Nat) :
      ∃ t' m, t.take k = .ok (([] : List Emission).take k, t') ∧
        t'.take m = .ok (([] : List Emission).drop k, t) :=
    ⟨t, 0, by rw [take_of_next_none hnext, List.take_nil], by rw [take_zero, List.drop_nil]⟩
  induction n generalizing t es k with
  | zero =>
    obtain ⟨rfl, rfl⟩ := Prod.mk.inj (Except.ok.inj h)
    exact hdone hlast k
  | succ n ih =>
    rcases cases_of_take_succ h with ⟨hnext, rfl, rfl⟩ | ⟨e, t₁, es₁, hnext, htake, rfl⟩
    · exact hdone hnext k
    · cases k with
      | zero => exact ⟨t, n + 1, rfl, h⟩
      | succ k =>
        obtain ⟨t', m, hbefore, hafter⟩ := ih htake k
        refine ⟨t', m, ?_, hafter⟩
        rw [take_succ_of_next_some hnext, hbefore]
        rfl

/-- After any number of pulls the cursor stands between two characters. What is emitted from there on,
with its lines and its reports, is what a tokenizer emits that starts over the rest of the text at the
line that was reached, with all offsets moved by the bytes in front. -/
theorem drain_restart (mode : Mode) (text : String) (line : LineNumber) :
    ∃ es last, (start mode text line).drain = .ok (es, last) ∧ last.next = .ok (none, last) ∧
      ∀ k, ∃ t rest fs last', (start mode text line).take k = .ok (es.take k, t) ∧
        (Source.ofText text).slice t.cursor.pos text.utf8ByteSize = .ok rest ∧
        (start mode rest t.line).drain = .ok (fs, last') ∧ last'.next = .ok (none, last') ∧
        es.drop k = fs.map (Emission.shift t.cursor.pos) := by
  have hb := onBoundary_start mode text line
  obtain ⟨es, last, hdrain, hlast, _⟩ := exists_take_runs hb (Nat.le_refl _)
  refine ⟨es, last, hdrain, hlast, fun k => ?_⟩
  obtain ⟨t, m, htake, hrest⟩ := exists_take_split hdrain hlast k
  obtain ⟨es₁, t₁, htake₁, hb₁, hm₁, hs₁, _⟩ := exists_take hb k
  obtain ⟨rfl, rfl⟩ := Prod.mk.inj (Except.ok.inj (htake₁.symm.trans htake))
  obtain ⟨rest, hslice, hbytes⟩ := Source.exists_slice_to_end hb₁
  obtain ⟨gs, last₂, hgs, hlast₂, hfresh⟩ :=
    exists_take_runs (onBoundary_start mode rest t₁.line) (Nat.le_refl _)
  refine ⟨t₁, rest, gs, last₂, htake₁, ?_, hgs, hlast₂, ?_⟩
  · rw [hs₁] at hslice
    exact hslice
  -- The rest of the run and a run of its own over the rest of the text have the same bytes ahead.
  · have hruns := runs_of_take hb₁ hrest hlast
    have hmoved := hfresh.shift t₁.cursor.pos
    have hahead : (start mode rest t₁.line).cursor.rest = t₁.cursor.rest := by
      rw [t₁.cursor.rest_eq, ← hbytes]
      rfl
    have hpos : (start mode rest t₁.line).cursor.pos + t₁.cursor.pos = t₁.cursor.pos :=
      Nat.zero_add _
    rw [hahead, hpos] at hmoved
    rw [hm₁] at hruns
    exact hruns.unique hmoved

end Tokenizer

end LiquidTokens
