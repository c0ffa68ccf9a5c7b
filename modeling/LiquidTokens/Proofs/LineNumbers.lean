import LiquidTokens.Proofs.Lines
import LiquidTokens.Proofs.Tiling

/-! The line on which a token starts. Markup counts the newlines inside its tokens and line mode counts
its tokens, and in front of each token both have counted the newlines of the source up to there. The
main statement is `Tokenizer.drain_line_numbers`. -/
namespace LiquidTokens

open Delimiter

namespace LineNumber

/-- The number that is shown `n` lines behind the first, where lines are tracked. It never exceeds the
largest number that there is. -/
def shown (first : LineNumber) (n : Nat) : Option Nat :=
  first.map fun k => min (k.toNat + n) (UInt32.size - 1)

theorem map_toNat_advance (first : LineNumber) (n : Nat) :
    (first.advance n).map UInt32.toNat = first.shown n := by
  cases first with
  | none => rfl
  | some k => exact toNat_advance k n

example : advance (some 4294967294) 5 = some 4294967295 := by decide

@[simp] theorem advance_zero (line : LineNumber) : line.advance 0 = line := by
  cases line with
  | none => rfl
  | some k =>
    have hk : k.toNat ≤ last := Nat.le_of_lt_succ k.toNat_lt
    simp only [advance, Option.map_some, Nat.add_zero, Nat.min_eq_left hk, UInt32.ofNat_toNat]

end LineNumber

def newlinesBefore (text : String) (offset : Nat) : Nat :=
  ((utf8 text).take offset).count newline

namespace Tokenizer

/-- The lines that tokens count for: their newlines in markup, and one each in line mode. -/
def linesOf : Mode → List Token → Nat
  | .markup, ts => (Markup.joined ts).count newline
  | .line, ts => ts.length

@[simp] theorem linesOf_nil (mode : Mode) : linesOf mode [] = 0 := by
  cases mode <;> rfl

theorem linesOf_cons (mode : Mode) (t : Token) (ts : List Token) :
    linesOf mode (t :: ts) = linesOf mode [t] + linesOf mode ts := by
  cases mode with
  | markup => simp only [linesOf, Markup.joined, List.flatMap_cons, List.flatMap_nil,
      List.append_nil, List.count_append]
  | line => exact Nat.add_comm ts.length 1

theorem lines_of_next {t t' : Tokenizer} {e : Emission} (h : t.next = .ok (some e, t')) :
    t'.mode = t.mode ∧ e.line = t.line ∧ e.lineAfter = t'.line ∧
      t'.line = t.line.advance (linesOf t.mode [e.token]) := by
  obtain ⟨_, p, lines, hpiece, rfl, rfl⟩ := next_eq_some_iff.mp h
  refine ⟨rfl, rfl, rfl, ?_⟩
  rcases cases_of_piece hpiece with ⟨hm, _, rfl⟩ | ⟨hm, _, rfl⟩
  · simp [linesOf, Markup.joined, Token.newlines, hm]
  · simp only [linesOf, hm, List.length_singleton]

theorem line_of_take {t last : Tokenizer} {n : Nat} {es : List Emission}
    (h : t.take n = .ok (es, last)) :
    last.line = t.line.advance (linesOf t.mode (es.map Emission.token)) := by
  induction n generalizing t es with
  | zero =>
    obtain ⟨rfl, rfl⟩ := Prod.mk.inj (Except.ok.inj h)
    simp
  | succ n ih =>
    rcases cases_of_take_succ h with ⟨_, rfl, rfl⟩ | ⟨e, t', es', hnext, htake, rfl⟩
    · simp
    · obtain ⟨hmode, _, _, hline⟩ := lines_of_next hnext
      rw [ih htake, hline, hmode, LineNumber.advance_advance, List.map_cons, ← linesOf_cons]

theorem exists_next_of_take {t last : Tokenizer} {n k : Nat} {es : List Emission} {e : Emission}
    (h : t.take n = .ok (es, last)) (hk : es[k]? = some e) :
    ∃ t₁ t₂, t.take k = .ok (es.take k, t₁) ∧ t₁.next = .ok (some e, t₂) ∧
      t.take (k + 1) = .ok (es.take (k + 1), t₂) := by
  induction n generalizing t es k with
  | zero =>
    obtain ⟨rfl, rfl⟩ := Prod.mk.inj (Except.ok.inj h)
    cases hk
  | succ n ih =>
    rcases cases_of_take_succ h with ⟨_, rfl, rfl⟩ | ⟨e₀, t', es', hnext, htake, rfl⟩
    · cases hk
    · cases k with
      | zero =>
        obtain rfl := Option.some.inj hk
        refine ⟨t, t', rfl, hnext, ?_⟩
        rw [take_succ_of_next_some hnext]
        rfl
      | succ k =>
        obtain ⟨t₁, t₂, hbefore, hpull, hafter⟩ := ih htake hk
        refine ⟨t₁, t₂, ?_, hpull, ?_⟩
        · rw [take_succ_of_next_some hnext, hbefore]
          rfl
        · rw [take_succ_of_next_some hnext, hafter]
          rfl

/-- Tokenizers at the same place pull the same token, on whatever lines they are. -/
theorem exists_next_of_cursor_eq {t u t' : Tokenizer} {e : Emission} (hmode : t.mode = u.mode)
    (hcursor : t.cursor = u.cursor) (h : t.next = .ok (some e, t')) :
    ∃ f u', u.next = .ok (some f, u') ∧ e.token = f.token ∧ t'.mode = u'.mode ∧
      t'.cursor = u'.cursor := by
  have hpieces : t.piece = u.piece := by rw [piece, piece, hmode, hcursor]
  obtain ⟨he, p, lines, hpiece, rfl, rfl⟩ := next_eq_some_iff.mp h
  rw [hcursor] at he
  rw [hpieces] at hpiece
  exact ⟨_, _, next_eq_some_iff.mpr ⟨he, p, lines, hpiece, rfl, rfl⟩, rfl, hmode, rfl⟩

theorem map_token_eq_of_cursor_eq {t u last last' : Tokenizer} {n : Nat} {es fs : List Emission}
    (hmode : t.mode = u.mode) (hcursor : t.cursor = u.cursor) (ht : t.take n = .ok (es, last))
    (hu : u.take n = .ok (fs, last')) : es.map Emission.token = fs.map Emission.token := by
  induction n generalizing t u es fs with
  | zero =>
    obtain ⟨rfl, rfl⟩ := Prod.mk.inj (Except.ok.inj ht)
    obtain ⟨rfl, rfl⟩ := Prod.mk.inj (Except.ok.inj hu)
    rfl
  | succ n ih =>
    rcases cases_of_take_succ ht with ⟨hnone, rfl, _⟩ | ⟨e, t', es', hnext, htake, rfl⟩
    · rcases cases_of_take_succ hu with ⟨_, rfl, _⟩ | ⟨f, u', fs', hnext', _, rfl⟩
      · rfl
      · obtain ⟨_, _, hsome, _⟩ := exists_next_of_cursor_eq hmode.symm hcursor.symm hnext'
        rw [hnone] at hsome
        cases hsome
    · obtain ⟨f, u', hnext', htoken, hmode', hcursor'⟩ :=
        exists_next_of_cursor_eq hmode hcursor hnext
      rcases cases_of_take_succ hu with ⟨hnone, _⟩ | ⟨f₁, u₁, fs', hnext₁, htake', rfl⟩
      · rw [hnone] at hnext'
        cases hnext'
      · obtain ⟨rfl, rfl⟩ := next_inj hnext₁ hnext'
        rw [List.map_cons, List.map_cons, htoken, ih hmode' hcursor' htake htake']

end Tokenizer

theorem Markup.Tiles.take {bytes : List UInt8} {start stop k : Nat} {ts : List Token} {t : Token}
    (h : Tiles bytes start stop ts) (hk : ts[k]? = some t) :
    Tiles bytes start t.span.start (ts.take k) ∧ Tiles bytes start t.span.stop (ts.take (k + 1)) := by
  induction ts generalizing start k with
  | nil => cases hk
  | cons u ts ih =>
    obtain ⟨hstart, hlt, hle, htext, hrest⟩ := h
    cases k with
    | zero =>
      obtain rfl := Option.some.inj hk
      exact ⟨hstart.symm, hstart, hlt, hle, htext, rfl⟩
    | succ k =>
      obtain ⟨hbefore, hwith⟩ := ih hrest hk
      exact ⟨⟨hstart, hlt, hle, htext, hbefore⟩, hstart, hlt, hle, htext, hwith⟩

theorem Lines.Stream.count_take {bytes : List UInt8} {pos k : Nat} {line : LineNumber}
    {ahead : List UInt8} {es : List Emission} {e : Emission} (h : Lines.Stream pos line ahead es)
    (hahead : bytes.drop pos = ahead) (hk : es[k]? = some e) :
    (bytes.take e.token.span.start).count newline = (bytes.take pos).count newline + k := by
  induction h generalizing k with
  | done => cases hk
  | last hne hfree =>
    cases k with
    | zero =>
      obtain rfl := Option.some.inj hk
      rfl
    | succ k => cases hk
  | @step pos line text behind es hfree hrest ih =>
    cases k with
    | zero =>
      obtain rfl := Option.some.inj hk
      rfl
    | succ k =>
      have hdrop : bytes.drop (pos + ((utf8 text).length + 1)) = behind := by
        rw [← List.drop_drop, hahead, List.append_cons, List.drop_left' (by simp)]
      have htake : bytes.take (pos + ((utf8 text).length + 1)) =
          bytes.take pos ++ (utf8 text ++ [newline]) := by
        rw [List.take_add, hahead, List.append_cons, List.take_left' (by simp)]
      rw [ih hdrop hk, htake, List.count_append, List.count_append, List.count_singleton_self,
        List.count_eq_zero_of_not_mem hfree]
      omega

namespace Tokenizer

/-- The lines that are counted behind a token with `k` tokens before it: in markup the newlines up to
its end, and in line mode the tokens. -/
def linesThrough (text : String) (k : Nat) (t : Token) : Mode → Nat
  | .markup => newlinesBefore text t.span.stop
  | .line => k + 1

theorem linesOf_take_of_drain {mode : Mode} {text : String} {line : LineNumber} {last : Tokenizer}
    {es : List Emission} {e : Emission} {k : Nat} (h : (start mode text line).drain = .ok (es, last))
    (hk : es[k]? = some e) :
    linesOf mode ((es.take k).map Emission.token) = newlinesBefore text e.token.span.start ∧
      linesOf mode ((es.take (k + 1)).map Emission.token) = linesThrough text k e.token mode := by
  cases mode with
  | markup =>
    obtain ⟨es', last', hdrain, _, hs⟩ := Markup.exists_stream text line
    obtain ⟨rfl, rfl⟩ := Prod.mk.inj (Except.ok.inj (h.symm.trans hdrain))
    obtain ⟨stop, htiles, _⟩ := hs.exists_tiles List.drop_zero (Nat.zero_le _)
    have htoken : (es.map Emission.token)[k]? = some e.token := by
      rw [List.getElem?_map, hk]
      rfl
    obtain ⟨hbefore, hwith⟩ := htiles.take htoken
    rw [List.map_take, List.map_take]
    exact ⟨congrArg (List.count newline) hbefore.joined_eq.2,
      congrArg (List.count newline) hwith.joined_eq.2⟩
  | line =>
    obtain ⟨es', last', hdrain, _, hs⟩ := Lines.exists_stream text line
    obtain ⟨rfl, rfl⟩ := Prod.mk.inj (Except.ok.inj (h.symm.trans hdrain))
    have hcount := hs.count_take List.drop_zero hk
    obtain ⟨hlt, _⟩ := List.getElem?_eq_some_iff.mp hk
    rw [List.take_zero, List.count_nil, Nat.zero_add] at hcount
    simp only [linesOf, linesThrough, List.length_map, List.length_take, newlinesBefore, hcount]
    omega

/-- In front of a token the line is the one on which the token starts. Behind it, markup has counted
the newlines up to its end, and line mode the tokens so far. Without a first line there is none ever,
and the tokens are the same for every first line. In the end nothing is counted but tokens, and so not
what an unterminated variable drops. -/
theorem drain_line_numbers (mode : Mode) (text : String) :
    ∃ ts, ∀ line : LineNumber, ∃ es last, (start mode text line).drain = .ok (es, last) ∧
      last.next = .ok (none, last) ∧ es.map Emission.token = ts ∧
      (∀ k e, es[k]? = some e → ∃ t t', (start mode text line).take k = .ok (es.take k, t) ∧
        t.next = .ok (some e, t') ∧ e.line = t.line ∧ e.lineAfter = t'.line ∧
        t.line.map UInt32.toNat = line.shown (newlinesBefore text e.token.span.start) ∧
        t'.line.map UInt32.toNat = line.shown (linesThrough text k e.token mode)) ∧
      last.line.map UInt32.toNat = line.shown (linesOf mode ts) := by
  obtain ⟨es₀, last₀, hdrain₀, _⟩ := exists_drain (onBoundary_start mode text none)
  refine ⟨es₀.map Emission.token, fun line => ?_⟩
  obtain ⟨es, last, hdrain, _, hend⟩ := exists_drain (onBoundary_start mode text line)
  have hmode : (start mode text line).mode = (start mode text none).mode := rfl
  have hcursor : (start mode text line).cursor = (start mode text none).cursor := rfl
  have htokens := map_token_eq_of_cursor_eq hmode hcursor hdrain hdrain₀
  refine ⟨es, last, hdrain, next_of_atEnd hend, htokens, ?_, ?_⟩
  · intro k e hk
    obtain ⟨t, t', hbefore, hnext, hafter⟩ := exists_next_of_take hdrain hk
    obtain ⟨_, hline, hlineAfter, _⟩ := lines_of_next hnext
    obtain ⟨hcount, hcount'⟩ := linesOf_take_of_drain hdrain hk
    refine ⟨t, t', hbefore, hnext, hline, hlineAfter, ?_, ?_⟩
    · rw [line_of_take hbefore, LineNumber.map_toNat_advance, ← hcount]
      rfl
    · rw [line_of_take hafter, LineNumber.map_toNat_advance, ← hcount']
      rfl
  · rw [line_of_take hdrain, LineNumber.map_toNat_advance, htokens]
    rfl

/-- A variable that never ends drops a newline, which is not counted. -/
theorem drain_line_numbers_of_dropped :
    ∃ es last e, ∃ t t' : Tokenizer,
      (start .markup "\n\x7b\x7b\n" (some 7)).drain = .ok (es, last) ∧ es[1]? = some e ∧
      e.token = ⟨"\x7b\x7b", ⟨1, 3⟩⟩ ∧ t.next = .ok (some e, t') ∧
      t.line.map UInt32.toNat = some 8 ∧ t'.line.map UInt32.toNat = some 8 ∧
      last.line.map UInt32.toNat = some 8 := by
  obtain ⟨ts, hruns⟩ := drain_line_numbers .markup "\n\x7b\x7b\n"
  obtain ⟨es, last, hdrain, _, htokens, hlines, hlast⟩ := hruns (some 7)
  have hts : es.map Emission.token = [⟨"\n", ⟨0, 1⟩⟩, ⟨"\x7b\x7b", ⟨1, 3⟩⟩] :=
    map_token_eq_of_drain hdrain (by decide +kernel)
  obtain rfl := htokens.symm.trans hts
  obtain ⟨e₀, _, rfl, _, htail⟩ := List.map_eq_cons_iff.mp hts
  obtain ⟨e, _, rfl, he, htail⟩ := List.map_eq_cons_iff.mp htail
  obtain ⟨t, t', _, hnext, _, _, hline, hline'⟩ := hlines 1 e rfl
  rw [he] at hline hline'
  exact ⟨_, last, e, t, t', hdrain, rfl, he, hnext, hline, hline', hlast⟩

end Tokenizer

end LiquidTokens
