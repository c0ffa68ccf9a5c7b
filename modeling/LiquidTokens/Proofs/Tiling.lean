import LiquidTokens.Proofs.Stream

/-! What the tokens of markup cover. They stand side by side from the start of the source, and only
a variable that never ends keeps them from its end. The main statement is `drain_tiles`. -/
namespace LiquidTokens
namespace Markup

open Delimiter

/-- The tokens stand side by side from `start` to `stop`. None is empty, and each holds the bytes of
its span. -/
def Tiles (bytes : List UInt8) (start stop : Nat) : List Token → Prop
  | [] => start = stop
  | t :: rest => t.span.start = start ∧ start < t.span.stop ∧ t.span.stop ≤ bytes.length ∧
    utf8 t.text = (bytes.drop start).take (t.span.stop - start) ∧
      Tiles bytes t.span.stop stop rest

/-- The last token is a lone `{{` at `start`, and the walk over the bytes behind it never ends. -/
def EndsOpen (bytes : List UInt8) (start : Nat) (ts : List Token) : Prop :=
  ∃ t, ts.getLast? = some t ∧ t.span.start = start ∧ utf8 t.text = variableOpen ∧
    Variable.ending (bytes.drop (start + 2)) = .unterminated

def joined (ts : List Token) : List UInt8 :=
  ts.flatMap fun t => utf8 t.text

/-- Where an unterminated variable was reported, and how many bytes it dropped. -/
def drops (events : List Event) : List (Nat × Nat) :=
  events.filterMap fun
    | .unterminatedVariable start dropped => some (start, dropped)
    | _ => none

theorem drops_append (a b : List Event) : drops (a ++ b) = drops a ++ drops b :=
  List.filterMap_append

theorem Tiles.joined_eq {bytes : List UInt8} {start stop : Nat} {ts : List Token}
    (h : Tiles bytes start stop ts) :
    start ≤ stop ∧ joined ts = (bytes.drop start).take (stop - start) := by
  induction ts generalizing start with
  | nil =>
    obtain rfl : start = stop := h
    exact ⟨Nat.le_refl _, by simp [joined]⟩
  | cons t ts ih =>
    obtain ⟨_, hlt, _, htext, hrest⟩ := h
    obtain ⟨hle, hjoined⟩ := ih hrest
    refine ⟨by omega, ?_⟩
    have hsplit : stop - start = (t.span.stop - start) + (stop - t.span.stop) := by omega
    have hdrop : start + (t.span.stop - start) = t.span.stop := by omega
    calc joined (t :: ts) = utf8 t.text ++ joined ts := rfl
      _ = _ := by rw [htext, hjoined, hsplit, List.take_add, List.drop_drop, hdrop]

/-- A lone `{{` in front of a walk that never ends is an unterminated variable, and no other cut. -/
theorem Cuts.exists_loneVar {ahead : List UInt8} {cut : Cut} (h : Cuts ahead cut)
    (htext : ahead.take cut.length = variableOpen)
    (hwalk : Variable.ending (ahead.drop 2) = .unterminated) : ∃ n, cut = .loneVar n := by
  have hopen : variableOpen <+: ahead := htext ▸ List.take_prefix _ _
  have hbody (body : List UInt8) : (variableOpen ++ body).drop 2 = body := rfl
  cases h with
  | tag | loneTag => exact absurd hopen (not_variableOpen_of_tagOpen _)
  | var hclosed =>
    rw [hbody, hclosed] at hwalk
    cases hwalk
  | redirect hredirected | loneRedirect hredirected =>
    rw [hbody, hredirected] at hwalk
    cases hwalk
  | loneVar => exact ⟨_, rfl⟩
  | text _ hvar => exact absurd hopen hvar

theorem Cut.drops_reports (cut : Cut) (pos : Nat) :
    (∃ n, cut = .loneVar n) ∨ cut.passed = cut.length ∧ drops (cut.reports pos) = [] := by
  cases cut with
  | loneVar n => exact Or.inl ⟨n, rfl⟩
  | _ => exact Or.inr ⟨rfl, rfl⟩

theorem drops_emission (pos : Nat) (line : LineNumber) (cut : Cut) (text : String) :
    drops (emission pos line cut text).events = drops (cut.reports pos) := by
  simp [emission, drops, Tokenizer.trace]

theorem endsOpen_cons_iff {bytes : List UInt8} {pos s : Nat} {line : LineNumber} {cut : Cut}
    {text : String} (es : List Emission) (hcut : Cuts (bytes.drop pos) cut)
    (htext : utf8 text = (bytes.drop pos).take cut.length) (hnone : drops (cut.reports pos) = []) :
    EndsOpen bytes s ((emission pos line cut text :: es).map Emission.token) ↔
      EndsOpen bytes s (es.map Emission.token) := by
  cases es with
  | nil =>
    constructor
    · rintro ⟨t, ht, rfl, hopen, hwalk⟩
      obtain rfl : (emission pos line cut text).token = t := Option.some.inj ht
      rw [← List.drop_drop] at hwalk
      obtain ⟨n, rfl⟩ := hcut.exists_loneVar (htext.symm.trans hopen) hwalk
      cases hnone
    · rintro ⟨t, ht, _⟩
      cases ht
  | cons e es => simp only [EndsOpen, List.map_cons, List.getLast?_cons_cons]

theorem Stream.exists_tiles {bytes : List UInt8} {pos : Nat} {line : LineNumber}
    {ahead : List UInt8} {es : List Emission} (h : Stream pos line ahead es)
    (hahead : bytes.drop pos = ahead) (hpos : pos ≤ bytes.length) :
    ∃ stop, Tiles bytes pos stop (es.map Emission.token) ∧
      ((∃ s, EndsOpen bytes s (es.map Emission.token) ∧ stop = s + 2 ∧
          drops (es.flatMap Emission.events) = [(s, bytes.length - stop)]) ∨
        (∀ s, ¬ EndsOpen bytes s (es.map Emission.token)) ∧ stop = bytes.length ∧
          drops (es.flatMap Emission.events) = []) := by
  induction h with
  | @done pos line =>
    have hend : pos = bytes.length := Nat.le_antisymm hpos (List.drop_eq_nil_iff.mp hahead)
    refine ⟨pos, rfl, Or.inr ⟨?_, hend, rfl⟩⟩
    rintro s ⟨t, ht, _⟩
    cases ht
  | @step pos line ahead cut text es hne hcut htext hrest ih =>
    have hbounds := hcut.bounds hne
    have hlen : ahead.length = bytes.length - pos := by rw [← hahead, List.length_drop]
    have hdrop : bytes.drop (pos + cut.passed) = ahead.drop cut.passed := by
      rw [← hahead, List.drop_drop]
    have htext' : utf8 text = (bytes.drop pos).take (pos + cut.length - pos) := by
      rw [htext, hahead, Nat.add_sub_cancel_left]
    obtain ⟨stop, htiles, hcase⟩ := ih hdrop (by omega)
    rcases cut.drops_reports pos with ⟨n, rfl⟩ | ⟨hpassed, hnone⟩
    · -- The run is over, for the cursor has moved to the end.
      obtain rfl := hrest.eq_nil_of_loneVar hcut
      obtain ⟨body, rfl, rfl, hwalk⟩ := hcut.eq_of_loneVar
      have hbehind : bytes.drop (pos + 2) = body := by
        rw [← List.drop_drop, hahead]
        rfl
      have hstop : pos + 2 + body.length = bytes.length := by
        rw [List.length_append, length_variableOpen] at hlen
        omega
      have hdropped : drops ((Cut.loneVar body.length).reports pos) = [(pos, body.length)] := rfl
      have hle : pos + 2 ≤ bytes.length := by omega
      refine ⟨pos + 2, ⟨rfl, Nat.lt_add_of_pos_right Nat.two_pos, hle, htext', rfl⟩,
        Or.inl ⟨pos, ⟨_, rfl, rfl, htext, by rw [hbehind, hwalk]⟩, rfl, ?_⟩⟩
      rw [List.flatMap_singleton, drops_emission, hdropped, ← hstop, Nat.add_sub_cancel_left]
    · rw [hpassed] at htiles
      have hle : pos + cut.length ≤ bytes.length := by omega
      refine ⟨stop, ⟨rfl, Nat.lt_add_of_pos_right hbounds.1, hle, htext', htiles⟩, ?_⟩
      have hdrops : drops ((emission pos line cut text :: es).flatMap Emission.events) =
          drops (es.flatMap Emission.events) := by
        rw [List.flatMap_cons, drops_append, drops_emission, hnone, List.nil_append]
      rw [hdrops]
      subst hahead
      simpa only [endsOpen_cons_iff es hcut htext hnone] using hcase

/-- The tokens of a text cover it, and their bytes in order are the text. If the last of them opens a
variable that never ends, they stop behind that opener, and the one report of an unterminated
variable tells how many bytes are missing. -/
theorem drain_tiles (text : String) (line : LineNumber) :
    ∃ es last stop, (Tokenizer.start .markup text line).drain = .ok (es, last) ∧
      last.next = .ok (none, last) ∧ Tiles (utf8 text) 0 stop (es.map Emission.token) ∧
      ((∃ s, EndsOpen (utf8 text) s (es.map Emission.token) ∧ stop = s + 2 ∧
          joined (es.map Emission.token) = (utf8 text).take (s + 2) ∧
          drops (es.flatMap Emission.events) = [(s, (utf8 text).length - (s + 2))]) ∨
        (∀ s, ¬ EndsOpen (utf8 text) s (es.map Emission.token)) ∧ stop = (utf8 text).length ∧
          joined (es.map Emission.token) = utf8 text ∧
          drops (es.flatMap Emission.events) = []) := by
  obtain ⟨es, last, hdrain, hlast, hstream⟩ := exists_stream text line
  obtain ⟨stop, htiles, hcase⟩ := hstream.exists_tiles List.drop_zero (Nat.zero_le _)
  have hjoined := htiles.joined_eq.2
  rw [List.drop_zero, Nat.sub_zero] at hjoined
  refine ⟨es, last, stop, hdrain, hlast, htiles, ?_⟩
  rcases hcase with ⟨s, hends, rfl, hdrops⟩ | ⟨hends, rfl, hdrops⟩
  · exact Or.inl ⟨s, hends, rfl, hjoined, hdrops⟩
  · exact Or.inr ⟨hends, rfl, by rw [hjoined, List.take_length], hdrops⟩

end Markup
end LiquidTokens
