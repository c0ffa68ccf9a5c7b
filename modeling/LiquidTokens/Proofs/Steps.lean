import Mathlib.Data.List.Chain
import Mathlib.Order.Bounds.Basic
import LiquidTokens.Proofs.Grammar

/-! What one step through markup does, said by the offsets of the source. A step ends at the least offset
where something stands, and the step is the only one that does so. The main statement is
`Markup.next_steps`. -/
namespace LiquidTokens

open Delimiter

namespace Search

variable {α : Type} {p : List α → Bool}

theorem seek_drop_eq_some_iff (hnil : p [] = false) {l : List α} {i n : Nat} :
    seek p 0 (l.drop i) = some n ↔ IsLeast {q | i ≤ q ∧ p (l.drop q) = true} (i + n) := by
  rw [seek_zero_eq_some_iff]
  simp only [List.drop_drop]
  constructor
  · rintro ⟨_, hp, hfirst⟩
    refine ⟨⟨Nat.le_add_right i n, hp⟩, ?_⟩
    rintro q ⟨hiq, hq⟩
    obtain ⟨m, rfl⟩ := Nat.exists_eq_add_of_le hiq
    by_contra hlt
    rw [hfirst m (by omega)] at hq
    cases hq
  · rintro ⟨⟨_, hp⟩, hleast⟩
    refine ⟨?_, hp, fun m hm => ?_⟩
    · rw [List.length_drop]
      by_contra hlt
      rw [List.drop_eq_nil_iff.mpr (by omega), hnil] at hp
      cases hp
    · rw [← Bool.not_eq_true]
      intro hseen
      have hle : i + n ≤ i + m := hleast ⟨Nat.le_add_right i m, hseen⟩
      omega

theorem seek_drop_eq_none_iff (hnil : p [] = false) {l : List α} {i : Nat} :
    seek p 0 (l.drop i) = none ↔ ∀ q, i ≤ q → p (l.drop q) = false := by
  rw [seek_eq_none_iff]
  simp only [List.drop_drop]
  constructor
  · intro hnone q hiq
    obtain ⟨m, rfl⟩ := Nat.exists_eq_add_of_le hiq
    by_cases hm : m ≤ (l.drop i).length
    · exact hnone m hm
    · rw [List.length_drop] at hm
      rw [List.drop_eq_nil_iff.mpr (by omega), hnil]
  · intro hnone m _
    exact hnone (i + m) (Nat.le_add_right i m)

/-- What is made of the least offset if there is one, or of none, is made of what the search finds. -/
theorem seek_drop_elim_iff (hnil : p [] = false) (l : List α) (i : Nat) (f : Nat → Nat)
    (fallback made : Nat) :
    ((∃ q, IsLeast {q | i ≤ q ∧ p (l.drop q) = true} q ∧ made = f q) ∨
        (∀ q, i ≤ q → p (l.drop q) = false) ∧ made = fallback) ↔
      made = (seek p 0 (l.drop i)).elim fallback fun n => f (i + n) := by
  cases hseek : seek p 0 (l.drop i) with
  | some n =>
    have hleast := (seek_drop_eq_some_iff hnil).mp hseek
    constructor
    · rintro (⟨q, hq, rfl⟩ | ⟨hnone, _⟩)
      · rw [hq.unique hleast, Option.elim_some]
      · cases hleast.1.2.symm.trans (hnone _ hleast.1.1)
    · intro hmade
      exact Or.inl ⟨_, hleast, hmade⟩
  | none =>
    have hnone := (seek_drop_eq_none_iff hnil).mp hseek
    constructor
    · rintro (⟨q, hq, _⟩ | ⟨_, hmade⟩)
      · cases hq.1.2.symm.trans (hnone q hq.1.1)
      · exact hmade
    · intro hmade
      exact Or.inr ⟨hnone, hmade⟩

end Search

namespace Markup

/-- An open brace stands at the offset, with a brace or a percent sign behind it. -/
def OpensAt (bytes : List UInt8) (i : Nat) : Prop :=
  bytes[i]? = some openBrace ∧ (bytes[i + 1]? = some openBrace ∨
    bytes[i + 1]? = some percent ∨ bytes[i + 1]? = some closeBrace)

def TagClosesAt (bytes : List UInt8) (i : Nat) : Prop :=
  tagClose <+: bytes.drop i

/-- Text that starts at `start` stops at the next place where something opens, or at the end. -/
def TextStops (bytes : List UInt8) (start stop : Nat) : Prop :=
  IsLeast {i | start < i ∧ OpensAt bytes i} stop ∨
    (∀ i, start < i → ¬ OpensAt bytes i) ∧ stop = bytes.length

/-- A tag that starts at `start` stops behind the first closer from `inside` on. Without one it is an
opener. -/
def TagStops (bytes : List UInt8) (start inside stop : Nat) : Prop :=
  (∃ q, IsLeast {q | inside ≤ q ∧ TagClosesAt bytes q} q ∧ stop = q + 2) ∨
    (∀ q, inside ≤ q → ¬ TagClosesAt bytes q) ∧ stop = start + 2

/-- What a step does that begins at `start`: the token goes up to `stop`, and reading goes on from
`after`. -/
inductive Steps (bytes : List UInt8) (start : Nat) : (stop after : Nat) → Prop
  | text {stop : Nat} (htag : ¬ tagOpen <+: bytes.drop start)
    (hvar : ¬ variableOpen <+: bytes.drop start) (hstop : TextStops bytes start stop) :
    Steps bytes start stop stop
  | tag {stop : Nat} (hopen : tagOpen <+: bytes.drop start)
    (hstop : TagStops bytes start (start + 2) stop) : Steps bytes start stop stop
  | closed {n : Nat} (hopen : variableOpen <+: bytes.drop start)
    (hwalk : Variable.ending (bytes.drop (start + 2)) = .closed n) :
    Steps bytes start (start + 2 + n) (start + 2 + n)
  | redirected {n stop : Nat} (hopen : variableOpen <+: bytes.drop start)
    (hwalk : Variable.ending (bytes.drop (start + 2)) = .redirected n)
    (hstop : TagStops bytes start (start + 2 + n) stop) : Steps bytes start stop stop
  | unterminated (hopen : variableOpen <+: bytes.drop start)
    (hwalk : Variable.ending (bytes.drop (start + 2)) = .unterminated) :
    Steps bytes start (start + 2) bytes.length

theorem startsMarkup_drop_iff {bytes : List UInt8} {i : Nat} :
    startsMarkup (bytes.drop i) = true ↔ OpensAt bytes i := by
  have hget (j : Nat) : bytes[i + j]? = (bytes.drop i)[j]? := List.getElem?_drop.symm
  rw [OpensAt, hget 1, ← Nat.add_zero i, hget 0, Nat.add_zero]
  generalize bytes.drop i = ahead
  cases ahead with
  | nil => simp
  | cons a ahead =>
    cases ahead with
    | nil => simp
    | cons b ahead => simp [or_assoc]

theorem textStops_iff {bytes : List UInt8} {start stop : Nat} (h : start < bytes.length) :
    TextStops bytes start stop ↔ stop = start + 1 + plain (bytes.drop (start + 1)) := by
  have hsearch := Search.seek_drop_elim_iff (p := startsMarkup) rfl bytes (start + 1) id
    bytes.length stop
  simp only [id, exists_eq_right', ← Bool.not_eq_true, startsMarkup_drop_iff] at hsearch
  have hend : start + 1 + (bytes.drop (start + 1)).length = bytes.length := by
    rw [List.length_drop]
    omega
  refine hsearch.trans ?_
  rw [plain]
  cases Search.seek startsMarkup 0 (bytes.drop (start + 1)) with
  | some n => exact Iff.rfl
  | none => rw [Option.elim_none, Option.getD_none, hend]

theorem isPrefixOf_drop_iff {bytes : List UInt8} {q : Nat} :
    tagClose.isPrefixOf (bytes.drop q) = true ↔ TagClosesAt bytes q :=
  List.isPrefixOf_iff_prefix

theorem tagStops_iff {bytes : List UInt8} {start inside stop : Nat} :
    TagStops bytes start inside stop ↔
      stop = (closing (bytes.drop inside)).elim (start + 2) (inside + ·) := by
  have hsearch := Search.seek_drop_elim_iff (p := tagClose.isPrefixOf) rfl bytes inside (· + 2)
    (start + 2) stop
  simp only [← Bool.not_eq_true, isPrefixOf_drop_iff] at hsearch
  refine hsearch.trans ?_
  rw [closing]
  cases Search.seek tagClose.isPrefixOf 0 (bytes.drop inside) with
  | some n => rw [Option.map_some, Option.elim_some, Option.elim_some, length_tagClose, Nat.add_assoc]
  | none => exact Iff.rfl

theorem exists_cut_of_tagStops {bytes : List UInt8} {start k stop : Nat} (lone : Cut)
    (hstop : TagStops bytes start (start + k) stop) (hlength : lone.length = 2)
    (hpassed : lone.passed = 2)
    (hclosed : ∀ n, closing (bytes.drop (start + k)) = some n →
      Cuts (bytes.drop start) (.tag (k + n)))
    (hopen : closing (bytes.drop (start + k)) = none → Cuts (bytes.drop start) lone) :
    ∃ cut, Cuts (bytes.drop start) cut ∧ stop = start + cut.length ∧ stop = start + cut.passed := by
  rw [tagStops_iff] at hstop
  cases hclose : closing (bytes.drop (start + k)) with
  | some n =>
    rw [hclose, Option.elim_some, Nat.add_assoc] at hstop
    exact ⟨_, hclosed n hclose, hstop, hstop⟩
  | none =>
    rw [hclose, Option.elim_none] at hstop
    exact ⟨lone, hopen hclose, by rw [hlength, hstop], by rw [hpassed, hstop]⟩

theorem Steps.exists_cut {bytes : List UInt8} {start stop after : Nat}
    (h : Steps bytes start stop after) (hlt : start < bytes.length) :
    ∃ cut, Cuts (bytes.drop start) cut ∧ stop = start + cut.length ∧
      after = start + cut.passed := by
  have hdrop : bytes.drop (start + 2) = (bytes.drop start).drop 2 := by rw [List.drop_drop]
  cases h with
  | text htag hvar hstop =>
    rw [textStops_iff hlt, ← List.drop_drop, Nat.add_assoc] at hstop
    exact ⟨_, .text htag hvar, hstop, hstop⟩
  | tag hopen hstop =>
    obtain ⟨inside, hinside⟩ := hopen
    rw [← hinside] at hdrop
    refine exists_cut_of_tagStops .loneTag hstop rfl rfl (fun n hclose => ?_)
      (fun hnone => ?_)
    · rw [hdrop] at hclose
      exact hinside ▸ .tag hclose
    · rw [hdrop] at hnone
      exact hinside ▸ .loneTag hnone
  | @closed n hopen hwalk =>
    obtain ⟨body, hbody⟩ := hopen
    rw [hdrop, ← hbody] at hwalk
    exact ⟨.var (2 + n), hbody ▸ .var hwalk, Nat.add_assoc .., Nat.add_assoc ..⟩
  | @redirected n _ hopen hwalk hstop =>
    obtain ⟨body, hbody⟩ := hopen
    rw [← hbody] at hdrop
    have hbehind : bytes.drop (start + (2 + n)) = body.drop n := by
      rw [← Nat.add_assoc, ← List.drop_drop, hdrop]
      rfl
    rw [hdrop] at hwalk
    rw [Nat.add_assoc] at hstop
    refine exists_cut_of_tagStops .loneRedirect hstop rfl rfl (fun m hclose => ?_)
      (fun hnone => ?_)
    · rw [hbehind] at hclose
      exact hbody ▸ .redirect hwalk hclose
    · rw [hbehind] at hnone
      exact hbody ▸ .loneRedirect hwalk hnone
  | unterminated hopen hwalk =>
    obtain ⟨body, hbody⟩ := hopen
    have hlen := congrArg List.length hbody
    rw [List.length_append, length_variableOpen, List.length_drop] at hlen
    rw [hdrop, ← hbody] at hwalk
    refine ⟨.loneVar body.length, hbody ▸ .loneVar hwalk, rfl, ?_⟩
    show bytes.length = start + (2 + body.length)
    omega

theorem Cuts.steps {bytes : List UInt8} {start : Nat} {cut : Cut}
    (h : Cuts (bytes.drop start) cut) (hlt : start < bytes.length) :
    Steps bytes start (start + cut.length) (start + cut.passed) := by
  have hdrop : bytes.drop (start + 2) = (bytes.drop start).drop 2 := by rw [List.drop_drop]
  have hbehind (n : Nat) : bytes.drop (start + 2 + n) = ((bytes.drop start).drop 2).drop n := by
    rw [List.drop_drop, List.drop_drop, Nat.add_assoc]
  have hlen := List.length_drop (l := bytes) (i := start)
  have htext : TextStops bytes start (start + (1 + plain ((bytes.drop start).drop 1))) := by
    rw [textStops_iff hlt, List.drop_drop, Nat.add_assoc]
  generalize hahead : bytes.drop start = ahead at h hdrop hbehind hlen htext
  cases h with
  | @tag inside n hclose =>
    refine .tag ⟨inside, hahead.symm⟩ (tagStops_iff.mpr ?_)
    rw [hdrop]
    show start + (2 + n) = (closing inside).elim (start + 2) (start + 2 + ·)
    rw [hclose, Option.elim_some, Nat.add_assoc]
  | @loneTag inside hnone =>
    refine .tag ⟨inside, hahead.symm⟩ (tagStops_iff.mpr ?_)
    rw [hdrop]
    show start + 2 = (closing inside).elim (start + 2) (start + 2 + ·)
    rw [hnone, Option.elim_none]
  | @var body n hwalk =>
    have hsteps := Steps.closed ⟨body, hahead.symm⟩ (n := n) (by rw [hdrop]; exact hwalk)
    rwa [Nat.add_assoc] at hsteps
  | @redirect body n m hwalk hclose =>
    refine .redirected (n := n) ⟨body, hahead.symm⟩ (by rw [hdrop]; exact hwalk) (tagStops_iff.mpr ?_)
    rw [hbehind]
    show start + (2 + n + m) = (closing (body.drop n)).elim (start + 2) (start + 2 + n + ·)
    rw [hclose, Option.elim_some, Nat.add_assoc, Nat.add_assoc, Nat.add_assoc]
  | @loneRedirect body n hwalk hnone =>
    refine .redirected (n := n) ⟨body, hahead.symm⟩ (by rw [hdrop]; exact hwalk) (tagStops_iff.mpr ?_)
    rw [hbehind]
    show start + 2 = (closing (body.drop n)).elim (start + 2) (start + 2 + n + ·)
    rw [hnone, Option.elim_none]
  | @loneVar body hwalk =>
    have hend : bytes.length = start + (2 + body.length) := by
      rw [List.length_append, length_variableOpen] at hlen
      omega
    have hsteps := Steps.unterminated ⟨body, hahead.symm⟩ (by rw [hdrop]; exact hwalk)
    rwa [hend] at hsteps
  | text htag hvar => exact .text (hahead ▸ htag) (hahead ▸ hvar) htext

/-- There is one step from an offset, and it is the one that the bytes ahead call for. -/
theorem Cuts.steps_iff {bytes : List UInt8} {start stop after : Nat} {cut : Cut}
    (h : Cuts (bytes.drop start) cut) (hlt : start < bytes.length) :
    Steps bytes start stop after ↔ stop = start + cut.length ∧ after = start + cut.passed := by
  constructor
  · intro hsteps
    obtain ⟨cut', hcut', hstop, hafter⟩ := hsteps.exists_cut hlt
    obtain rfl := h.unique hcut'
    exact ⟨hstop, hafter⟩
  · rintro ⟨rfl, rfl⟩
    exact h.steps hlt

/-! ### Text behind text -/

theorem Shape.Admits.opener_free {bytes : List UInt8} (h : Shape.text.Admits bytes) :
    ¬ tagOpen <:+: bytes ∧ ¬ variableOpen <:+: bytes := by
  obtain ⟨_, htag, hvar, hfree⟩ := h
  have hnone (opener : List UInt8) (hstart : ∀ rest, startsMarkup (opener ++ rest) = true)
      (hfirst : ¬ opener <+: bytes) : ¬ opener <:+: bytes := by
    rintro ⟨before, behind, hbytes⟩
    cases before with
    | nil => exact hfirst ⟨behind, hbytes⟩
    | cons b before =>
      have hnot := hfree (b :: before).length (Nat.le_add_left 1 _)
      rw [← hbytes, List.append_assoc, List.drop_left, hstart] at hnot
      cases hnot
  exact ⟨hnone tagOpen (fun _ => rfl) htag, hnone variableOpen (fun _ => rfl) hvar⟩

theorem Cuts.exists_text_of_kind {ahead bytes : List UInt8} {cut : Cut} (h : Cuts ahead cut)
    (hne : ahead ≠ []) (hbytes : bytes = ahead.take cut.length)
    (hkind : Kind.ofBytes bytes = .text) :
    Shape.text.Admits bytes ∧ Stops bytes (ahead.drop cut.passed) ∧
      bytes ++ ahead.drop cut.passed = ahead := by
  obtain ⟨hlen, hsplit⟩ := h.eq_append hne hbytes
  have hcut := h
  rw [← hsplit] at hcut
  rcases hcut.exists_shape hlen with ⟨rfl, _⟩ | ⟨rfl, _⟩ | ⟨shape, rfl, hadmits, hstop⟩
  · cases hkind
  · cases hkind
  · rw [Shape.length_cut] at hsplit hstop
    rw [hadmits.kind_eq] at hkind
    cases shape with
    | text => exact ⟨hadmits, hstop rfl, hsplit⟩
    | tag | var | redirect => cases hkind

theorem Stream.opener_free_of_text {pos : Nat} {line : LineNumber} {ahead : List UInt8}
    {es : List Emission} (h : Stream pos line ahead es) :
    ∀ e ∈ es, e.token.kind = .text →
      ¬ tagOpen <:+: utf8 e.token.text ∧ ¬ variableOpen <:+: utf8 e.token.text := by
  intro e he hkind
  obtain ⟨k, cut, _, hne, hcut, htext⟩ := h.exists_cut he
  exact (hcut.exists_text_of_kind hne htext hkind).1.opener_free

/-- Text behind text starts with empty braces, for what stopped the first is no opener. -/
theorem Stream.isChain_text {pos : Nat} {line : LineNumber} {ahead : List UInt8}
    {es : List Emission} (h : Stream pos line ahead es) :
    es.IsChain fun e f => e.token.kind = .text → f.token.kind = .text →
      emptyBraces <+: utf8 f.token.text := by
  induction h with
  | done => exact .nil
  | @step pos line ahead cut text es hne hcut htext hrest ih =>
    generalize hbehind : ahead.drop cut.passed = behind at hrest
    cases hrest with
    | done => exact .singleton _
    | @step _ _ _ cut' text' es' hne' hcut' htext' _ =>
      refine .cons_cons (fun hkind hkind' => ?_) ih
      have hstop := (hcut.exists_text_of_kind hne htext hkind).2.1
      rw [hbehind] at hstop
      obtain ⟨hadmits, hstop', hsplit⟩ := hcut'.exists_text_of_kind hne' htext' hkind'
      have hstart := (hstop.resolve_left hne').1
      rw [← hsplit] at hstart
      exact hadmits.emptyBraces_of_startsMarkup hstop' hstart

/-- From any place between two characters where bytes are left, there is one step, and the next token and
the place behind it are those of the step. Over the whole run, text follows text only if it starts with
empty braces, and no opener lies in text. -/
theorem next_steps {t : Tokenizer} (hm : t.mode = .markup) (hb : t.cursor.OnBoundary) :
    (t.cursor.pos < t.cursor.source.length → ∃ e t', t.next = .ok (some e, t') ∧
      (∀ stop after, Steps t.cursor.source.bytes t.cursor.pos stop after ↔
        stop = e.token.span.stop ∧ after = t'.cursor.pos) ∧
      e.token.span.start = t.cursor.pos ∧ t'.cursor.source = t.cursor.source ∧
      utf8 e.token.text = (t.cursor.source.bytes.drop e.token.span.start).take
        (e.token.span.stop - e.token.span.start)) ∧
    ∃ es last, t.drain = .ok (es, last) ∧ last.next = .ok (none, last) ∧
      (∀ (i : Nat) (e f : Emission), es[i]? = some e → es[i + 1]? = some f →
        e.token.kind = .text → f.token.kind = .text → emptyBraces <+: utf8 f.token.text) ∧
      ∀ e ∈ es, e.token.kind = .text →
        ¬ tagOpen <:+: utf8 e.token.text ∧ ¬ variableOpen <:+: utf8 e.token.text := by
  constructor
  · intro hlt
    have he : t.cursor.atEnd = false := by
      simpa [Cursor.atEnd] using hlt
    obtain ⟨cut, text, t', hcut, htext, hnext, _, hcursor, _, _⟩ :=
      Tokenizer.exists_next_markup hm hb he
    rw [t.cursor.rest_eq] at hcut htext
    rw [← Source.length_bytes] at hlt
    refine ⟨_, t', hnext, fun stop after => ?_, rfl, by rw [hcursor]; rfl, ?_⟩
    · rw [hcut.steps_iff hlt, hcursor]
      rfl
    · show utf8 text = (t.cursor.source.bytes.drop t.cursor.pos).take
        (t.cursor.pos + cut.length - t.cursor.pos)
      rw [htext, Nat.add_sub_cancel_left]
  · obtain ⟨es, last, hdrain, hlast, hs⟩ :=
      Tokenizer.exists_take_markup hm hb (Nat.le_refl t.unread)
    refine ⟨es, last, hdrain, hlast, fun i e f he hf => ?_, hs.opener_free_of_text⟩
    obtain ⟨_, rfl⟩ := List.getElem?_eq_some_iff.mp he
    obtain ⟨hi, rfl⟩ := List.getElem?_eq_some_iff.mp hf
    exact List.isChain_iff_getElem.mp hs.isChain_text i hi

/-- Behind a character of two bytes a variable turns into a tag, which passes over the closer in front of
its redirect. Two texts follow. -/
theorem next_steps_behind_redirect : ∃ t : Tokenizer, t.mode = .markup ∧ t.cursor.OnBoundary ∧
    t.cursor.source.text = "é\x7b\x7b%\x7d\x7b%%\x7da%\x7d\x7b\x7d" ∧ t.cursor.pos = 2 ∧
    (∃ e t', t.next = .ok (some e, t') ∧ e.token.span.stop = 10 ∧ t'.cursor.pos = 10) ∧
    ∃ es last e f, t.drain = .ok (es, last) ∧ es[1]? = some e ∧ es[2]? = some f ∧
      e.token.kind = .text ∧ f.token.kind = .text ∧ emptyBraces <+: utf8 f.token.text ∧
      ¬ variableOpen <:+: utf8 f.token.text := by
  let t : Tokenizer := ⟨.markup, (Cursor.start (.ofText
    "é\x7b\x7b%\x7d\x7b%%\x7da%\x7d\x7b\x7d")).forward 2, none⟩
  have hb : t.cursor.OnBoundary := by
    show Source.OnBoundary _ _
    decide
  obtain ⟨hnext, es, last, hdrain, _, hchain, hfree⟩ := next_steps (t := t) rfl hb
  obtain ⟨e₀, t', hnext, hsteps, _⟩ := hnext (by decide)
  have hstop : TagStops t.cursor.source.bytes 2 (2 + 2 + 4) 10 := by
    refine Or.inl ⟨8, ⟨⟨Nat.le_refl 8, ?_⟩, fun q hq => hq.1⟩, rfl⟩
    show tagClose <+: _
    decide
  obtain ⟨hstop, hafter⟩ := (hsteps 10 10).mp (.redirected (n := 4) (by decide) (by decide) hstop)
  have htokens : es.map Emission.token = [⟨"\x7b\x7b%\x7d\x7b%%\x7d", ⟨2, 10⟩⟩,
      ⟨"a%\x7d", ⟨10, 13⟩⟩, ⟨"\x7b\x7d", ⟨13, 15⟩⟩] :=
    Tokenizer.map_token_eq_of_drain hdrain (by decide +kernel)
  obtain ⟨e, he, heq⟩ := Tokenizer.exists_of_map_token_eq htokens (i := 1) rfl
  obtain ⟨f, hf, hfeq⟩ := Tokenizer.exists_of_map_token_eq htokens (i := 2) rfl
  have hkind : e.token.kind = .text := by
    rw [heq]
    rfl
  have hkind' : f.token.kind = .text := by
    rw [hfeq]
    rfl
  exact ⟨t, rfl, hb, rfl, rfl, ⟨e₀, t', hnext, hstop.symm, hafter.symm⟩, es, last, e, f, hdrain,
    he, hf, hkind, hkind', hchain 1 e f he hf hkind hkind',
    (hfree f (List.mem_of_getElem? hf) hkind').2⟩

end Markup
end LiquidTokens
