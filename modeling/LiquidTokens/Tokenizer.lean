import LiquidTokens.Cursor
import LiquidTokens.Event
import LiquidTokens.Options

/-! Tokenizers: a position and a line number in one of two modes, pulled token by token. A pull never
fails for what a template says: a region that does not close shrinks to its opener, and a report goes
with it. -/
namespace LiquidTokens

/-- What a step finds, where it stops, and what it reports on the way. -/
structure Piece where
  token : Token
  after : Cursor
  reports : List Event
  deriving DecidableEq

namespace Piece

def upTo (start : Nat) (after : Cursor) (reports : List Event) : Checked Piece := do
  let text ← after.sliceFrom start
  let token ← Token.ofSpan text (← Span.between start after.pos)
  pure ⟨token, after, reports⟩

/-- Text takes its first byte whatever it is, and runs to the next start of markup. -/
def text (c : Cursor) : Checked Piece := do
  upTo c.pos (← (← c.advance 1).toMarkup) []

/-- A tag runs through the first closer behind `inside`. Without one it is the two bytes at its
opener, and all that follows is read again. -/
def tag (opener inside : Cursor) : Checked Piece := do
  match ← inside.skipPast? Delimiter.tagClose with
  | some after => upTo opener.pos after []
  | none => upTo opener.pos (← opener.advance 2) [.unterminatedTag opener.pos]

/-- A variable runs to where its walk closes, or becomes a tag where the walk redirects. If the walk
does neither, the opener is all that is kept, and the rest of the source is dropped. -/
def var (opener : Cursor) : Checked Piece := do
  let body ← opener.advance 2
  match ← Variable.scan body.rest with
  | .closed read => upTo opener.pos (← body.advance read) []
  | .redirected read => tag opener (← body.advance read)
  | .unterminated =>
    let dropped := body.rest.length
    let after ← body.advance dropped
    let stop ← Word.add opener.source.length opener.pos 2
    let text ← opener.slice opener.pos stop
    let token ← Token.ofSpan text (← Span.between opener.pos stop)
    pure ⟨token, after, [.unterminatedVariable opener.pos dropped]⟩

def markup (c : Cursor) : Checked Piece := do
  if c.sees Delimiter.tagOpen then tag c (← c.advance 2)
  else if c.sees Delimiter.variableOpen then var c
  else text c

/-- A line without its newline, which is skipped if it is there. -/
def line (c : Cursor) : Checked Piece := do
  let stop ← c.toLineEnd
  let found ← upTo c.pos stop []
  if stop.atEnd then pure found
  else pure { found with after := ← stop.advance 1 }

theorem eq_of_upTo {start : Nat} {after : Cursor} {reports : List Event} {p : Piece}
    (h : upTo start after reports = .ok p) :
    p.token.span = ⟨start, after.pos⟩ ∧ p.after = after ∧ p.reports = reports := by
  obtain ⟨text, _, h⟩ := Checked.bind_eq_ok_iff.mp h
  obtain ⟨span, hspan, h⟩ := Checked.bind_eq_ok_iff.mp h
  obtain ⟨token, htoken, h⟩ := Checked.bind_eq_ok_iff.mp h
  have hp : p = ⟨token, after, reports⟩ := (Except.ok.inj h).symm
  have htok : token = ⟨text, span⟩ := (Token.ofSpan_eq_ok_iff.mp htoken).2.2
  have hsp : span = ⟨start, after.pos⟩ := by
    by_cases hle : start ≤ after.pos
    · rw [Span.between_of_le hle] at hspan
      exact (Except.ok.inj hspan).symm
    · simp [Span.between, hle, throw, throwThe, MonadExceptOf.throw] at hspan
  subst hp htok hsp
  exact ⟨rfl, rfl, rfl⟩

theorem text_eq {c : Cursor} (h : c.pos + 1 ≤ c.source.length) :
    text c = upTo c.pos (c.forward 1).nextMarkup [] := by
  simp only [text, Cursor.advance_of_le h, Cursor.toMarkup_eq, bind, Except.bind]

theorem tag_eq {opener inside : Cursor} (hin : inside.InBounds)
    (hlen : opener.pos + 2 ≤ opener.source.length) :
    tag opener inside =
      match inside.behindNext? Delimiter.tagClose with
      | some after => upTo opener.pos after []
      | none => upTo opener.pos (opener.forward 2) [.unterminatedTag opener.pos] := by
  simp only [tag, Cursor.skipPast?_eq hin, Cursor.advance_of_le hlen, bind, Except.bind]

theorem var_eq {c : Cursor} (h : c.pos + 2 ≤ c.source.length) :
    var c =
      match Variable.ending (c.forward 2).rest with
      | .closed read => upTo c.pos ((c.forward 2).forward read) []
      | .redirected read => tag c ((c.forward 2).forward read)
      | .unterminated => (do
        let text ← c.slice c.pos (c.pos + 2)
        let token ← Token.ofSpan text ⟨c.pos, c.pos + 2⟩
        pure ⟨token, (c.forward 2).toEnd,
          [.unterminatedVariable c.pos (c.forward 2).rest.length]⟩) := by
  have hrest := (c.forward 2).length_rest
  rw [Cursor.pos_forward, Cursor.source_forward] at hrest
  have hread {read : Nat} (hle : read ≤ (c.forward 2).rest.length) :
      (c.forward 2).advance read = .ok ((c.forward 2).forward read) :=
    Cursor.advance_of_le (by simp only [Cursor.pos_forward, Cursor.source_forward]; omega)
  simp only [var, Cursor.advance_of_le h, Variable.scan_eq, bind, Except.bind]
  cases hwalk : Variable.ending (c.forward 2).rest with
  | closed read =>
    have hle := (Variable.read_le_of_walk (Or.inl hwalk)).2
    rw [Nat.zero_add] at hle
    simp only [hread hle]
  | redirected read =>
    have hle := (Variable.read_le_of_walk (Or.inr hwalk)).2
    rw [Nat.zero_add] at hle
    simp only [hread hle]
  | unterminated =>
    have hend : (c.forward 2).forward (c.forward 2).rest.length = (c.forward 2).toEnd := by
      rw [hrest]
      rfl
    simp only [hread (Nat.le_refl _), Word.add_of_le h, Span.between_of_le (Nat.le_add_right _ _),
      hend]

theorem line_eq (c : Cursor) :
    line c = (do
      let found ← upTo c.pos c.nextLineEnd []
      if c.nextLineEnd.atEnd then pure found
      else pure { found with after := ← c.nextLineEnd.advance 1 }) := by
  simp only [line, Cursor.toLineEnd_eq, bind, Except.bind]

structure MovesOn (c : Cursor) (p : Piece) : Prop where
  source_eq : p.after.source = c.source
  pos_lt : c.pos < p.after.pos

theorem movesOn_of_upTo {c after : Cursor} {reports : List Event} {p : Piece}
    (h : upTo c.pos after reports = .ok p) (hs : after.source = c.source) (hlt : c.pos < after.pos) :
    MovesOn c p := by
  obtain ⟨_, rfl, _⟩ := eq_of_upTo h
  exact ⟨hs, hlt⟩

theorem movesOn_of_text {c : Cursor} {p : Piece} (h : text c = .ok p) : MovesOn c p := by
  obtain ⟨d, hd, _⟩ := Checked.bind_eq_ok_iff.mp h
  obtain ⟨n, hn⟩ := (c.forward 1).nextMarkup_eq_forward
  rw [text_eq (Cursor.advance_eq_ok_iff.mp hd).1, hn, Cursor.forward_forward] at h
  exact movesOn_of_upTo h rfl (by simp only [Cursor.pos_forward]; omega)

theorem movesOn_of_tag {c inside : Cursor} {p : Piece} (hin : inside.InBounds)
    (hs : inside.source = c.source) (hle : c.pos + 2 ≤ inside.pos) (h : tag c inside = .ok p) :
    MovesOn c p := by
  have hlen : c.pos + 2 ≤ c.source.length := hs ▸ Nat.le_trans hle hin
  rw [tag_eq hin hlen] at h
  cases hnext : inside.behindNext? Delimiter.tagClose with
  | some after =>
    rw [hnext] at h
    obtain ⟨n, _, rfl⟩ := Option.map_eq_some_iff.mp hnext
    exact movesOn_of_upTo h hs (by simp only [Cursor.pos_forward]; omega)
  | none =>
    rw [hnext] at h
    exact movesOn_of_upTo h rfl (by simp only [Cursor.pos_forward]; omega)

theorem movesOn_of_var {c : Cursor} {p : Piece} (h : var c = .ok p) : MovesOn c p := by
  obtain ⟨d, hd, _⟩ := Checked.bind_eq_ok_iff.mp h
  have hlen := (Cursor.advance_eq_ok_iff.mp hd).1
  have hrest := (c.forward 2).length_rest
  rw [Cursor.pos_forward, Cursor.source_forward] at hrest
  rw [var_eq hlen] at h
  cases hwalk : Variable.ending (c.forward 2).rest with
  | closed read =>
    simp only [hwalk] at h
    exact movesOn_of_upTo h rfl (by simp only [Cursor.pos_forward]; omega)
  | redirected read =>
    have hread := (Variable.read_le_of_walk (Or.inr hwalk)).2
    simp only [hwalk] at h
    have hin : ((c.forward 2).forward read).InBounds := by
      show c.pos + 2 + read ≤ c.source.length
      omega
    exact movesOn_of_tag hin rfl (Nat.le_add_right _ _) h
  | unterminated =>
    simp only [hwalk] at h
    obtain ⟨text, _, h⟩ := Checked.bind_eq_ok_iff.mp h
    obtain ⟨token, _, h⟩ := Checked.bind_eq_ok_iff.mp h
    obtain rfl := Except.ok.inj h
    exact ⟨rfl, by simp only [Cursor.toEnd, Cursor.pos_forward]; omega⟩

theorem movesOn_of_markup {c : Cursor} {p : Piece} (h : markup c = .ok p) : MovesOn c p := by
  unfold markup at h
  split at h
  · obtain ⟨d, hd, h⟩ := Checked.bind_eq_ok_iff.mp h
    obtain ⟨hlen, rfl⟩ := Cursor.advance_eq_ok_iff.mp hd
    have hin : (c.forward 2).InBounds := hlen
    exact movesOn_of_tag hin rfl (Nat.le_refl _) h
  · split at h
    · exact movesOn_of_var h
    · exact movesOn_of_text h

theorem movesOn_of_line {c : Cursor} {p : Piece} (h : line c = .ok p) (he : c.atEnd = false) :
    MovesOn c p := by
  rw [line_eq] at h
  obtain ⟨found, hfound, h⟩ := Checked.bind_eq_ok_iff.mp h
  obtain ⟨n, hn⟩ := c.nextLineEnd_eq_forward
  obtain ⟨_, hafter, _⟩ := eq_of_upTo hfound
  rw [hn] at h hafter
  by_cases hend : (c.forward n).atEnd = true
  · rw [if_pos hend] at h
    obtain rfl := Except.ok.inj h
    simp only [Cursor.atEnd, decide_eq_true_eq, decide_eq_false_iff_not] at hend he
    refine ⟨by rw [hafter]; rfl, ?_⟩
    rw [hafter]
    rw [Cursor.source_forward] at hend
    omega
  · rw [if_neg hend] at h
    obtain ⟨d, hd, h⟩ := Checked.bind_eq_ok_iff.mp h
    obtain ⟨_, rfl⟩ := Cursor.advance_eq_ok_iff.mp hd
    obtain rfl := Except.ok.inj h
    exact ⟨rfl, by simp only [Cursor.pos_forward]; omega⟩

end Piece

structure Tokenizer where
  mode : Mode
  cursor : Cursor
  line : LineNumber
  deriving DecidableEq, Inhabited

/-- A pulled token with the line on which it starts, the line number that follows it, and what was
reported while it was pulled. -/
structure Emission where
  token : Token
  line : LineNumber
  lineAfter : LineNumber
  events : List Event
  deriving DecidableEq

namespace Tokenizer

def start (mode : Mode) (text : String) (line : LineNumber) : Tokenizer :=
  ⟨mode, .start (.ofText text), line⟩

def ofOptions (text : String) (options : Options) : Tokenizer :=
  start options.mode text options.initialLine

/-- The piece under the cursor, and the number of lines that it counts for: its newlines in markup,
and one in line mode, where the newline is no part of it. -/
def piece (t : Tokenizer) : Checked (Piece × Nat) := do
  match t.mode with
  | .markup =>
    let found ← Piece.markup t.cursor
    pure (found, found.token.newlines)
  | .line =>
    let found ← Piece.line t.cursor
    pure (found, 1)

/-- The event that a token raises, last of all. Only in markup it tells the kind, which is read off for
the event. -/
def announce (mode : Mode) (token : Token) (line : LineNumber) : Checked Event :=
  match mode with
  | .markup => return .markupToken (← Kind.scan (utf8 token.text)) token.span line
  | .line => return .lineToken token.span line

def trace (mode : Mode) (token : Token) (line : LineNumber) : Event :=
  match mode with
  | .markup => .markupToken token.kind token.span line
  | .line => .lineToken token.span line

/-- The next token, or nothing at the end of the source, with the state that the call leaves. -/
def next (t : Tokenizer) : Checked (Option Emission × Tokenizer) := do
  if t.cursor.atEnd then return (none, t)
  let (found, lines) ← t.piece
  let lineAfter := t.line.advance lines
  let event ← announce t.mode found.token lineAfter
  return (some ⟨found.token, t.line, lineAfter, found.reports ++ [event]⟩,
    { t with cursor := found.after, line := lineAfter })

def take (t : Tokenizer) : Nat → Checked (List Emission × Tokenizer)
  | 0 => pure ([], t)
  | n + 1 => do
    match ← t.next with
    | (none, t') => pure ([], t')
    | (some e, t') =>
      let (es, last) ← t'.take n
      pure (e :: es, last)

def unread (t : Tokenizer) : Nat :=
  t.cursor.source.length - t.cursor.pos

/-- All tokens that remain. A pull reads at least one byte, so there are no more of them than unread
bytes. -/
def drain (t : Tokenizer) : Checked (List Emission × Tokenizer) :=
  t.take t.unread

def syntaxError (t : Tokenizer) (message : String) : SyntaxError :=
  ⟨message, t.line⟩

theorem announce_eq (mode : Mode) (token : Token) (line : LineNumber) :
    announce mode token line = .ok (trace mode token line) := by
  cases mode with
  | markup =>
    simp only [announce, Kind.scan_eq]
    rfl
  | line => rfl

theorem next_of_atEnd {t : Tokenizer} (h : t.cursor.atEnd = true) : t.next = .ok (none, t) := by
  simp [next, h, pure, Except.pure]

theorem cases_of_piece {t : Tokenizer} {p : Piece} {lines : Nat} (h : t.piece = .ok (p, lines)) :
    (t.mode = .markup ∧ Piece.markup t.cursor = .ok p ∧ lines = p.token.newlines) ∨
      (t.mode = .line ∧ Piece.line t.cursor = .ok p ∧ lines = 1) := by
  unfold piece at h
  cases hm : t.mode with
  | markup =>
    rw [hm] at h
    obtain ⟨q, hq, h⟩ := Checked.bind_eq_ok_iff.mp h
    obtain ⟨rfl, rfl⟩ := Prod.mk.inj (Except.ok.inj h)
    exact Or.inl ⟨rfl, hq, rfl⟩
  | line =>
    rw [hm] at h
    obtain ⟨q, hq, h⟩ := Checked.bind_eq_ok_iff.mp h
    obtain ⟨rfl, rfl⟩ := Prod.mk.inj (Except.ok.inj h)
    exact Or.inr ⟨rfl, hq, rfl⟩

/-- A pull yields a token where it is not at the end and finds a piece, and does nothing else but move
behind the piece and count its lines. -/
theorem next_eq_some_iff {t t' : Tokenizer} {e : Emission} :
    t.next = .ok (some e, t') ↔ t.cursor.atEnd = false ∧ ∃ p lines, t.piece = .ok (p, lines) ∧
      e = ⟨p.token, t.line, t.line.advance lines,
        p.reports ++ [trace t.mode p.token (t.line.advance lines)]⟩ ∧
      t' = { t with cursor := p.after, line := t.line.advance lines } := by
  unfold next
  simp only [announce_eq]
  cases he : t.cursor.atEnd with
  | true => simp [pure, Except.pure]
  | false =>
    rw [if_neg Bool.false_ne_true, Checked.bind_eq_ok_iff]
    constructor
    · rintro ⟨⟨p, lines⟩, hp, h⟩
      obtain ⟨hemission, rfl⟩ := Prod.mk.inj (Except.ok.inj h)
      obtain rfl := Option.some.inj hemission
      exact ⟨rfl, p, lines, hp, rfl, rfl⟩
    · rintro ⟨_, p, lines, hp, rfl, rfl⟩
      exact ⟨(p, lines), hp, rfl⟩

/-- A token leaves fewer bytes to be read. -/
theorem unread_lt_of_next {t t' : Tokenizer} {e : Emission} (h : t.next = .ok (some e, t')) :
    t'.unread < t.unread := by
  obtain ⟨he, p, lines, hpiece, _, rfl⟩ := next_eq_some_iff.mp h
  have hmoves : Piece.MovesOn t.cursor p := by
    rcases cases_of_piece hpiece with ⟨_, hp, _⟩ | ⟨_, hp, _⟩
    · exact Piece.movesOn_of_markup hp
    · exact Piece.movesOn_of_line hp he
  have hlt := hmoves.pos_lt
  simp only [Cursor.atEnd, decide_eq_false_iff_not] at he
  simp only [unread, hmoves.source_eq]
  omega

@[simp] theorem take_zero (t : Tokenizer) : t.take 0 = .ok ([], t) := rfl

end Tokenizer

def tokens (text : String) (options : Options) : Checked (List Emission) :=
  Prod.fst <$> (Tokenizer.ofOptions text options).drain

end LiquidTokens
