import LiquidTokens.Search
import LiquidTokens.Source
import LiquidTokens.Token

/-! A reading position in a source. Movement is checked, searches are leftmost, and a position inside
a character is allowed as long as nothing is cut there. -/
namespace LiquidTokens

/-- A source with a byte offset into it, and the bytes from there on. -/
structure Cursor where
  source : Source
  pos : Nat
  rest : List UInt8
  rest_eq : rest = source.bytes.drop pos

namespace Cursor

def start (source : Source) : Cursor := ⟨source, 0, source.bytes, rfl⟩

instance : Inhabited Cursor := ⟨start default⟩

/-- The bytes ahead are no choice of their own. -/
theorem ext_pos {c d : Cursor} (hs : c.source = d.source) (hp : c.pos = d.pos) : c = d := by
  obtain ⟨s, p, r, hr⟩ := c
  obtain ⟨s', p', r', hr'⟩ := d
  obtain rfl : s = s' := hs
  obtain rfl : p = p' := hp
  subst hr hr'
  rfl

instance : DecidableEq Cursor := fun c d =>
  decidable_of_iff (c.source = d.source ∧ c.pos = d.pos)
    ⟨fun h => ext_pos h.1 h.2, fun h => h ▸ ⟨rfl, rfl⟩⟩

def forward (c : Cursor) (n : Nat) : Cursor :=
  ⟨c.source, c.pos + n, c.rest.drop n, by rw [c.rest_eq, List.drop_drop]⟩

def atEnd (c : Cursor) : Bool :=
  c.source.length ≤ c.pos

def sees (c : Cursor) (needle : List UInt8) : Bool :=
  needle.isPrefixOf c.rest

/-- The cursor `n` bytes on, as long as its offset is a word. -/
def moved (c : Cursor) (n : Nat) : Checked Cursor := do
  let _ ← Word.add c.source.length c.pos n
  pure (c.forward n)

/-- Move over `n` bytes, all of which must be there. The sum is checked before the end. -/
def advance (c : Cursor) (n : Nat) : Checked Cursor := do
  let target ← Word.add c.source.length c.pos n
  if target ≤ c.source.length then pure (c.forward n)
  else throw (.advancePastEnd target c.source.length)

def toEnd (c : Cursor) : Cursor :=
  c.forward (c.source.length - c.pos)

/-- The byte so far ahead, and zero where the source has ended. -/
def byteAhead (c : Cursor) (n : Nat) : UInt8 :=
  c.rest[n]?.getD 0

def skipPastBy? (find : Finder) (c : Cursor) (needle : List UInt8) : Checked (Option Cursor) :=
  match find.needle? needle c.rest with
  | none => pure none
  | some n => do
    let passed ← Word.add c.source.length n needle.length
    some <$> c.moved passed

/-- Hop from brace to brace, onto the first one that stands before `{`, `%` or `}`, if there is one. -/
def toMarkupBy? (find : Finder) (c : Cursor) : Checked (Option Cursor) :=
  match _h : find.byte? Delimiter.openBrace c.rest with
  | none => pure none
  | some n => do
    let brace ← c.moved n
    let _ ← brace.moved 1
    if Delimiter.marksBrace (brace.byteAhead 1) then pure (some brace)
    else (c.forward (n + 1)).toMarkupBy? find
termination_by c.rest.length
decreasing_by
  have := find.byte?_lt _h
  simp only [forward, List.length_drop]
  omega

def toLineEndBy (find : Finder) (c : Cursor) : Checked Cursor :=
  match find.byte? Delimiter.newline c.rest with
  | none => pure c.toEnd
  | some n => c.moved n

def skipPast? (c : Cursor) (needle : List UInt8) : Checked (Option Cursor) :=
  c.skipPastBy? .scan needle

def toMarkup? (c : Cursor) : Checked (Option Cursor) :=
  c.toMarkupBy? .scan

def toMarkup (c : Cursor) : Checked Cursor := do
  pure ((← c.toMarkup?).getD c.toEnd)

def toLineEnd (c : Cursor) : Checked Cursor :=
  c.toLineEndBy .scan

def slice (c : Cursor) (start stop : Nat) : Checked String :=
  c.source.slice start stop

def sliceFrom (c : Cursor) (start : Nat) : Checked String :=
  c.slice start c.pos

def InBounds (c : Cursor) : Prop :=
  c.pos ≤ c.source.length

@[simp] theorem source_start (s : Source) : (start s).source = s := rfl

@[simp] theorem pos_start (s : Source) : (start s).pos = 0 := rfl

@[simp] theorem rest_start (s : Source) : (start s).rest = s.bytes := rfl

@[simp] theorem source_forward (c : Cursor) (n : Nat) : (c.forward n).source = c.source := rfl

@[simp] theorem pos_forward (c : Cursor) (n : Nat) : (c.forward n).pos = c.pos + n := rfl

@[simp] theorem rest_forward (c : Cursor) (n : Nat) : (c.forward n).rest = c.rest.drop n := rfl

@[simp] theorem forward_zero (c : Cursor) : c.forward 0 = c := ext_pos rfl rfl

theorem forward_forward (c : Cursor) (m n : Nat) :
    (c.forward m).forward n = c.forward (m + n) :=
  ext_pos rfl (Nat.add_assoc ..)

@[simp] theorem length_rest (c : Cursor) : c.rest.length = c.source.length - c.pos := by
  simp [c.rest_eq]

theorem rest_eq_nil_iff {c : Cursor} : c.rest = [] ↔ c.atEnd = true := by
  rw [← List.length_eq_zero_iff, length_rest, atEnd, decide_eq_true_eq]
  omega

theorem inBounds_start (s : Source) : (start s).InBounds := Nat.zero_le _

theorem atEnd_iff {c : Cursor} (h : c.InBounds) : c.atEnd = true ↔ c.pos = c.source.length := by
  simp only [atEnd, InBounds, decide_eq_true_eq] at *
  omega

theorem pos_toEnd {c : Cursor} (h : c.InBounds) : c.toEnd.pos = c.source.length :=
  Nat.add_sub_cancel' h

theorem advance_of_le {c : Cursor} {n : Nat} (h : c.pos + n ≤ c.source.length) :
    c.advance n = .ok (c.forward n) := by
  simp only [advance, Word.add_of_le h, bind, Except.bind, if_pos h]
  rfl

theorem advance_of_lt {c : Cursor} {n : Nat} (h : c.source.length < c.pos + n) :
    c.advance n = .error (if c.pos + n < UInt64.size then
      .advancePastEnd (c.pos + n) c.source.length else .additionOverflow) := by
  simp only [advance, Word.add_of_lt h]
  by_cases hw : c.pos + n < UInt64.size
  · simp only [if_pos hw, bind, Except.bind, if_neg (Nat.not_le_of_lt h)]
    rfl
  · simp only [if_neg hw, bind, Except.bind]

theorem advance_eq_ok_iff {c d : Cursor} {n : Nat} :
    c.advance n = .ok d ↔ c.pos + n ≤ c.source.length ∧ d = c.forward n := by
  by_cases h : c.pos + n ≤ c.source.length
  · simp [advance_of_le h, h, eq_comm]
  · simp [advance_of_lt (Nat.lt_of_not_le h), h]

theorem advance_eq_error_iff {c : Cursor} {n : Nat} {f : Fault} :
    c.advance n = .error f ↔ c.source.length < c.pos + n ∧
      f = if c.pos + n < UInt64.size then .advancePastEnd (c.pos + n) c.source.length
        else .additionOverflow := by
  by_cases h : c.pos + n ≤ c.source.length
  · simp [advance_of_le h, Nat.not_lt.mpr h]
  · simp [advance_of_lt (Nat.lt_of_not_le h), Nat.lt_of_not_le h, eq_comm]

theorem moved_of_le {c : Cursor} {n : Nat} (h : c.pos + n ≤ c.source.length) :
    c.moved n = .ok (c.forward n) := by
  simp only [moved, Word.add_of_le h]
  rfl

theorem pos_add_lt {c : Cursor} {n : Nat} (h : n < c.rest.length) : c.pos + n < c.source.length := by
  rw [length_rest] at h
  omega

/-! Where the searches lead, by one question asked of every suffix of the bytes ahead. -/

def behindNext? (c : Cursor) (needle : List UInt8) : Option Cursor :=
  (Search.seek needle.isPrefixOf 0 c.rest).map fun n => c.forward (n + needle.length)

def nextMarkup? (c : Cursor) : Option Cursor :=
  (Search.seek Delimiter.startsMarkup 0 c.rest).map c.forward

def nextMarkup (c : Cursor) : Cursor :=
  c.nextMarkup?.getD c.toEnd

def nextLineEnd (c : Cursor) : Cursor :=
  ((Search.seek Delimiter.startsNewline 0 c.rest).map c.forward).getD c.toEnd

theorem skipPastBy?_eq (find : Finder) {c : Cursor} (h : c.InBounds) (needle : List UInt8) :
    c.skipPastBy? find needle =
      .ok ((find.needle? needle c.rest).map fun n => c.forward (n + needle.length)) := by
  unfold skipPastBy?
  cases hfound : find.needle? needle c.rest with
  | none => rfl
  | some n =>
    obtain ⟨hle, hprefix, _⟩ := find.needle?_eq_some_iff.mp hfound
    have hlen := hprefix.length_le
    have hpos : c.pos ≤ c.source.length := h
    rw [List.length_drop] at hlen
    rw [length_rest] at hle hlen
    simp only [Word.add_of_le (show n + needle.length ≤ c.source.length by omega),
      moved_of_le (show c.pos + (n + needle.length) ≤ c.source.length by omega), bind, Except.bind]
    rfl

theorem skipPast?_eq {c : Cursor} (h : c.InBounds) (needle : List UInt8) :
    c.skipPast? needle = .ok (c.behindNext? needle) :=
  skipPastBy?_eq .scan h needle

theorem startsMarkup_rest_forward {c : Cursor} {n : Nat}
    (h : c.rest[n]? = some Delimiter.openBrace) :
    Delimiter.startsMarkup (c.rest.drop n) = Delimiter.marksBrace ((c.forward n).byteAhead 1) := by
  obtain ⟨hlt, hbrace⟩ := List.getElem?_eq_some_iff.mp h
  rw [List.drop_eq_getElem_cons hlt, hbrace, Delimiter.startsMarkup_openBrace_eq, byteAhead,
    rest_forward, List.getElem?_drop, List.getElem?_drop]

theorem startsMarkup_drop_eq_false {bytes : List UInt8} {n : Nat}
    (h : bytes[n]? ≠ some Delimiter.openBrace) :
    Delimiter.startsMarkup (bytes.drop n) = false := by
  rw [← Bool.not_eq_true, Delimiter.startsMarkup_iff]
  rintro ⟨b, behind, hdrop, _⟩
  rw [← List.head?_drop, hdrop] at h
  exact h rfl

/-- The hops pass over no start of markup. -/
theorem toMarkupBy?_eq (find : Finder) (c : Cursor) :
    c.toMarkupBy? find = .ok c.nextMarkup? := by
  rw [nextMarkup?]
  fun_induction toMarkupBy? find c with
  | case1 c hnone =>
    have hseek : Search.seek Delimiter.startsMarkup 0 c.rest = none :=
      (Search.seek_eq_none_iff 0 _).mpr fun n _ =>
        startsMarkup_drop_eq_false (find.getElem?_ne_of_byte?_eq_none hnone n)
    rw [hseek]
    rfl
  | case2 c n hsome ih =>
    have hlt := pos_add_lt (find.byte?_lt hsome)
    obtain ⟨hbrace, hfirst⟩ := find.byte?_eq_some_iff.mp hsome
    simp only [moved_of_le (Nat.le_of_lt hlt),
      moved_of_le (show (c.forward n).pos + 1 ≤ (c.forward n).source.length from hlt), bind,
      Except.bind]
    by_cases hmarks : Delimiter.marksBrace ((c.forward n).byteAhead 1)
    · have hseek : Search.seek Delimiter.startsMarkup 0 c.rest = some n :=
        Search.seek_zero_eq_some_iff.mpr ⟨Nat.le_of_lt (find.byte?_lt hsome),
          (startsMarkup_rest_forward hbrace).trans hmarks,
          fun m hm => startsMarkup_drop_eq_false (hfirst m hm)⟩
      rw [if_pos hmarks, hseek]
      rfl
    · have hpassed : ∀ m < n + 1, Delimiter.startsMarkup (c.rest.drop m) = false := by
        intro m hm
        rcases Nat.lt_succ_iff_lt_or_eq.mp hm with hm | rfl
        · exact startsMarkup_drop_eq_false (hfirst m hm)
        · rw [startsMarkup_rest_forward hbrace]
          exact Bool.not_eq_true _ ▸ hmarks
      rw [if_neg hmarks, ih, rest_forward,
        Search.seek_drop_of_eq_false (find.byte?_lt hsome) hpassed, Option.map_map]
      congr 2
      funext m
      rw [forward_forward, Nat.add_comm]
      rfl

theorem toMarkup_eq (c : Cursor) : c.toMarkup = .ok c.nextMarkup := by
  rw [toMarkup, toMarkup?, toMarkupBy?_eq]
  rfl

theorem toLineEndBy_eq (find : Finder) (c : Cursor) :
    c.toLineEndBy find =
      .ok (((find.byte? Delimiter.newline c.rest).map c.forward).getD c.toEnd) := by
  unfold toLineEndBy
  cases hfound : find.byte? Delimiter.newline c.rest with
  | none => rfl
  | some n => exact moved_of_le (Nat.le_of_lt (pos_add_lt (find.byte?_lt hfound)))

theorem toLineEnd_eq (c : Cursor) : c.toLineEnd = .ok c.nextLineEnd := by
  have hquestion : Finder.startsWith Delimiter.newline = Delimiter.startsNewline := by
    funext bytes
    cases bytes <;> rfl
  rw [toLineEnd, toLineEndBy_eq, nextLineEnd, ← hquestion]
  rfl

theorem nextLineEnd_eq_forward (c : Cursor) : ∃ n, c.nextLineEnd = c.forward n := by
  rw [nextLineEnd]
  cases Search.seek Delimiter.startsNewline 0 c.rest with
  | none => exact ⟨_, rfl⟩
  | some n => exact ⟨n, rfl⟩

theorem nextMarkup_eq_forward (c : Cursor) : ∃ n, c.nextMarkup = c.forward n := by
  rw [nextMarkup, nextMarkup?]
  cases Search.seek Delimiter.startsMarkup 0 c.rest with
  | none => exact ⟨_, rfl⟩
  | some n => exact ⟨n, rfl⟩

end Cursor
end LiquidTokens
