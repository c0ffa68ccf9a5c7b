import LiquidTokens.Boundary
import LiquidTokens.Reader

/-! Reading by hand, with any moves in any order. No run leaves the source, no move but a return goes
back, and a move that fails changes nothing. The main statement is `Reader.run_stays_inside`. -/
namespace LiquidTokens

namespace Cursor

def Reaches (c d : Cursor) : Prop :=
  ∃ n, d = c.forward n ∧ c.pos + n ≤ c.source.length

theorem reaches_self {c : Cursor} (h : c.InBounds) : c.Reaches c :=
  ⟨0, (forward_zero c).symm, h⟩

theorem reaches_nextMarkup {c : Cursor} (h : c.InBounds) : c.Reaches c.nextMarkup := by
  obtain ⟨n, hn⟩ := nextMarkup_eq_forward c
  have hb := (onBoundary_nextMarkup h).1.inBounds
  rw [hn] at hb
  exact ⟨n, hn, hb⟩

theorem reaches_nextLineEnd {c : Cursor} (h : c.InBounds) : c.Reaches c.nextLineEnd := by
  obtain ⟨n, hn⟩ := nextLineEnd_eq_forward c
  have hb := (onBoundary_nextLineEnd h).1.inBounds
  rw [hn] at hb
  exact ⟨n, hn, hb⟩

theorem reaches_of_behindNext? {c d : Cursor} {needle : List UInt8} (h : c.InBounds)
    (hfound : c.behindNext? needle = some d) : c.Reaches d := by
  obtain ⟨n, hn, rfl⟩ := Option.map_eq_some_iff.mp hfound
  obtain ⟨hle, hprefix, _⟩ := Finder.scan.needle?_eq_some_iff.mp hn
  have hlen := hprefix.length_le
  rw [List.length_drop, length_rest] at hlen
  rw [length_rest] at hle
  have hpos : c.pos ≤ c.source.length := h
  exact ⟨n + needle.length, rfl, by omega⟩

theorem reaches_of_advance {c d : Cursor} {n : Nat} (h : c.advance n = .ok d) : c.Reaches d := by
  obtain ⟨hle, rfl⟩ := advance_eq_ok_iff.mp h
  exact ⟨n, rfl, hle⟩

end Cursor

namespace Reader

open Cursor

/-- The readers of a run: the one that it starts from, and the one that each move leaves. -/
def stages (r : Reader) (moves : List Move) : List Reader :=
  r :: (r.run moves).map Prod.snd

theorem exists_stage {r : Reader} {moves : List Move} {i : Nat} {m : Move} (h : moves[i]? = some m) :
    ∃ before, (r.stages moves)[i]? = some before ∧ (r.run moves)[i]? = some (before.move m) := by
  induction moves generalizing r i with
  | nil => cases h
  | cons m' rest ih =>
    cases i with
    | zero =>
      obtain rfl : m' = m := Option.some.inj h
      exact ⟨r, rfl, rfl⟩
    | succ i => exact ih h

structure Inside (s : Source) (r : Reader) : Prop where
  source_eq : r.cursor.source = s
  inBounds : r.cursor.InBounds
  marks : ∀ c ∈ r.marks, c.source = s ∧ c.InBounds

theorem inside_start (s : Source) : Inside s (start s) :=
  ⟨rfl, inBounds_start s, fun _ hc => by cases hc⟩

/-- All that a move can do: go on, with the marks as they were or one more of them at the cursor, or
return to a mark if there is one of that index. -/
theorem cases_of_move {r : Reader} (h : r.cursor.InBounds) (m : Move) :
    (r.cursor.Reaches (r.move m).2.cursor ∧ ∀ c ∈ (r.move m).2.marks, c ∈ r.marks ∨ c = r.cursor) ∨
      ∃ index, m = .goBack index ∧
        (r.move m).2 = { r with cursor := r.marks[index]?.getD r.cursor } := by
  cases m with
  | advance n =>
    rw [move_advance]
    cases hadvance : r.cursor.advance n with
    | ok cursor => exact Or.inl ⟨reaches_of_advance hadvance, fun _ => Or.inl⟩
    | error fault => exact Or.inl ⟨reaches_self h, fun _ => Or.inl⟩
  | toLineEnd =>
    rw [move_toLineEnd]
    exact Or.inl ⟨reaches_nextLineEnd h, fun _ => Or.inl⟩
  | sees needle =>
    rw [move_sees]
    exact Or.inl ⟨reaches_self h, fun _ => Or.inl⟩
  | skipPast needle =>
    rw [move_skipPast r h]
    cases hfound : r.cursor.behindNext? needle with
    | some cursor => exact Or.inl ⟨reaches_of_behindNext? h hfound, fun _ => Or.inl⟩
    | none => exact Or.inl ⟨reaches_self h, fun _ => Or.inl⟩
  | toMarkup =>
    rw [move_toMarkup]
    exact Or.inl ⟨reaches_nextMarkup h, fun _ => Or.inl⟩
  | slice start stop =>
    rw [move_slice]
    exact Or.inl ⟨reaches_self h, fun _ => Or.inl⟩
  | sliceFrom start =>
    rw [move_sliceFrom]
    exact Or.inl ⟨reaches_self h, fun _ => Or.inl⟩
  | mark =>
    rw [move_mark]
    refine Or.inl ⟨reaches_self h, fun c hc => ?_⟩
    rcases List.mem_append.mp hc with hc | hc
    · exact Or.inl hc
    · exact Or.inr (List.mem_singleton.mp hc)
  | goBack index => exact Or.inr ⟨index, rfl, congrArg Prod.snd (r.move_goBack index)⟩

theorem Inside.move {s : Source} {r : Reader} (h : Inside s r) (m : Move) : Inside s (r.move m).2 := by
  rcases cases_of_move h.inBounds m with ⟨⟨n, hn, hle⟩, hmarks⟩ | ⟨index, _, hback⟩
  · refine ⟨by rw [hn]; exact h.source_eq, by rw [hn]; exact hle, fun c hc => ?_⟩
    rcases hmarks c hc with hc | rfl
    · exact h.marks c hc
    · exact ⟨h.source_eq, h.inBounds⟩
  · rw [hback]
    cases hmark : r.marks[index]? with
    | none => exact h
    | some c =>
      obtain ⟨hsource, hb⟩ := h.marks c (List.mem_of_getElem? hmark)
      exact ⟨hsource, hb, h.marks⟩

theorem Inside.of_mem_stages {s : Source} {r r' : Reader} {moves : List Move} (h : Inside s r)
    (hr : r' ∈ r.stages moves) : Inside s r' := by
  induction moves generalizing r with
  | nil =>
    obtain rfl := List.mem_singleton.mp hr
    exact h
  | cons m rest ih =>
    rcases List.mem_cons.mp hr with rfl | hr
    · exact h
    · exact ih (h.move m) hr

theorem Inside.pos_le_move {s : Source} {r : Reader} (h : Inside s r) {m : Move}
    (hm : ∀ index, m ≠ .goBack index) : r.cursor.pos ≤ (r.move m).2.cursor.pos := by
  rcases cases_of_move h.inBounds m with ⟨⟨n, hn, _⟩, _⟩ | ⟨index, hback, _⟩
  · rw [hn]
    exact Nat.le_add_right _ n
  · exact absurd hback (hm index)

/-- What a move may answer and what it may do to the reader. -/
structure Accounts (s : Source) (before : Reader) (m : Move) (answer : Except Fault Answer)
    (after : Reader) : Prop where
  pos_le : (∀ index, m ≠ .goBack index) → before.cursor.pos ≤ after.cursor.pos
  eq_of_error : ∀ f, answer = .error f → after = before
  advance : ∀ n, m = .advance n →
    ((∃ f, answer = .error f) ↔ s.length < before.cursor.pos + n) ∧
    ∀ f, answer = .error f → (f = .additionOverflow ↔ UInt64.size ≤ before.cursor.pos + n)
  slice : ∀ a b, m = .slice a b ∨ m = .sliceFrom a ∧ b = before.cursor.pos →
    ((∃ reply, answer = .ok reply) ↔ a ≤ b ∧ b ≤ s.length ∧ s.OnBoundary a ∧ s.OnBoundary b) ∧
    ∀ reply, answer = .ok reply → ∃ t, reply = .text t ∧ utf8 t = (s.bytes.drop a).take (b - a)

theorem Inside.advance_answer {s : Source} {r : Reader} (h : Inside s r) (n : Nat) :
    ((∃ f, (r.move (.advance n)).1 = .error f) ↔ s.length < r.cursor.pos + n) ∧
      ∀ f, (r.move (.advance n)).1 = .error f →
        (f = .additionOverflow ↔ UInt64.size ≤ r.cursor.pos + n) := by
  have herror (f : Fault) : (r.move (.advance n)).1 = .error f ↔ r.cursor.advance n = .error f := by
    rw [move_advance]
    cases r.cursor.advance n <;> simp
  simp only [herror, advance_eq_error_iff, h.source_eq]
  constructor
  · constructor
    · rintro ⟨f, hlt, _⟩
      exact hlt
    · intro hlt
      exact ⟨_, hlt, rfl⟩
  · rintro f ⟨_, rfl⟩
    by_cases hlt : r.cursor.pos + n < UInt64.size
    · simp only [if_pos hlt, reduceCtorEq, false_iff, Nat.not_le]
      exact hlt
    · simp only [if_neg hlt, true_iff]
      exact Nat.not_lt.mp hlt

theorem slice_answer (s : Source) (a b : Nat) :
    ((∃ reply, (s.slice a b).map Answer.text = .ok reply) ↔
        a ≤ b ∧ b ≤ s.length ∧ s.OnBoundary a ∧ s.OnBoundary b) ∧
      ∀ reply, (s.slice a b).map Answer.text = .ok reply →
        ∃ t, reply = .text t ∧ utf8 t = (s.bytes.drop a).take (b - a) := by
  have hok (reply : Answer) : (s.slice a b).map Answer.text = .ok reply ↔
      ∃ t, s.slice a b = .ok t ∧ .text t = reply := by
    cases s.slice a b <;> simp [Except.map]
  simp only [hok]
  constructor
  · constructor
    · rintro ⟨_, t, ht, _⟩
      obtain ⟨hab, ha, hb, _⟩ := Source.slice_eq_ok_iff.mp ht
      exact ⟨hab, hb.le_length, ha, hb⟩
    · rintro ⟨hab, _, ha, hb⟩
      exact ⟨_, _, Source.slice_of_onBoundary hab ha hb, rfl⟩
  · rintro _ ⟨t, ht, rfl⟩
    exact ⟨t, rfl, (Source.slice_eq_ok_iff.mp ht).2.2.2⟩

theorem Inside.accounts {s : Source} {r : Reader} (h : Inside s r) (m : Move) :
    Accounts s r m (r.move m).1 (r.move m).2 where
  pos_le := h.pos_le_move
  eq_of_error _ := move_eq_of_error h.inBounds
  advance := by
    rintro n rfl
    exact h.advance_answer n
  slice := by
    rintro a b (rfl | ⟨rfl, rfl⟩)
    · rw [move_slice, Cursor.slice, h.source_eq]
      exact slice_answer s a b
    · rw [move_sliceFrom, Cursor.slice, h.source_eq]
      exact slice_answer s a r.cursor.pos

/-- Whatever the source and the moves, the cursor of every stage stands inside the source, and is at the
end exactly where its offset is the length. Each move is made from one stage to the next. Returns
apart, it never goes back. Where it fails, nothing changes. To advance fails exactly where the source
is too short, and then the fault is an overflow exactly where the sum is too large for a word. A slice
is there exactly between ordered boundaries, and holds the bytes between them. -/
theorem run_stays_inside (s : Source) (moves : List Move) :
    (∀ r ∈ (start s).stages moves, r.cursor.source = s ∧ r.cursor.pos ≤ s.length ∧
      (r.cursor.atEnd = true ↔ r.cursor.pos = s.length)) ∧
    ∀ i m, moves[i]? = some m → ∃ before answer after,
      ((start s).stages moves)[i]? = some before ∧
      ((start s).stages moves)[i + 1]? = some after ∧
      ((start s).run moves)[i]? = some (answer, after) ∧ Accounts s before m answer after := by
  have hinside (r : Reader) (hr : r ∈ (start s).stages moves) : Inside s r :=
    (inside_start s).of_mem_stages hr
  constructor
  · intro r hr
    have h := hinside r hr
    rw [← h.source_eq]
    exact ⟨rfl, h.inBounds, atEnd_iff h.inBounds⟩
  · intro i m hm
    obtain ⟨before, hbefore, hmade⟩ := exists_stage (r := start s) hm
    have hafter : ((start s).stages moves)[i + 1]? = some (before.move m).2 := by
      rw [stages, List.getElem?_cons_succ, List.getElem?_map, hmade, Option.map_some]
    exact ⟨before, _, _, hbefore, hafter, hmade, (hinside before (List.mem_of_getElem? hbefore)).accounts m⟩

/-- From inside a character, a slice that would split it and an advance that overflows both fail, and the
reader stays. -/
theorem run_stays_inside_of_split_character :
    ∃ (s : Source) (moves : List Move) (r : Reader) (f : Fault), s.text = "é\x7b%" ∧
      moves[2]? = some (.sliceFrom 0) ∧ moves[3]? = some (.advance (UInt64.size - 1)) ∧
      ((start s).stages moves)[2]? = some r ∧ r.cursor.pos = 1 ∧
      ((start s).run moves)[2]? = some (.error f, r) ∧
      ((start s).run moves)[3]? = some (.error .additionOverflow, r) := by
  let s := Source.ofText "é\x7b%"
  let moves := [Move.mark, .advance 1, .sliceFrom 0, .advance (UInt64.size - 1), .goBack 0]
  obtain ⟨_, hmoves⟩ := run_stays_inside s moves
  obtain ⟨r, answer, after, hr, hafter, hslice, hsliced⟩ := hmoves 2 (.sliceFrom 0) rfl
  obtain ⟨r', answer', after', hr', _, hadvance, hadvanced⟩ := hmoves 3 (.advance (UInt64.size - 1)) rfl
  have hpos : r.cursor.pos = 1 := by
    have h : (((start s).stages moves)[2]?.map fun r => r.cursor.pos) = some 1 := by decide +kernel
    rw [hr] at h
    exact Option.some.inj h
  obtain ⟨f, rfl⟩ : ∃ f, answer = .error f := by
    cases answer with
    | error f => exact ⟨f, rfl⟩
    | ok reply =>
      have hb := ((hsliced.slice 0 1 (Or.inr ⟨rfl, hpos.symm⟩)).1.mp ⟨reply, rfl⟩).2.2.2
      exact absurd hb (by decide)
  obtain rfl := hsliced.eq_of_error f rfl
  obtain rfl := Option.some.inj (hafter.symm.trans hr')
  obtain ⟨hfails, hoverflow⟩ := hadvanced.advance _ rfl
  obtain ⟨f', rfl⟩ := hfails.mpr (by rw [hpos]; decide)
  obtain rfl := hadvanced.eq_of_error f' rfl
  obtain rfl := (hoverflow f' rfl).mpr (by rw [hpos]; decide)
  exact ⟨s, moves, _, f, rfl, rfl, rfl, hr, hpos, hslice, hadvance⟩

end Reader
end LiquidTokens
