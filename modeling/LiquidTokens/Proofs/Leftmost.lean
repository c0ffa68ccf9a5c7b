import LiquidTokens.Proofs.Steps
import LiquidTokens.Reader

/-! Where the searches of a cursor stop: at the leftmost offset from the cursor on, whatever the finder and
wherever the cursor stands. The main statement is `Cursor.searches_leftmost`. -/
namespace LiquidTokens

open Delimiter

/-- The least offset from `start` on that is wanted, or none where none is wanted. -/
def Leftmost (wanted : Nat → Prop) (start : Nat) : Option Nat → Prop
  | some i => IsLeast {i | start ≤ i ∧ wanted i} i
  | none => ∀ i, start ≤ i → ¬ wanted i

namespace Leftmost

variable {wanted : Nat → Prop} {start : Nat}

theorem unique {found found' : Option Nat} (h : Leftmost wanted start found)
    (h' : Leftmost wanted start found') : found = found' := by
  cases found with
  | none =>
    cases found' with
    | none => rfl
    | some j => exact absurd h'.1.2 (h j h'.1.1)
  | some i =>
    cases found' with
    | none => exact absurd h.1.2 (h' i h.1.1)
    | some j => exact congrArg some (IsLeast.unique h h')

theorem of_distance (distance : Option Nat)
    (hsome : ∀ n, distance = some n → wanted (start + n) ∧ ∀ m < n, ¬ wanted (start + m))
    (hnone : distance = none → ∀ n, ¬ wanted (start + n)) :
    Leftmost wanted start (distance.map (start + ·)) := by
  cases distance with
  | none =>
    intro i hi
    obtain ⟨n, rfl⟩ := Nat.exists_eq_add_of_le hi
    exact hnone rfl n
  | some n =>
    obtain ⟨hn, hfirst⟩ := hsome n rfl
    refine ⟨⟨Nat.le_add_right start n, hn⟩, ?_⟩
    rintro i ⟨hi, hwanted⟩
    obtain ⟨m, rfl⟩ := Nat.exists_eq_add_of_le hi
    by_contra hlt
    exact hfirst m (Nat.lt_of_add_lt_add_left (Nat.lt_of_not_le hlt)) hwanted

theorem eq_start {found : Option Nat} (h : Leftmost wanted start found) (hstart : wanted start) :
    found = some start :=
  h.unique ⟨⟨Nat.le_refl start, hstart⟩, fun _ hi => hi.1⟩

end Leftmost

def OccursAt (needle bytes : List UInt8) (i : Nat) : Prop :=
  i + needle.length ≤ bytes.length ∧ needle <+: bytes.drop i

theorem occursAt_iff {needle bytes : List UInt8} {i : Nat} :
    OccursAt needle bytes i ↔ i ≤ bytes.length ∧ needle <+: bytes.drop i := by
  constructor
  · rintro ⟨hle, hprefix⟩
    exact ⟨by omega, hprefix⟩
  · rintro ⟨hle, hprefix⟩
    have hlen := hprefix.length_le
    rw [List.length_drop] at hlen
    exact ⟨by omega, hprefix⟩

/-- Neither the last byte nor a zero leaves a brace in front of it that opens anything. -/
theorem Markup.not_opensAt {bytes : List UInt8} {i : Nat}
    (h : bytes[i + 1]? = none ∨ bytes[i + 1]? = some 0) : ¬ OpensAt bytes i := by
  rintro ⟨_, hnext⟩
  rcases h with h | h <;> rw [h] at hnext <;> revert hnext <;> decide

namespace Cursor

def moveTo (c : Cursor) (i : Nat) : Cursor :=
  ⟨c.source, i, c.source.bytes.drop i, rfl⟩

theorem forward_eq_moveTo (c : Cursor) (n : Nat) : c.forward n = c.moveTo (c.pos + n) :=
  ext_pos rfl rfl

theorem moveTo_pos (c : Cursor) : c.moveTo c.pos = c :=
  ext_pos rfl rfl

theorem toEnd_eq_moveTo {c : Cursor} (h : c.InBounds) : c.toEnd = c.moveTo c.source.length :=
  ext_pos rfl (pos_toEnd h)

theorem drop_rest (c : Cursor) (n : Nat) : c.rest.drop n = c.source.bytes.drop (c.pos + n) := by
  rw [c.rest_eq, List.drop_drop]

variable (c : Cursor)

theorem exists_leftmost_nextMarkup? :
    ∃ found, Leftmost (Markup.OpensAt c.source.bytes) c.pos found ∧
      c.nextMarkup? = found.map c.moveTo := by
  refine ⟨_, .of_distance (Search.seek startsMarkup 0 c.rest) ?_ ?_, ?_⟩
  · intro n hn
    obtain ⟨_, hopens, hfirst⟩ := Search.seek_zero_eq_some_iff.mp hn
    rw [drop_rest, Markup.startsMarkup_drop_iff] at hopens
    refine ⟨hopens, fun m hm hopens' => ?_⟩
    rw [← Markup.startsMarkup_drop_iff, ← drop_rest, hfirst m hm] at hopens'
    cases hopens'
  · intro hnone n hopens
    rw [← Markup.startsMarkup_drop_iff, ← drop_rest] at hopens
    have hle : n ≤ c.rest.length := by
      by_contra hlt
      rw [List.drop_eq_nil_of_le (by omega)] at hopens
      cases hopens
    rw [(Search.seek_eq_none_iff 0 c.rest).mp hnone n hle] at hopens
    cases hopens
  · rw [nextMarkup?, Option.map_map]
    exact congrArg (Option.map · _) (funext c.forward_eq_moveTo)

theorem exists_leftmost_behindNext? (h : c.InBounds) (needle : List UInt8) :
    ∃ found, Leftmost (OccursAt needle c.source.bytes) c.pos found ∧
      c.behindNext? needle = found.map fun i => c.moveTo (i + needle.length) := by
  have hoccurs (n : Nat) : OccursAt needle c.source.bytes (c.pos + n) ↔
      n ≤ c.rest.length ∧ needle <+: c.rest.drop n := by
    rw [occursAt_iff, drop_rest, length_rest, Source.length_bytes]
    have hle : c.pos ≤ c.source.length := h
    exact and_congr_left' (by omega)
  refine ⟨_, .of_distance (Finder.scan.needle? needle c.rest) ?_ ?_, ?_⟩
  · intro n hn
    obtain ⟨hle, hprefix, hfirst⟩ := Finder.scan.needle?_eq_some_iff.mp hn
    exact ⟨(hoccurs n).mpr ⟨hle, hprefix⟩, fun m hm hm' => hfirst m hm ((hoccurs m).mp hm').2⟩
  · intro hnone n hn
    obtain ⟨hle, hprefix⟩ := (hoccurs n).mp hn
    exact Finder.scan.not_prefix_of_needle?_eq_none hnone hle hprefix
  · show Option.map _ (Finder.scan.needle? needle c.rest) = _
    rw [Option.map_map]
    congr 1
    funext n
    rw [forward_eq_moveTo, ← Nat.add_assoc]
    rfl

theorem exists_leftmost_toLineEndBy (find : Finder) (h : c.InBounds) :
    ∃ found, Leftmost (c.source.bytes[·]? = some newline) c.pos found ∧
      c.toLineEndBy find = .ok (c.moveTo (found.getD c.source.length)) := by
  have hget (n : Nat) : c.source.bytes[c.pos + n]? = c.rest[n]? := (c.getElem?_rest n).symm
  refine ⟨_, .of_distance (find.byte? newline c.rest) ?_ ?_, ?_⟩
  · intro n hn
    simp only [hget]
    exact find.byte?_eq_some_iff.mp hn
  · intro hnone n
    rw [hget]
    exact find.getElem?_ne_of_byte?_eq_none hnone n
  · rw [toLineEndBy_eq, toEnd_eq_moveTo h]
    cases find.byte? newline c.rest with
    | none => rfl
    | some n => exact congrArg Except.ok (c.forward_eq_moveTo n)

/-- From any offset of a source, inside a character too, and for any finder whose answers are leftmost.
The hops from brace to brace end on the least offset where a brace stands in front of a brace or a percent
sign, or else at the end, and the flag tells which. A needle of any bytes is passed at its least offset,
or else the cursor stays. A line ends at the next newline, or else at the end. A brace opens nothing as
the last byte or in front of a zero. -/
theorem searches_leftmost (find : Finder) (c : Cursor) (h : c.InBounds) (marks : List Cursor)
    (needle : List UInt8) :
    (∃ found, Leftmost (Markup.OpensAt c.source.bytes) c.pos found ∧
      c.toMarkupBy? find = .ok (found.map c.moveTo) ∧
      Reader.move ⟨c, marks⟩ .toMarkup =
        (.ok (.flag found.isSome), ⟨c.moveTo (found.getD c.source.length), marks⟩)) ∧
    (∃ found, Leftmost (OccursAt needle c.source.bytes) c.pos found ∧
      (needle = [] → found = some c.pos) ∧
      c.skipPastBy? find needle = .ok (found.map fun i => c.moveTo (i + needle.length)) ∧
      Reader.move ⟨c, marks⟩ (.skipPast needle) =
        (.ok (.flag found.isSome), ⟨c.moveTo (found.elim c.pos (· + needle.length)), marks⟩)) ∧
    (∃ found, Leftmost (c.source.bytes[·]? = some newline) c.pos found ∧
      c.toLineEndBy find = .ok (c.moveTo (found.getD c.source.length)) ∧
      Reader.move ⟨c, marks⟩ .toLineEnd =
        (.ok .done, ⟨c.moveTo (found.getD c.source.length), marks⟩)) ∧
    ∀ i, c.source.bytes[i + 1]? = none ∨ c.source.bytes[i + 1]? = some 0 →
      ¬ Markup.OpensAt c.source.bytes i := by
  obtain rfl : find = .scan := Subsingleton.elim _ _
  refine ⟨?_, ?_, ?_, fun i => Markup.not_opensAt⟩
  · obtain ⟨found, hleft, hfound⟩ := c.exists_leftmost_nextMarkup?
    refine ⟨found, hleft, hfound ▸ toMarkupBy?_eq .scan c, ?_⟩
    rw [Reader.move_toMarkup, nextMarkup, hfound, toEnd_eq_moveTo h]
    cases found <;> rfl
  · obtain ⟨found, hleft, hfound⟩ := c.exists_leftmost_behindNext? h needle
    have hempty (hnil : needle = []) : OccursAt needle c.source.bytes c.pos := by
      rw [occursAt_iff, hnil, Source.length_bytes]
      exact ⟨h, List.nil_prefix⟩
    refine ⟨found, hleft, fun hnil => hleft.eq_start (hempty hnil), hfound ▸ skipPast?_eq h needle, ?_⟩
    rw [Reader.move_skipPast _ h, hfound]
    cases found with
    | none =>
      rw [Option.elim_none, moveTo_pos]
      rfl
    | some i => rfl
  · obtain ⟨found, hleft, hfound⟩ := c.exists_leftmost_toLineEndBy .scan h
    refine ⟨found, hleft, hfound, ?_⟩
    have hend : c.nextLineEnd = c.moveTo (found.getD c.source.length) :=
      Except.ok.inj (c.toLineEnd_eq.symm.trans hfound)
    rw [Reader.move_toLineEnd, hend]

/-- Inside a character, with two braces on the way that open nothing, one of them in front of a zero. -/
theorem searches_leftmost_of_lone_braces :
    ∃ c : Cursor, c.source.text = "é\x7ba\x7b\x00\x7b%\x7b" ∧ c.InBounds ∧ c.pos = 1 ∧ ¬ c.OnBoundary ∧
      Reader.move ⟨c, []⟩ .toMarkup = (.ok (.flag true), ⟨c.moveTo 6, []⟩) ∧
      Reader.move ⟨c, []⟩ (.skipPast [0xa9, openBrace]) = (.ok (.flag true), ⟨c.moveTo 3, []⟩) ∧
      Reader.move ⟨c, []⟩ .toLineEnd = (.ok .done, ⟨c.moveTo 9, []⟩) ∧
      ¬ Markup.OpensAt c.source.bytes 4 := by
  let c : Cursor := (Cursor.start (.ofText "é\x7ba\x7b\x00\x7b%\x7b")).forward 1
  have hb : c.InBounds := by
    show 1 ≤ Source.length _
    decide
  obtain ⟨⟨brace, hbrace, _, hmarkup⟩, ⟨needle, hneedle, _, _, hskip⟩, ⟨line, hline, _, hend⟩, hzero⟩ :=
    searches_leftmost .scan c hb [] [0xa9, openBrace]
  have hbraces : Leftmost (Markup.OpensAt c.source.bytes) 1 (some 6) := by
    have hopens : Markup.OpensAt c.source.bytes 6 := by
      unfold Markup.OpensAt
      decide
    have hfirst : ∀ i < 6, 1 ≤ i → ¬ Markup.OpensAt c.source.bytes i := by
      unfold Markup.OpensAt
      decide
    refine ⟨⟨by decide, hopens⟩, fun i hi => ?_⟩
    by_contra hlt
    exact hfirst i (Nat.lt_of_not_le hlt) hi.1 hi.2
  obtain rfl := hbrace.unique hbraces
  have hthere : OccursAt [0xa9, openBrace] c.source.bytes 1 := by
    unfold OccursAt
    decide
  obtain rfl := hneedle.eq_start hthere
  have hnone : Leftmost (c.source.bytes[·]? = some newline) 1 none := by
    intro i _ hi
    have hfree : newline ∉ c.source.bytes := by decide
    exact hfree (List.mem_of_getElem? hi)
  obtain rfl := hline.unique hnone
  refine ⟨c, rfl, hb, rfl, ?_, hmarkup, hskip, hend, hzero 4 (Or.inr ?_)⟩
  · show ¬ Source.OnBoundary _ _
    decide
  · decide

end Cursor
end LiquidTokens
