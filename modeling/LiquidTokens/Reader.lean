import LiquidTokens.Cursor

/-! Reading by hand: a cursor with places to return to. -/
namespace LiquidTokens

structure Reader where
  cursor : Cursor
  marks : List Cursor
  deriving DecidableEq, Inhabited

namespace Reader

inductive Move
  | advance (n : Nat)
  | toLineEnd
  | sees (needle : List UInt8)
  | skipPast (needle : List UInt8)
  | toMarkup
  | slice (start stop : Nat)
  | sliceFrom (start : Nat)
  | mark
  | goBack (index : Nat)
  deriving DecidableEq, Repr

inductive Answer
  | done
  | flag (value : Bool)
  | text (value : String)
  | index (value : Nat)
  deriving DecidableEq, Repr

def start (source : Source) : Reader := ⟨.start source, []⟩

/-- Reading by hand may fail at any point, and what was done up to there is not undone. -/
abbrev Reading := ExceptT Fault (StateM Reader)

def ask {α : Type} (question : Cursor → Checked α) : Reading α := do
  question (← get).cursor

def setCursor (cursor : Cursor) : Reading Unit :=
  modify fun r => { r with cursor }

/-- One move. Without a mark of that index the cursor stays. -/
def attempt : Move → Reading Answer
  | .advance n => do
    setCursor (← ask fun c => c.advance n)
    pure .done
  | .toLineEnd => do
    setCursor (← ask Cursor.toLineEnd)
    pure .done
  | .sees needle => do
    pure (.flag ((← get).cursor.sees needle))
  | .skipPast needle => do
    match ← ask fun c => c.skipPast? needle with
    | some cursor =>
      setCursor cursor
      pure (.flag true)
    | none => pure (.flag false)
  | .toMarkup => do
    match ← ask Cursor.toMarkup? with
    | some cursor =>
      setCursor cursor
      pure (.flag true)
    | none =>
      setCursor (← get).cursor.toEnd
      pure (.flag false)
  | .slice start stop => do
    pure (.text (← ask fun c => c.slice start stop))
  | .sliceFrom start => do
    pure (.text (← ask fun c => c.sliceFrom start))
  | .mark => do
    let r ← get
    set { r with marks := r.marks ++ [r.cursor] }
    pure (.index r.marks.length)
  | .goBack index => do
    let r ← get
    setCursor (r.marks[index]?.getD r.cursor)
    pure .done

/-- What a move answers, or at which check it fails, and the reader that it leaves. -/
def move (r : Reader) (m : Move) : Except Fault Answer × Reader :=
  (attempt m).run.run r

def run (r : Reader) : List Move → List (Except Fault Answer × Reader)
  | [] => []
  | m :: rest =>
    let made := r.move m
    made :: made.2.run rest

/-! What each move answers, and the reader that it leaves. -/

theorem run_ask {α : Type} (question : Cursor → Checked α) (r : Reader) :
    (ask question).run.run r = (question r.cursor, r) := rfl

theorem run_ask_bind {α β : Type} (question : Cursor → Checked α) (next : α → Reading β)
    (r : Reader) :
    (ask question >>= next).run.run r =
      match question r.cursor with
      | .ok a => (next a).run.run r
      | .error fault => (.error fault, r) := by
  unfold ExceptT.run StateT.run
  simp only [bind, ExceptT.bind, ExceptT.mk, StateT.bind, ExceptT.bindCont]
  have hasked : ask question r = (question r.cursor, r) := run_ask question r
  rw [hasked]
  cases question r.cursor <;> rfl

theorem move_advance (r : Reader) (n : Nat) :
    r.move (.advance n) =
      match r.cursor.advance n with
      | .ok cursor => (.ok .done, { r with cursor })
      | .error fault => (.error fault, r) := by
  rw [move, attempt, run_ask_bind]
  cases r.cursor.advance n <;> rfl

theorem move_toLineEnd (r : Reader) :
    r.move .toLineEnd = (.ok .done, { r with cursor := r.cursor.nextLineEnd }) := by
  rw [move, attempt, run_ask_bind, Cursor.toLineEnd_eq]
  rfl

theorem move_sees (r : Reader) (needle : List UInt8) :
    r.move (.sees needle) = (.ok (.flag (r.cursor.sees needle)), r) := rfl

theorem move_skipPast (r : Reader) (h : r.cursor.InBounds) (needle : List UInt8) :
    r.move (.skipPast needle) = (.ok (.flag (r.cursor.behindNext? needle).isSome),
      { r with cursor := (r.cursor.behindNext? needle).getD r.cursor }) := by
  rw [move, attempt, run_ask_bind, Cursor.skipPast?_eq h]
  cases r.cursor.behindNext? needle <;> rfl

theorem move_toMarkup (r : Reader) :
    r.move .toMarkup =
      (.ok (.flag r.cursor.nextMarkup?.isSome), { r with cursor := r.cursor.nextMarkup }) := by
  have hmarkup : r.cursor.toMarkup? = .ok r.cursor.nextMarkup? := Cursor.toMarkupBy?_eq .scan r.cursor
  rw [move, attempt, run_ask_bind, hmarkup, Cursor.nextMarkup]
  cases r.cursor.nextMarkup? <;> rfl

theorem move_slice (r : Reader) (start stop : Nat) :
    r.move (.slice start stop) = ((r.cursor.slice start stop).map .text, r) := by
  rw [move, attempt, run_ask_bind]
  cases r.cursor.slice start stop <;> rfl

theorem move_sliceFrom (r : Reader) (start : Nat) :
    r.move (.sliceFrom start) = ((r.cursor.slice start r.cursor.pos).map .text, r) :=
  r.move_slice start r.cursor.pos

theorem move_mark (r : Reader) :
    r.move .mark = (.ok (.index r.marks.length), { r with marks := r.marks ++ [r.cursor] }) := rfl

theorem move_goBack (r : Reader) (index : Nat) :
    r.move (.goBack index) =
      (.ok .done, { r with cursor := r.marks[index]?.getD r.cursor }) := rfl

/-- Every check of a move comes before it changes anything. -/
theorem move_eq_of_error {r : Reader} {m : Move} {f : Fault} (hb : r.cursor.InBounds)
    (h : (r.move m).1 = .error f) : (r.move m).2 = r := by
  cases m with
  | advance n =>
    rw [move_advance] at h ⊢
    cases hmade : r.cursor.advance n with
    | error fault => rfl
    | ok cursor =>
      rw [hmade] at h
      cases h
  | skipPast needle =>
    rw [move_skipPast r hb] at h
    cases h
  | toMarkup =>
    rw [move_toMarkup] at h
    cases h
  | toLineEnd =>
    rw [move_toLineEnd] at h
    cases h
  | slice start stop => rw [move_slice]
  | sliceFrom start => rw [move_sliceFrom]
  | sees | mark | goBack => cases h

@[simp] theorem length_run (r : Reader) (moves : List Move) : (r.run moves).length = moves.length := by
  induction moves generalizing r with
  | nil => rfl
  | cons m rest ih => simp [run, ih]

end Reader
end LiquidTokens
