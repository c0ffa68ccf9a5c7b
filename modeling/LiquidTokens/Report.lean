import LiquidTokens.Arguments
import LiquidTokens.Quoted
import LiquidTokens.Source
import LiquidTokens.Template
import LiquidTokens.Tokenizer

/-! The printed token list: a header that counts the tokens, and a line for each. It goes to a sink with
room for only so many bytes. The sink takes what it is offered in pieces of its own choice, and how it
chooses leaves no trace: it holds the front of all that is offered. -/
namespace LiquidTokens

/-- How many bytes are taken at once, by the room there is and by the number that is offered: some while
there is room, and never more than fit. -/
structure Appetite where
  taken : Nat → Nat → Nat
  taken_le_room : ∀ room offered, taken room offered ≤ room
  taken_le_offered : ∀ room offered, taken room offered ≤ offered
  taken_pos : ∀ {room offered}, 0 < room → 0 < offered → 0 < taken room offered

def Appetite.full : Appetite where
  taken := min
  taken_le_room := Nat.min_le_left
  taken_le_offered := Nat.min_le_right
  taken_pos hroom hoffered := Nat.lt_min.mpr ⟨hroom, hoffered⟩

structure Sink where
  held : List UInt8
  room : Nat
  appetite : Appetite

namespace Sink

def ofRoom (room : Nat) (appetite : Appetite) : Sink := ⟨[], room, appetite⟩

def write (s : Sink) (bytes : List UInt8) : Nat × Sink :=
  let n := s.appetite.taken s.room bytes.length
  (n, { s with held := s.held ++ bytes.take n, room := s.room - n })

/-- Offer what is left again and again. The flag tells whether all was taken before a write took none. -/
def writeAll (s : Sink) : List UInt8 → Bool × Sink
  | [] => (true, s)
  | b :: rest =>
    match s.write (b :: rest) with
    | (0, after) => (false, after)
    | (n + 1, after) => after.writeAll (rest.drop n)
termination_by bytes => bytes.length
decreasing_by
  rw [List.length_drop, List.length_cons]
  omega

/-- Fragment after fragment, and none behind one that was not taken as a whole. -/
def writeEach (s : Sink) : List String → Bool × Sink
  | [] => (true, s)
  | text :: rest =>
    match s.writeAll (utf8 text) with
    | (true, after) => after.writeEach rest
    | (false, after) => (false, after)

def fill (s : Sink) (bytes : List UInt8) : Bool × Sink :=
  (decide (bytes.length ≤ s.room),
    { s with held := s.held ++ bytes.take s.room, room := s.room - bytes.length })

theorem fill_nil (s : Sink) : s.fill [] = (true, s) := by
  simp [fill]

theorem fill_append_of_le {s : Sink} {front bytes : List UInt8} (h : front.length ≤ s.room) :
    s.fill (front ++ bytes) = (s.fill front).2.fill bytes := by
  refine Prod.ext (decide_eq_decide.mpr ?_) ?_
  · simp only [fill, List.length_append]
    omega
  · simp only [fill, List.take_append, List.append_assoc, List.length_append, Nat.sub_sub]

theorem fill_append_of_lt {s : Sink} {front bytes : List UInt8} (h : s.room < front.length) :
    s.fill (front ++ bytes) = s.fill front := by
  have hlong : ¬ (front ++ bytes).length ≤ s.room := by
    rw [List.length_append]
    omega
  have hfront : ¬ front.length ≤ s.room := by omega
  have hnone : s.room - (front ++ bytes).length = s.room - front.length := by
    rw [List.length_append]
    omega
  rw [fill, fill, decide_eq_false hlong, decide_eq_false hfront, hnone,
    List.take_append_of_le_length (Nat.le_of_lt h)]

theorem fill_of_write {s after : Sink} {bytes : List UInt8} {n : Nat}
    (h : s.write bytes = (n, after)) :
    n ≤ s.room ∧ n ≤ bytes.length ∧ s.fill (bytes.take n) = (true, after) := by
  have hroom := s.appetite.taken_le_room s.room bytes.length
  have hoffered := s.appetite.taken_le_offered s.room bytes.length
  obtain ⟨rfl, rfl⟩ := Prod.mk.inj h
  refine ⟨hroom, hoffered, ?_⟩
  simp only [fill, List.length_take, List.take_take, Nat.min_eq_left hoffered,
    Nat.min_eq_right hroom, decide_eq_true hroom]

theorem room_eq_zero_of_write {s after : Sink} {b : UInt8} {rest : List UInt8}
    (h : s.write (b :: rest) = (0, after)) : s.room = 0 := by
  refine Nat.eq_zero_of_not_pos fun hpos => ?_
  have htaken := s.appetite.taken_pos hpos (Nat.succ_pos rest.length)
  exact Nat.ne_of_gt htaken (Prod.mk.inj h).1

/-- However much is taken at once, in the end it is as much as fits. -/
theorem writeAll_eq_fill (s : Sink) (bytes : List UInt8) : s.writeAll bytes = s.fill bytes := by
  fun_induction writeAll s bytes with
  | case1 s => exact s.fill_nil.symm
  | case2 s b rest after hwrite =>
    have hroom := room_eq_zero_of_write hwrite
    obtain ⟨_, _, hfill⟩ := fill_of_write hwrite
    rw [List.take_zero, fill_nil] at hfill
    obtain rfl := (Prod.mk.inj hfill).2
    have hheld : s.held ++ (b :: rest).take s.room = s.held := by
      rw [hroom, List.take_zero, List.append_nil]
    have hleft : s.room - (b :: rest).length = s.room := by omega
    have hlong : ¬ (b :: rest).length ≤ s.room := by
      rw [hroom, List.length_cons]
      omega
    rw [fill, hheld, hleft, decide_eq_false hlong]
  | case3 s b rest n after hwrite ih =>
    obtain ⟨hroom, hoffered, hfill⟩ := fill_of_write hwrite
    have hfront : ((b :: rest).take (n + 1)).length ≤ s.room := by
      rw [List.length_take_of_le hoffered]
      exact hroom
    have hsplit : (b :: rest).take (n + 1) ++ rest.drop n = b :: rest :=
      List.take_append_drop (n + 1) (b :: rest)
    rw [ih, ← hsplit, fill_append_of_le hfront, hfill]

theorem writeEach_eq_fill (s : Sink) (fragments : List String) :
    s.writeEach fragments = s.fill (fragments.flatMap utf8) := by
  induction fragments generalizing s with
  | nil => exact s.fill_nil.symm
  | cons text rest ih =>
    rw [writeEach, writeAll_eq_fill, List.flatMap_cons]
    by_cases h : (utf8 text).length ≤ s.room
    · have hall : s.fill (utf8 text) = (true, (s.fill (utf8 text)).2) :=
        Prod.ext (decide_eq_true h) rfl
      rw [fill_append_of_le h, ← ih, hall]
    · have hcut : s.fill (utf8 text) = (false, (s.fill (utf8 text)).2) :=
        Prod.ext (decide_eq_false h) rfl
      rw [fill_append_of_lt (Nat.lt_of_not_le h), hcut]

end Sink

namespace Report

def lineNote : LineNumber → String
  | none => ""
  | some k => s!" (line {k})"

/-- One token: its kind, its text in quotes, its span and its line. -/
def entry (e : Emission) : String :=
  s!"  {e.token.kind} {Text.quoted e.token.text} @ {e.token.span}{lineNote e.line}\n"

def header (path : String) (count : Nat) : String :=
  s!"Tokens for '{path}' ({count} tokens):\n"

def writes (path : String) (es : List Emission) : List String :=
  header path es.length :: es.map entry

def render (path : String) (es : List Emission) : String :=
  String.join (writes path es)

def body (e : Emission) : String :=
  s!"  {e.token.kind} {Text.quoted e.token.text} @ {e.token.span}{lineNote e.line}"

/-- What is written, one write after another: the header in the parts that it is put together from, and
each entry apart from the end of its line. -/
def fragments (path : String) (es : List Emission) : List String :=
  ["Tokens for '", path, "' (", toString es.length, " tokens):\n"] ++
    es.flatMap fun e => [body e, "\n"]

/-- What a sink holds when it is done, and whether it took all that it was given. -/
structure Delivery where
  held : List UInt8
  complete : Bool
  deriving DecidableEq, Repr

def Delivery.outcome (d : Delivery) : Except Failure Unit :=
  if d.complete then .ok () else .error .shortWrite

def deliver (sink : Sink) (texts : List String) : Delivery :=
  let made := sink.writeEach texts
  ⟨made.2.held, made.1⟩

theorem deliver_eq (room : Nat) (appetite : Appetite) (texts : List String) :
    deliver (.ofRoom room appetite) texts =
      ⟨(texts.flatMap utf8).take room, decide ((texts.flatMap utf8).length ≤ room)⟩ := by
  rw [deliver, Sink.writeEach_eq_fill]
  rfl

theorem header_eq (path : String) (count : Nat) :
    header path count = "Tokens for '" ++ path ++ "' (" ++ toString count ++ " tokens):\n" := rfl

theorem entry_eq_body (e : Emission) : entry e = body e ++ "\n" := rfl

/-- The fragments are the lines, cut in more places. -/
theorem flatMap_utf8_fragments (path : String) (es : List Emission) :
    (fragments path es).flatMap utf8 = utf8 (render path es) := by
  have hheader : utf8 (header path es.length) =
      ["Tokens for '", path, "' (", toString es.length, " tokens):\n"].flatMap utf8 := by
    simp only [header_eq, utf8_append, List.flatMap_cons, List.flatMap_nil, List.append_assoc,
      List.append_nil]
  have hentry (e : Emission) : utf8 (entry e) = [body e, "\n"].flatMap utf8 := by
    rw [entry_eq_body, utf8_append]
    simp
  rw [render, writes, utf8_join, List.flatMap_cons, hheader, List.flatMap_map, fragments,
    List.flatMap_append, List.flatMap_assoc]
  simp only [hentry]

def ofTextInto (sink : Sink) (request : LexRequest) (text : String) : Checked Delivery := do
  let es ← tokens text request.options
  pure (deliver sink (fragments request.path es))

def ofTextWithin (room : Nat) (request : LexRequest) (text : String) : Checked Delivery :=
  ofTextInto (.ofRoom room .full) request text

def ofText (request : LexRequest) (text : String) : Checked String := do
  let es ← tokens text request.options
  pure (render request.path es)

end Report

end LiquidTokens
