import LiquidTokens.Tokenizer

/-! Several tokenizers in one hand. Requests go to the current one; a copy joins the others and goes
its own way. All that a request does to a tokenizer is to pull its next token, once or again and again. -/
namespace LiquidTokens

namespace Tokenizer

/-- What is made of the tokens that are pulled, what they report, and the tokenizer that is left. -/
structure Pulled (α : Type) where
  result : α
  events : List Event
  after : Tokenizer

def nextToken (t : Tokenizer) : Checked (Pulled (Option Token)) := do
  match ← t.next with
  | (none, t') => pure ⟨none, [], t'⟩
  | (some e, t') => pure ⟨some e.token, e.events, t'⟩

/-- Drop `k` tokens, then pull one. The first pull that finds nothing is the last. -/
def nth (t : Tokenizer) : Nat → Checked (Pulled (Option Token))
  | 0 => t.nextToken
  | k + 1 => do
    match ← t.next with
    | (none, t') => pure ⟨none, [], t'⟩
    | (some e, t') =>
      let pulled ← t'.nth k
      pure { pulled with events := e.events ++ pulled.events }

def firsts (t : Tokenizer) (n : Nat) : Checked (Pulled (List Token)) := do
  let (es, last) ← t.take n
  pure ⟨es.map Emission.token, es.flatMap Emission.events, last⟩

def fold {α : Type} (put : α → Token → α) (result : α) (t : Tokenizer) : Checked (Pulled α) :=
  match _h : t.next with
  | .error fault => throw fault
  | .ok (none, t') => pure ⟨result, [], t'⟩
  | .ok (some e, t') => do
    let pulled ← t'.fold put (put result e.token)
    pure { pulled with events := e.events ++ pulled.events }
termination_by t.unread
decreasing_by exact unread_lt_of_next _h

end Tokenizer

/-- Tokenizers in the order in which they were made, one of them current. -/
structure Session where
  tokenizers : List Tokenizer
  current : Nat
  current_lt : current < tokenizers.length

namespace Session

inductive Request
  | next
  | iterNext
  | nth (k : Nat)
  | take (n : Nat)
  | collect
  | texts
  | count
  | last
  | bounds
  | line
  | mode
  | raise (message : String)
  | clone
  | use (index : Nat)
  deriving DecidableEq, Repr

inductive Reply
  | token (token : Option Token)
  | tokens (tokens : List Token)
  | texts (texts : List String)
  | count (count : Nat)
  | bounds (lower : Nat) (upper : Option Nat)
  | line (line : LineNumber)
  | mode (mode : Mode)
  | raised (error : SyntaxError)
  | index (index : Nat)
  deriving DecidableEq, Repr

def start (t : Tokenizer) : Session := ⟨[t], 0, Nat.zero_lt_one⟩

def active (s : Session) : Tokenizer :=
  s.tokenizers.get ⟨s.current, s.current_lt⟩

def put (s : Session) (t : Tokenizer) : Session :=
  ⟨s.tokenizers.set s.current t, s.current, by simpa using s.current_lt⟩

def clone (s : Session) : Session :=
  ⟨s.tokenizers ++ [s.active], s.current, by
    have := s.current_lt
    simp only [List.length_append]
    omega⟩

def use (s : Session) (index : Nat) : Session :=
  if h : index < s.tokenizers.length then ⟨s.tokenizers, index, h⟩ else s

def pull {α : Type} (s : Session) (reply : α → Reply) (pulling : Checked (Tokenizer.Pulled α)) :
    Checked (Reply × List Event × Session) := do
  let pulled ← pulling
  pure (reply pulled.result, pulled.events, s.put pulled.after)

/-- Answer a request. No bound on the tokens to come is promised. -/
def perform (s : Session) : Request → Checked (Reply × List Event × Session)
  | .next | .iterNext => s.pull .token s.active.nextToken
  | .nth k => s.pull .token (s.active.nth k)
  | .take n => s.pull .tokens (s.active.firsts n)
  | .collect => s.pull .tokens (s.active.fold (fun tokens token => tokens ++ [token]) [])
  | .texts => s.pull .texts (s.active.fold (fun texts token => texts ++ [token.text]) [])
  | .count => s.pull .count (s.active.fold (fun count _ => count + 1) 0)
  | .last => s.pull .token (s.active.fold (fun _ token => some token) none)
  | .bounds => pure (.bounds 0 none, [], s)
  | .line => pure (.line s.active.line, [], s)
  | .mode => pure (.mode s.active.mode, [], s)
  | .raise message =>
    let error := s.active.syntaxError message
    pure (.raised error, [.syntaxError error], s)
  | .clone => pure (.index s.tokenizers.length, [], s.clone)
  | .use index => pure (.index index, [], s.use index)

def run (s : Session) : List Request → Checked (List (Reply × List Event × Session))
  | [] => pure []
  | q :: rest => do
    let made ← s.perform q
    let others ← made.2.2.run rest
    pure (made :: others)

@[simp] theorem active_start (t : Tokenizer) : (start t).active = t := rfl

@[simp] theorem active_put (s : Session) (t : Tokenizer) : (s.put t).active = t := by
  simp [active, put]

@[simp] theorem active_clone (s : Session) : s.clone.active = s.active := by
  simp [active, clone, List.getElem_append_left s.current_lt]

end Session
end LiquidTokens
