import LiquidTokens.Source

/-! Tokens: exact pieces of a source, each with its span. The kind of a token is read off its text
alone, by the bytes that open it and, behind `{{`, by a walk over what follows. The walk goes by pairs:
`}` and `}` close the variable, `{` and `%` turn it into a tag. A brace outlives a `}` or `%` that does
not complete its pair, so `}%}` closes too, and `{}%` redirects. -/
namespace LiquidTokens

namespace Delimiter

@[match_pattern] abbrev openBrace : UInt8 := 0x7b

@[match_pattern] abbrev closeBrace : UInt8 := 0x7d

@[match_pattern] abbrev percent : UInt8 := 0x25

@[match_pattern] abbrev newline : UInt8 := 0x0a

def tagOpen : List UInt8 := [openBrace, percent]

def tagClose : List UInt8 := [percent, closeBrace]

def variableOpen : List UInt8 := [openBrace, openBrace]

/-- Text stops before a variable, a tag and an empty pair of braces. -/
def startsMarkup : List UInt8 → Bool
  | openBrace :: b :: _ => b == openBrace || b == percent || b == closeBrace
  | _ => false

def marksBrace (b : UInt8) : Bool :=
  b == openBrace || b == percent || b == closeBrace

def startsNewline : List UInt8 → Bool
  | b :: _ => b == newline
  | [] => false

@[simp] theorem length_tagOpen : tagOpen.length = 2 := rfl

@[simp] theorem length_tagClose : tagClose.length = 2 := rfl

@[simp] theorem length_variableOpen : variableOpen.length = 2 := rfl

theorem not_variableOpen_of_tagOpen (inside : List UInt8) : ¬ variableOpen <+: tagOpen ++ inside := by
  intro h
  simp only [variableOpen, tagOpen, List.cons_append, List.cons_prefix_cons] at h
  exact absurd h.2.1 (by decide)

@[simp] theorem startsMarkup_nil : startsMarkup [] = false := rfl

@[simp] theorem startsMarkup_singleton (a : UInt8) : startsMarkup [a] = false := by
  simp [startsMarkup]

@[simp] theorem startsMarkup_cons_cons (a b : UInt8) (rest : List UInt8) :
    startsMarkup (a :: b :: rest) =
      (a == openBrace && (b == openBrace || b == percent || b == closeBrace)) := by
  by_cases ha : a = openBrace
  · subst ha
    rfl
  · have hfalse : (a == openBrace) = false := beq_false_of_ne ha
    rw [hfalse, Bool.false_and]
    unfold startsMarkup
    split
    · rename_i heq
      exact absurd (List.cons.inj heq).1 ha
    · rfl

/-- Behind the last byte a zero may be read, which marks no brace. -/
theorem startsMarkup_openBrace_eq (behind : List UInt8) :
    startsMarkup (openBrace :: behind) = marksBrace (behind[0]?.getD 0) := by
  cases behind with
  | nil => rfl
  | cons b behind => rfl

@[simp] theorem startsNewline_nil : startsNewline [] = false := rfl

@[simp] theorem startsNewline_cons (b : UInt8) (rest : List UInt8) :
    startsNewline (b :: rest) = (b == newline) := rfl

theorem startsMarkup_iff {l : List UInt8} :
    startsMarkup l = true ↔ ∃ b rest, l = openBrace :: b :: rest ∧
      (b = openBrace ∨ b = percent ∨ b = closeBrace) := by
  unfold startsMarkup
  split
  · simp [or_assoc]
  · rename_i h
    simp only [Bool.false_eq_true, false_iff]
    rintro ⟨b, rest, rfl, _⟩
    exact h b rest rfl

end Delimiter

namespace Variable

/-- How a walk ends, with the number of bytes that it read. -/
inductive Ending
  | closed (read : Nat)
  | redirected (read : Nat)
  | unterminated
  deriving DecidableEq, Repr

def Ending.map (g : Nat → Nat) : Ending → Ending
  | closed read => closed (g read)
  | redirected read => redirected (g read)
  | unterminated => unterminated

/-- The half of a pair that waits for its other half. -/
inductive Waiting
  | nothing
  | openBrace
  | closeBrace
  deriving DecidableEq, Repr

/-- What waits behind a byte that completes no pair. -/
def Waiting.next : Waiting → UInt8 → Waiting
  | .openBrace, Delimiter.closeBrace => .openBrace
  | .closeBrace, Delimiter.percent => .closeBrace
  | _, Delimiter.openBrace => .openBrace
  | _, Delimiter.closeBrace => .closeBrace
  | _, _ => .nothing

def walk (waiting : Waiting) (read : Nat) : List UInt8 → Ending
  | [] => .unterminated
  | b :: rest =>
    if waiting = .closeBrace ∧ b = Delimiter.closeBrace then .closed (read + 1)
    else if waiting = .openBrace ∧ b = Delimiter.percent then .redirected (read + 1)
    else walk (waiting.next b) (read + 1) rest

/-- The ending of the variable whose body, and all that follows, is `body`. -/
def ending (body : List UInt8) : Ending :=
  walk .nothing 0 body

theorem ending_nil : ending [] = .unterminated := rfl

/-- The walk as it runs: the number of bytes that it read must be a word. -/
def scan (body : List UInt8) : Checked Ending :=
  match ending body with
  | .closed read => .closed <$> Word.check body.length read
  | .redirected read => .redirected <$> Word.check body.length read
  | .unterminated => pure .unterminated

theorem Ending.map_map (g h : Nat → Nat) (e : Ending) : (e.map g).map h = e.map (h ∘ g) := by
  cases e <;> rfl

theorem Ending.map_eq_redirected_iff {g : Nat → Nat} {e : Ending} {k : Nat} :
    e.map g = redirected k ↔ ∃ j, e = redirected j ∧ g j = k := by
  cases e <;> simp [map]

theorem walk_add (w : Waiting) (n m : Nat) (body : List UInt8) :
    walk w (n + m) body = (walk w n body).map (· + m) := by
  induction body generalizing w n with
  | nil => rfl
  | cons b rest ih =>
    unfold walk
    split
    · exact congrArg Ending.closed (Nat.add_right_comm n m 1)
    · split
      · exact congrArg Ending.redirected (Nat.add_right_comm n m 1)
      · rw [Nat.add_right_comm]
        exact ih _ _

theorem read_le_of_walk {w : Waiting} {n k : Nat} {body : List UInt8}
    (h : walk w n body = .closed k ∨ walk w n body = .redirected k) :
    n < k ∧ k ≤ n + body.length := by
  induction body generalizing w n with
  | nil => simp [walk] at h
  | cons b rest ih =>
    unfold walk at h
    split at h
    · simp at h
      simp only [List.length_cons]
      omega
    · split at h
      · simp at h
        simp only [List.length_cons]
        omega
      · have := ih h
        simp only [List.length_cons]
        omega

theorem scan_eq (body : List UInt8) : scan body = .ok (ending body) := by
  unfold scan
  cases h : ending body with
  | closed read =>
    have hread := (read_le_of_walk (Or.inl h)).2
    rw [Nat.zero_add] at hread
    simp only [Word.check_of_le hread]
    rfl
  | redirected read =>
    have hread := (read_le_of_walk (Or.inr h)).2
    rw [Nat.zero_add] at hread
    simp only [Word.check_of_le hread]
    rfl
  | unterminated => rfl

end Variable

inductive Kind
  | text
  | var
  | tag
  deriving DecidableEq, Repr

namespace Kind

def ofEnding : Variable.Ending → Kind
  | .redirected _ => .tag
  | .closed _ | .unterminated => .var

/-- `{%` starts a tag, and `{{` what the walk behind it makes of it. A lone opener has the kind of what
it opens. -/
def ofBytes : List UInt8 → Kind
  | Delimiter.openBrace :: Delimiter.percent :: _ => .tag
  | Delimiter.openBrace :: Delimiter.openBrace :: body => ofEnding (Variable.ending body)
  | _ => .text

/-- The kind as it is read off when it is asked for. -/
def scan : List UInt8 → Checked Kind
  | Delimiter.openBrace :: Delimiter.openBrace :: body => ofEnding <$> Variable.scan body
  | bytes => pure (ofBytes bytes)

def ofText (s : String) : Kind :=
  ofBytes (utf8 s)

theorem scan_eq (bytes : List UInt8) : scan bytes = .ok (ofBytes bytes) := by
  unfold scan
  split
  · rw [Variable.scan_eq]
    rfl
  · rfl

def name : Kind → String
  | .text => "Text"
  | .var => "Variable"
  | .tag => "Tag"

instance : ToString Kind := ⟨name⟩

theorem name_injective {a b : Kind} (h : a.name = b.name) : a = b := by
  cases a <;> cases b <;> first | rfl | simp [name] at h

end Kind

structure Token where
  text : String
  span : Span
  deriving DecidableEq, Repr, Inhabited

namespace Token

def ofSpan (text : String) (span : Span) : Checked Token := do
  if text.utf8ByteSize = (← span.length) then pure ⟨text, span⟩
  else throw (.textSpanMismatch span.start span.stop)

def length (t : Token) : Nat :=
  t.text.utf8ByteSize

def isEmpty (t : Token) : Bool :=
  t.length == 0

def kind (t : Token) : Kind :=
  Kind.ofText t.text

def newlines (t : Token) : Nat :=
  (utf8 t.text).count Delimiter.newline

theorem ofSpan_eq_ok_iff {s : String} {span : Span} {t : Token} :
    ofSpan s span = .ok t ↔
      span.start ≤ span.stop ∧ s.utf8ByteSize = span.stop - span.start ∧ t = ⟨s, span⟩ := by
  unfold ofSpan
  by_cases h : span.start ≤ span.stop
  · rw [Span.length_of_le h]
    by_cases hs : s.utf8ByteSize = span.stop - span.start
    · simp [bind, Except.bind, pure, Except.pure, h, hs, eq_comm]
    · simp [bind, Except.bind, throw, throwThe, MonadExceptOf.throw, hs]
  · simp [Span.length, h, bind, Except.bind, throw, throwThe, MonadExceptOf.throw]

end Token

end LiquidTokens
