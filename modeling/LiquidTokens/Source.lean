/-! A template's text beside its UTF-8 bytes, and the ranges of its offsets, which all count bytes. What
a run demands of its own bounds is checked. Scanning code lives in `Checked`, so that a broken bound is a
value one can ask about, and a proof that none is broken has something to say. -/
namespace LiquidTokens

/-- The bound that a checked operation found broken. -/
inductive Fault
  | advancePastEnd (target length : Nat)
  | sliceReversed (start stop : Nat)
  | slicePastEnd (stop length : Nat)
  | sliceInsideCharacter
  | spanReversed (start stop : Nat)
  | textSpanMismatch (start stop : Nat)
  | additionOverflow
  | subtractionOverflow
  | argumentNotUnicode
  deriving DecidableEq, Repr

abbrev Checked := Except Fault

theorem Checked.bind_eq_ok_iff {α β : Type} {x : Checked α} {f : α → Checked β} {b : β} :
    (x >>= f) = .ok b ↔ ∃ a, x = .ok a ∧ f a = .ok b := by
  cases x with
  | error e => simp [bind, Except.bind]
  | ok a => simp [bind, Except.bind]

namespace Word

/-- The length that no text in memory exceeds: half of what words of 64 bits can count. -/
def maxLength : Nat := 0x7fffffffffffffff

/-- The bound of the words that count the bytes of a text of this length. They have 64 bits; a text too
long for these, as none in memory is, would be counted in words that are just wide enough. -/
def bound (length : Nat) : Nat :=
  max UInt64.size (length + 1)

def check (length n : Nat) : Checked Nat :=
  if n < bound length then pure n else throw .additionOverflow

def add (length a b : Nat) : Checked Nat :=
  check length (a + b)

theorem bound_of_le {length : Nat} (h : length ≤ maxLength) : bound length = UInt64.size := by
  simp only [maxLength] at h
  exact Nat.max_eq_left (Nat.le_trans (Nat.succ_le_succ h) (by decide))

theorem check_of_le {length n : Nat} (h : n ≤ length) : check length n = .ok n := by
  have hlt : n < bound length := Nat.lt_of_lt_of_le (Nat.lt_succ_of_le h) (Nat.le_max_right _ _)
  rw [check, if_pos hlt]
  rfl

theorem add_of_le {length a b : Nat} (h : a + b ≤ length) : add length a b = .ok (a + b) :=
  check_of_le h

/-- Behind the end of a text words have 64 bits, whatever its length. -/
theorem add_of_lt {length a b : Nat} (h : length < a + b) :
    add length a b = if a + b < UInt64.size then .ok (a + b) else .error .additionOverflow := by
  have hbound : a + b < bound length ↔ a + b < UInt64.size := by
    unfold bound
    omega
  simp only [add, check, hbound]
  rfl

end Word

namespace Fault

def message? : Fault → Option String
  | .advancePastEnd target length => some s!"advance to {target} past source length {length}"
  | .sliceReversed start stop => some s!"slice start {start} exceeds end {stop}"
  | .slicePastEnd stop length => some s!"slice end {stop} exceeds source length {length}"
  | .sliceInsideCharacter => none
  | .spanReversed start stop => some s!"span start {start} exceeds end {stop}"
  | .textSpanMismatch start stop => some s!"token text does not match span {start}..{stop}"
  | .additionOverflow => some "attempt to add with overflow"
  | .subtractionOverflow => some "attempt to subtract with overflow"
  | .argumentNotUnicode => some "called `Result::unwrap()` on an `Err` value"

end Fault

/-- The bytes from `start` up to, and without, `stop`. -/
structure Span where
  start : Nat
  stop : Nat
  deriving DecidableEq, Repr, Inhabited

namespace Span

def between (start stop : Nat) : Checked Span :=
  if start ≤ stop then pure ⟨start, stop⟩ else throw (.spanReversed start stop)

def length (s : Span) : Checked Nat :=
  if s.start ≤ s.stop then pure (s.stop - s.start) else throw .subtractionOverflow

def isEmpty (s : Span) : Bool :=
  s.start == s.stop

instance : ToString Span :=
  ⟨fun s => s!"{s.start}..{s.stop}"⟩

theorem between_of_le {a b : Nat} (h : a ≤ b) : between a b = .ok ⟨a, b⟩ := by
  simp [between, h, pure, Except.pure]

theorem length_of_le {s : Span} (h : s.start ≤ s.stop) : s.length = .ok (s.stop - s.start) := by
  simp [length, h, pure, Except.pure]

end Span

/-- The UTF-8 encoding of a text, byte by byte. -/
def utf8 (s : String) : List UInt8 :=
  s.toByteArray.data.toList

@[simp] theorem length_utf8 (s : String) : (utf8 s).length = s.utf8ByteSize := rfl

theorem utf8_injective {s t : String} (h : utf8 s = utf8 t) : s = t := by
  apply String.toByteArray_inj.mp
  exact ByteArray.ext (Array.ext' h)

theorem utf8_append (s t : String) : utf8 (s ++ t) = utf8 s ++ utf8 t := by
  simp [utf8]

theorem utf8_join (texts : List String) : utf8 (String.join texts) = texts.flatMap utf8 := by
  induction texts with
  | nil => rfl
  | cons s texts ih => rw [String.join_cons, utf8_append, ih, List.flatMap_cons]

/-- A text together with its bytes, which scanning reads. -/
structure Source where
  text : String
  bytes : List UInt8
  bytes_eq : bytes = utf8 text

namespace Source

def ofText (text : String) : Source :=
  ⟨text, utf8 text, rfl⟩

instance : Inhabited Source := ⟨ofText ""⟩

theorem ext_text {s t : Source} (h : s.text = t.text) : s = t := by
  obtain ⟨x, b, hb⟩ := s
  obtain ⟨y, c, hc⟩ := t
  obtain rfl : x = y := h
  subst hb hc
  rfl

instance : DecidableEq Source := fun s t =>
  decidable_of_iff (s.text = t.text) ⟨ext_text, congrArg text⟩

def length (s : Source) : Nat :=
  s.text.utf8ByteSize

def isEmpty (s : Source) : Bool :=
  s.length == 0

@[simp] theorem text_ofText (t : String) : (ofText t).text = t := rfl

@[simp] theorem bytes_ofText (t : String) : (ofText t).bytes = utf8 t := rfl

@[simp] theorem ofText_text (s : Source) : ofText s.text = s := ext_text rfl

@[simp] theorem length_bytes (s : Source) : s.bytes.length = s.length := by
  simp [s.bytes_eq, length]

/-- The offset lies between two characters. -/
def OnBoundary (s : Source) (i : Nat) : Prop :=
  String.Pos.Raw.IsValid s.text ⟨i⟩

instance (s : Source) (i : Nat) : Decidable (s.OnBoundary i) :=
  inferInstanceAs (Decidable (String.Pos.Raw.IsValid s.text ⟨i⟩))

/-- The text between two offsets. Order is checked first, then the end, then the boundaries. -/
def slice (s : Source) (start stop : Nat) : Checked String :=
  if stop < start then throw (.sliceReversed start stop)
  else if s.length < stop then throw (.slicePastEnd stop s.length)
  else if h : s.OnBoundary start ∧ s.OnBoundary stop then
    pure (s.text.extract ⟨⟨start⟩, h.1⟩ ⟨⟨stop⟩, h.2⟩)
  else throw .sliceInsideCharacter

theorem OnBoundary.le_length {s : Source} {i : Nat} (h : s.OnBoundary i) : i ≤ s.length :=
  String.Pos.Raw.IsValid.le_utf8ByteSize h

theorem utf8_extract {s : Source} {a b : Nat} (ha : s.OnBoundary a) (hb : s.OnBoundary b) :
    utf8 (s.text.extract ⟨⟨a⟩, ha⟩ ⟨⟨b⟩, hb⟩) = (s.bytes.drop a).take (b - a) := by
  rw [s.bytes_eq]
  simp [utf8, ByteArray.data_extract, List.extract_eq_take_drop]

theorem slice_of_onBoundary {s : Source} {a b : Nat} (hab : a ≤ b) (ha : s.OnBoundary a)
    (hb : s.OnBoundary b) : s.slice a b = .ok (s.text.extract ⟨⟨a⟩, ha⟩ ⟨⟨b⟩, hb⟩) := by
  unfold slice
  rw [if_neg (Nat.not_lt.mpr hab), if_neg (Nat.not_lt.mpr hb.le_length), dif_pos ⟨ha, hb⟩]
  rfl

/-- A slice is there exactly between ordered boundaries, and holds the bytes between them. -/
theorem slice_eq_ok_iff {s : Source} {a b : Nat} {t : String} :
    s.slice a b = .ok t ↔
      a ≤ b ∧ s.OnBoundary a ∧ s.OnBoundary b ∧ utf8 t = (s.bytes.drop a).take (b - a) := by
  by_cases h : a ≤ b ∧ s.OnBoundary a ∧ s.OnBoundary b
  · obtain ⟨hab, ha, hb⟩ := h
    rw [slice_of_onBoundary hab ha hb]
    constructor
    · intro ht
      cases ht
      exact ⟨hab, ha, hb, utf8_extract ha hb⟩
    · rintro ⟨_, _, _, ht⟩
      exact congrArg Except.ok (utf8_injective ((utf8_extract ha hb).trans ht.symm))
  · constructor
    · intro ht
      unfold slice at ht
      split at ht
      · cases ht
      · split at ht
        · cases ht
        · split at ht
          · rename_i hab _ hb
            exact absurd ⟨Nat.not_lt.mp hab, hb⟩ h
          · cases ht
    · rintro ⟨hab, ha, hb, _⟩
      exact absurd ⟨hab, ha, hb⟩ h

theorem utf8ByteSize_of_slice {s : Source} {a b : Nat} {t : String} (h : s.slice a b = .ok t) :
    t.utf8ByteSize = b - a := by
  obtain ⟨_, _, hb, ht⟩ := slice_eq_ok_iff.mp h
  have hle := hb.le_length
  rw [← length_utf8, ht, List.length_take, List.length_drop, length_bytes]
  omega

end Source

end LiquidTokens
