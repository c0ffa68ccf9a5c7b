/-! How a source is split, and how its lines are counted. -/
namespace LiquidTokens

/-- The line that comes next, or nothing when lines are not tracked. -/
abbrev LineNumber := Option UInt32

namespace LineNumber

def last : Nat := UInt32.size - 1

def advance (line : LineNumber) (n : Nat) : LineNumber :=
  line.map fun k => UInt32.ofNat (min (k.toNat + n) last)

def describe : LineNumber → String
  | none => "None"
  | some k => s!"Some({k})"

@[simp] theorem advance_none (n : Nat) : advance none n = none := rfl

theorem toNat_ofNat_min_last (n : Nat) : (UInt32.ofNat (min n last)).toNat = min n last := by
  exact UInt32.toNat_ofNat_of_lt' (Nat.lt_of_le_of_lt (Nat.min_le_right _ _) (by decide))

theorem toNat_advance (k : UInt32) (n : Nat) :
    (advance (some k) n).map UInt32.toNat = some (min (k.toNat + n) last) := by
  simp only [advance, Option.map_some]
  rw [toNat_ofNat_min_last]

theorem advance_advance (line : LineNumber) (m n : Nat) :
    (line.advance m).advance n = line.advance (m + n) := by
  cases line with
  | none => rfl
  | some k =>
    simp only [advance, Option.map_some, toNat_ofNat_min_last]
    congr 2
    simp only [Nat.min_def]
    split <;> split <;> split <;> omega

end LineNumber

/-- Markup mode splits at delimiters, line mode at newlines. -/
inductive Mode
  | markup
  | line
  deriving DecidableEq, Repr, Inhabited

namespace Mode

def name : Mode → String
  | .markup => "Markup"
  | .line => "Line"

end Mode

structure Options where
  numbered : Bool := false
  firstLine : LineNumber := none
  mode : Mode := .markup
  deriving DecidableEq, Repr, Inhabited

namespace Options

inductive Setting
  | numbered (on : Bool)
  | firstLine (line : UInt32)
  | mode (mode : Mode)
  deriving DecidableEq, Repr

/-- The last choice of a kind stands. -/
def set (o : Options) : Setting → Options
  | .numbered on => { o with numbered := on }
  | .firstLine line => { o with firstLine := some line }
  | .mode mode => { o with mode := mode }

def ofSettings (settings : List Setting) : Options :=
  settings.foldl set {}

/-- Lines are counted from the first line if it is given, and otherwise from one if lines are to be
numbered at all. -/
def initialLine (o : Options) : LineNumber :=
  match o.firstLine with
  | some line => some line
  | none => if o.numbered then some 1 else none

end Options

end LiquidTokens
