import Mathlib.Data.List.TakeWhile
import Mathlib.Tactic.SplitIfs
import LiquidTokens.Arguments

/-! What a numeral is, and what is wrong with a text that is none, apart from how a text is read. The main
statements are `read_eq_ok_iff` and `read_eq_error_iff`. -/
namespace LiquidTokens
namespace Numeral

def unsigned : List Char → List Char
  | '+' :: rest => rest
  | cs => cs

/-- The value of the digits in front of the first character that is none, behind at most one plus sign. -/
def leadingValue (s : String) : Nat :=
  Nat.ofDigitChars 10 ((unsigned s.toList).takeWhile Char.isDigit) 0

/-- One or more digits of this value, with any number of zeros in front, behind at most one plus sign. -/
structure Denotes (s : String) (n : Nat) : Prop where
  ne_nil : unsigned s.toList ≠ []
  isDigit : ∀ c ∈ unsigned s.toList, c.isDigit
  value_eq : Nat.ofDigitChars 10 (unsigned s.toList) 0 = n

/-- No numeral of 32 bits, for this reason. A number is too large even if something that is no digit
comes behind it. -/
structure Refuses (s : String) (cause : NumeralError) : Prop where
  not_denotes : ∀ n < UInt32.size, ¬ Denotes s n
  eq_empty_iff : cause = .empty ↔ s = ""
  eq_tooLarge_iff : cause = .tooLarge ↔ UInt32.size ≤ leadingValue s

theorem Refuses.unique {s : String} {cause cause' : NumeralError} (h : Refuses s cause)
    (h' : Refuses s cause') : cause = cause' := by
  have hempty := h.eq_empty_iff.trans h'.eq_empty_iff.symm
  have hlarge := h.eq_tooLarge_iff.trans h'.eq_tooLarge_iff.symm
  cases cause <;> cases cause' <;> simp_all

section Digits

variable {c : Char} {cs : List Char} {value : Nat}

theorem digit?_eq : digit? c = if c.isDigit then some (c.toNat - '0'.toNat) else none := by
  simp [digit?, Char.isDigit, Char.le_def]

theorem le_ofDigitChars : value ≤ Nat.ofDigitChars 10 cs value := by
  induction cs generalizing value with
  | nil => exact Nat.le_refl _
  | cons c rest ih =>
    rw [Nat.ofDigitChars_cons]
    exact Nat.le_trans (by omega) ih

/-- Digits are read up to the first one that makes the value too large. As the value only grows, that is
a matter of all the digits in a row. -/
theorem readDigits_eq (hv : value < UInt32.size) :
    readDigits value cs =
      if UInt32.size ≤ Nat.ofDigitChars 10 (cs.takeWhile Char.isDigit) value then .error .tooLarge
      else if cs.all Char.isDigit then .ok (Nat.ofDigitChars 10 cs value)
      else .error .invalidDigit := by
  induction cs generalizing value with
  | nil => simp [readDigits, hv]
  | cons c rest ih =>
    rw [readDigits]
    by_cases hc : c.isDigit
    · rw [digit?_eq, if_pos hc, List.takeWhile_cons_of_pos hc, Nat.ofDigitChars_cons,
        Nat.ofDigitChars_cons]
      dsimp only
      by_cases hlarge : UInt32.size ≤ 10 * value + (c.toNat - '0'.toNat)
      · rw [if_pos hlarge, if_pos (Nat.le_trans hlarge le_ofDigitChars)]
      · rw [if_neg hlarge, ih (Nat.lt_of_not_le hlarge)]
        simp [hc]
    · rw [digit?_eq, if_neg hc, List.takeWhile_cons_of_neg hc, Nat.ofDigitChars_nil,
        if_neg (Nat.not_le_of_lt hv),
        if_neg fun h => hc (List.all_eq_true.mp h c List.mem_cons_self)]

/-- Only a sign alone is not taken off: it is left to be refused as no digit. -/
theorem digits_eq (h : cs ≠ ['+']) : digits cs = unsigned cs := by
  match cs, h with
  | [], _ => rfl
  | c :: rest, h =>
    by_cases hc : c = '+'
    · subst hc
      cases rest with
      | nil => exact absurd rfl h
      | cons => rfl
    · simp [digits, unsigned, hc]

theorem unsigned_ne_nil (hne : cs ≠ []) (h : cs ≠ ['+']) : unsigned cs ≠ [] := by
  unfold unsigned
  split
  · rename_i rest
    rintro rfl
    exact h rfl
  · exact hne

end Digits

variable {s : String}

theorem read_of_ne_empty (h : s ≠ "") :
    read s =
      if UInt32.size ≤ leadingValue s then .error .tooLarge
      else if unsigned s.toList ≠ [] ∧ (unsigned s.toList).all Char.isDigit then
        .ok (UInt32.ofNat (Nat.ofDigitChars 10 (unsigned s.toList) 0))
      else .error .invalidDigit := by
  have hne : s.toList ≠ [] := mt String.toList_eq_nil_iff.mp h
  rw [read, if_neg hne]
  by_cases hsign : s.toList = ['+']
  · rw [leadingValue, hsign]
    decide
  · rw [digits_eq hsign, readDigits_eq (by decide), leadingValue]
    simp only [ne_eq, unsigned_ne_nil hne hsign, not_false_eq_true, true_and]
    split_ifs <;> rfl

theorem Denotes.leadingValue_eq {n : Nat} (h : Denotes s n) : leadingValue s = n := by
  rw [leadingValue, List.takeWhile_eq_self_iff.mpr h.isDigit, h.value_eq]

theorem Denotes.ne_empty {n : Nat} (h : Denotes s n) : s ≠ "" := by
  rintro rfl
  exact h.ne_nil rfl

theorem read_eq_ok_iff {line : UInt32} : read s = .ok line ↔ Denotes s line.toNat := by
  constructor
  · intro h
    have hne : s ≠ "" := by
      rintro rfl
      cases h
    rw [read_of_ne_empty hne] at h
    split_ifs at h with hlarge hdigits
    have hall := List.all_eq_true.mp hdigits.2
    have hself := List.takeWhile_eq_self_iff.mpr hall
    rw [leadingValue, hself, Nat.not_le] at hlarge
    cases h
    exact ⟨hdigits.1, hall, (UInt32.toNat_ofNat_of_lt' hlarge).symm⟩
  · intro h
    have hlt : ¬ UInt32.size ≤ leadingValue s := by
      rw [h.leadingValue_eq]
      exact Nat.not_le_of_lt line.toNat_lt
    rw [read_of_ne_empty h.ne_empty, if_neg hlt,
      if_pos ⟨h.ne_nil, List.all_eq_true.mpr h.isDigit⟩, h.value_eq, UInt32.ofNat_toNat]

theorem refuses_of_read {cause : NumeralError} (h : read s = .error cause) : Refuses s cause := by
  have hnone : ∀ n < UInt32.size, ¬ Denotes s n := by
    intro n hn hs
    rw [← UInt32.toNat_ofNat_of_lt' hn, ← read_eq_ok_iff, h] at hs
    cases hs
  by_cases hne : s = ""
  · subst hne
    cases h
    exact ⟨hnone, by decide, by decide⟩
  · rw [read_of_ne_empty hne] at h
    split_ifs at h with hlarge
    · cases h
      exact ⟨hnone, by simp [hne], by simp [hlarge]⟩
    · cases h
      exact ⟨hnone, by simp [hne], by simp [hlarge]⟩

theorem read_eq_error_iff {cause : NumeralError} : read s = .error cause ↔ Refuses s cause := by
  refine ⟨refuses_of_read, fun h => ?_⟩
  cases hs : read s with
  | error cause' => rw [(refuses_of_read hs).unique h]
  | ok line => exact absurd (read_eq_ok_iff.mp hs) (h.not_denotes _ line.toNat_lt)

end Numeral
end LiquidTokens
