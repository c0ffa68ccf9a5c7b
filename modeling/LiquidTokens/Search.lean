/-! Leftmost search in a list. A search asks a question of every suffix, so that one function finds a
byte, a pair of bytes or a whole needle. All scanning asks a finder, and relies on no more than that a
finder answers with the leftmost place there is. -/
namespace LiquidTokens

namespace Search

/-- The least index whose suffix answers `p`, where the head of the list has index `i`. The empty
suffix is asked too: an empty needle is found at the end. -/
def seek {α : Type} (p : List α → Bool) (i : Nat) : List α → Option Nat
  | [] => if p [] then some i else none
  | a :: rest => if p (a :: rest) then some i else seek p (i + 1) rest

variable {α : Type} {p : List α → Bool}

theorem seek_add (i j : Nat) (l : List α) : seek p (i + j) l = (seek p i l).map (· + j) := by
  induction l generalizing i with
  | nil =>
    unfold seek
    split <;> rfl
  | cons a rest ih =>
    unfold seek
    split
    · rfl
    · rw [Nat.add_right_comm]
      exact ih (i + 1)

theorem seek_cons_of_eq_false {a : α} {l : List α} (h : p (a :: l) = false) :
    seek p 0 (a :: l) = (seek p 0 l).map (· + 1) := by
  rw [seek, h, if_neg Bool.false_ne_true, seek_add]

theorem seek_eq_none_iff (i : Nat) (l : List α) :
    seek p i l = none ↔ ∀ k ≤ l.length, p (l.drop k) = false := by
  induction l generalizing i with
  | nil => simp [seek]
  | cons a rest ih =>
    by_cases h : p (a :: rest)
    · simp only [seek, h, if_true, reduceCtorEq, false_iff]
      exact fun hk => by simpa [h] using hk 0 (Nat.zero_le _)
    · simp only [seek, h, Bool.false_eq_true, if_false, ih]
      constructor
      · intro hr k hk
        cases k with
        | zero => simpa using h
        | succ k => simpa using hr k (by simpa using hk)
      · intro hr k hk
        simpa using hr (k + 1) (by simpa using hk)

theorem seek_eq_some_iff (i j : Nat) (l : List α) :
    seek p i l = some j ↔ ∃ k ≤ l.length, j = i + k ∧ p (l.drop k) = true ∧
      ∀ m < k, p (l.drop m) = false := by
  induction l generalizing i with
  | nil =>
    by_cases h : p []
    · simp [seek, h, eq_comm]
    · simp [seek, h]
  | cons a rest ih =>
    by_cases h : p (a :: rest)
    · simp only [seek, h, if_true, Option.some.injEq]
      constructor
      · rintro rfl
        exact ⟨0, Nat.zero_le _, rfl, by simpa using h, by simp⟩
      · rintro ⟨k, _, rfl, _, hm⟩
        cases k with
        | zero => rfl
        | succ k => simpa [h] using hm 0 (Nat.succ_pos k)
    · simp only [seek, h, Bool.false_eq_true, if_false, ih]
      constructor
      · rintro ⟨k, hk, rfl, hp, hm⟩
        refine ⟨k + 1, by simpa using hk, by omega, by simpa using hp, fun m hmk => ?_⟩
        cases m with
        | zero => simpa using h
        | succ m => simpa using hm m (by omega)
      · rintro ⟨k, hk, rfl, hp, hm⟩
        cases k with
        | zero => simp [h] at hp
        | succ k =>
          refine ⟨k, by simpa using hk, by omega, by simpa using hp, fun m hmk => ?_⟩
          simpa using hm (m + 1) (by omega)

theorem seek_zero_eq_some_iff {n : Nat} {l : List α} :
    seek p 0 l = some n ↔ n ≤ l.length ∧ p (l.drop n) = true ∧ ∀ m < n, p (l.drop m) = false := by
  rw [seek_eq_some_iff]
  constructor
  · rintro ⟨k, hk, rfl, hp, hm⟩
    rw [Nat.zero_add]
    exact ⟨hk, hp, hm⟩
  · rintro ⟨hn, hp, hm⟩
    exact ⟨n, hn, (Nat.zero_add n).symm, hp, hm⟩

/-- A search may start behind suffixes that do not answer. -/
theorem seek_drop_of_eq_false {n : Nat} {l : List α} (hle : n ≤ l.length)
    (h : ∀ m < n, p (l.drop m) = false) : seek p 0 l = (seek p 0 (l.drop n)).map (· + n) := by
  induction n generalizing l with
  | zero =>
    rw [List.drop_zero]
    cases seek p 0 l <;> rfl
  | succ n ih =>
    cases l with
    | nil => cases hle
    | cons a l =>
      have htail (m : Nat) (hm : m < n) : p (l.drop m) = false := h (m + 1) (by omega)
      rw [seek_cons_of_eq_false (h 0 (Nat.succ_pos n)), ih (Nat.le_of_succ_le_succ hle) htail,
        List.drop_succ_cons, Option.map_map]
      rfl

theorem append_cons_inj {q : α → Prop} {l m r s : List α} {x y : α} (hl : ∀ a ∈ l, q a)
    (hm : ∀ a ∈ m, q a) (hx : ¬ q x) (hy : ¬ q y) (h : l ++ x :: r = m ++ y :: s) :
    l = m ∧ x = y ∧ r = s := by
  induction l generalizing m with
  | nil =>
    cases m with
    | nil =>
      obtain ⟨rfl, rfl⟩ := List.cons.inj h
      exact ⟨rfl, rfl, rfl⟩
    | cons b m =>
      obtain rfl := (List.cons.inj h).1
      exact absurd (hm x List.mem_cons_self) hx
  | cons a l ih =>
    cases m with
    | nil =>
      obtain rfl := (List.cons.inj h).1
      exact absurd (hl a List.mem_cons_self) hy
    | cons b m =>
      obtain ⟨rfl, htail⟩ := List.cons.inj h
      obtain ⟨rfl, hrest⟩ := ih (List.forall_mem_cons.mp hl).2 (List.forall_mem_cons.mp hm).2 htail
      exact ⟨rfl, hrest⟩

end Search

/-- A search for a byte and a search for a needle, both from the left. -/
structure Finder where
  byte? : UInt8 → List UInt8 → Option Nat
  needle? : List UInt8 → List UInt8 → Option Nat
  byte?_eq_some_iff : ∀ {b : UInt8} {bytes : List UInt8} {n : Nat},
    byte? b bytes = some n ↔ bytes[n]? = some b ∧ ∀ m < n, bytes[m]? ≠ some b
  needle?_eq_some_iff : ∀ {needle bytes : List UInt8} {n : Nat},
    needle? needle bytes = some n ↔
      n ≤ bytes.length ∧ needle <+: bytes.drop n ∧ ∀ m < n, ¬ needle <+: bytes.drop m

namespace Finder

def startsWith (b : UInt8) : List UInt8 → Bool
  | a :: _ => a == b
  | [] => false

theorem startsWith_drop_iff {b : UInt8} {bytes : List UInt8} {n : Nat} :
    startsWith b (bytes.drop n) = true ↔ bytes[n]? = some b := by
  rw [← List.head?_drop]
  cases bytes.drop n with
  | nil => simp [startsWith]
  | cons a behind => simp [startsWith]

def scan : Finder where
  byte? b := Search.seek (startsWith b) 0
  needle? needle := Search.seek needle.isPrefixOf 0
  byte?_eq_some_iff := by
    intro b bytes n
    simp only [Search.seek_zero_eq_some_iff, ← Bool.not_eq_true, startsWith_drop_iff]
    constructor
    · rintro ⟨_, hn⟩
      exact hn
    · intro hn
      exact ⟨Nat.le_of_lt (List.getElem?_eq_some_iff.mp hn.1).1, hn⟩
  needle?_eq_some_iff := by
    intro needle bytes n
    simp only [Search.seek_zero_eq_some_iff, ← Bool.not_eq_true, List.isPrefixOf_iff_prefix]

variable (find : Finder)

theorem byte?_lt {b : UInt8} {bytes : List UInt8} {n : Nat} (h : find.byte? b bytes = some n) :
    n < bytes.length :=
  (List.getElem?_eq_some_iff.mp (find.byte?_eq_some_iff.mp h).1).1

theorem getElem?_ne_of_byte?_eq_none {b : UInt8} {bytes : List UInt8}
    (h : find.byte? b bytes = none) (n : Nat) : bytes[n]? ≠ some b := by
  induction n using Nat.strongRecOn with
  | ind n ih =>
    intro hn
    rw [find.byte?_eq_some_iff.mpr ⟨hn, ih⟩] at h
    cases h

theorem not_prefix_of_needle?_eq_none {needle bytes : List UInt8}
    (h : find.needle? needle bytes = none) {n : Nat} (hle : n ≤ bytes.length) :
    ¬ needle <+: bytes.drop n := by
  induction n using Nat.strongRecOn with
  | ind n ih =>
    intro hn
    have hfirst (m : Nat) (hm : m < n) : ¬ needle <+: bytes.drop m := ih m hm (by omega)
    rw [find.needle?_eq_some_iff.mpr ⟨hle, hn, hfirst⟩] at h
    cases h

/-- To answer with the leftmost place leaves no choice. -/
instance : Subsingleton Finder where
  allEq f g := by
    have hbyte : f.byte? = g.byte? := by
      funext b bytes
      apply Option.ext
      intro n
      exact f.byte?_eq_some_iff.trans g.byte?_eq_some_iff.symm
    have hneedle : f.needle? = g.needle? := by
      funext needle bytes
      apply Option.ext
      intro n
      exact f.needle?_eq_some_iff.trans g.needle?_eq_some_iff.symm
    cases f
    cases g
    subst hbyte hneedle
    rfl

end Finder

end LiquidTokens
