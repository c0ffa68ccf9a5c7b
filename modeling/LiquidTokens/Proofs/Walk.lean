import Mathlib.Data.List.Induction
import LiquidTokens.Token

/-! The walk over a variable body. A walk that stops depends on the bytes that it read and on no
others, and what waits when it stops tells which bytes those were. -/
namespace LiquidTokens
namespace Variable

open Delimiter

def Waiting.after (w : Waiting) (bytes : List UInt8) : Waiting :=
  bytes.foldl Waiting.next w

@[simp] theorem Waiting.after_nil (w : Waiting) : w.after [] = w := rfl

@[simp] theorem Waiting.after_cons (w : Waiting) (b : UInt8) (rest : List UInt8) :
    w.after (b :: rest) = (w.next b).after rest := rfl

@[simp] theorem Waiting.after_concat (w : Waiting) (bytes : List UInt8) (b : UInt8) :
    w.after (bytes ++ [b]) = (w.after bytes).next b := by
  simp [Waiting.after]

theorem Waiting.eq_closeBrace_of_next {w : Waiting} {b : UInt8} (h : w.next b = .closeBrace) :
    b = Delimiter.closeBrace ∨ w = .closeBrace ∧ b = percent := by
  unfold Waiting.next at h
  split at h <;> simp_all

theorem exists_suffix_of_after {bytes : List UInt8}
    (h : Waiting.nothing.after bytes = .closeBrace) :
    ∃ m, closeBrace :: List.replicate m percent <:+ bytes := by
  -- From the end: what waits depends on the last byte, and on others only as long as percent signs follow.
  induction bytes using List.reverseRecOn with
  | nil => simp at h
  | append_singleton bytes b ih =>
    rw [Waiting.after_concat] at h
    rcases Waiting.eq_closeBrace_of_next h with rfl | ⟨hw, rfl⟩
    · exact ⟨0, bytes, rfl⟩
    · obtain ⟨m, hm⟩ := ih hw
      exact ⟨m + 1, by
        rw [List.replicate_succ', ← List.cons_append]
        exact List.suffix_append_self_iff.mpr hm⟩

/-- A walk stops at the byte that completes the pair for which one half waits. -/
theorem exists_split_of_walk {w : Waiting} {n : Nat} {body : List UInt8}
    (h : walk w n body ≠ .unterminated) :
    ∃ read b rest, body = read ++ b :: rest ∧
      (walk w n body = .closed (n + read.length + 1) ∧ w.after read = .closeBrace ∧ b = closeBrace ∨
        walk w n body = .redirected (n + read.length + 1) ∧ w.after read = .openBrace ∧
          b = percent) := by
  induction body generalizing w n with
  | nil => simp [walk] at h
  | cons b rest ih =>
    by_cases hc : w = .closeBrace ∧ b = closeBrace
    · exact ⟨[], b, rest, rfl, Or.inl ⟨by simp [walk, hc], hc⟩⟩
    · by_cases hr : w = .openBrace ∧ b = percent
      · exact ⟨[], b, rest, rfl, Or.inr ⟨by simp [walk, hr], hr⟩⟩
      · have hwalk : walk w n (b :: rest) = walk (w.next b) (n + 1) rest := by simp [walk, hc, hr]
        rw [hwalk] at h ⊢
        obtain ⟨read, b', rest', hbody, hstop⟩ := ih h
        have hlen : n + 1 + read.length + 1 = n + (b :: read).length + 1 := by
          rw [List.length_cons]
          omega
        rw [hlen] at hstop
        exact ⟨b :: read, b', rest', by rw [hbody, List.cons_append], hstop⟩

theorem exists_split_of_closed {body : List UInt8} {k : Nat} (h : ending body = .closed k) :
    ∃ read rest, body = read ++ closeBrace :: rest ∧ k = read.length + 1 ∧
      Waiting.nothing.after read = .closeBrace := by
  have hstops : walk .nothing 0 body ≠ .unterminated := fun hn => by simp [ending, hn] at h
  obtain ⟨read, b, rest, hbody, ⟨hk, hw, rfl⟩ | ⟨hk, _, _⟩⟩ := exists_split_of_walk hstops
  · have hread := h.symm.trans hk
    exact ⟨read, rest, hbody, by simpa using hread, hw⟩
  · have hread := h.symm.trans hk
    simp at hread

theorem exists_split_of_redirected {body : List UInt8} {k : Nat}
    (h : ending body = .redirected k) :
    ∃ read rest, body = read ++ percent :: rest ∧ k = read.length + 1 ∧
      Waiting.nothing.after read = .openBrace := by
  have hstops : walk .nothing 0 body ≠ .unterminated := fun hn => by simp [ending, hn] at h
  obtain ⟨read, b, rest, hbody, ⟨hk, _, _⟩ | ⟨hk, hw, rfl⟩⟩ := exists_split_of_walk hstops
  · have hread := h.symm.trans hk
    simp at hread
  · have hread := h.symm.trans hk
    exact ⟨read, rest, hbody, by simpa using hread, hw⟩

theorem exists_last_of_ending {body : List UInt8} {k : Nat}
    (h : ending body = .closed k ∨ ending body = .redirected k) :
    ∃ b, b < 0x80 ∧ body[k - 1]? = some b := by
  rcases h with h | h
  · obtain ⟨read, rest, rfl, rfl, _⟩ := exists_split_of_closed h
    exact ⟨closeBrace, by decide, by simp⟩
  · obtain ⟨read, rest, rfl, rfl, _⟩ := exists_split_of_redirected h
    exact ⟨percent, by decide, by simp⟩

/-- More bytes change nothing about a walk that stops. -/
theorem walk_append {w : Waiting} {n : Nat} {body : List UInt8}
    (h : walk w n body ≠ .unterminated) (rest : List UInt8) :
    walk w n (body ++ rest) = walk w n body := by
  induction body generalizing w n with
  | nil => simp [walk] at h
  | cons b body ih =>
    by_cases hc : w = .closeBrace ∧ b = closeBrace
    · simp [walk, hc]
    · by_cases hr : w = .openBrace ∧ b = percent
      · simp [walk, hr]
      · have hwalk : walk (w.next b) (n + 1) body ≠ .unterminated := by
          simpa [walk, hc, hr] using h
        simpa [walk, hc, hr] using ih hwalk

theorem walk_take {w : Waiting} {n k j : Nat} {body : List UInt8}
    (h : walk w n body = .closed k ∨ walk w n body = .redirected k) (hj : k ≤ n + j) :
    walk w n (body.take j) = walk w n body := by
  induction body generalizing w n j with
  | nil => simp
  | cons b body ih =>
    have hlt := (read_le_of_walk h).1
    obtain ⟨j, rfl⟩ : ∃ i, j = i + 1 := ⟨j - 1, by omega⟩
    rw [List.take_succ_cons]
    by_cases hc : w = .closeBrace ∧ b = closeBrace
    · simp [walk, hc]
    · by_cases hr : w = .openBrace ∧ b = percent
      · simp [walk, hr]
      · have hwalk := ih (j := j) (by simpa [walk, hc, hr] using h) (by omega)
        simpa [walk, hc, hr] using hwalk

theorem ending_append {body : List UInt8} (h : ending body ≠ .unterminated) (rest : List UInt8) :
    ending (body ++ rest) = ending body :=
  walk_append h rest

theorem ending_take {body : List UInt8} {k j : Nat}
    (h : ending body = .closed k ∨ ending body = .redirected k) (hj : k ≤ j) :
    ending (body.take j) = ending body :=
  walk_take h (by omega)

theorem length_take_of_ending {body : List UInt8} {k : Nat}
    (h : ending body = .closed k ∨ ending body = .redirected k) : (body.take k).length = k := by
  have hk := read_le_of_walk h
  exact List.length_take_of_le (by omega)

/-- The bytes of a closed variable end in two close braces with only percent signs between. -/
theorem exists_closer_suffix {body : List UInt8} {k : Nat} (h : ending body = .closed k) :
    ∃ m, closeBrace :: (List.replicate m percent ++ [closeBrace]) <:+ body.take k := by
  obtain ⟨read, rest, rfl, rfl, hw⟩ := exists_split_of_closed h
  obtain ⟨m, before, hm⟩ := exists_suffix_of_after hw
  have htake : (read ++ closeBrace :: rest).take (read.length + 1) = read ++ [closeBrace] := by
    rw [List.append_cons]
    exact List.take_left' (by simp)
  exact ⟨m, before, by rw [htake, ← hm]; simp⟩

theorem two_le_of_ending {body : List UInt8} {k : Nat}
    (h : ending body = .closed k ∨ ending body = .redirected k) : 2 ≤ k := by
  have hread (read : List UInt8) (hw : Waiting.nothing.after read ≠ .nothing) :
      1 ≤ read.length := by
    cases read with
    | nil => exact absurd rfl hw
    | cons b read => simp
  rcases h with h | h
  · obtain ⟨read, _, _, hk, hw⟩ := exists_split_of_closed h
    have hlen := hread read (by simp [hw])
    omega
  · obtain ⟨read, _, _, hk, hw⟩ := exists_split_of_redirected h
    have hlen := hread read (by simp [hw])
    omega

end Variable
end LiquidTokens
