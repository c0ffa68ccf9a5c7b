import Mathlib.Order.Nat
import LiquidTokens.Proofs.Outline

/-! Which pair of bytes ends the walk over a variable. Whether a pair is complete at an index is told by
the bytes in front of it, and the walk ends at the first index where one is. The main statement is
`Variable.ending_eq_first_pair`. -/
namespace LiquidTokens
namespace Variable

open Delimiter

/-- The byte `a` stands at `j`, and from there up to `i` there is nothing but `b`. -/
def Reaches (body : List UInt8) (a b : UInt8) (j i : Nat) : Prop :=
  body[j]? = some a ∧ ∀ k < i, j < k → body[k]? = some b

instance (body : List UInt8) (a b : UInt8) (j i : Nat) : Decidable (Reaches body a b j i) :=
  inferInstanceAs (Decidable (_ ∧ _))

/-- A percent sign whose `{` is in front of it, with only `}` between the two. -/
def RedirectsAt (body : List UInt8) (i : Nat) : Prop :=
  body[i]? = some percent ∧ ∃ j < i, Reaches body openBrace closeBrace j i

instance (body : List UInt8) (i : Nat) : Decidable (RedirectsAt body i) :=
  inferInstanceAs (Decidable (_ ∧ _))

/-- A `}` whose other half is in front of it, with only percent signs between the two. The other half
must not be the last of a run of `}` that a `{` stands before. -/
def ClosesAt (body : List UInt8) (i : Nat) : Prop :=
  body[i]? = some closeBrace ∧ ∃ j < i, Reaches body closeBrace percent j i ∧
    ¬ ∃ h < j, Reaches body openBrace closeBrace h (j + 1)

instance (body : List UInt8) (i : Nat) : Decidable (ClosesAt body i) :=
  inferInstanceAs (Decidable (_ ∧ _))

def EndsAt (body : List UInt8) (i : Nat) : Prop :=
  RedirectsAt body i ∨ ClosesAt body i

instance (body : List UInt8) (i : Nat) : Decidable (EndsAt body i) :=
  inferInstanceAs (Decidable (_ ∨ _))

example : ClosesAt [closeBrace, percent, percent, closeBrace] 3 := by decide

example : ¬ ∃ i < 3, EndsAt [openBrace, closeBrace, closeBrace] i := by
  decide

theorem not_redirectsAt_and_closesAt (body : List UInt8) (i : Nat) :
    ¬ (RedirectsAt body i ∧ ClosesAt body i) := by
  rintro ⟨⟨hpercent, _⟩, hclose, _⟩
  exact absurd (hpercent.symm.trans hclose) (by decide)

section Reaches

variable {body : List UInt8} {a b : UInt8} {i : Nat}

theorem reaches_self : Reaches body a b i (i + 1) ↔ body[i]? = some a := by
  constructor
  · exact fun h => h.1
  · exact fun h => ⟨h, fun k hk hlt => absurd hk (by omega)⟩

theorem reaches_succ {j : Nat} (hj : j < i) :
    Reaches body a b j (i + 1) ↔ Reaches body a b j i ∧ body[i]? = some b := by
  constructor
  · rintro ⟨ha, hall⟩
    exact ⟨⟨ha, fun k hk => hall k (by omega)⟩, hall i (Nat.lt_succ_self i) hj⟩
  · rintro ⟨⟨ha, hall⟩, hb⟩
    refine ⟨ha, fun k hk hlt => ?_⟩
    rcases Nat.lt_succ_iff_lt_or_eq.mp hk with hk | rfl
    · exact hall k hk hlt
    · exact hb

theorem exists_reaches_succ {q : Nat → Prop} :
    (∃ j < i + 1, Reaches body a b j (i + 1) ∧ q j) ↔
      body[i]? = some a ∧ q i ∨ body[i]? = some b ∧ ∃ j < i, Reaches body a b j i ∧ q j := by
  constructor
  · rintro ⟨j, hj, hreach, hq⟩
    rcases Nat.lt_succ_iff_lt_or_eq.mp hj with hj | rfl
    · obtain ⟨hreach, hb⟩ := (reaches_succ hj).mp hreach
      exact Or.inr ⟨hb, j, hj, hreach, hq⟩
    · exact Or.inl ⟨reaches_self.mp hreach, hq⟩
  · rintro (⟨ha, hq⟩ | ⟨hb, j, hj, hreach, hq⟩)
    · exact ⟨i, Nat.lt_succ_self i, reaches_self.mpr ha, hq⟩
    · exact ⟨j, Nat.lt_succ_of_lt hj, (reaches_succ hj).mpr ⟨hreach, hb⟩, hq⟩

end Reaches

/-! ### What waits in front of an index -/

theorem delimiter_or_isPlain (b : UInt8) :
    b = openBrace ∨ b = closeBrace ∨ b = percent ∨ IsPlain b := by
  by_cases hopen : b = openBrace
  · exact Or.inl hopen
  · by_cases hclose : b = closeBrace
    · exact Or.inr (Or.inl hclose)
    · by_cases hpercent : b = percent
      · exact Or.inr (Or.inr (Or.inl hpercent))
      · exact Or.inr (Or.inr (Or.inr ⟨hopen, hclose, hpercent⟩))

theorem Waiting.next_eq_openBrace_iff {w : Waiting} {b : UInt8} :
    w.next b = .openBrace ↔ b = Delimiter.openBrace ∨ b = Delimiter.closeBrace ∧ w = .openBrace := by
  rcases delimiter_or_isPlain b with rfl | rfl | rfl | hb
  · cases w <;> decide
  · cases w <;> decide
  · cases w <;> decide
  · rw [Waiting.next_of_isPlain hb]
    simp [hb.1, hb.2.1]

theorem Waiting.next_eq_closeBrace_iff {w : Waiting} {b : UInt8} :
    w.next b = .closeBrace ↔
      b = Delimiter.closeBrace ∧ w ≠ .openBrace ∨ b = percent ∧ w = .closeBrace := by
  rcases delimiter_or_isPlain b with rfl | rfl | rfl | hb
  · cases w <;> decide
  · cases w <;> decide
  · cases w <;> decide
  · rw [Waiting.next_of_isPlain hb]
    simp [hb.2.1, hb.2.2]

def waitingAt (body : List UInt8) (i : Nat) : Waiting :=
  Waiting.nothing.after (body.take i)

theorem waitingAt_zero (body : List UInt8) : waitingAt body 0 = .nothing := by
  rw [waitingAt, List.take_zero, Waiting.after_nil]

theorem waitingAt_succ {body : List UInt8} {i : Nat} {b : UInt8} (h : body[i]? = some b) :
    waitingAt body (i + 1) = (waitingAt body i).next b := by
  rw [waitingAt, List.take_add_one, h, Option.toList_some, Waiting.after_concat, waitingAt]

theorem waitingAt_eq_openBrace_iff {body : List UInt8} {i : Nat} (hi : i ≤ body.length) :
    waitingAt body i = .openBrace ↔ ∃ j < i, Reaches body openBrace closeBrace j i := by
  induction i with
  | zero => simp [waitingAt_zero]
  | succ i ih =>
    have hb : body[i]? = some body[i] := List.getElem?_eq_getElem hi
    have hstep : (∃ j < i + 1, Reaches body openBrace closeBrace j (i + 1)) ↔
        body[i]? = some openBrace ∨
          body[i]? = some closeBrace ∧ ∃ j < i, Reaches body openBrace closeBrace j i := by
      simpa only [and_true] using exists_reaches_succ (q := fun _ => True)
    rw [waitingAt_succ hb, Waiting.next_eq_openBrace_iff, hstep, ih (Nat.le_of_succ_le hi), hb,
      Option.some_inj, Option.some_inj]

/-- A close brace waits where only percent signs have come since, unless an open brace kept it from
waiting. -/
theorem waitingAt_eq_closeBrace_iff {body : List UInt8} {i : Nat} (hi : i ≤ body.length) :
    waitingAt body i = .closeBrace ↔ ∃ j < i, Reaches body closeBrace percent j i ∧
      ¬ ∃ h < j, Reaches body openBrace closeBrace h (j + 1) := by
  induction i with
  | zero => simp [waitingAt_zero]
  | succ i ih =>
    have hb : body[i]? = some body[i] := List.getElem?_eq_getElem hi
    rw [waitingAt_succ hb, Waiting.next_eq_closeBrace_iff, exists_reaches_succ,
      ih (Nat.le_of_succ_le hi), hb, Option.some_inj, Option.some_inj]
    refine or_congr (and_congr_right fun hclose => not_congr ?_) Iff.rfl
    rw [waitingAt_eq_openBrace_iff (Nat.le_of_succ_le hi)]
    refine exists_congr fun h => and_congr_right fun hlt => ?_
    rw [reaches_succ hlt, hb, hclose]
    exact (and_iff_left rfl).symm

theorem redirectsAt_iff {body : List UInt8} {i : Nat} :
    RedirectsAt body i ↔ body[i]? = some percent ∧ waitingAt body i = .openBrace := by
  refine and_congr_right fun h => ?_
  obtain ⟨hi, _⟩ := List.getElem?_eq_some_iff.mp h
  exact (waitingAt_eq_openBrace_iff (Nat.le_of_lt hi)).symm

theorem closesAt_iff {body : List UInt8} {i : Nat} :
    ClosesAt body i ↔ body[i]? = some closeBrace ∧ waitingAt body i = .closeBrace := by
  refine and_congr_right fun h => ?_
  obtain ⟨hi, _⟩ := List.getElem?_eq_some_iff.mp h
  exact (waitingAt_eq_closeBrace_iff (Nat.le_of_lt hi)).symm

/-! ### The walk up to the first pair -/

theorem walk_append_of_pairless {w : Waiting} {n : Nat} (read rest : List UInt8)
    (hnone : ∀ m b, read[m]? = some b →
      ¬ (w.after (read.take m) = .closeBrace ∧ b = closeBrace) ∧
        ¬ (w.after (read.take m) = .openBrace ∧ b = percent)) :
    walk w n (read ++ rest) = walk (w.after read) (n + read.length) rest := by
  induction read generalizing w n with
  | nil => rfl
  | cons b read ih =>
    obtain ⟨hc, hr⟩ := hnone 0 b rfl
    rw [List.take_zero, Waiting.after_nil] at hc hr
    rw [List.cons_append, walk, if_neg hc, if_neg hr, ih fun m b' hm => hnone (m + 1) b' hm,
      Waiting.after_cons, List.length_cons, Nat.add_right_comm n, Nat.add_assoc]

theorem ending_eq_walk {body : List UInt8} {i : Nat} (hi : i ≤ body.length)
    (hnone : ∀ m < i, ¬ EndsAt body m) :
    ending body = walk (waitingAt body i) i (body.drop i) := by
  have hlen : (body.take i).length = i := List.length_take_of_le hi
  have hwalk := walk_append_of_pairless (w := .nothing) (n := 0) (body.take i) (body.drop i)
  rw [List.take_append_drop, hlen, Nat.zero_add] at hwalk
  refine hwalk fun m b hm => ?_
  have hlt : m < i := by
    obtain ⟨hlt, _⟩ := List.getElem?_eq_some_iff.mp hm
    rwa [hlen] at hlt
  rw [List.getElem?_take_of_lt hlt] at hm
  rw [List.take_take, Nat.min_eq_left (Nat.le_of_lt hlt)]
  constructor
  · rintro ⟨hw, rfl⟩
    exact hnone m hlt (Or.inr (closesAt_iff.mpr ⟨hm, hw⟩))
  · rintro ⟨hw, rfl⟩
    exact hnone m hlt (Or.inl (redirectsAt_iff.mpr ⟨hm, hw⟩))

theorem ending_of_redirectsAt {body : List UInt8} {i : Nat} (h : RedirectsAt body i)
    (hnone : ∀ m < i, ¬ EndsAt body m) : ending body = .redirected (i + 1) := by
  obtain ⟨hb, hw⟩ := redirectsAt_iff.mp h
  obtain ⟨hi, hget⟩ := List.getElem?_eq_some_iff.mp hb
  rw [ending_eq_walk (Nat.le_of_lt hi) hnone, List.drop_eq_getElem_cons hi, hget, hw]
  rfl

theorem ending_of_closesAt {body : List UInt8} {i : Nat} (h : ClosesAt body i)
    (hnone : ∀ m < i, ¬ EndsAt body m) : ending body = .closed (i + 1) := by
  obtain ⟨hb, hw⟩ := closesAt_iff.mp h
  obtain ⟨hi, hget⟩ := List.getElem?_eq_some_iff.mp hb
  rw [ending_eq_walk (Nat.le_of_lt hi) hnone, List.drop_eq_getElem_cons hi, hget, hw]
  rfl

theorem ending_of_pairless {body : List UInt8} (hnone : ∀ i, ¬ EndsAt body i) :
    ending body = .unterminated := by
  rw [ending_eq_walk (Nat.le_refl _) fun m _ => hnone m, List.drop_length]
  rfl

theorem cases_ending (body : List UInt8) :
    ending body = .unterminated ∧ (∀ i, ¬ EndsAt body i) ∨
      ∃ i, (∀ m < i, ¬ EndsAt body m) ∧ (ending body = .redirected (i + 1) ∧ RedirectsAt body i ∨
        ending body = .closed (i + 1) ∧ ClosesAt body i) := by
  by_cases hany : ∃ i, EndsAt body i
  · have hfirst : ∀ m < Nat.find hany, ¬ EndsAt body m := fun m => Nat.find_min hany
    refine Or.inr ⟨Nat.find hany, hfirst, ?_⟩
    rcases Nat.find_spec hany with hredirect | hclose
    · exact Or.inl ⟨ending_of_redirectsAt hredirect hfirst, hredirect⟩
    · exact Or.inr ⟨ending_of_closesAt hclose hfirst, hclose⟩
  · have hnone := not_exists.mp hany
    exact Or.inl ⟨ending_of_pairless hnone, hnone⟩

/-! ### Other bytes -/

/-- The same walk with the byte before in hand, whether anything waits or not. -/
def walkBehind (before : UInt8) (read : Nat) : List UInt8 → Ending
  | [] => .unterminated
  | b :: rest =>
    if before = closeBrace ∧ b = closeBrace then .closed (read + 1)
    else if before = openBrace ∧ b = percent then .redirected (read + 1)
    else if (before = openBrace ∨ before = closeBrace) ∧ (b = closeBrace ∨ b = percent) then
      walkBehind before (read + 1) rest
    else walkBehind b (read + 1) rest

/-- A byte before is forgotten unless it is a brace that outlives the next byte. -/
theorem Waiting.next_next {before b : UInt8}
    (hc : ¬ (before = Delimiter.closeBrace ∧ b = Delimiter.closeBrace))
    (hr : ¬ (before = Delimiter.openBrace ∧ b = percent)) :
    (nothing.next before).next b =
      if (before = Delimiter.openBrace ∨ before = Delimiter.closeBrace) ∧
          (b = Delimiter.closeBrace ∨ b = percent) then nothing.next before
      else nothing.next b := by
  rcases delimiter_or_isPlain before with rfl | rfl | rfl | hbefore
  · rcases delimiter_or_isPlain b with rfl | rfl | rfl | hb
    · rfl
    · rfl
    · exact absurd ⟨rfl, rfl⟩ hr
    · rw [next_of_isPlain hb, next_of_isPlain hb, if_neg fun h => h.2.elim hb.2.1 hb.2.2]
  · rcases delimiter_or_isPlain b with rfl | rfl | rfl | hb
    · rfl
    · exact absurd ⟨rfl, rfl⟩ hc
    · rfl
    · rw [next_of_isPlain hb, next_of_isPlain hb, if_neg fun h => h.2.elim hb.2.1 hb.2.2]
  · rw [if_neg fun h => absurd h.1 (by decide)]
    rfl
  · rw [next_of_isPlain hbefore, if_neg fun h => h.1.elim hbefore.1 hbefore.2.1]

theorem walkBehind_eq_walk (before : UInt8) (n : Nat) (body : List UInt8) :
    walkBehind before n body = walk (Waiting.nothing.next before) n body := by
  induction body generalizing before n with
  | nil => rfl
  | cons b rest ih =>
    have hclose : Waiting.nothing.next before = .closeBrace ↔ before = closeBrace := by
      simp [Waiting.next_eq_closeBrace_iff]
    have hopen : Waiting.nothing.next before = .openBrace ↔ before = openBrace := by
      simp [Waiting.next_eq_openBrace_iff]
    unfold walkBehind walk
    simp only [hclose, hopen]
    split
    · rfl
    · rename_i hc
      split
      · rfl
      · rename_i hr
        rw [Waiting.next_next hc hr]
        split
        · exact ih before (n + 1)
        · exact ih b (n + 1)

theorem walk_map {g : UInt8 → UInt8} (hg : ∀ b, g b = b ∨ IsPlain b ∧ IsPlain (g b)) (w : Waiting)
    (n : Nat) (body : List UInt8) : walk w n (body.map g) = walk w n body := by
  induction body generalizing w n with
  | nil => rfl
  | cons b rest ih =>
    rw [List.map_cons]
    rcases hg b with hb | ⟨hb, hgb⟩
    · rw [hb, walk, walk, ih]
    · rw [walk_cons_of_isPlain hb, walk_cons_of_isPlain hgb, ih]

/-- The walk ends at the first index at which a pair is complete: it redirects there or closes there,
as the pair is of the one sort or of the other, which it never is of both. It does not end if there is
no such index. A zero byte is like any other byte that is no delimiter, also in the place of the byte
before the first. -/
theorem ending_eq_first_pair (body : List UInt8) :
    scan body = .ok (ending body) ∧
      (∀ i, ¬ (RedirectsAt body i ∧ ClosesAt body i)) ∧
      (∀ i, ending body = .redirected (i + 1) ↔ RedirectsAt body i ∧ ∀ m < i, ¬ EndsAt body m) ∧
      (∀ i, ending body = .closed (i + 1) ↔ ClosesAt body i ∧ ∀ m < i, ¬ EndsAt body m) ∧
      (ending body = .unterminated ↔ ∀ i, ¬ EndsAt body i) ∧
      walkBehind 0 0 body = ending body ∧
      ∀ b, IsPlain b → ending (body.map fun c => if c = 0 then b else c) = ending body := by
  refine ⟨scan_eq body, not_redirectsAt_and_closesAt body, fun i => ⟨fun hend => ?_, ?_⟩,
    fun i => ⟨fun hend => ?_, ?_⟩, ⟨fun hend => ?_, ending_of_pairless⟩, ?_, fun b hb => ?_⟩
  · rcases cases_ending body with ⟨hun, _⟩ | ⟨j, hfirst, ⟨hj, hredirect⟩ | ⟨hj, _⟩⟩
    · cases hun.symm.trans hend
    · cases hj.symm.trans hend
      exact ⟨hredirect, hfirst⟩
    · cases hj.symm.trans hend
  · rintro ⟨hredirect, hfirst⟩
    exact ending_of_redirectsAt hredirect hfirst
  · rcases cases_ending body with ⟨hun, _⟩ | ⟨j, hfirst, ⟨hj, _⟩ | ⟨hj, hclose⟩⟩
    · cases hun.symm.trans hend
    · cases hj.symm.trans hend
    · cases hj.symm.trans hend
      exact ⟨hclose, hfirst⟩
  · rintro ⟨hclose, hfirst⟩
    exact ending_of_closesAt hclose hfirst
  · rcases cases_ending body with ⟨_, hnone⟩ | ⟨j, _, ⟨hj, _⟩ | ⟨hj, _⟩⟩
    · exact hnone
    · cases hj.symm.trans hend
    · cases hj.symm.trans hend
  · exact walkBehind_eq_walk 0 0 body
  · refine walk_map (fun c => ?_) _ _ _
    by_cases hc : c = 0
    · subst hc
      exact Or.inr ⟨by decide, by rwa [if_pos rfl]⟩
    · exact Or.inl (if_neg hc)

/-- A zero byte keeps two close braces apart, and percent signs do not. -/
theorem ending_eq_first_pair_of_zero :
    scan [closeBrace, 0, closeBrace, percent, percent, closeBrace] = .ok (.closed 6) ∧
      IsPlain 0x61 ∧
      ending [closeBrace, 0x61, closeBrace, percent, percent, closeBrace] = .closed 6 := by
  obtain ⟨hscan, _, _, hclosed, _, _, hzero⟩ :=
    ending_eq_first_pair [closeBrace, 0, closeBrace, percent, percent, closeBrace]
  have hplain : IsPlain 0x61 := by decide
  have hend : ending [closeBrace, 0, closeBrace, percent, percent, closeBrace] = .closed 6 :=
    (hclosed 5).mpr (by decide)
  exact ⟨hend ▸ hscan, hplain, (hzero 0x61 hplain).trans hend⟩

end Variable
end LiquidTokens
