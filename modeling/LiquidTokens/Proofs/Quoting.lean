import LiquidTokens.Quoted
import LiquidTokens.Search

/-! Text in quotes can be read back. What an escape stands for, and where it ends, shows from its own
characters, whatever follows them. The main statements are `escapeAll_append_quote_inj` and
`quotable_escapeAll`. -/
namespace LiquidTokens
namespace Text

/-! ### Digits -/

def digits : List Char := (List.range 16).map Nat.digitChar

theorem digitChar_mem_digits {d : Nat} (h : d < 16) : Nat.digitChar d ∈ digits :=
  List.mem_map_of_mem (List.mem_range.mpr h)

theorem digitChar_inj {d e : Nat} (hd : d < 16) (he : e < 16)
    (h : Nat.digitChar d = Nat.digitChar e) : d = e := by
  have hall : ∀ d : Fin 16, ∀ e : Fin 16, Nat.digitChar d = Nat.digitChar e → d = e := by decide
  exact congrArg Fin.val (hall ⟨d, hd⟩ ⟨e, he⟩ h)

def leading (b n : Nat) : List Char :=
  if n < b then [] else Nat.toDigits b (n / b)

section Base

variable {b : Nat}

theorem toDigits_eq_leading (hb : 1 < b) (n : Nat) :
    Nat.toDigits b n = leading b n ++ [Nat.digitChar (n % b)] := by
  rw [Nat.toDigits_eq_if hb, leading]
  split
  · rename_i h
    rw [Nat.mod_eq_of_lt h, List.nil_append]
  · rfl

theorem mod_lt_sixteen (hb : 1 < b) (hb' : b ≤ 16) (n : Nat) : n % b < 16 :=
  Nat.lt_of_lt_of_le (Nat.mod_lt n (by omega)) hb'

theorem mem_digits_of_mem_toDigits (hb : 1 < b) (hb' : b ≤ 16) {n : Nat} {c : Char}
    (h : c ∈ Nat.toDigits b n) : c ∈ digits := by
  induction n using Nat.strongRecOn with
  | ind n ih =>
    rw [toDigits_eq_leading hb, leading, List.mem_append, List.mem_singleton] at h
    rcases h with h | rfl
    · split at h
      · exact absurd h List.not_mem_nil
      · exact ih (n / b) (Nat.div_lt_self (by omega) hb) h
    · exact digitChar_mem_digits (mod_lt_sixteen hb hb' n)

theorem toDigits_inj (hb : 1 < b) (hb' : b ≤ 16) {m n : Nat}
    (h : Nat.toDigits b m = Nat.toDigits b n) : m = n := by
  induction m using Nat.strongRecOn generalizing n with
  | ind m ih =>
    rw [toDigits_eq_leading hb, toDigits_eq_leading hb] at h
    obtain ⟨hleading, hlast⟩ := List.append_inj' h rfl
    have hmod : m % b = n % b :=
      digitChar_inj (mod_lt_sixteen hb hb' m) (mod_lt_sixteen hb hb' n) (List.cons.inj hlast).1
    -- Both numerals have one digit, or both have more.
    unfold leading at hleading
    split at hleading <;> split at hleading
    · rename_i hm hn
      rwa [Nat.mod_eq_of_lt hm, Nat.mod_eq_of_lt hn] at hmod
    · exact absurd hleading.symm Nat.toDigits_ne_nil
    · exact absurd hleading Nat.toDigits_ne_nil
    · have hdiv : m / b = n / b := ih (m / b) (Nat.div_lt_self (by omega) hb) hleading
      rw [← Nat.div_add_mod m b, ← Nat.div_add_mod n b, hdiv, hmod]

theorem toDigits_append_cons_inj (hb : 1 < b) (hb' : b ≤ 16) {m n : Nat} {x y : Char}
    {r s : List Char} (hx : x ∉ digits) (hy : y ∉ digits)
    (h : Nat.toDigits b m ++ x :: r = Nat.toDigits b n ++ y :: s) : m = n ∧ x = y ∧ r = s := by
  obtain ⟨hdigits, hrest⟩ := Search.append_cons_inj (fun _ => mem_digits_of_mem_toDigits hb hb')
    (fun _ => mem_digits_of_mem_toDigits hb hb') hx hy h
  exact ⟨toDigits_inj hb hb' hdigits, hrest⟩

end Base

/-! ### Escapes -/

def marks : List (Char × Char) :=
  [('\x00', '0'), ('\t', 't'), ('\r', 'r'), ('\n', 'n'), ('\"', '\"'), ('\\', '\\')]

def lineBreaks : List Char := ['\n', '\r']

/-- The characters that never stand for themselves between quotes. -/
def mustEscape : List Char := '\\' :: '\"' :: lineBreaks

inductive Form (c : Char) : List Char → Prop
  | marked {m : Char} (h : (c, m) ∈ marks) : Form c ['\\', m]
  | numbered : Form c (codePoint c)
  | plain (h : c ∉ mustEscape) : Form c [c]

theorem form_escape (c : Char) : Form c (escape c) := by
  unfold escape
  split
  · exact .marked (by decide)
  · exact .marked (by decide)
  · exact .marked (by decide)
  · exact .marked (by decide)
  · exact .marked (by decide)
  · exact .marked (by decide)
  · split
    · exact .numbered
    · refine .plain ?_
      simp only [mustEscape, lineBreaks, List.mem_cons, List.not_mem_nil, or_false, not_or]
      exact ⟨‹_›, ‹_›, ‹_›, ‹_›⟩

theorem mark_inj {c d m : Char} (h : (c, m) ∈ marks) (h' : (d, m) ∈ marks) : c = d := by
  have hall : ∀ p ∈ marks, ∀ q ∈ marks, p.2 = q.2 → p.1 = q.1 := by decide
  exact hall _ h _ h' rfl

theorem mark_ne_u {c m : Char} (h : (c, m) ∈ marks) : m ≠ 'u' := by
  have hall : ∀ p ∈ marks, p.2 ≠ 'u' := by decide
  exact hall _ h

theorem codePoint_append_inj {c d : Char} {r s : List Char}
    (h : codePoint c ++ r = codePoint d ++ s) : c = d ∧ r = s := by
  simp only [codePoint, List.cons_append, List.append_assoc, List.nil_append, List.cons.injEq,
    true_and] at h
  obtain ⟨hcode, _, hrest⟩ :=
    toDigits_append_cons_inj (by decide) (by decide) (by decide) (by decide) h
  exact ⟨Char.toNat_inj.mp hcode, hrest⟩

section Form

variable {c d : Char} {l m r s : List Char}

theorem Form.append_ne_quote (h : Form c l) : l ++ r ≠ '\"' :: s := by
  cases h with
  | marked => exact fun heq => absurd (List.cons.inj heq).1 (by decide)
  | numbered => exact fun heq => absurd (List.cons.inj heq).1 (by decide)
  | plain h =>
    intro heq
    obtain rfl := (List.cons.inj heq).1
    exact h (by decide)

/-- A form shows its character and its own end. -/
theorem Form.append_inj (hl : Form c l) (hm : Form d m) (h : l ++ r = m ++ s) : c = d ∧ r = s := by
  cases hl with
  | marked hc =>
    cases hm with
    | marked hd =>
      obtain ⟨rfl, hrest⟩ := List.cons.inj (List.cons.inj h).2
      exact ⟨mark_inj hc hd, hrest⟩
    | numbered => exact absurd (List.cons.inj (List.cons.inj h).2).1 (mark_ne_u hc)
    | plain hd =>
      obtain rfl := (List.cons.inj h).1
      exact absurd List.mem_cons_self hd
  | numbered =>
    cases hm with
    | marked hd => exact absurd (List.cons.inj (List.cons.inj h).2).1.symm (mark_ne_u hd)
    | numbered => exact codePoint_append_inj h
    | plain hd =>
      obtain rfl := (List.cons.inj h).1
      exact absurd List.mem_cons_self hd
  | plain hc =>
    cases hm with
    | marked =>
      obtain rfl := (List.cons.inj h).1
      exact absurd List.mem_cons_self hc
    | numbered =>
      obtain rfl := (List.cons.inj h).1
      exact absurd List.mem_cons_self hc
    | plain => exact List.cons.inj h

end Form

/-- The quote that closes an escaped text shows, and the text with it. -/
theorem escapeAll_append_quote_inj {cs ds r s : List Char}
    (h : escapeAll cs ++ '\"' :: r = escapeAll ds ++ '\"' :: s) : cs = ds ∧ r = s := by
  induction cs generalizing ds with
  | nil =>
    cases ds with
    | nil => exact ⟨rfl, (List.cons.inj h).2⟩
    | cons d ds =>
      rw [escapeAll_cons, List.append_assoc] at h
      exact absurd h.symm (form_escape d).append_ne_quote
  | cons c cs ih =>
    cases ds with
    | nil =>
      rw [escapeAll_cons, List.append_assoc] at h
      exact absurd h (form_escape c).append_ne_quote
    | cons d ds =>
      rw [escapeAll_cons, escapeAll_cons, List.append_assoc, List.append_assoc] at h
      obtain ⟨rfl, hrest⟩ := (form_escape c).append_inj (form_escape d) h
      obtain ⟨rfl, rfl⟩ := ih hrest
      exact ⟨rfl, rfl⟩

/-! ### One line without an open quote -/

/-- What can stand between quotes on one line: no line break, and no quote but behind a backslash.
A backslash takes the next character along. -/
inductive Quotable : List Char → Prop
  | nil : Quotable []
  | plain {c : Char} {l : List Char} (h : c ∉ mustEscape) (rest : Quotable l) :
      Quotable (c :: l)
  | escaped {c : Char} {l : List Char} (h : c ∉ lineBreaks) (rest : Quotable l) :
      Quotable ('\\' :: c :: l)

theorem Quotable.append_of_plain {l r : List Char}
    (hl : ∀ c ∈ l, c ∉ mustEscape) (hr : Quotable r) : Quotable (l ++ r) := by
  induction l with
  | nil => exact hr
  | cons c l ih =>
    exact .plain (hl c List.mem_cons_self) (ih fun d hd => hl d (List.mem_cons_of_mem c hd))

theorem Quotable.not_mem {l : List Char} {x : Char} (h : Quotable l) (hx : x ∈ lineBreaks) :
    x ∉ l := by
  induction h with
  | nil => exact List.not_mem_nil
  | plain h rest ih =>
    refine List.not_mem_cons_of_ne_of_not_mem ?_ ih
    rintro rfl
    exact h (List.mem_cons_of_mem _ (List.mem_cons_of_mem _ hx))
  | escaped h rest ih =>
    refine List.not_mem_cons_of_ne_of_not_mem ?_ (List.not_mem_cons_of_ne_of_not_mem ?_ ih)
    · rintro rfl
      exact absurd hx (by decide)
    · rintro rfl
      exact h hx

theorem not_mem_mustEscape_of_mem_digits {c : Char} (h : c ∈ digits) : c ∉ mustEscape := by
  have hall : mustEscape.all (fun d => d ∉ digits) = true := by decide
  exact fun hc => of_decide_eq_true (List.all_eq_true.mp hall c hc) h

theorem Form.quotable {c : Char} {l r : List Char} (h : Form c l) (hr : Quotable r) :
    Quotable (l ++ r) := by
  cases h with
  | marked h =>
    have hall : ∀ p ∈ marks, p.2 ∉ lineBreaks := by decide
    exact .escaped (hall _ h) hr
  | numbered =>
    rw [codePoint, List.cons_append, List.cons_append]
    refine .escaped (by decide) (Quotable.append_of_plain (fun x hx => ?_) hr)
    simp only [List.mem_cons, List.mem_append, List.not_mem_nil, or_false] at hx
    rcases hx with rfl | hx | rfl
    · decide
    · exact not_mem_mustEscape_of_mem_digits (mem_digits_of_mem_toDigits (by decide) (by decide) hx)
    · decide
  | plain h => exact .plain h hr

theorem quotable_escapeAll (cs : List Char) : Quotable (escapeAll cs) := by
  induction cs with
  | nil => exact .nil
  | cons c cs ih => exact (form_escape c).quotable ih

end Text
end LiquidTokens
