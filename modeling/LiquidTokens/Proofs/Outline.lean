import LiquidTokens.Proofs.Cut

/-! What a tokenizer sees of characters: the delimiters, and that there is something else between them.
A step passes as many of the characters as it passes of their outline, which has a single byte for each.
The main statement is `Markup.Cuts.exists_encode`. -/
namespace LiquidTokens

open Delimiter

theorem encode_injective {cs ds : List Char} (h : encode cs = encode ds) : cs = ds := by
  rw [← utf8_ofList, ← utf8_ofList] at h
  exact String.ofList_injective (utf8_injective h)

theorem encodeChar_ne_nil (c : Char) : String.utf8EncodeChar c ≠ [] := by
  intro h
  have hnil : encode [c] = encode [] := by simp [h]
  cases encode_injective hnil

theorem eq_of_mem_encodeChar {c d : Char} {b : UInt8} (hd : String.utf8EncodeChar d = [b])
    (hb : b < 0x80) (h : b ∈ String.utf8EncodeChar c) : c = d := by
  have hsame : encode [c] = encode [d] := by simp [encode_eq_singleton h hb, hd]
  exact (List.cons.inj (encode_injective hsame)).1

def width (cs : List Char) (n : Nat) : Nat :=
  (encode (cs.take n)).length

@[simp] theorem width_zero (cs : List Char) : width cs 0 = 0 := rfl

@[simp] theorem width_cons_succ (c : Char) (cs : List Char) (n : Nat) :
    width (c :: cs) (n + 1) = (String.utf8EncodeChar c).length + width cs n := by
  simp [width]

theorem width_length (cs : List Char) : width cs cs.length = (encode cs).length := by
  rw [width, List.take_length]

theorem width_add (cs : List Char) (m n : Nat) :
    width cs (m + n) = width cs m + width (cs.drop m) n := by
  simp only [width, List.take_add, encode_append, List.length_append]

theorem take_width (cs : List Char) (n : Nat) :
    (encode cs).take (width cs n) = encode (cs.take n) := by
  conv_lhs => rw [← List.take_append_drop n cs, encode_append]
  exact List.take_left' (by rw [width, List.take_append_drop])

theorem drop_width (cs : List Char) (n : Nat) :
    (encode cs).drop (width cs n) = encode (cs.drop n) := by
  conv_lhs => rw [← List.take_append_drop n cs, encode_append]
  exact List.drop_left' (by rw [width, List.take_append_drop])

namespace Delimiter

def characters : List Char := ['\x7b', '\x7d', '%']

def IsPlain (b : UInt8) : Prop :=
  b ≠ openBrace ∧ b ≠ closeBrace ∧ b ≠ percent

instance : DecidablePred IsPlain := fun _ => inferInstanceAs (Decidable (_ ∧ _ ∧ _))

end Delimiter

/-- A delimiter stands for itself, and zero for every other character. -/
def outlineChar (c : Char) : UInt8 :=
  if c ∈ characters then c.toUInt8 else 0

/-- One byte for each character. -/
def outline (cs : List Char) : List UInt8 :=
  cs.map outlineChar

@[simp] theorem outline_nil : outline [] = [] := rfl

@[simp] theorem outline_cons (c : Char) (cs : List Char) :
    outline (c :: cs) = outlineChar c :: outline cs := rfl

@[simp] theorem length_outline (cs : List Char) : (outline cs).length = cs.length :=
  List.length_map _

theorem outline_drop (cs : List Char) (n : Nat) : outline (cs.drop n) = (outline cs).drop n :=
  List.map_drop

theorem encodeChar_of_not_isPlain {c : Char} (h : ¬ IsPlain (outlineChar c)) :
    String.utf8EncodeChar c = [outlineChar c] := by
  by_cases hc : c ∈ characters
  · simp only [characters, List.mem_cons, List.not_mem_nil, or_false] at hc
    rcases hc with rfl | rfl | rfl <;> decide
  · rw [outlineChar, if_neg hc] at h
    exact absurd (by decide) h

theorem isPlain_of_mem_encodeChar {c : Char} {b : UInt8} (h : IsPlain (outlineChar c))
    (hb : b ∈ String.utf8EncodeChar c) : IsPlain b := by
  refine ⟨?_, ?_, ?_⟩
  · rintro rfl
    obtain rfl : c = '\x7b' := eq_of_mem_encodeChar (by decide) (by decide) hb
    exact absurd h (by decide)
  · rintro rfl
    obtain rfl : c = '\x7d' := eq_of_mem_encodeChar (by decide) (by decide) hb
    exact absurd h (by decide)
  · rintro rfl
    obtain rfl : c = '%' := eq_of_mem_encodeChar (by decide) (by decide) hb
    exact absurd h (by decide)

theorem encode_cons_of_not_isPlain {c : Char} (h : ¬ IsPlain (outlineChar c)) (cs : List Char) :
    encode (c :: cs) = outlineChar c :: encode cs := by
  rw [encode_cons, encodeChar_of_not_isPlain h, List.singleton_append]

theorem exists_cons_of_encode {cs : List Char} {a : UInt8} {rest : List UInt8}
    (h : encode cs = a :: rest) (ha : ¬ IsPlain a) :
    ∃ c ds, cs = c :: ds ∧ outlineChar c = a ∧ encode ds = rest := by
  cases cs with
  | nil => cases h
  | cons c ds =>
    by_cases hc : IsPlain (outlineChar c)
    · obtain ⟨x, t, hx⟩ := List.exists_cons_of_ne_nil (encodeChar_ne_nil c)
      rw [encode_cons, hx, List.cons_append] at h
      obtain rfl := (List.cons.inj h).1
      exact absurd (isPlain_of_mem_encodeChar hc (hx ▸ List.mem_cons_self)) ha
    · rw [encode_cons_of_not_isPlain hc] at h
      obtain ⟨hhead, htail⟩ := List.cons.inj h
      exact ⟨c, ds, rfl, hhead, htail⟩

theorem exists_of_outline {cs : List Char} {a b : UInt8} {rest : List UInt8}
    (h : outline cs = a :: b :: rest) (ha : ¬ IsPlain a) (hb : ¬ IsPlain b) :
    ∃ ds, outline ds = rest ∧ encode cs = a :: b :: encode ds ∧
      ∀ n, width cs (2 + n) = 2 + width ds n := by
  obtain ⟨c, cs', rfl, rfl, htail⟩ := List.map_eq_cons_iff.mp h
  obtain ⟨d, ds, rfl, rfl, hds⟩ := List.map_eq_cons_iff.mp htail
  refine ⟨ds, hds, ?_, fun n => ?_⟩
  · rw [encode_cons_of_not_isPlain ha, encode_cons_of_not_isPlain hb]
  · rw [Nat.add_comm 2 n, width_cons_succ, width_cons_succ, encodeChar_of_not_isPlain ha,
      encodeChar_of_not_isPlain hb, ← Nat.add_assoc]
    rfl

/-- The test asks for two delimiters at the start, and for nothing else. -/
structure IsPairTest (p : List UInt8 → Bool) : Prop where
  exists_of_eq_true {l : List UInt8} (h : p l = true) :
    ∃ a b rest, l = a :: b :: rest ∧ ¬ IsPlain a ∧ ¬ IsPlain b
  cons_cons (a b : UInt8) (rest rest' : List UInt8) : p (a :: b :: rest) = p (a :: b :: rest')

theorem isPairTest_isPrefixOf {a b : UInt8} (ha : ¬ IsPlain a) (hb : ¬ IsPlain b) :
    IsPairTest [a, b].isPrefixOf where
  exists_of_eq_true h := by
    obtain ⟨rest, rfl⟩ := List.isPrefixOf_iff_prefix.mp h
    exact ⟨a, b, rest, rfl, ha, hb⟩
  cons_cons x y rest rest' := by simp [List.isPrefixOf]

theorem isPairTest_startsMarkup : IsPairTest startsMarkup where
  exists_of_eq_true h := by
    obtain ⟨b, rest, rfl, hb⟩ := startsMarkup_iff.mp h
    refine ⟨openBrace, b, rest, rfl, by decide, ?_⟩
    rcases hb with rfl | rfl | rfl <;> decide
  cons_cons x y rest rest' := by rw [startsMarkup_cons_cons, startsMarkup_cons_cons]

section Search

open Search

variable {p : List UInt8 → Bool} (hp : IsPairTest p)

include hp

theorem IsPairTest.encode_eq (cs : List Char) : p (encode cs) = p (outline cs) := by
  rw [Bool.eq_iff_iff]
  constructor
  · intro h
    obtain ⟨a, b, rest, hrest, ha, hb⟩ := hp.exists_of_eq_true h
    obtain ⟨c, cs', rfl, rfl, hrest'⟩ := exists_cons_of_encode hrest ha
    obtain ⟨d, ds, rfl, rfl, _⟩ := exists_cons_of_encode hrest' hb
    rwa [outline_cons, outline_cons, hp.cons_cons _ _ _ rest, ← hrest]
  · intro h
    obtain ⟨a, b, rest, hrest, ha, hb⟩ := hp.exists_of_eq_true h
    obtain ⟨ds, _, hencode, _⟩ := exists_of_outline hrest ha hb
    rwa [hencode, hp.cons_cons _ _ _ rest, ← hrest]

theorem IsPairTest.eq_false_of_isPlain {b : UInt8} (hb : IsPlain b) (rest : List UInt8) :
    p (b :: rest) = false := by
  rw [← Bool.not_eq_true]
  intro h
  obtain ⟨a, _, _, heq, ha, _⟩ := hp.exists_of_eq_true h
  exact ha ((List.cons.inj heq).1 ▸ hb)

theorem IsPairTest.seek_append {block : List UInt8} (hblock : ∀ b ∈ block, IsPlain b)
    (l : List UInt8) : seek p 0 (block ++ l) = (seek p 0 l).map (· + block.length) := by
  induction block with
  | nil => simp
  | cons b block ih =>
    obtain ⟨hb, hblock⟩ := List.forall_mem_cons.mp hblock
    rw [List.cons_append, seek_cons_of_eq_false (hp.eq_false_of_isPlain hb _), ih hblock,
      Option.map_map]
    rfl

theorem IsPairTest.seek_cons {c : Char} {cs : List Char} (h : p (outline (c :: cs)) = false) :
    seek p 0 (encode (c :: cs)) =
      (seek p 0 (encode cs)).map (· + (String.utf8EncodeChar c).length) := by
  by_cases hc : IsPlain (outlineChar c)
  · rw [encode_cons, hp.seek_append fun _ => isPlain_of_mem_encodeChar hc]
  · rw [← hp.encode_eq, encode_cons_of_not_isPlain hc] at h
    rw [encode_cons_of_not_isPlain hc, encodeChar_of_not_isPlain hc, seek_cons_of_eq_false h]
    rfl

/-- A search for delimiters goes through the characters as it goes through their outline. -/
theorem IsPairTest.seek_encode (cs : List Char) :
    seek p 0 (encode cs) = (seek p 0 (outline cs)).map (width cs) := by
  induction cs with
  | nil =>
    rw [encode_nil, outline_nil, seek]
    split <;> rfl
  | cons c cs ih =>
    cases h : p (outline (c :: cs)) with
    | true =>
      have hhere {l : List UInt8} (hl : p l = true) : seek p 0 l = some 0 := by
        cases l <;> simp [seek, hl]
      rw [hhere h, hhere ((hp.encode_eq _).trans h)]
      rfl
    | false =>
      have hskip : seek p 0 (outline (c :: cs)) = (seek p 0 (outline cs)).map (· + 1) :=
        seek_cons_of_eq_false h
      rw [hp.seek_cons h, hskip, ih, Option.map_map, Option.map_map]
      congr 1
      funext n
      simp [Nat.add_comm]

end Search

namespace Variable

theorem Waiting.next_of_isPlain {b : UInt8} (hb : IsPlain b) (w : Waiting) :
    w.next b = .nothing := by
  obtain ⟨hopen, hclose, hpercent⟩ := hb
  unfold Waiting.next
  split <;> simp_all

theorem walk_cons_of_isPlain {b : UInt8} (hb : IsPlain b) (w : Waiting) (n : Nat)
    (body : List UInt8) : walk w n (b :: body) = walk .nothing (n + 1) body := by
  rw [walk, if_neg fun h => hb.2.1 h.2, if_neg fun h => hb.2.2 h.2, Waiting.next_of_isPlain hb]

theorem walk_append_of_isPlain {block : List UInt8} (hne : block ≠ [])
    (hblock : ∀ b ∈ block, IsPlain b) (w : Waiting) (n : Nat) (body : List UInt8) :
    walk w n (block ++ body) = walk .nothing (n + block.length) body := by
  induction block generalizing w n with
  | nil => exact absurd rfl hne
  | cons b block ih =>
    obtain ⟨hb, hblock⟩ := List.forall_mem_cons.mp hblock
    rw [List.cons_append, walk_cons_of_isPlain hb]
    cases block with
    | nil => rfl
    | cons b' block =>
      rw [ih (List.cons_ne_nil _ _) hblock, Nat.add_assoc, Nat.add_comm 1]
      rfl

/-- A walk goes through the characters as it goes through their outline. -/
theorem walk_encode (w : Waiting) (cs : List Char) :
    walk w 0 (encode cs) = (walk w 0 (outline cs)).map (width cs) := by
  induction cs generalizing w with
  | nil => rfl
  | cons c cs ih =>
    have hnext (w' : Waiting) :
        walk w' (String.utf8EncodeChar c).length (encode cs) =
          (walk w' 1 (outline cs)).map (width (c :: cs)) := by
      rw [← Nat.zero_add (String.utf8EncodeChar c).length, ← Nat.zero_add 1, walk_add,
        walk_add, ih, Ending.map_map, Ending.map_map]
      congr 1
      funext n
      simp [Nat.add_comm]
    -- Nothing waits behind a plain character, however many bytes it has.
    by_cases hc : IsPlain (outlineChar c)
    · rw [encode_cons, outline_cons, walk_cons_of_isPlain hc, Nat.zero_add, ← hnext,
        walk_append_of_isPlain (encodeChar_ne_nil c) fun _ => isPlain_of_mem_encodeChar hc,
        Nat.zero_add]
    · have hone : width (c :: cs) 1 = 1 := by
        rw [width_cons_succ, encodeChar_of_not_isPlain hc]
        rfl
      rw [encode_cons_of_not_isPlain hc, outline_cons, walk, walk]
      split
      · exact congrArg Ending.closed hone.symm
      · split
        · exact congrArg Ending.redirected hone.symm
        · rw [encodeChar_of_not_isPlain hc] at hnext
          exact hnext _

theorem ending_encode (cs : List Char) :
    ending (encode cs) = (ending (outline cs)).map (width cs) :=
  walk_encode .nothing cs

end Variable

namespace Markup

theorem closing_encode (cs : List Char) :
    closing (encode cs) = (closing (outline cs)).map (width cs) := by
  have hp : IsPairTest tagClose.isPrefixOf := isPairTest_isPrefixOf (by decide) (by decide)
  unfold closing
  rw [hp.seek_encode]
  cases h : Search.seek tagClose.isPrefixOf 0 (outline cs) with
  | none => rfl
  | some n =>
    obtain ⟨_, hseen, _⟩ := Search.seek_zero_eq_some_iff.mp h
    rw [← outline_drop] at hseen
    obtain ⟨a, b, rest, hrest, ha, hb⟩ := hp.exists_of_eq_true hseen
    obtain ⟨_, _, _, hwidth⟩ := exists_of_outline hrest ha hb
    -- The closer has two bytes in either list, and so it adds the same to both.
    have hcloser : width cs (n + 2) = width cs n + 2 := by
      rw [width_add, hwidth 0, width_zero]
    simp [hcloser]

theorem plain_encode (cs : List Char) : plain (encode cs) = width cs (plain (outline cs)) := by
  unfold plain
  rw [isPairTest_startsMarkup.seek_encode]
  cases Search.seek startsMarkup 0 (outline cs) with
  | none => simp [width_length]
  | some n => rfl

theorem plain_drop_encode (c : Char) (cs : List Char) :
    1 + plain ((encode (c :: cs)).drop 1) = width (c :: cs) (1 + plain (outline cs)) := by
  obtain ⟨a, t, hc⟩ := List.exists_cons_of_ne_nil (encodeChar_ne_nil c)
  have ht : ∀ b ∈ t, IsPlain b := by
    by_cases hplain : IsPlain (outlineChar c)
    · exact fun b hb => isPlain_of_mem_encodeChar hplain (hc ▸ List.mem_cons_of_mem a hb)
    · rw [encodeChar_of_not_isPlain hplain] at hc
      rw [← (List.cons.inj hc).2]
      exact List.forall_mem_nil _
  have hskip : plain (t ++ encode cs) = t.length + plain (encode cs) := by
    unfold plain
    rw [isPairTest_startsMarkup.seek_append ht]
    cases Search.seek startsMarkup 0 (encode cs) with
    | none => simp
    | some n => exact Nat.add_comm n _
  rw [encode_cons, hc, List.cons_append, List.drop_succ_cons, List.drop_zero, hskip, plain_encode,
    Nat.add_comm 1 (plain _), width_cons_succ, hc, List.length_cons]
  omega

/-- Two cuts of one kind, the second of them in other units. -/
structure Cut.Scales (g : Nat → Nat) (cut cut' : Cut) : Prop where
  kind_eq : cut'.kind = cut.kind
  length_eq : cut'.length = g cut.length
  passed_eq : cut'.passed = g cut.passed

/-- A step goes through the characters as it goes through their outline. -/
theorem Cuts.exists_encode {cs : List Char} (hne : cs ≠ []) {cut : Cut}
    (h : Cuts (outline cs) cut) : ∃ cut', Cuts (encode cs) cut' ∧ cut.Scales (width cs) cut' := by
  have hopen : ¬ IsPlain openBrace := by decide
  have hpercent : ¬ IsPlain percent := by decide
  generalize ho : outline cs = ahead at h
  cases h with
  | @tag inside n hclose =>
    obtain ⟨ds, rfl, hencode, hwidth⟩ := exists_of_outline ho hopen hpercent
    have hclose' : closing (encode ds) = some (width ds n) := by rw [closing_encode, hclose]; rfl
    rw [hencode]
    exact ⟨.tag (2 + width ds n), .tag hclose', rfl, (hwidth n).symm, (hwidth n).symm⟩
  | loneTag hnone =>
    obtain ⟨ds, rfl, hencode, hwidth⟩ := exists_of_outline ho hopen hpercent
    have hnone' : closing (encode ds) = none := by rw [closing_encode, hnone]; rfl
    rw [hencode]
    exact ⟨.loneTag, .loneTag hnone', rfl, (hwidth 0).symm, (hwidth 0).symm⟩
  | @var body n hwalk =>
    obtain ⟨ds, rfl, hencode, hwidth⟩ := exists_of_outline ho hopen hopen
    have hwalk' : Variable.ending (encode ds) = .closed (width ds n) := by
      rw [Variable.ending_encode, hwalk]
      rfl
    rw [hencode]
    exact ⟨.var (2 + width ds n), .var hwalk', rfl, (hwidth n).symm, (hwidth n).symm⟩
  | @redirect body n m hwalk hclose =>
    obtain ⟨ds, rfl, hencode, hwidth⟩ := exists_of_outline ho hopen hopen
    have hwalk' : Variable.ending (encode ds) = .redirected (width ds n) := by
      rw [Variable.ending_encode, hwalk]
      rfl
    have hclose' : closing ((encode ds).drop (width ds n)) = some (width (ds.drop n) m) := by
      rw [drop_width, closing_encode, outline_drop, hclose]
      rfl
    have hsize : 2 + width ds n + width (ds.drop n) m = width cs (2 + n + m) := by
      rw [Nat.add_assoc, Nat.add_assoc, hwidth, width_add]
    rw [hencode]
    exact ⟨.tag (2 + width ds n + width (ds.drop n) m), .redirect hwalk' hclose', rfl, hsize, hsize⟩
  | @loneRedirect body n hwalk hnone =>
    obtain ⟨ds, rfl, hencode, hwidth⟩ := exists_of_outline ho hopen hopen
    have hwalk' : Variable.ending (encode ds) = .redirected (width ds n) := by
      rw [Variable.ending_encode, hwalk]
      rfl
    have hnone' : closing ((encode ds).drop (width ds n)) = none := by
      rw [drop_width, closing_encode, outline_drop, hnone]
      rfl
    rw [hencode]
    exact ⟨.loneRedirect, .loneRedirect hwalk' hnone', rfl, (hwidth 0).symm, (hwidth 0).symm⟩
  | loneVar hwalk =>
    obtain ⟨ds, rfl, hencode, hwidth⟩ := exists_of_outline ho hopen hopen
    have hwalk' : Variable.ending (encode ds) = .unterminated := by
      rw [Variable.ending_encode, hwalk]
      rfl
    have hall : 2 + (encode ds).length = width cs (2 + (outline ds).length) := by
      rw [hwidth, length_outline, width_length]
    rw [hencode]
    exact ⟨.loneVar (encode ds).length, .loneVar hwalk', rfl, (hwidth 0).symm, hall⟩
  | text htag hvar =>
    -- Text skips a byte, which need not be all of its first character.
    subst ho
    obtain ⟨c, ds, rfl⟩ := List.exists_cons_of_ne_nil hne
    have htest {b : UInt8} (hb : ¬ IsPlain b) (h : ¬ [openBrace, b] <+: outline (c :: ds)) :
        ¬ [openBrace, b] <+: encode (c :: ds) := by
      rwa [← List.isPrefixOf_iff_prefix, (isPairTest_isPrefixOf hopen hb).encode_eq,
        List.isPrefixOf_iff_prefix]
    have hplain := plain_drop_encode c ds
    exact ⟨_, .text (htest hpercent htag) (htest hopen hvar), rfl, hplain, hplain⟩

end Markup
end LiquidTokens
