import LiquidTokens.Progress

/-! A tokenizer is pulled without faults until it stands at the end of its source, and from then on it
yields nothing. The main statements are `Tokenizer.exists_drain` and `Tokenizer.take_add`. -/
namespace LiquidTokens

namespace Tokenizer

theorem onBoundary_start (mode : Mode) (text : String) (line : LineNumber) :
    (start mode text line).cursor.OnBoundary :=
  Cursor.onBoundary_start _

theorem atEnd_of_unread_eq_zero {t : Tokenizer} (h : t.unread = 0) : t.cursor.atEnd = true := by
  simp only [Cursor.atEnd, decide_eq_true_eq]
  simp only [unread] at h
  omega

theorem piece_of_markup {t : Tokenizer} {p : Piece} (hm : t.mode = .markup)
    (hp : Piece.markup t.cursor = .ok p) : t.piece = .ok (p, p.token.newlines) := by
  simp only [piece, hm, hp, bind, Except.bind, pure, Except.pure]

theorem piece_of_line {t : Tokenizer} {p : Piece} (hm : t.mode = .line)
    (hp : Piece.line t.cursor = .ok p) : t.piece = .ok (p, 1) := by
  simp only [piece, hm, hp, bind, Except.bind, pure, Except.pure]

theorem next_inj {t t₁ t₂ : Tokenizer} {e₁ e₂ : Emission} (h₁ : t.next = .ok (some e₁, t₁))
    (h₂ : t.next = .ok (some e₂, t₂)) : e₁ = e₂ ∧ t₁ = t₂ := by
  rw [h₁] at h₂
  cases h₂
  exact ⟨rfl, rfl⟩

theorem exists_piece {t : Tokenizer} (h : t.cursor.OnBoundary) (he : t.cursor.atEnd = false) :
    ∃ p lines, t.piece = .ok (p, lines) ∧ Piece.Fits t.cursor p ∧
      t.cursor.pos < p.after.pos := by
  cases hm : t.mode with
  | markup =>
    obtain ⟨p, hp, hf, hlt⟩ := Piece.exists_markup h he
    exact ⟨p, p.token.newlines, piece_of_markup hm hp, hf, Nat.lt_of_lt_of_le hlt hf.stop_le⟩
  | line =>
    obtain ⟨p, hp, hf, hlt⟩ := Piece.exists_line h he
    exact ⟨p, 1, piece_of_line hm hp, hf, hlt⟩

/-- What a pull emits: the text of a span between the two positions of the cursor, which moves on from
one boundary to another. -/
structure Emits (t : Tokenizer) (e : Emission) (t' : Tokenizer) : Prop where
  onBoundary : t'.cursor.OnBoundary
  mode_eq : t'.mode = t.mode
  source_eq : t'.cursor.source = t.cursor.source
  pos_lt : t.cursor.pos < t'.cursor.pos
  start_eq : e.token.span.start = t.cursor.pos
  stop_le : e.token.span.stop ≤ t'.cursor.pos
  slice_eq : t.cursor.source.slice e.token.span.start e.token.span.stop = .ok e.token.text

/-- Away from the end there is a next token. -/
theorem exists_next {t : Tokenizer} (h : t.cursor.OnBoundary) (he : t.cursor.atEnd = false) :
    ∃ e t', t.next = .ok (some e, t') ∧ t.Emits e t' := by
  obtain ⟨p, lines, hp, hf, hlt⟩ := exists_piece h he
  exact ⟨_, _, next_eq_some_iff.mpr ⟨he, p, lines, hp, rfl, rfl⟩, hf.onBoundary, rfl, hf.source_eq,
    hlt, hf.start_eq, hf.stop_le, hf.slice_eq⟩

/-- Nothing comes next exactly at the end, and then the tokenizer is left as it was. -/
theorem next_eq_none_iff {t t' : Tokenizer} :
    t.next = .ok (none, t') ↔ t.cursor.atEnd = true ∧ t' = t := by
  cases he : t.cursor.atEnd with
  | true => simp [next_of_atEnd he, eq_comm]
  | false =>
    simp only [Bool.false_eq_true, false_and, iff_false]
    unfold next
    rw [if_neg (by simp [he])]
    intro h
    obtain ⟨⟨p, lines⟩, _, h⟩ := Checked.bind_eq_ok_iff.mp h
    obtain ⟨event, _, h⟩ := Checked.bind_eq_ok_iff.mp h
    cases h

theorem take_succ_of_next_none {t : Tokenizer} (h : t.next = .ok (none, t)) (n : Nat) :
    t.take (n + 1) = .ok ([], t) := by
  simp only [take, h, bind, Except.bind, pure, Except.pure]

theorem take_of_next_none {t : Tokenizer} (h : t.next = .ok (none, t)) (n : Nat) :
    t.take n = .ok ([], t) := by
  cases n with
  | zero => rfl
  | succ n => exact take_succ_of_next_none h n

theorem take_succ_of_next_some {t t' : Tokenizer} {e : Emission}
    (h : t.next = .ok (some e, t')) (n : Nat) :
    t.take (n + 1) = (fun r => (e :: r.1, r.2)) <$> t'.take n := by
  simp only [take, h, bind, Except.bind]
  cases t'.take n <;> rfl

theorem cases_of_take_succ {t last : Tokenizer} {n : Nat} {es : List Emission}
    (h : t.take (n + 1) = .ok (es, last)) :
    t.next = .ok (none, t) ∧ es = [] ∧ last = t ∨
      ∃ e t' es', t.next = .ok (some e, t') ∧ t'.take n = .ok (es', last) ∧ es = e :: es' := by
  obtain ⟨⟨found, t'⟩, hnext, h⟩ := Checked.bind_eq_ok_iff.mp h
  cases found with
  | none =>
    obtain ⟨rfl, hlast⟩ := Prod.mk.inj (Except.ok.inj h)
    obtain ⟨_, rfl⟩ := next_eq_none_iff.mp hnext
    exact Or.inl ⟨hnext, rfl, hlast.symm⟩
  | some e =>
    obtain ⟨⟨es', last'⟩, htake, h⟩ := Checked.bind_eq_ok_iff.mp h
    obtain ⟨rfl, rfl⟩ := Prod.mk.inj (Except.ok.inj h)
    exact Or.inr ⟨e, t', es', hnext, htake, rfl⟩

theorem take_add (t : Tokenizer) (m n : Nat) :
    t.take (m + n) =
      t.take m >>= fun r => (fun s => (r.1 ++ s.1, s.2)) <$> r.2.take n := by
  induction m generalizing t with
  | zero =>
    rw [Nat.zero_add, take_zero]
    simp only [bind, Except.bind, List.nil_append]
    cases t.take n <;> rfl
  | succ m ih =>
    rw [Nat.add_right_comm]
    cases h : t.next with
    | error f => simp only [take, h, bind, Except.bind]
    | ok r =>
      obtain ⟨found, t'⟩ := r
      cases found with
      | none =>
        obtain ⟨_, rfl⟩ := next_eq_none_iff.mp h
        rw [take_succ_of_next_none h, take_succ_of_next_none h]
        simp only [bind, Except.bind, take_of_next_none h, List.nil_append]
        rfl
      | some e =>
        rw [take_succ_of_next_some h, take_succ_of_next_some h, ih]
        cases ht : t'.take m with
        | error f => rfl
        | ok r =>
          obtain ⟨es, t₂⟩ := r
          simp only [bind, Except.bind, Functor.map, Except.map]
          cases t₂.take n <;> rfl

/-- Taking always succeeds. It stops early only at the end, and passes a byte for each token. -/
theorem exists_take {t : Tokenizer} (h : t.cursor.OnBoundary) (n : Nat) :
    ∃ es t', t.take n = .ok (es, t') ∧ t'.cursor.OnBoundary ∧ t'.mode = t.mode ∧
      t'.cursor.source = t.cursor.source ∧ t.cursor.pos + es.length ≤ t'.cursor.pos ∧
      (es.length = n ∨ t'.cursor.atEnd = true) := by
  induction n generalizing t with
  | zero => exact ⟨[], t, rfl, h, rfl, rfl, Nat.le_refl _, Or.inl rfl⟩
  | succ n ih =>
    cases he : t.cursor.atEnd with
    | true =>
      exact ⟨[], t, take_succ_of_next_none (next_of_atEnd he) n, h, rfl, rfl, Nat.le_refl _,
        Or.inr he⟩
    | false =>
      obtain ⟨e, t₁, hnext, hemits⟩ := exists_next h he
      obtain ⟨es, t₂, htake, hb₂, hm₂, hs₂, hle, hstop⟩ := ih hemits.onBoundary
      refine ⟨e :: es, t₂, ?_, hb₂, hm₂.trans hemits.mode_eq, hs₂.trans hemits.source_eq, ?_, ?_⟩
      · rw [take_succ_of_next_some hnext, htake]
        rfl
      · have hlt := hemits.pos_lt
        rw [List.length_cons]
        omega
      · exact hstop.imp_left (congrArg Nat.succ)

/-- What holds of no tokens at the end, and is kept when a pull puts one in front, holds of all that
remain. -/
theorem exists_take_of_step {R : Tokenizer → List Emission → Prop}
    (hend : ∀ t : Tokenizer, t.cursor.atEnd = true → R t [])
    (hstep : ∀ (t t' : Tokenizer) (e : Emission) (es : List Emission), t.cursor.OnBoundary →
      t.cursor.atEnd = false → t.next = .ok (some e, t') → R t' es → R t (e :: es))
    {t : Tokenizer} (hb : t.cursor.OnBoundary) {n : Nat} (hn : t.unread ≤ n) :
    ∃ es last, t.take n = .ok (es, last) ∧ last.next = .ok (none, last) ∧ R t es := by
  induction n generalizing t with
  | zero =>
    have hatEnd := atEnd_of_unread_eq_zero (Nat.le_zero.mp hn)
    exact ⟨[], t, rfl, next_of_atEnd hatEnd, hend t hatEnd⟩
  | succ n ih =>
    cases he : t.cursor.atEnd with
    | true =>
      have hnext := next_of_atEnd he
      exact ⟨[], t, take_of_next_none hnext _, hnext, hend t he⟩
    | false =>
      obtain ⟨e, t', hnext, hemits⟩ := exists_next hb he
      have hunread : t'.unread ≤ n := by
        have hlt := hemits.pos_lt
        simp only [unread, hemits.source_eq] at hn ⊢
        omega
      obtain ⟨es, last, htake, hlast, hr⟩ := ih hemits.onBoundary hunread
      refine ⟨e :: es, last, ?_, hlast, hstep t t' e es hb he hnext hr⟩
      rw [take_succ_of_next_some hnext, htake]
      rfl

theorem exists_drain {t : Tokenizer} (h : t.cursor.OnBoundary) :
    ∃ es t', t.drain = .ok (es, t') ∧ t'.cursor.OnBoundary ∧ t'.cursor.atEnd = true := by
  obtain ⟨es, t', htake, hb, _, hs, hle, hstop⟩ := exists_take h t.unread
  refine ⟨es, t', htake, hb, hstop.elim (fun hl => ?_) id⟩
  have hin := hb.inBounds
  rw [Cursor.atEnd_iff hin]
  simp only [Cursor.InBounds, hs] at hin ⊢
  unfold unread at hl
  omega

theorem map_token_eq_of_drain {t last : Tokenizer} {es : List Emission} {ts : List Token}
    (h : t.drain = .ok (es, last))
    (hts : (fun r => r.1.map Emission.token) <$> t.drain = .ok ts) : es.map Emission.token = ts := by
  rw [h] at hts
  exact Except.ok.inj hts

theorem exists_of_map_token_eq {es : List Emission} {ts : List Token}
    (h : es.map Emission.token = ts) {i : Nat} {t : Token} (ht : ts[i]? = some t) :
    ∃ e, es[i]? = some e ∧ e.token = t := by
  rwa [← h, List.getElem?_map, Option.map_eq_some_iff] at ht

end Tokenizer

/-- Every text has a list of tokens. -/
theorem exists_tokens (text : String) (options : Options) : ∃ es, tokens text options = .ok es := by
  obtain ⟨es, t', h, _⟩ :=
    Tokenizer.exists_drain (Tokenizer.onBoundary_start options.mode text options.initialLine)
  refine ⟨es, ?_⟩
  unfold tokens Tokenizer.ofOptions
  rw [h]
  rfl

end LiquidTokens
