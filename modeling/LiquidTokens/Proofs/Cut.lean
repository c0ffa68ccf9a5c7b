import LiquidTokens.Progress

/-! One step through markup as a function of the bytes ahead. The main statement is
`Piece.exists_cut`: a step finds the piece that the bytes ahead call for, wherever it starts. -/
namespace LiquidTokens

open Delimiter

namespace Markup

def closing (inside : List UInt8) : Option Nat :=
  (Search.seek tagClose.isPrefixOf 0 inside).map (· + tagClose.length)

def plain (behind : List UInt8) : Nat :=
  (Search.seek startsMarkup 0 behind).getD behind.length

theorem closing_eq_none_iff {l : List UInt8} : closing l = none ↔ ¬ tagClose <:+: l := by
  simp only [closing, Option.map_eq_none_iff, Search.seek_eq_none_iff]
  constructor
  · rintro h ⟨before, behind, rfl⟩
    have hseen := h before.length (by simp)
    rw [List.append_assoc, List.drop_left, ← Bool.not_eq_true] at hseen
    exact hseen (List.isPrefixOf_iff_prefix.mpr (List.prefix_append _ _))
  · intro h k _
    rw [← Bool.not_eq_true, List.isPrefixOf_iff_prefix]
    intro hk
    exact h (hk.isInfix.trans (List.drop_suffix k l).isInfix)

/-- A closer that stands across the end of `inside` would need its second byte twice. -/
theorem closer_infix_of_prefix_append {inside rest : List UInt8} (hne : inside ≠ [])
    (h : tagClose <+: inside ++ tagClose ++ rest) : tagClose <+: inside := by
  cases inside with
  | nil => exact absurd rfl hne
  | cons a inside =>
    cases inside with
    | nil =>
      simp only [tagClose, List.cons_append, List.nil_append, List.cons_prefix_cons] at h
      exact absurd h.2.1 (by decide)
    | cons b inside =>
      simp only [tagClose, List.cons_append, List.cons_prefix_cons] at h ⊢
      exact ⟨h.1, h.2.1, List.nil_prefix⟩

theorem closing_eq_some_iff {l : List UInt8} {n : Nat} :
    closing l = some n ↔ ∃ inside rest, l = inside ++ tagClose ++ rest ∧
      n = inside.length + 2 ∧ ¬ tagClose <:+: inside := by
  simp only [closing, Option.map_eq_some_iff, Search.seek_zero_eq_some_iff]
  constructor
  · rintro ⟨k, ⟨hk, hp, hfirst⟩, rfl⟩
    obtain ⟨rest, hrest⟩ := List.isPrefixOf_iff_prefix.mp hp
    have hlen : (l.take k).length = k := List.length_take_of_le hk
    refine ⟨l.take k, rest, ?_, by rw [hlen]; rfl, ?_⟩
    · rw [List.append_assoc, hrest, List.take_append_drop]
    · rintro ⟨before, behind, hinside⟩
      have hbefore := congrArg List.length hinside
      simp only [List.length_append, hlen, tagClose, List.length_cons, List.length_nil] at hbefore
      have hnot := hfirst before.length (by omega)
      have hl : l = before ++ (tagClose ++ (behind ++ l.drop k)) := by
        rw [← List.append_assoc, ← List.append_assoc, hinside, List.take_append_drop]
      rw [hl, List.drop_left, ← Bool.not_eq_true, List.isPrefixOf_iff_prefix] at hnot
      exact hnot (List.prefix_append _ _)
  · rintro ⟨inside, rest, rfl, rfl, hfree⟩
    refine ⟨inside.length, ⟨by simp, ?_, ?_⟩, rfl⟩
    · rw [List.append_assoc, List.drop_left, List.isPrefixOf_iff_prefix]
      exact List.prefix_append _ _
    · intro m hm
      rw [← Bool.not_eq_true, List.isPrefixOf_iff_prefix]
      intro hseen
      rw [List.append_assoc, List.drop_append_of_le_length (Nat.le_of_lt hm),
        ← List.append_assoc] at hseen
      have hdrop : inside.drop m ≠ [] := by
        simp only [ne_eq, List.drop_eq_nil_iff]
        omega
      have hinside := closer_infix_of_prefix_append hdrop hseen
      exact hfree (hinside.isInfix.trans (List.drop_suffix m inside).isInfix)

theorem plain_eq_iff {l : List UInt8} {n : Nat} :
    plain l = n ↔ n ≤ l.length ∧ (l.drop n = [] ∨ startsMarkup (l.drop n) = true) ∧
      ∀ m < n, startsMarkup (l.drop m) = false := by
  unfold plain
  cases h : Search.seek startsMarkup 0 l with
  | none =>
    rw [Search.seek_eq_none_iff] at h
    simp only [Option.getD_none]
    constructor
    · rintro rfl
      exact ⟨Nat.le_refl _, Or.inl (List.drop_length ..), fun m hm => h m (Nat.le_of_lt hm)⟩
    · rintro ⟨hn, hend | hstart, _⟩
      · exact Nat.le_antisymm (List.drop_eq_nil_iff.mp hend) hn
      · rw [h n hn] at hstart
        cases hstart
  | some k =>
    obtain ⟨hk, hstart, hfirst⟩ := Search.seek_zero_eq_some_iff.mp h
    have hne : l.drop k ≠ [] := by
      intro hnil
      rw [hnil] at hstart
      cases hstart
    simp only [Option.getD_some]
    constructor
    · rintro rfl
      exact ⟨hk, Or.inr hstart, hfirst⟩
    · rintro ⟨hn, hstop, hfirst'⟩
      rcases Nat.lt_trichotomy k n with hlt | heq | hgt
      · rw [hfirst' k hlt] at hstart
        cases hstart
      · exact heq
      · have hnil : l.drop n ≠ [] := by
          rw [ne_eq, List.drop_eq_nil_iff] at hne ⊢
          omega
        rw [hfirst n hgt] at hstop
        simp [hnil] at hstop

theorem plain_le (l : List UInt8) : plain l ≤ l.length :=
  (plain_eq_iff.mp rfl).1

theorem closing_bounds {l : List UInt8} {n : Nat} (h : closing l = some n) :
    2 ≤ n ∧ n ≤ l.length := by
  obtain ⟨inside, rest, rfl, rfl, _⟩ := closing_eq_some_iff.mp h
  simp [tagClose]

/-- The ways in which a step through markup ends. The length is that of its token; a lone opener has
no closer, and a lone redirect is a variable that turned into a tag without one. -/
inductive Cut
  | text (length : Nat)
  | tag (length : Nat)
  | var (length : Nat)
  | loneTag
  | loneRedirect
  | loneVar (dropped : Nat)
  deriving DecidableEq, Repr

namespace Cut

def length : Cut → Nat
  | text n | tag n | var n => n
  | loneTag | loneRedirect | loneVar _ => 2

/-- The number of bytes that are left behind. -/
def passed : Cut → Nat
  | text n | tag n | var n => n
  | loneTag | loneRedirect => 2
  | loneVar dropped => 2 + dropped

def reports (start : Nat) : Cut → List Event
  | loneTag | loneRedirect => [.unterminatedTag start]
  | loneVar dropped => [.unterminatedVariable start dropped]
  | text _ | tag _ | var _ => []

def kind : Cut → Kind
  | text _ => .text
  | tag _ | loneTag => .tag
  | var _ | loneRedirect | loneVar _ => .var

def ofBytes (ahead : List UInt8) : Cut :=
  if tagOpen.isPrefixOf ahead then
    match closing (ahead.drop 2) with
    | some n => tag (2 + n)
    | none => loneTag
  else if variableOpen.isPrefixOf ahead then
    match Variable.ending (ahead.drop 2) with
    | .closed n => var (2 + n)
    | .redirected n =>
      match closing ((ahead.drop 2).drop n) with
      | some m => tag (2 + n + m)
      | none => loneRedirect
    | .unterminated => loneVar (ahead.drop 2).length
  else text (1 + plain (ahead.drop 1))

theorem ofBytes_tagOpen (inside : List UInt8) :
    ofBytes (tagOpen ++ inside) = match closing inside with
      | some n => tag (2 + n)
      | none => loneTag := rfl

theorem ofBytes_variableOpen (body : List UInt8) :
    ofBytes (variableOpen ++ body) = match Variable.ending body with
      | .closed n => var (2 + n)
      | .redirected n =>
        match closing (body.drop n) with
        | some m => tag (2 + n + m)
        | none => loneRedirect
      | .unterminated => loneVar body.length := rfl

end Cut

/-- How a step ends, case by case. -/
inductive Cuts : List UInt8 → Cut → Prop
  | tag {inside : List UInt8} {n : Nat} (hclose : closing inside = some n) :
    Cuts (tagOpen ++ inside) (.tag (2 + n))
  | loneTag {inside : List UInt8} (hopen : closing inside = none) :
    Cuts (tagOpen ++ inside) .loneTag
  | var {body : List UInt8} {n : Nat} (hwalk : Variable.ending body = .closed n) :
    Cuts (variableOpen ++ body) (.var (2 + n))
  | redirect {body : List UInt8} {n m : Nat} (hwalk : Variable.ending body = .redirected n)
    (hclose : closing (body.drop n) = some m) : Cuts (variableOpen ++ body) (.tag (2 + n + m))
  | loneRedirect {body : List UInt8} {n : Nat} (hwalk : Variable.ending body = .redirected n)
    (hopen : closing (body.drop n) = none) : Cuts (variableOpen ++ body) .loneRedirect
  | loneVar {body : List UInt8} (hwalk : Variable.ending body = .unterminated) :
    Cuts (variableOpen ++ body) (.loneVar body.length)
  | text {ahead : List UInt8} (htag : ¬ tagOpen <+: ahead) (hvar : ¬ variableOpen <+: ahead) :
    Cuts ahead (.text (1 + plain (ahead.drop 1)))

theorem Cuts.ofBytes_eq {ahead : List UInt8} {cut : Cut} (h : Cuts ahead cut) :
    Cut.ofBytes ahead = cut := by
  cases h with
  | tag hclose => rw [Cut.ofBytes_tagOpen, hclose]
  | loneTag hopen => rw [Cut.ofBytes_tagOpen, hopen]
  | var hwalk => rw [Cut.ofBytes_variableOpen, hwalk]
  | redirect hwalk hclose => simp only [Cut.ofBytes_variableOpen, hwalk, hclose]
  | loneRedirect hwalk hopen => simp only [Cut.ofBytes_variableOpen, hwalk, hopen]
  | loneVar hwalk => rw [Cut.ofBytes_variableOpen, hwalk]
  | text htag hvar =>
    rw [← List.isPrefixOf_iff_prefix] at htag hvar
    rw [Cut.ofBytes, if_neg htag, if_neg hvar]

theorem cuts_ofBytes (ahead : List UInt8) : Cuts ahead (Cut.ofBytes ahead) := by
  have hcut : ∃ cut, Cuts ahead cut := by
    by_cases htag : tagOpen <+: ahead
    · obtain ⟨inside, rfl⟩ := htag
      cases hclose : closing inside with
      | none => exact ⟨_, .loneTag hclose⟩
      | some n => exact ⟨_, .tag hclose⟩
    · by_cases hvar : variableOpen <+: ahead
      · obtain ⟨body, rfl⟩ := hvar
        cases hwalk : Variable.ending body with
        | closed n => exact ⟨_, .var hwalk⟩
        | redirected n =>
          cases hclose : closing (body.drop n) with
          | none => exact ⟨_, .loneRedirect hwalk hclose⟩
          | some m => exact ⟨_, .redirect hwalk hclose⟩
        | unterminated => exact ⟨_, .loneVar hwalk⟩
      · exact ⟨_, .text htag hvar⟩
  obtain ⟨cut, h⟩ := hcut
  rwa [h.ofBytes_eq]

/-- A step ends in one way. -/
theorem Cuts.unique {ahead : List UInt8} {cut cut' : Cut} (h : Cuts ahead cut)
    (h' : Cuts ahead cut') : cut = cut' :=
  h.ofBytes_eq.symm.trans h'.ofBytes_eq

theorem Cuts.eq_of_text {ahead : List UInt8} {n : Nat} (h : Cuts ahead (.text n)) :
    ¬ tagOpen <+: ahead ∧ ¬ variableOpen <+: ahead ∧ n = 1 + plain (ahead.drop 1) := by
  cases h with
  | text htag hvar => exact ⟨htag, hvar, rfl⟩

theorem Cuts.eq_of_var {ahead : List UInt8} {n : Nat} (h : Cuts ahead (.var n)) :
    ∃ body k, ahead = variableOpen ++ body ∧ n = 2 + k ∧ Variable.ending body = .closed k := by
  cases h with
  | @var body k hwalk => exact ⟨body, k, rfl, rfl, hwalk⟩

theorem Cuts.eq_of_tag {ahead : List UInt8} {n : Nat} (h : Cuts ahead (.tag n)) :
    (∃ inside k, ahead = tagOpen ++ inside ∧ n = 2 + k ∧ closing inside = some k) ∨
      ∃ body k m, ahead = variableOpen ++ body ∧ n = 2 + k + m ∧
        Variable.ending body = .redirected k ∧ closing (body.drop k) = some m := by
  cases h with
  | @tag inside k hclose => exact Or.inl ⟨inside, k, rfl, rfl, hclose⟩
  | @redirect body k m hwalk hclose => exact Or.inr ⟨body, k, m, rfl, rfl, hwalk, hclose⟩

theorem Cuts.eq_of_loneTag {ahead : List UInt8} (h : Cuts ahead .loneTag) :
    ∃ inside, ahead = tagOpen ++ inside ∧ closing inside = none := by
  cases h with
  | @loneTag inside hopen => exact ⟨inside, rfl, hopen⟩

theorem Cuts.eq_of_loneRedirect {ahead : List UInt8} (h : Cuts ahead .loneRedirect) :
    ∃ body k, ahead = variableOpen ++ body ∧ Variable.ending body = .redirected k ∧
      closing (body.drop k) = none := by
  cases h with
  | @loneRedirect body k hwalk hopen => exact ⟨body, k, rfl, hwalk, hopen⟩

theorem Cuts.eq_of_loneVar {ahead : List UInt8} {n : Nat} (h : Cuts ahead (.loneVar n)) :
    ∃ body, ahead = variableOpen ++ body ∧ n = body.length ∧
      Variable.ending body = .unterminated := by
  cases h with
  | @loneVar body hwalk => exact ⟨body, rfl, rfl, hwalk⟩

theorem Cuts.bounds {ahead : List UInt8} {cut : Cut} (h : Cuts ahead cut) (hne : ahead ≠ []) :
    0 < cut.length ∧ cut.length ≤ cut.passed ∧ cut.passed ≤ ahead.length := by
  cases h with
  | tag hclose =>
    have hn := closing_bounds hclose
    simp only [Cut.length, Cut.passed, tagOpen, List.length_append, List.length_cons,
      List.length_nil]
    omega
  | var hwalk =>
    have hn := Variable.read_le_of_walk (Or.inl hwalk)
    simp only [Cut.length, Cut.passed, variableOpen, List.length_append, List.length_cons,
      List.length_nil]
    omega
  | redirect hwalk hclose =>
    have hn := Variable.read_le_of_walk (Or.inr hwalk)
    have hm := closing_bounds hclose
    rw [List.length_drop] at hm
    simp only [Cut.length, Cut.passed, variableOpen, List.length_append, List.length_cons,
      List.length_nil]
    omega
  | loneTag | loneRedirect | loneVar =>
    simp only [Cut.length, Cut.passed, tagOpen, variableOpen, List.length_append,
      List.length_cons, List.length_nil]
    omega
  | text =>
    have hlen := List.length_pos_iff.mpr hne
    have hplain := plain_le (ahead.drop 1)
    rw [List.length_drop] at hplain
    simp only [Cut.length, Cut.passed]
    omega

theorem Cuts.eq_append {ahead bytes : List UInt8} {cut : Cut} (h : Cuts ahead cut)
    (hne : ahead ≠ []) (hbytes : bytes = ahead.take cut.length) :
    bytes.length = cut.length ∧ bytes ++ ahead.drop cut.length = ahead := by
  have hbounds := h.bounds hne
  constructor
  · rw [hbytes, List.length_take]
    omega
  · rw [hbytes, List.take_append_drop]

end Markup

namespace Cursor

theorem nextMarkup_eq_plain (c : Cursor) : c.nextMarkup = c.forward (Markup.plain c.rest) := by
  rw [nextMarkup, nextMarkup?, Markup.plain]
  cases Search.seek startsMarkup 0 c.rest with
  | none => simp [toEnd]
  | some n => rfl

theorem behindNext?_tagClose (c : Cursor) :
    c.behindNext? tagClose = (Markup.closing c.rest).map c.forward := by
  simp [behindNext?, Markup.closing, Function.comp_def]

end Cursor

namespace Piece

open Markup

structure Follows (c : Cursor) (cut : Cut) (p : Piece) : Prop where
  span_eq : p.token.span = ⟨c.pos, c.pos + cut.length⟩
  after_eq : p.after = c.forward cut.passed
  reports_eq : p.reports = cut.reports c.pos

theorem follows_of_upTo {c : Cursor} {n : Nat} {p : Piece} (cut : Cut)
    (h : upTo c.pos (c.forward n) (cut.reports c.pos) = .ok p) (hl : cut.length = n)
    (hp : cut.passed = n) : Follows c cut p := by
  obtain ⟨hspan, hafter, hreports⟩ := eq_of_upTo h
  exact ⟨by rw [hspan, hl]; rfl, by rw [hafter, hp], hreports⟩

theorem follows_of_text {c : Cursor} {p : Piece} (h : text c = .ok p)
    (ht : ¬ tagOpen <+: c.rest) (hv : ¬ variableOpen <+: c.rest) :
    Follows c (Cut.ofBytes c.rest) p := by
  obtain ⟨d, hd, _⟩ := Checked.bind_eq_ok_iff.mp h
  rw [text_eq (Cursor.advance_eq_ok_iff.mp hd).1, Cursor.nextMarkup_eq_plain,
    Cursor.forward_forward, Cursor.rest_forward] at h
  rw [(Cuts.text ht hv).ofBytes_eq]
  exact follows_of_upTo (.text _) h rfl rfl

theorem follows_of_tag {c : Cursor} {k : Nat} {p : Piece} (lone : Cut) (hl : lone.length = 2)
    (hp : lone.passed = 2) (hr : lone.reports c.pos = [.unterminatedTag c.pos])
    (hk : 2 ≤ k) (hlen : c.pos + k ≤ c.source.length) (h : tag c (c.forward k) = .ok p) :
    Follows c (match closing (c.rest.drop k) with
      | some n => .tag (k + n)
      | none => lone) p := by
  have hin : (c.forward k).InBounds := hlen
  rw [tag_eq hin (by omega), Cursor.behindNext?_tagClose, Cursor.rest_forward] at h
  cases hc : closing (c.rest.drop k) with
  | some n =>
    rw [hc, Option.map_some, Cursor.forward_forward] at h
    exact follows_of_upTo (.tag (k + n)) h rfl rfl
  | none =>
    rw [hc, Option.map_none] at h
    exact follows_of_upTo lone (hr ▸ h) hl hp

theorem follows_of_var {c : Cursor} {p : Piece} {body : List UInt8}
    (hc : c.rest = variableOpen ++ body) (h : var c = .ok p) :
    Follows c (Cut.ofBytes c.rest) p := by
  obtain ⟨d, hd, _⟩ := Checked.bind_eq_ok_iff.mp h
  have hlen := (Cursor.advance_eq_ok_iff.mp hd).1
  have hrest : (c.forward 2).rest = body := by simp [hc, variableOpen]
  have hbody : body.length = c.source.length - (c.pos + 2) := by
    rw [← hrest, Cursor.length_rest, Cursor.pos_forward, Cursor.source_forward]
  rw [var_eq hlen, hrest] at h
  rw [hc]
  cases hwalk : Variable.ending body with
  | closed n =>
    simp only [hwalk, Cursor.forward_forward] at h
    rw [(Cuts.var hwalk).ofBytes_eq]
    exact follows_of_upTo (.var (2 + n)) h rfl rfl
  | redirected n =>
    have hn := (Variable.read_le_of_walk (Or.inr hwalk)).2
    simp only [hwalk, Cursor.forward_forward] at h
    have hf := follows_of_tag .loneRedirect rfl rfl rfl (Nat.le_add_right _ _) (by omega) h
    rw [← List.drop_drop, hc, show (variableOpen ++ body).drop 2 = body from rfl] at hf
    simpa only [Cut.ofBytes_variableOpen, hwalk] using hf
  | unterminated =>
    rw [hwalk] at h
    obtain ⟨text, _, h⟩ := Checked.bind_eq_ok_iff.mp h
    obtain ⟨token, htoken, h⟩ := Checked.bind_eq_ok_iff.mp h
    obtain rfl := (Token.ofSpan_eq_ok_iff.mp htoken).2.2
    obtain rfl := Except.ok.inj h
    have hend : (c.forward 2).toEnd = c.forward (2 + body.length) := by
      rw [hbody]
      exact Cursor.forward_forward ..
    rw [(Cuts.loneVar hwalk).ofBytes_eq]
    exact ⟨rfl, hend, rfl⟩

theorem follows_of_markup {c : Cursor} {p : Piece} (h : markup c = .ok p) :
    Follows c (Cut.ofBytes c.rest) p := by
  unfold markup at h
  by_cases htag : tagOpen <+: c.rest
  · have hsees : c.sees tagOpen = true := List.isPrefixOf_iff_prefix.mpr htag
    rw [if_pos hsees] at h
    obtain ⟨d, hd, h⟩ := Checked.bind_eq_ok_iff.mp h
    obtain ⟨hlen, rfl⟩ := Cursor.advance_eq_ok_iff.mp hd
    have hf := follows_of_tag .loneTag rfl rfl rfl (Nat.le_refl 2) hlen h
    obtain ⟨inside, hinside⟩ := htag
    rw [← hinside, show (tagOpen ++ inside).drop 2 = inside from rfl] at hf
    rw [← hinside]
    exact hf
  · have hsees : ¬ c.sees tagOpen = true := fun hs => htag (List.isPrefixOf_iff_prefix.mp hs)
    rw [if_neg hsees] at h
    by_cases hvar : variableOpen <+: c.rest
    · have hsees : c.sees variableOpen = true := List.isPrefixOf_iff_prefix.mpr hvar
      rw [if_pos hsees] at h
      obtain ⟨body, hbody⟩ := hvar
      exact follows_of_var hbody.symm h
    · have hsees : ¬ c.sees variableOpen = true :=
        fun hs => hvar (List.isPrefixOf_iff_prefix.mp hs)
      rw [if_neg hsees] at h
      exact follows_of_text h htag hvar

/-- A step through markup finds the piece that the bytes ahead call for. -/
theorem exists_cut {c : Cursor} (hc : c.OnBoundary) (he : c.atEnd = false) :
    ∃ p, markup c = .ok p ∧ Fits c p ∧ Follows c (Cut.ofBytes c.rest) p := by
  obtain ⟨p, hp, hf, _⟩ := exists_markup hc he
  exact ⟨p, hp, hf, follows_of_markup hp⟩

end Piece
end LiquidTokens
