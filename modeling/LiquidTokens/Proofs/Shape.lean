import LiquidTokens.Proofs.Cut

/-! The shapes that a closed element of markup can have. A step ends behind the first bytes that have
one of them, and the main statements, `cuts_text_iff`, `cuts_tag_iff` and `cuts_var_iff`, say so in
both directions. -/
namespace LiquidTokens

open Delimiter

namespace Delimiter

theorem startsMarkup_append_left {l : List UInt8} (h : startsMarkup l = true) (rest : List UInt8) :
    startsMarkup (l ++ rest) = true := by
  obtain ⟨b, behind, rfl, hb⟩ := startsMarkup_iff.mp h
  exact startsMarkup_iff.mpr ⟨b, behind ++ rest, rfl, hb⟩

/-- Only a last open brace can be the first half of markup that other bytes complete. -/
theorem startsMarkup_append {l : List UInt8} (hne : l ≠ []) (hl : l ≠ [openBrace])
    (rest : List UInt8) : startsMarkup (l ++ rest) = startsMarkup l := by
  cases l with
  | nil => exact absurd rfl hne
  | cons a l =>
    cases l with
    | nil =>
      have ha : (a == openBrace) = false := beq_false_of_ne fun ha => hl (by rw [ha])
      cases rest with
      | nil => rfl
      | cons c rest =>
        rw [List.singleton_append, startsMarkup_cons_cons, startsMarkup_singleton, ha,
          Bool.false_and]
    | cons b l => simp only [List.cons_append, startsMarkup_cons_cons]

theorem startsMarkup_openBrace_cons {rest : List UInt8} (h : startsMarkup rest = true) :
    startsMarkup (openBrace :: rest) = true := by
  obtain ⟨b, behind, rfl, _⟩ := startsMarkup_iff.mp h
  exact startsMarkup_iff.mpr ⟨openBrace, b :: behind, rfl, Or.inl rfl⟩

theorem opener_prefix_append {x : UInt8} {bytes rest : List UInt8} (hne : bytes ≠ [])
    (h : [openBrace, x] <+: bytes ++ rest) :
    [openBrace, x] <+: bytes ∨ bytes = [openBrace] ∧ [x] <+: rest := by
  cases bytes with
  | nil => exact absurd rfl hne
  | cons a t =>
    cases t with
    | nil =>
      rw [List.singleton_append, List.cons_prefix_cons] at h
      obtain ⟨rfl, hx⟩ := h
      exact Or.inr ⟨rfl, hx⟩
    | cons b t =>
      simp only [List.cons_append, List.cons_prefix_cons] at h
      obtain ⟨rfl, rfl, _⟩ := h
      exact Or.inl ⟨t, rfl⟩

end Delimiter

namespace Kind

theorem ofBytes_eq_text {bytes : List UInt8} (htag : ¬ tagOpen <+: bytes)
    (hvar : ¬ variableOpen <+: bytes) : ofBytes bytes = .text := by
  unfold ofBytes
  split
  · exact absurd (List.prefix_append tagOpen _) htag
  · exact absurd (List.prefix_append variableOpen _) hvar
  · rfl

theorem ofBytes_tagOpen (inside : List UInt8) : ofBytes (tagOpen ++ inside) = .tag := rfl

theorem ofBytes_variableOpen (body : List UInt8) :
    ofBytes (variableOpen ++ body) = match Variable.ending body with
      | .redirected _ => .tag
      | .closed _ | .unterminated => .var := rfl

end Kind

namespace Markup

/-- The elements of markup that are closed. A redirect is a tag that starts out as a variable. -/
inductive Shape
  | text
  | tag
  | var
  | redirect
  deriving DecidableEq, Repr

namespace Shape

/-- The bytes that make up an element of the shape. Text opens nothing, and markup starts nowhere
behind its first byte. A tag goes up to its first closer, and a variable to where its walk closes. A
redirect goes up to the first closer behind the place where its walk redirects. -/
def Admits : Shape → List UInt8 → Prop
  | text, bytes => bytes ≠ [] ∧ ¬ tagOpen <+: bytes ∧ ¬ variableOpen <+: bytes ∧
    ∀ k, 1 ≤ k → startsMarkup (bytes.drop k) = false
  | tag, bytes => ∃ inside, bytes = tagOpen ++ inside ++ tagClose ∧ ¬ tagClose <:+: inside
  | var, bytes => ∃ body, bytes = variableOpen ++ body ∧
    Variable.ending body = .closed body.length
  | redirect, bytes => ∃ body inside, bytes = variableOpen ++ body ++ inside ++ tagClose ∧
    Variable.ending body = .redirected body.length ∧ ¬ tagClose <:+: inside

def kind : Shape → Kind
  | text => .text
  | tag | redirect => .tag
  | var => .var

def cut (length : Nat) : Shape → Cut
  | text => .text length
  | tag | redirect => .tag length
  | var => .var length

@[simp] theorem length_cut (shape : Shape) (n : Nat) : (shape.cut n).length = n := by
  cases shape <;> rfl

@[simp] theorem passed_cut (shape : Shape) (n : Nat) : (shape.cut n).passed = n := by
  cases shape <;> rfl

@[simp] theorem kind_cut (shape : Shape) (n : Nat) : (shape.cut n).kind = shape.kind := by
  cases shape <;> rfl

theorem Admits.ne_nil {shape : Shape} {bytes : List UInt8} (h : shape.Admits bytes) :
    bytes ≠ [] := by
  cases shape with
  | text => exact h.1
  | tag =>
    obtain ⟨inside, rfl, _⟩ := h
    exact List.cons_ne_nil _ _
  | var =>
    obtain ⟨body, rfl, _⟩ := h
    exact List.cons_ne_nil _ _
  | redirect =>
    obtain ⟨body, inside, rfl, _⟩ := h
    exact List.cons_ne_nil _ _

theorem Admits.four_le_length {shape : Shape} {bytes : List UInt8} (h : shape.Admits bytes)
    (hmarkup : shape ≠ .text) : 4 ≤ bytes.length := by
  cases shape with
  | text => exact absurd rfl hmarkup
  | tag =>
    obtain ⟨inside, rfl, _⟩ := h
    simp only [List.length_append, length_tagOpen, length_tagClose]
    omega
  | var =>
    obtain ⟨body, rfl, hwalk⟩ := h
    have hbody := Variable.two_le_of_ending (Or.inl hwalk)
    rw [List.length_append, length_variableOpen]
    omega
  | redirect =>
    obtain ⟨body, inside, rfl, _⟩ := h
    simp only [List.length_append, length_variableOpen, length_tagClose]
    omega

theorem Admits.ne_opener {shape : Shape} {bytes : List UInt8} (h : shape.Admits bytes) :
    bytes ≠ tagOpen ∧ bytes ≠ variableOpen := by
  by_cases hshape : shape = .text
  · subst hshape
    obtain ⟨_, htag, hvar, _⟩ := h
    exact ⟨fun heq => htag (heq ▸ List.prefix_rfl), fun heq => hvar (heq ▸ List.prefix_rfl)⟩
  · have hlen := h.four_le_length hshape
    constructor <;> (rintro rfl; exact absurd hlen (by decide))

theorem Admits.kind_eq {shape : Shape} {bytes : List UInt8} (h : shape.Admits bytes) :
    Kind.ofBytes bytes = shape.kind := by
  cases shape with
  | text => exact Kind.ofBytes_eq_text h.2.1 h.2.2.1
  | tag =>
    obtain ⟨inside, rfl, _⟩ := h
    rw [List.append_assoc]
    exact Kind.ofBytes_tagOpen _
  | var =>
    obtain ⟨body, rfl, hwalk⟩ := h
    rw [Kind.ofBytes_variableOpen, hwalk]
    rfl
  | redirect =>
    obtain ⟨body, inside, rfl, hwalk, _⟩ := h
    have hstops : Variable.ending body ≠ .unterminated := by simp [hwalk]
    have hmore := Variable.ending_append hstops (inside ++ tagClose)
    rw [List.append_assoc, List.append_assoc, Kind.ofBytes_variableOpen, hmore, hwalk]
    rfl

end Shape

/-- Behind the bytes nothing follows, or markup that does not start in them. -/
def Stops (bytes rest : List UInt8) : Prop :=
  rest = [] ∨ startsMarkup rest = true ∧ bytes.getLast? ≠ some openBrace

theorem plain_append_iff {a : UInt8} {t rest : List UInt8}
    (hvar : ¬ variableOpen <+: a :: t ++ rest) :
    plain (t ++ rest) = t.length ↔
      (∀ k, 1 ≤ k → startsMarkup ((a :: t).drop k) = false) ∧ Stops (a :: t) rest := by
  have htail (k : Nat) (hk : 1 ≤ k) : (a :: t).drop k = t.drop (k - 1) := by
    obtain ⟨m, rfl⟩ : ∃ m, k = m + 1 := ⟨k - 1, by omega⟩
    rfl
  rw [plain_eq_iff, List.drop_left]
  constructor
  · rintro ⟨_, hstop, hfree⟩
    refine ⟨?_, hstop.imp_right fun hstart => ⟨hstart, ?_⟩⟩
    · intro k hk
      rw [htail k hk, ← Bool.not_eq_true]
      intro hstart
      by_cases hlt : k - 1 < t.length
      · have hseen := startsMarkup_append_left hstart rest
        rw [← List.drop_append_of_le_length (Nat.le_of_lt hlt), hfree _ hlt] at hseen
        cases hseen
      · rw [List.drop_eq_nil_iff.mpr (Nat.not_lt.mp hlt)] at hstart
        cases hstart
    · intro hlast
      obtain ⟨front, hfront⟩ := List.getLast?_eq_some_iff.mp hlast
      cases front with
      | nil =>
        rw [hfront] at hvar
        obtain ⟨b, behind, rfl, _⟩ := startsMarkup_iff.mp hstart
        exact hvar ⟨b :: behind, rfl⟩
      | cons c front =>
        obtain rfl : t = front ++ [openBrace] := (List.cons.inj hfront).2
        have hseen := hfree front.length (by simp)
        rw [List.append_assoc, List.drop_left, List.singleton_append,
          startsMarkup_openBrace_cons hstart] at hseen
        cases hseen
  · rintro ⟨hfree, hstop⟩
    refine ⟨by simp, Or.imp_right And.left hstop, ?_⟩
    intro m hm
    have hne : t.drop m ≠ [] := by
      rw [ne_eq, List.drop_eq_nil_iff]
      omega
    rw [List.drop_append_of_le_length (Nat.le_of_lt hm)]
    by_cases hbrace : t.drop m = [openBrace]
    · rcases hstop with rfl | ⟨_, hlast⟩
      · rw [hbrace]
        rfl
      · refine absurd ?_ hlast
        rw [← List.take_append_drop m t, hbrace, ← List.cons_append, List.getLast?_concat]
    · rw [startsMarkup_append hne hbrace]
      exact hfree (m + 1) (by omega)

/-- Text ends where nothing follows, or in front of markup that does not start in it. -/
theorem cuts_text_iff {bytes rest : List UInt8} :
    Cuts (bytes ++ rest) (.text bytes.length) ↔ Shape.text.Admits bytes ∧ Stops bytes rest := by
  constructor
  · intro h
    obtain ⟨htag, hvar, hlen⟩ := h.eq_of_text
    cases bytes with
    | nil =>
      rw [List.length_nil] at hlen
      omega
    | cons a t =>
      have hplain : plain (t ++ rest) = t.length := by
        simp only [List.length_cons, List.cons_append, List.drop_succ_cons, List.drop_zero] at hlen
        omega
      obtain ⟨hfree, hstop⟩ := (plain_append_iff hvar).mp hplain
      exact ⟨⟨List.cons_ne_nil _ _, fun h => htag (h.trans (List.prefix_append _ _)),
        fun h => hvar (h.trans (List.prefix_append _ _)), hfree⟩, hstop⟩
  · rintro ⟨⟨hne, htag, hvar, hfree⟩, hstop⟩
    have htag' : ¬ tagOpen <+: bytes ++ rest := by
      intro h
      rcases opener_prefix_append hne h with h | ⟨_, h⟩
      · exact htag h
      · rcases hstop with rfl | ⟨hstart, _⟩
        · exact absurd h.length_le (by simp)
        · obtain ⟨b, behind, rfl, _⟩ := startsMarkup_iff.mp hstart
          exact absurd (List.cons_prefix_cons.mp h).1 (by decide)
    have hvar' : ¬ variableOpen <+: bytes ++ rest := by
      intro h
      rcases opener_prefix_append hne h with h | ⟨rfl, hx⟩
      · exact hvar h
      · rcases hstop with rfl | ⟨_, hlast⟩
        · exact absurd hx.length_le (by simp)
        · exact hlast rfl
    cases bytes with
    | nil => exact absurd rfl hne
    | cons a t =>
      have hplain := (plain_append_iff hvar').mpr ⟨hfree, hstop⟩
      have hcut := Cuts.text htag' hvar'
      rwa [List.cons_append, List.drop_succ_cons, List.drop_zero, hplain, Nat.add_comm] at hcut

theorem cuts_tag_iff {bytes rest : List UInt8} :
    Cuts (bytes ++ rest) (.tag bytes.length) ↔
      Shape.tag.Admits bytes ∨ Shape.redirect.Admits bytes := by
  constructor
  · intro h
    rcases h.eq_of_tag with ⟨inside, k, hahead, hlen, hclose⟩ |
      ⟨body, k, m, hahead, hlen, hwalk, hclose⟩
    · obtain ⟨x, y, rfl, rfl, hfree⟩ := closing_eq_some_iff.mp hclose
      have hsplit : bytes ++ rest = (tagOpen ++ x ++ tagClose) ++ y := by
        rw [hahead]
        simp only [List.append_assoc]
      have hsize : bytes.length = (tagOpen ++ x ++ tagClose).length := by
        simp only [List.length_append, length_tagOpen, length_tagClose]
        omega
      exact Or.inl ⟨x, List.append_inj_left hsplit hsize, hfree⟩
    · have htake := Variable.length_take_of_ending (Or.inr hwalk)
      have hwalk' : Variable.ending (body.take k) = .redirected (body.take k).length := by
        rw [htake, Variable.ending_take (Or.inr hwalk) (Nat.le_refl k), hwalk]
      obtain ⟨x, y, hdrop, rfl, hfree⟩ := closing_eq_some_iff.mp hclose
      have hsplit : bytes ++ rest = (variableOpen ++ body.take k ++ x ++ tagClose) ++ y := by
        rw [hahead, ← List.take_append_drop k body, hdrop]
        simp only [List.append_assoc, List.take_append_drop, ← hdrop]
      have hsize : bytes.length = (variableOpen ++ body.take k ++ x ++ tagClose).length := by
        simp only [List.length_append, length_variableOpen, length_tagClose]
        omega
      exact Or.inr ⟨body.take k, x, List.append_inj_left hsplit hsize, hwalk', hfree⟩
  · rintro (⟨inside, rfl, hfree⟩ | ⟨body, inside, rfl, hwalk, hfree⟩)
    · have hclose : closing (inside ++ tagClose ++ rest) = some (inside.length + 2) :=
        closing_eq_some_iff.mpr ⟨inside, rest, rfl, rfl, hfree⟩
      have hsize : (tagOpen ++ inside ++ tagClose).length = 2 + (inside.length + 2) := by
        simp only [List.length_append, length_tagOpen, length_tagClose]
        omega
      have hsplit : tagOpen ++ inside ++ tagClose ++ rest =
          tagOpen ++ (inside ++ tagClose ++ rest) := by
        simp only [List.append_assoc]
      rw [hsize, hsplit]
      exact .tag hclose
    · have hmore : Variable.ending (body ++ (inside ++ tagClose ++ rest)) =
          .redirected body.length := by
        rw [Variable.ending_append (by simp [hwalk]), hwalk]
      have hclose : closing ((body ++ (inside ++ tagClose ++ rest)).drop body.length) =
          some (inside.length + 2) := by
        rw [List.drop_left]
        exact closing_eq_some_iff.mpr ⟨inside, rest, rfl, rfl, hfree⟩
      have hsize : (variableOpen ++ body ++ inside ++ tagClose).length =
          2 + body.length + (inside.length + 2) := by
        simp only [List.length_append, length_variableOpen, length_tagClose]
        omega
      have hsplit : variableOpen ++ body ++ inside ++ tagClose ++ rest =
          variableOpen ++ (body ++ (inside ++ tagClose ++ rest)) := by
        simp only [List.append_assoc]
      rw [hsize, hsplit]
      exact .redirect hmore hclose

theorem cuts_var_iff {bytes rest : List UInt8} :
    Cuts (bytes ++ rest) (.var bytes.length) ↔ Shape.var.Admits bytes := by
  constructor
  · intro h
    obtain ⟨body, k, hahead, hlen, hwalk⟩ := h.eq_of_var
    have htake := Variable.length_take_of_ending (Or.inl hwalk)
    have hwalk' : Variable.ending (body.take k) = .closed (body.take k).length := by
      rw [htake, Variable.ending_take (Or.inl hwalk) (Nat.le_refl k), hwalk]
    have hsplit : bytes ++ rest = (variableOpen ++ body.take k) ++ body.drop k := by
      rw [hahead, List.append_assoc, List.take_append_drop]
    have hsize : bytes.length = (variableOpen ++ body.take k).length := by
      rw [List.length_append, length_variableOpen, htake, hlen]
    exact ⟨body.take k, List.append_inj_left hsplit hsize, hwalk'⟩
  · rintro ⟨body, rfl, hwalk⟩
    have hmore : Variable.ending (body ++ rest) = .closed body.length := by
      rw [Variable.ending_append (by simp [hwalk]), hwalk]
    rw [List.length_append, length_variableOpen, List.append_assoc]
    exact .var hmore

/-- A step in front of a closed element ends right behind it. -/
theorem Shape.Admits.cuts {shape : Shape} {bytes rest : List UInt8} (h : shape.Admits bytes)
    (hstop : shape = .text → Stops bytes rest) :
    Cuts (bytes ++ rest) (shape.cut bytes.length) := by
  cases shape with
  | text => exact cuts_text_iff.mpr ⟨h, hstop rfl⟩
  | tag => exact cuts_tag_iff.mpr (Or.inl h)
  | var => exact cuts_var_iff.mpr h
  | redirect => exact cuts_tag_iff.mpr (Or.inr h)

/-- A step passes a lone opener or a closed element. -/
theorem Cuts.exists_shape {bytes rest : List UInt8} {cut : Cut} (h : Cuts (bytes ++ rest) cut)
    (hlen : bytes.length = cut.length) :
    (bytes = tagOpen ∧ cut.kind = .tag) ∨ (bytes = variableOpen ∧ cut.kind = .var) ∨
      ∃ shape : Shape, cut = shape.cut bytes.length ∧ shape.Admits bytes ∧
        (shape = .text → Stops bytes rest) := by
  cases cut with
  | text n =>
    obtain rfl : bytes.length = n := hlen
    obtain ⟨hadmits, hstop⟩ := cuts_text_iff.mp h
    exact Or.inr (Or.inr ⟨.text, rfl, hadmits, fun _ => hstop⟩)
  | tag n =>
    obtain rfl : bytes.length = n := hlen
    rcases cuts_tag_iff.mp h with hadmits | hadmits
    · exact Or.inr (Or.inr ⟨.tag, rfl, hadmits, nofun⟩)
    · exact Or.inr (Or.inr ⟨.redirect, rfl, hadmits, nofun⟩)
  | var n =>
    obtain rfl : bytes.length = n := hlen
    exact Or.inr (Or.inr ⟨.var, rfl, cuts_var_iff.mp h, nofun⟩)
  | loneTag =>
    obtain ⟨inside, hinside, _⟩ := h.eq_of_loneTag
    exact Or.inl ⟨List.append_inj_left hinside hlen, rfl⟩
  | loneRedirect =>
    obtain ⟨body, _, hbody, _⟩ := h.eq_of_loneRedirect
    exact Or.inr (Or.inl ⟨List.append_inj_left hbody hlen, rfl⟩)
  | loneVar n =>
    obtain ⟨body, hbody, _⟩ := h.eq_of_loneVar
    exact Or.inr (Or.inl ⟨List.append_inj_left hbody hlen, rfl⟩)

end Markup
end LiquidTokens
