import LiquidTokens.Proofs.Shape
import LiquidTokens.Proofs.Stream

/-! The kind of a token, which is read off its text alone, beside what lies at its start in the source.
The main statement is `drain_kinds`. -/
namespace LiquidTokens
namespace Markup

open Delimiter

/-- What the bytes at the start of a token call for. A redirect is a tag if it closes, and a variable
otherwise. -/
def Opens (ahead : List UInt8) : Kind → Prop
  | .text => ¬ tagOpen <+: ahead ∧ ¬ variableOpen <+: ahead
  | .tag => tagOpen <+: ahead ∨ ∃ body n, ahead = variableOpen ++ body ∧
    Variable.ending body = .redirected n ∧ tagClose <:+: body.drop n
  | .var => ∃ body, ahead = variableOpen ++ body ∧
    ((∃ n, Variable.ending body = .closed n) ∨ Variable.ending body = .unterminated ∨
      ∃ n, Variable.ending body = .redirected n ∧ ¬ tagClose <:+: body.drop n)

/-- How a token of each kind ends. -/
def Closes (bytes : List UInt8) : Kind → Prop
  | .text => True
  | .tag => bytes = tagOpen ∨ 4 ≤ bytes.length ∧ tagClose <:+ bytes
  | .var => bytes = variableOpen ∨ 4 ≤ bytes.length ∧
    ∃ m, closeBrace :: (List.replicate m percent ++ [closeBrace]) <:+ bytes

theorem Opens.exists_cut {ahead : List UInt8} {k : Kind} (h : Opens ahead k) :
    ∃ cut, Cuts ahead cut ∧ cut.kind = k := by
  cases k with
  | text => exact ⟨_, .text h.1 h.2, rfl⟩
  | tag =>
    rcases h with ⟨inside, rfl⟩ | ⟨body, n, rfl, hwalk, hcloser⟩
    · cases hclose : closing inside with
      | none => exact ⟨_, .loneTag hclose, rfl⟩
      | some n => exact ⟨_, .tag hclose, rfl⟩
    · cases hclose : closing (body.drop n) with
      | none => exact absurd hcloser (closing_eq_none_iff.mp hclose)
      | some m => exact ⟨_, .redirect hwalk hclose, rfl⟩
  | var =>
    obtain ⟨body, rfl, ⟨n, hwalk⟩ | hwalk | ⟨n, hwalk, hnone⟩⟩ := h
    · exact ⟨_, .var hwalk, rfl⟩
    · exact ⟨_, .loneVar hwalk, rfl⟩
    · exact ⟨_, .loneRedirect hwalk (closing_eq_none_iff.mpr hnone), rfl⟩

theorem Cuts.opens {ahead : List UInt8} {cut : Cut} (h : Cuts ahead cut) :
    Opens ahead cut.kind := by
  cases h with
  | tag | loneTag => exact Or.inl (List.prefix_append _ _)
  | var hwalk => exact ⟨_, rfl, Or.inl ⟨_, hwalk⟩⟩
  | @redirect body n m hwalk hclose =>
    have hcloser : tagClose <:+: body.drop n := by
      obtain ⟨inside, rest, hbody, _⟩ := closing_eq_some_iff.mp hclose
      exact ⟨inside, rest, hbody.symm⟩
    exact Or.inr ⟨body, n, rfl, hwalk, hcloser⟩
  | loneRedirect hwalk hopen =>
    exact ⟨_, rfl, Or.inr (Or.inr ⟨_, hwalk, closing_eq_none_iff.mp hopen⟩)⟩
  | loneVar hwalk => exact ⟨_, rfl, Or.inr (Or.inl hwalk)⟩
  | text htag hvar => exact ⟨htag, hvar⟩

theorem Cuts.kind_eq_iff {ahead : List UInt8} {cut : Cut} (h : Cuts ahead cut) {k : Kind} :
    cut.kind = k ↔ Opens ahead k := by
  constructor
  · intro hk
    rw [← hk]
    exact h.opens
  · intro hk
    obtain ⟨cut', h', hk'⟩ := hk.exists_cut
    rw [← hk', h.unique h']

theorem Shape.Admits.closes {shape : Shape} {bytes : List UInt8} (h : shape.Admits bytes) :
    Closes bytes shape.kind := by
  have hlen := h.four_le_length
  cases shape with
  | text => trivial
  | tag =>
    obtain ⟨inside, rfl, _⟩ := h
    exact Or.inr ⟨hlen nofun, List.suffix_append _ _⟩
  | var =>
    obtain ⟨body, rfl, hwalk⟩ := h
    obtain ⟨m, hm⟩ := Variable.exists_closer_suffix hwalk
    rw [List.take_length] at hm
    exact Or.inr ⟨hlen nofun, m, hm.trans (List.suffix_append _ _)⟩
  | redirect =>
    obtain ⟨body, inside, rfl, _⟩ := h
    exact Or.inr ⟨hlen nofun, List.suffix_append _ _⟩

theorem Cuts.ofBytes_kind_eq {bytes rest : List UInt8} {cut : Cut} (h : Cuts (bytes ++ rest) cut)
    (hlen : bytes.length = cut.length) : Kind.ofBytes bytes = cut.kind ∧ Closes bytes cut.kind := by
  rcases h.exists_shape hlen with ⟨rfl, hkind⟩ | ⟨rfl, hkind⟩ | ⟨shape, hcut, hadmits, _⟩
  · rw [hkind]
    exact ⟨rfl, Or.inl rfl⟩
  · rw [hkind]
    exact ⟨rfl, Or.inl rfl⟩
  · rw [hcut, Shape.kind_cut]
    exact ⟨hadmits.kind_eq, hadmits.closes⟩

/-- A token of a text has exactly the kind that the source calls for at its start, and it is a lone
opener or ends as its kind does. -/
theorem drain_kinds (text : String) (line : LineNumber) :
    ∃ es last, (Tokenizer.start .markup text line).drain = .ok (es, last) ∧
      last.next = .ok (none, last) ∧ ∀ e ∈ es,
        (∀ k, e.token.kind = k ↔ Opens ((utf8 text).drop e.token.span.start) k) ∧
          Closes (utf8 e.token.text) e.token.kind := by
  obtain ⟨es, last, hdrain, hlast, hs⟩ := exists_stream text line
  refine ⟨es, last, hdrain, hlast, fun e he => ?_⟩
  obtain ⟨start, cut, hspan, hne, hcut, htext⟩ := hs.exists_cut he
  have hstart : e.token.span.start = start := by rw [hspan, Nat.zero_add]
  obtain ⟨hlen, hsplit⟩ := hcut.eq_append hne htext
  obtain ⟨hkind, hcloses⟩ := Cuts.ofBytes_kind_eq (hsplit.symm ▸ hcut) hlen
  have htoken : e.token.kind = cut.kind := hkind
  rw [hstart, htoken]
  exact ⟨fun k => hcut.kind_eq_iff, hcloses⟩

-- No closer and no search for an opener decides a kind.
example : Kind.ofText "\x7b\x7b \x7d%\x7d" = .var := by decide

example : Kind.ofText "\x7b\x7b \x7b\x7d% a %\x7d" = .tag := by decide

end Markup
end LiquidTokens
