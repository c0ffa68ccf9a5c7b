import LiquidTokens.Proofs.Append
import LiquidTokens.Proofs.Pairs

/-! What a tag without a closer leaves behind. Its closer was looked for up to the end of the source, so
that no tag closes behind it, not even one that starts out as a variable in bytes that are read again. The
main statement is `drain_unclosed`. -/
namespace LiquidTokens

open Delimiter

namespace Variable

/-- With an open brace waiting in front, a walk that redirects does so no later. -/
theorem exists_redirect_of_openBrace {w : Waiting} {n a : Nat} {body : List UInt8}
    (h : walk w n body = .redirected a) : ∃ b ≤ a, walk .openBrace n body = .redirected b := by
  induction body generalizing w n with
  | nil => cases h
  | cons c rest ih =>
    by_cases hw : w = .openBrace
    · subst hw
      exact ⟨a, Nat.le_refl a, h⟩
    · have hlt := (read_le_of_walk (Or.inr h)).1
      rw [walk] at h
      split at h
      · cases h
      · rw [if_neg fun hr => hw hr.1] at h
        -- The two walks agree from the first byte on that is no delimiter.
        rcases delimiter_or_isPlain c with rfl | rfl | rfl | hc
        · exact ih h
        · exact ih h
        · exact ⟨n + 1, hlt, rfl⟩
        · rw [Waiting.next_of_isPlain hc] at h
          exact ⟨a, Nat.le_refl a, by rw [walk_cons_of_isPlain hc, h]⟩

theorem exists_redirect_drop {w : Waiting} {m k : Nat} {body : List UInt8}
    (h : walk w 0 body = .redirected (m + k)) (hk : 0 < k) :
    ∃ w', walk w' 0 (body.drop m) = .redirected k := by
  induction m generalizing w body with
  | zero => exact ⟨w, by rw [List.drop_zero, h, Nat.zero_add]⟩
  | succ m ih =>
    cases body with
    | nil => cases h
    | cons c rest =>
      rw [walk] at h
      split at h
      · cases h
      · split at h
        · have hread := Ending.redirected.inj h
          omega
        · rw [walk_add, Ending.map_eq_redirected_iff] at h
          obtain ⟨j, hrest, hread⟩ := h
          obtain rfl : j = m + k := by omega
          exact ih hrest

end Variable

namespace Markup

/-- There is no closer ahead, or none behind the place where some walk from here redirects. -/
def Unclosed (ahead : List UInt8) : Prop :=
  ¬ tagClose <:+: ahead ∨
    ∃ w k, Variable.walk w 0 ahead = .redirected k ∧ ¬ tagClose <:+: ahead.drop k

theorem not_infix_drop {l : List UInt8} {m n : Nat} (h : ¬ tagClose <:+: l.drop m) (hmn : m ≤ n) :
    ¬ tagClose <:+: l.drop n := by
  intro hclose
  refine h (hclose.trans ?_)
  rw [← Nat.add_sub_cancel' hmn, ← List.drop_drop]
  exact (List.drop_suffix _ _).isInfix

theorem Unclosed.drop {ahead : List UInt8} (h : Unclosed ahead) (n : Nat) :
    Unclosed (ahead.drop n) := by
  rcases h with hnone | ⟨w, k, hwalk, hnone⟩
  · exact Or.inl (not_infix_drop (m := 0) (by rwa [List.drop_zero]) (Nat.zero_le n))
  · by_cases hlt : n < k
    · obtain ⟨j, rfl⟩ := Nat.exists_eq_add_of_le (Nat.le_of_lt hlt)
      obtain ⟨w', hw'⟩ := Variable.exists_redirect_drop hwalk (by omega)
      exact Or.inr ⟨w', j, hw', by rwa [List.drop_drop]⟩
    · exact Or.inl (not_infix_drop hnone (Nat.not_lt.mp hlt))

theorem Unclosed.not_infix_of_tagOpen {inside : List UInt8} (h : Unclosed (tagOpen ++ inside)) :
    ¬ tagClose <:+: inside := by
  rcases h with hnone | ⟨w, k, hwalk, hnone⟩
  · exact fun hclose => hnone (hclose.trans (List.suffix_append _ _).isInfix)
  · have hstop : Variable.walk w 0 (tagOpen ++ inside) = .redirected 2 := by
      cases w <;> rfl
    obtain rfl := Variable.Ending.redirected.inj (hstop.symm.trans hwalk)
    exact hnone

/-- Behind the redirect of a variable there is no closer. Its walk starts with nothing waiting, and so it
redirects no earlier than the walk that goes over its opener. -/
theorem Unclosed.not_infix_of_redirected {body : List UInt8} {n : Nat}
    (h : Unclosed (variableOpen ++ body)) (hwalk : Variable.ending body = .redirected n) :
    ¬ tagClose <:+: body.drop n := by
  rcases h with hnone | ⟨w, k, houter, hnone⟩
  · intro hclose
    exact hnone ((hclose.trans (List.drop_suffix n body).isInfix).trans
      (List.suffix_append _ _).isInfix)
  · obtain ⟨b, hle, hopen⟩ := Variable.exists_redirect_of_openBrace hwalk
    have hover : Variable.walk w 0 (variableOpen ++ body) = .redirected (b + 2) := by
      have hopeners : Variable.walk w 0 (variableOpen ++ body) =
          Variable.walk .openBrace (0 + 2) body := by
        cases w <;> rfl
      rw [hopeners, Variable.walk_add, hopen]
      rfl
    obtain rfl := Variable.Ending.redirected.inj (hover.symm.trans houter)
    exact not_infix_drop hnone hle

theorem Unclosed.not_cuts_tag {ahead : List UInt8} (h : Unclosed ahead) (n : Nat) :
    ¬ Cuts ahead (.tag n) := by
  intro hcut
  rcases hcut.eq_of_tag with ⟨inside, k, rfl, _, hclose⟩ | ⟨body, k, m, rfl, _, hwalk, hclose⟩
  · rw [closing_eq_none_iff.mpr h.not_infix_of_tagOpen] at hclose
    cases hclose
  · rw [closing_eq_none_iff.mpr (h.not_infix_of_redirected hwalk)] at hclose
    cases hclose

theorem Cuts.unclosed_drop {ahead : List UInt8} {cut : Cut} (h : Cuts ahead cut)
    (hlone : cut = .loneTag ∨ cut = .loneRedirect) : Unclosed (ahead.drop cut.passed) := by
  rcases hlone with rfl | rfl
  · obtain ⟨inside, rfl, hopen⟩ := h.eq_of_loneTag
    exact Or.inl (closing_eq_none_iff.mp hopen)
  · obtain ⟨body, k, rfl, hwalk, hopen⟩ := h.eq_of_loneRedirect
    exact Or.inr ⟨.nothing, k, hwalk, closing_eq_none_iff.mp hopen⟩

theorem Cuts.lone_of_opener {ahead bytes : List UInt8} {cut : Cut} (h : Cuts ahead cut)
    (hne : ahead ≠ []) (hbytes : bytes = ahead.take cut.length)
    (hopen : bytes = tagOpen ∨ bytes = variableOpen) :
    (cut = .loneTag ∨ cut = .loneRedirect) ∨ ∃ n, cut = .loneVar n := by
  obtain ⟨hlen, hsplit⟩ := h.eq_append hne hbytes
  rw [← hsplit] at h
  cases cut with
  | loneTag => exact Or.inl (Or.inl rfl)
  | loneRedirect => exact Or.inl (Or.inr rfl)
  | loneVar n => exact Or.inr ⟨n, rfl⟩
  | text n =>
    obtain rfl : bytes.length = n := hlen
    exact absurd hopen (not_or.mpr (cuts_text_iff.mp h).1.ne_opener)
  | tag n =>
    obtain rfl : bytes.length = n := hlen
    have hadmits := cuts_tag_iff.mp h
    exact absurd hopen (not_or.mpr (hadmits.elim (·.ne_opener) (·.ne_opener)))
  | var n =>
    obtain rfl : bytes.length = n := hlen
    exact absurd hopen (not_or.mpr (cuts_var_iff.mp h).ne_opener)

theorem Stream.eq_tagOpen_of_unclosed {pos : Nat} {line : LineNumber} {ahead : List UInt8}
    {es : List Emission} (h : Stream pos line ahead es) (hunclosed : Unclosed ahead) :
    ∀ e ∈ es, e.token.kind = .tag → utf8 e.token.text = tagOpen := by
  intro e he hkind
  obtain ⟨k, cut, _, hne, hcut, htext⟩ := h.exists_cut he
  obtain ⟨hlen, hsplit⟩ := hcut.eq_append hne htext
  have htag : cut.kind = .tag := by
    rw [← (Cuts.ofBytes_kind_eq (hsplit.symm ▸ hcut) hlen).1]
    exact hkind
  cases cut with
  | tag n => exact absurd hcut ((hunclosed.drop k).not_cuts_tag n)
  | loneTag =>
    obtain ⟨inside, hinside, _⟩ := hcut.eq_of_loneTag
    rw [htext, hinside]
    rfl
  | text | var | loneRedirect | loneVar => cases htag

theorem Stream.pairwise_unclosed {pos : Nat} {line : LineNumber} {ahead : List UInt8}
    {es : List Emission} (h : Stream pos line ahead es) :
    es.Pairwise fun e f => e.token.IsLone → .unterminatedTag e.token.span.start ∈ e.events ∧
      (f.token.kind = .tag → utf8 f.token.text = tagOpen) := by
  induction h with
  | done => exact .nil
  | @step pos line ahead cut text es hne hcut htext hrest ih =>
    refine .cons (fun f hf hlone => ?_) ih
    -- A tag without a closer leaves none to the tokens behind it, and a variable that never ends leaves
    -- no tokens.
    rcases hcut.lone_of_opener hne htext hlone with hlone | ⟨n, rfl⟩
    · refine ⟨?_, hrest.eq_tagOpen_of_unclosed (hcut.unclosed_drop hlone) f hf⟩
      rcases hlone with rfl | rfl <;> exact List.mem_cons_self
    · rw [hrest.eq_nil_of_loneVar hcut] at hf
      cases hf

/-- Of any two tokens, where the first is the opener of a tag that does not close, or of a variable that
was to become one, the second is no closed tag: if it is a tag at all, it is the opener of one. -/
theorem drain_unclosed (text : String) (line : LineNumber) :
    ∃ es last, (Tokenizer.start .markup text line).drain = .ok (es, last) ∧
      last.next = .ok (none, last) ∧
      ∀ (i j : Nat) (e f : Emission), i < j → es[i]? = some e → es[j]? = some f →
        e.token.IsLone → .unterminatedTag e.token.span.start ∈ e.events ∧
          (f.token.kind = .tag → utf8 f.token.text = tagOpen) ∧
          ∀ shape : Shape, shape.Admits (utf8 f.token.text) → shape.kind ≠ .tag := by
  obtain ⟨es, last, hdrain, hlast, hs⟩ := exists_stream text line
  refine ⟨es, last, hdrain, hlast, fun i j e f hij he hf hlone => ?_⟩
  obtain ⟨hi, rfl⟩ := List.getElem?_eq_some_iff.mp he
  obtain ⟨hj, rfl⟩ := List.getElem?_eq_some_iff.mp hf
  obtain ⟨hreport, htag⟩ := List.pairwise_iff_getElem.mp hs.pairwise_unclosed i j hi hj hij hlone
  refine ⟨hreport, htag, fun shape hadmits hshape => ?_⟩
  exact hadmits.ne_opener.1 (htag (hadmits.kind_eq.trans hshape))

/-- The redirect at the start has no closer. The bytes in front of it hold a variable opener, which
redirects in turn, and the bytes behind it a tag opener. -/
theorem drain_unclosed_of_nested_openers : ∃ es last,
    (Tokenizer.start .markup "\x7b\x7b \x7b\x7b\x7d%\x7b%" none).drain = .ok (es, last) ∧
      ∃ e f, 0 < 4 ∧ es[0]? = some e ∧ es[4]? = some f ∧ utf8 e.token.text = variableOpen ∧
        .unterminatedTag 0 ∈ e.events ∧ f.token.kind = .tag ∧ utf8 f.token.text = tagOpen := by
  obtain ⟨es, last, hdrain, _, hpairs⟩ := drain_unclosed "\x7b\x7b \x7b\x7b\x7d%\x7b%" none
  have htokens : es.map Emission.token = [⟨"\x7b\x7b", ⟨0, 2⟩⟩, ⟨" ", ⟨2, 3⟩⟩,
      ⟨"\x7b\x7b", ⟨3, 5⟩⟩, ⟨"\x7d%", ⟨5, 7⟩⟩, ⟨"\x7b%", ⟨7, 9⟩⟩] :=
    Tokenizer.map_token_eq_of_drain hdrain (by decide +kernel)
  obtain ⟨e, he, hopen⟩ := Tokenizer.exists_of_map_token_eq htokens (i := 0) rfl
  obtain ⟨f, hf, htag⟩ := Tokenizer.exists_of_map_token_eq htokens (i := 4) rfl
  have hlone : utf8 e.token.text = variableOpen := by
    rw [hopen]
    rfl
  have hkind : f.token.kind = .tag := by
    rw [htag]
    rfl
  obtain ⟨hreport, honly, _⟩ := hpairs 0 4 e f (by decide) he hf (Or.inr hlone)
  rw [hopen] at hreport
  exact ⟨es, last, hdrain, e, f, by decide, he, hf, hlone, hreport, hkind, honly hkind⟩

end Markup
end LiquidTokens
