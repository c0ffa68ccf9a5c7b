import LiquidTokens.Proofs.Shape
import LiquidTokens.Proofs.Stream

/-! The lists of texts that markup falls into. They are the well-formed lists of closed elements: each
such list is split into itself, and a split without a lone opener is such a list. The main statement
is `drain_grammar`. -/
namespace LiquidTokens

open Delimiter

namespace Markup

/-- Text stops in front of it, and opens with it where it follows other text. -/
def emptyBraces : List UInt8 := [openBrace, closeBrace]

/-- The texts are those of elements that may stand in this order behind the previous one. Only a last
text may end in an open brace, and text behind text starts with an empty pair of braces. -/
def WellFormed (previous : Option Shape) : List (Shape × String) → Prop
  | [] => True
  | (shape, s) :: rest => shape.Admits (utf8 s) ∧
    (shape = .text → (rest ≠ [] → (utf8 s).getLast? ≠ some openBrace) ∧
      (previous = some .text → emptyBraces <+: utf8 s)) ∧
    WellFormed (some shape) rest

theorem startsMarkup_of_emptyBraces {bytes : List UInt8} (h : emptyBraces <+: bytes) :
    startsMarkup bytes = true := by
  obtain ⟨rest, rfl⟩ := h
  rfl

theorem WellFormed.startsMarkup_head {shape : Shape} {s : String} {rest : List (Shape × String)}
    (h : WellFormed (some .text) ((shape, s) :: rest)) : startsMarkup (utf8 s) = true := by
  obtain ⟨hadmits, htext, _⟩ := h
  cases shape with
  | text => exact startsMarkup_of_emptyBraces ((htext rfl).2 rfl)
  | tag =>
    obtain ⟨inside, hs, _⟩ := hadmits
    rw [hs]
    rfl
  | var =>
    obtain ⟨body, hs, _⟩ := hadmits
    rw [hs]
    rfl
  | redirect =>
    obtain ⟨body, inside, hs, _⟩ := hadmits
    rw [hs]
    rfl

theorem WellFormed.cuts {previous : Option Shape} {shape : Shape} {s : String}
    {rest : List (Shape × String)} (h : WellFormed previous ((shape, s) :: rest)) :
    Cuts (utf8 s ++ rest.flatMap fun x => utf8 x.2) (shape.cut (utf8 s).length) := by
  obtain ⟨hadmits, htext, hrest⟩ := h
  apply hadmits.cuts
  rintro rfl
  cases rest with
  | nil => exact Or.inl rfl
  | cons x rest =>
    have hstart := startsMarkup_append_left hrest.startsMarkup_head (rest.flatMap fun x => utf8 x.2)
    exact Or.inr ⟨hstart, (htext rfl).1 (List.cons_ne_nil _ _)⟩

theorem Stream.emits_of_wellFormed {previous : Option Shape} {elements : List (Shape × String)}
    (hw : WellFormed previous elements) {pos : Nat} {line : LineNumber} {es : List Emission}
    (h : Stream pos line (elements.flatMap fun x => utf8 x.2) es) :
    es.map (fun e => (e.token.kind, e.token.text)) = elements.map fun x => (x.1.kind, x.2) := by
  induction elements generalizing previous pos line es with
  | nil =>
    obtain rfl := h.eq_nil
    rfl
  | cons x rest ih =>
    obtain ⟨shape, s⟩ := x
    have hadmits := hw.1
    have hcuts := hw.cuts
    rw [List.flatMap_cons] at h
    generalize hahead : utf8 s ++ rest.flatMap (fun x => utf8 x.2) = ahead at h hcuts
    cases h with
    | done => exact absurd (List.append_eq_nil_iff.mp hahead).1 hadmits.ne_nil
    | @step _ _ _ cut text es _ hcut htext hrest =>
      -- There is one step from here, and so it is the one that passes the first element.
      obtain rfl : cut = shape.cut (utf8 s).length := hcut.unique hcuts
      subst hahead
      rw [Shape.length_cut, List.take_left] at htext
      obtain rfl := utf8_injective htext
      rw [Shape.passed_cut, List.drop_left] at hrest
      have hkind : Kind.ofText text = shape.kind := hadmits.kind_eq
      rw [List.map_cons, List.map_cons, ih hw.2.2 hrest, ← hkind]
      rfl

theorem Shape.Admits.emptyBraces_of_startsMarkup {bytes rest : List UInt8}
    (h : Shape.text.Admits bytes) (hstop : Stops bytes rest)
    (hstart : startsMarkup (bytes ++ rest) = true) : emptyBraces <+: bytes := by
  obtain ⟨hne, htag, hvar, _⟩ := h
  have hlone : bytes ≠ [openBrace] := by
    rintro rfl
    rcases hstop with rfl | ⟨_, hlast⟩
    · cases hstart
    · exact hlast rfl
  rw [startsMarkup_append hne hlone] at hstart
  obtain ⟨b, behind, rfl, rfl | rfl | rfl⟩ := startsMarkup_iff.mp hstart
  · exact absurd ⟨behind, rfl⟩ hvar
  · exact absurd ⟨behind, rfl⟩ htag
  · exact ⟨behind, rfl⟩

/-- An element may stand in front of well-formed elements where a step passes it, and text may stand
behind text where it was stopped for. -/
theorem WellFormed.cons {previous : Option Shape} {shape : Shape} {s : String}
    {elements : List (Shape × String)} {rest : List UInt8} (hadmits : shape.Admits (utf8 s))
    (hstop : shape = .text → Stops (utf8 s) rest) (hend : rest = [] → elements = [])
    (hprevious : previous = some .text → startsMarkup (utf8 s ++ rest) = true)
    (h : WellFormed (some shape) elements) : WellFormed previous ((shape, s) :: elements) := by
  refine ⟨hadmits, ?_, h⟩
  rintro rfl
  constructor
  · intro hmore
    rcases hstop rfl with hnil | ⟨_, hlast⟩
    · exact absurd (hend hnil) hmore
    · exact hlast
  · intro hbehind
    exact hadmits.emptyBraces_of_startsMarkup (hstop rfl) (hprevious hbehind)

theorem Stream.exists_wellFormed {pos : Nat} {line : LineNumber} {ahead : List UInt8}
    {es : List Emission} (h : Stream pos line ahead es)
    (hclosed : ∀ e ∈ es, utf8 e.token.text ≠ variableOpen ∧ utf8 e.token.text ≠ tagOpen) :
    ∃ elements, elements.map Prod.snd = es.map (fun e => e.token.text) ∧
      ∀ previous, (previous = some .text → ahead = [] ∨ startsMarkup ahead = true) →
        WellFormed previous elements := by
  induction h with
  | done => exact ⟨[], rfl, fun _ _ => trivial⟩
  | @step pos line ahead cut text es hne hcut htext hrest ih =>
    obtain ⟨hlen, hsplit⟩ := hcut.eq_append hne htext
    obtain ⟨hvar, htag⟩ := hclosed _ List.mem_cons_self
    rw [← hsplit] at hcut
    rcases hcut.exists_shape hlen with ⟨hopen, _⟩ | ⟨hopen, _⟩ | ⟨shape, rfl, hadmits, hstop⟩
    · exact absurd hopen htag
    · exact absurd hopen hvar
    · rw [Shape.length_cut] at hsplit hstop
      rw [Shape.passed_cut] at hrest ih
      obtain ⟨elements, htexts, hwell⟩ := ih fun e he => hclosed e (List.mem_cons_of_mem _ he)
      have hend : ahead.drop (utf8 text).length = [] → elements = [] := by
        intro hnil
        rw [hnil] at hrest
        rw [hrest.eq_nil, List.map_nil, List.map_eq_nil_iff] at htexts
        exact htexts
      have hbehind : WellFormed (some shape) elements := by
        apply hwell
        intro hshape
        exact Or.imp_right And.left (hstop (Option.some.inj hshape))
      refine ⟨(shape, text) :: elements, congrArg (text :: ·) htexts, ?_⟩
      intro previous hprevious
      apply hbehind.cons hadmits hstop hend
      intro htext
      rw [hsplit]
      exact (hprevious htext).resolve_left hne

/-- The texts of well-formed elements, put together, are split into these texts, with the kinds of
the elements. And where no token is a lone opener, the tokens are well-formed elements. -/
theorem drain_grammar (line : LineNumber) :
    (∀ elements, WellFormed none elements → ∃ es last,
      (Tokenizer.start .markup (String.join (elements.map Prod.snd)) line).drain =
          .ok (es, last) ∧ last.next = .ok (none, last) ∧
        es.map (fun e => (e.token.kind, e.token.text)) = elements.map fun x => (x.1.kind, x.2)) ∧
    ∀ text, ∃ es last, (Tokenizer.start .markup text line).drain = .ok (es, last) ∧
      last.next = .ok (none, last) ∧
      ((∀ e ∈ es, utf8 e.token.text ≠ variableOpen ∧ utf8 e.token.text ≠ tagOpen) →
        ∃ elements, WellFormed none elements ∧
          elements.map Prod.snd = es.map fun e => e.token.text) := by
  constructor
  · intro elements hw
    obtain ⟨es, last, hdrain, hlast, hs⟩ :=
      exists_stream (String.join (elements.map Prod.snd)) line
    rw [utf8_join, List.flatMap_map] at hs
    exact ⟨es, last, hdrain, hlast, hs.emits_of_wellFormed hw⟩
  · intro text
    obtain ⟨es, last, hdrain, hlast, hs⟩ := exists_stream text line
    refine ⟨es, last, hdrain, hlast, fun hclosed => ?_⟩
    obtain ⟨elements, htexts, hwell⟩ := hs.exists_wellFormed hclosed
    exact ⟨elements, hwell none nofun, htexts⟩

/-- Elements of every shape side by side, with text behind text. Put together they are split into
themselves, and what they are split into is well formed. -/
theorem drain_grammar_of_each_shape :
    ∃ es last, (Tokenizer.start .markup (String.join ["a", "\x7b\x7d", "\x7b\x7bb\x7d\x7d",
        "\x7b\x7b\x7b%c%\x7d", "\x7b%d%\x7d"]) none).drain = .ok (es, last) ∧
      last.next = .ok (none, last) ∧
      es.map (fun e => (e.token.kind, e.token.text)) = [(.text, "a"), (.text, "\x7b\x7d"),
        (.var, "\x7b\x7bb\x7d\x7d"), (.tag, "\x7b\x7b\x7b%c%\x7d"), (.tag, "\x7b%d%\x7d")] ∧
      ∃ elements, WellFormed none elements ∧ elements.map Prod.snd = ["a", "\x7b\x7d",
        "\x7b\x7bb\x7d\x7d", "\x7b\x7b\x7b%c%\x7d", "\x7b%d%\x7d"] := by
  have hfirst : Shape.text.Admits (utf8 "a") := by
    refine ⟨by decide, by decide, by decide, fun k hk => ?_⟩
    rw [List.drop_eq_nil_iff.mpr hk]
    rfl
  have hsecond : Shape.text.Admits (utf8 "\x7b\x7d") := by
    refine ⟨by decide, by decide, by decide, fun k hk => ?_⟩
    rcases Nat.eq_or_lt_of_le hk with rfl | hk
    · rfl
    · rw [List.drop_eq_nil_iff.mpr hk]
      rfl
  obtain ⟨hforward, hback⟩ := drain_grammar none
  obtain ⟨es, last, hdrain, hlast, hes⟩ := hforward [(.text, "a"), (.text, "\x7b\x7d"),
    (.var, "\x7b\x7bb\x7d\x7d"), (.redirect, "\x7b\x7b\x7b%c%\x7d"), (.tag, "\x7b%d%\x7d")]
    ⟨hfirst, fun _ => ⟨fun _ => by decide, nofun⟩,
      hsecond, fun _ => ⟨fun _ => by decide, fun _ => by decide⟩,
      ⟨utf8 "b\x7d\x7d", rfl, by decide⟩, nofun,
      ⟨utf8 "\x7b%", utf8 "c", rfl, by decide, by decide⟩, nofun,
      ⟨utf8 "d", rfl, by decide⟩, nofun, trivial⟩
  have htexts : es.map (fun e => e.token.text) = ["a", "\x7b\x7d", "\x7b\x7bb\x7d\x7d",
      "\x7b\x7b\x7b%c%\x7d", "\x7b%d%\x7d"] := by
    simpa [Function.comp_def] using congrArg (List.map Prod.snd) hes
  have hclosed : ∀ text ∈ ["a", "\x7b\x7d", "\x7b\x7bb\x7d\x7d", "\x7b\x7b\x7b%c%\x7d",
      "\x7b%d%\x7d"], utf8 text ≠ variableOpen ∧ utf8 text ≠ tagOpen := by
    decide
  obtain ⟨es', last', hdrain', _, hwell⟩ := hback (String.join ["a", "\x7b\x7d",
    "\x7b\x7bb\x7d\x7d", "\x7b\x7b\x7b%c%\x7d", "\x7b%d%\x7d"])
  obtain ⟨rfl, rfl⟩ := Prod.mk.inj (Except.ok.inj (hdrain.symm.trans hdrain'))
  obtain ⟨elements, helements, heq⟩ :=
    hwell fun e he => hclosed _ (htexts ▸ List.mem_map_of_mem he)
  exact ⟨es, last, hdrain, hlast, hes, elements, helements, heq.trans htexts⟩

end Markup
end LiquidTokens
