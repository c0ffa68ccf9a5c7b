import LiquidTokens.Proofs.Newlines
import LiquidTokens.Proofs.Restart

/-! A token by itself. What was around it when it was cut off is of no account any more: its text is
split into this one token again. The main statement is `Tokenizer.drain_alone`. -/
namespace LiquidTokens

open Delimiter

namespace Markup

/-- The bytes of a token are cut off as a whole when nothing else is there. -/
theorem Cuts.exists_cut_alone {ahead bytes : List UInt8} {cut : Cut} (h : Cuts ahead cut)
    (hne : ahead ≠ []) (hbytes : bytes = ahead.take cut.length) :
    ∃ alone, Cuts bytes alone ∧ alone.length = bytes.length := by
  obtain ⟨hlen, hsplit⟩ := h.eq_append hne hbytes
  rw [← hsplit] at h
  rcases h.exists_shape hlen with ⟨rfl, _⟩ | ⟨rfl, _⟩ | ⟨shape, _, hadmits, _⟩
  · have hnone : closing [] = none := rfl
    exact ⟨.loneTag, .loneTag hnone, rfl⟩
  · exact ⟨.loneVar 0, .loneVar Variable.ending_nil, rfl⟩
  · have hcuts : Cuts (bytes ++ []) (shape.cut bytes.length) := hadmits.cuts fun _ => Or.inl rfl
    rw [List.append_nil] at hcuts
    exact ⟨_, hcuts, Shape.length_cut ..⟩

theorem Cuts.stream_singleton {text : String} {cut : Cut} (h : Cuts (utf8 text) cut)
    (hlen : cut.length = (utf8 text).length) (hne : utf8 text ≠ []) (pos : Nat) (line : LineNumber) :
    Stream pos line (utf8 text) [emission pos line cut text] := by
  have hbounds := h.bounds hne
  have hnil : (utf8 text).drop cut.passed = [] := List.drop_eq_nil_iff.mpr (by omega)
  refine .step hne h (by rw [hlen, List.take_length]) ?_
  rw [hnil]
  exact .done

theorem Stream.exists_alone {pos : Nat} {line : LineNumber} {ahead : List UInt8}
    {es : List Emission} (h : Stream pos line ahead es) {e : Emission} (he : e ∈ es)
    (line' : LineNumber) :
    ∃ cut, Stream 0 line' (utf8 e.token.text) [emission 0 line' cut e.token.text] := by
  obtain ⟨k, cut, _, hne, hcut, htext⟩ := h.exists_cut he
  obtain ⟨alone, halone, hlen⟩ := hcut.exists_cut_alone hne htext
  have hne' : utf8 e.token.text ≠ [] := by
    rw [← List.length_pos_iff, (hcut.eq_append hne htext).1]
    exact (hcut.bounds hne).1
  exact ⟨alone, halone.stream_singleton hlen hne' 0 line'⟩

end Markup

theorem Lines.Stream.alone {pos : Nat} {line : LineNumber} {ahead : List UInt8}
    {es : List Emission} (h : Lines.Stream pos line ahead es) {e : Emission} (he : e ∈ es)
    (hne : e.token.text ≠ "") (line' : LineNumber) :
    Lines.Stream 0 line' (utf8 e.token.text) [Lines.emission 0 line' e.token.text] := by
  have hfree := h.newline_not_mem e.token.text (List.mem_map_of_mem he)
  exact .last (fun hnil => hne (utf8_injective hnil)) (mt newline_mem_utf8_iff.mp hfree)

namespace Tokenizer

theorem exists_drain_of_runs (mode : Mode) {text : String} {line : LineNumber}
    {es : List Emission} (h : Runs mode 0 line (utf8 text) es) :
    ∃ last, (start mode text line).drain = .ok (es, last) ∧ last.next = .ok (none, last) := by
  obtain ⟨fs, last, hdrain, hlast, hruns⟩ :=
    exists_take_runs (onBoundary_start mode text line) (Nat.le_refl _)
  obtain rfl := h.unique hruns
  exact ⟨last, hdrain, hlast⟩

/-- The text of any token of markup, lone openers among them, is split into a single token of the same
text and kind. The text of a line is split into the line, or into nothing if it is empty. -/
theorem drain_alone (text : String) (line : LineNumber) :
    (∃ es last, (start .markup text line).drain = .ok (es, last) ∧ last.next = .ok (none, last) ∧
      ∀ e ∈ es, ∀ line', ∃ e' last',
        (start .markup e.token.text line').drain = .ok ([e'], last') ∧ last'.next = .ok (none, last') ∧
          e'.token.text = e.token.text ∧ e'.token.kind = e.token.kind) ∧
    ∃ es last, (start .line text line).drain = .ok (es, last) ∧ last.next = .ok (none, last) ∧
      ∀ e ∈ es, ∀ line',
        (e.token.text ≠ "" → ∃ e' last',
          (start .line e.token.text line').drain = .ok ([e'], last') ∧ last'.next = .ok (none, last') ∧
            e'.token.text = e.token.text) ∧
        (e.token.text = "" → ∃ last',
          (start .line e.token.text line').drain = .ok ([], last') ∧ last'.next = .ok (none, last')) := by
  constructor
  · obtain ⟨es, last, hdrain, hlast, hs⟩ := Markup.exists_stream text line
    refine ⟨es, last, hdrain, hlast, fun e he line' => ?_⟩
    obtain ⟨cut, halone⟩ := hs.exists_alone he line'
    obtain ⟨last', hdrain', hlast'⟩ := exists_drain_of_runs .markup halone
    exact ⟨_, last', hdrain', hlast', rfl, rfl⟩
  · obtain ⟨es, last, hdrain, hlast, hs⟩ := Lines.exists_stream text line
    refine ⟨es, last, hdrain, hlast, fun e he line' => ⟨fun hne => ?_, fun hempty => ?_⟩⟩
    · obtain ⟨last', hdrain', hlast'⟩ :=
        exists_drain_of_runs .line (hs.alone he hne line')
      exact ⟨_, last', hdrain', hlast', rfl⟩
    · have hdone : Lines.Stream 0 line' (utf8 "") [] := .done
      rw [hempty]
      exact exists_drain_of_runs .line hdone

/-- Cut off behind other texts, a tag that starts out as a variable is the same tag when it is alone; and
an empty line is nothing. -/
theorem drain_alone_of_redirect :
    (∃ es last e e' last',
      (start .markup "a\x7b\x7d\x7b\x7b\x7b%\x7d%\x7d\x7b%\x7b" none).drain = .ok (es, last) ∧
        e ∈ es ∧ e.token = ⟨"\x7b\x7b\x7b%\x7d%\x7d", ⟨3, 10⟩⟩ ∧
        (start .markup "\x7b\x7b\x7b%\x7d%\x7d" (some 7)).drain = .ok ([e'], last') ∧
        e'.token.text = "\x7b\x7b\x7b%\x7d%\x7d" ∧ e'.token.kind = .tag) ∧
    ∃ es last e e₀ last' e' last'', (start .line "a\n\n" none).drain = .ok (es, last) ∧ e ∈ es ∧
      e.token = ⟨"", ⟨2, 2⟩⟩ ∧ (start .line "" none).drain = .ok ([], last') ∧ e₀ ∈ es ∧
      e₀.token = ⟨"a", ⟨0, 1⟩⟩ ∧ (start .line "a" none).drain = .ok ([e'], last'') ∧
      e'.token.text = "a" := by
  constructor
  · obtain ⟨⟨es, last, hdrain, _, halone⟩, _⟩ :=
      drain_alone "a\x7b\x7d\x7b\x7b\x7b%\x7d%\x7d\x7b%\x7b" none
    have htokens : es.map Emission.token = [⟨"a", ⟨0, 1⟩⟩, ⟨"\x7b\x7d", ⟨1, 3⟩⟩,
        ⟨"\x7b\x7b\x7b%\x7d%\x7d", ⟨3, 10⟩⟩, ⟨"\x7b%", ⟨10, 12⟩⟩, ⟨"\x7b", ⟨12, 13⟩⟩] :=
      map_token_eq_of_drain hdrain (by decide +kernel)
    obtain ⟨e, he, htoken⟩ := exists_of_map_token_eq htokens (i := 2) rfl
    have hmem := List.mem_of_getElem? he
    obtain ⟨e', last', hdrain', _, htext, hkind⟩ := halone e hmem (some 7)
    rw [htoken] at hdrain' htext hkind
    exact ⟨es, last, e, e', last', hdrain, hmem, htoken, hdrain', htext, hkind.trans (by decide)⟩
  · obtain ⟨_, es, last, hdrain, _, halone⟩ := drain_alone "a\n\n" none
    have htokens : es.map Emission.token = [⟨"a", ⟨0, 1⟩⟩, ⟨"", ⟨2, 2⟩⟩] :=
      map_token_eq_of_drain hdrain (by decide +kernel)
    obtain ⟨e₀, he₀, htoken₀⟩ := exists_of_map_token_eq htokens (i := 0) rfl
    obtain ⟨e, he, htoken⟩ := exists_of_map_token_eq htokens (i := 1) rfl
    have hmem₀ := List.mem_of_getElem? he₀
    have hmem := List.mem_of_getElem? he
    obtain ⟨last', hdrain', _⟩ := (halone e hmem none).2 (by rw [htoken])
    obtain ⟨e', last'', hdrain'', _, htext⟩ := (halone e₀ hmem₀ none).1 (by rw [htoken₀]; decide)
    rw [htoken] at hdrain'
    rw [htoken₀] at hdrain'' htext
    exact ⟨es, last, e, e₀, last', e', last'', hdrain, hmem, htoken, hdrain', hmem₀, htoken₀,
      hdrain'', htext⟩

end Tokenizer
end LiquidTokens
