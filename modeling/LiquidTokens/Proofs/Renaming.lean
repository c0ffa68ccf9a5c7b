import LiquidTokens.Proofs.Kinds
import LiquidTokens.Proofs.Outline

/-! Characters that are no delimiters are all alike. If others take their places, of whatever width, the
text falls into the same elements, with the same replacements in each. The two runs pass the same
characters at different offsets, and share their outline. The main statement is `Markup.drain_map`. -/
namespace LiquidTokens

open Delimiter

/-- The function fixes each of the characters, and turns no other one into any of them. -/
def Keeps (ds : List Char) (f : Char → Char) : Prop :=
  ∀ c, (c ∈ ds → f c = c) ∧ (c ∉ ds → f c ∉ ds)

section Keeps

variable {ds : List Char} {f : Char → Char}

theorem keeps_id (ds : List Char) : Keeps ds id :=
  fun _ => ⟨fun _ => rfl, id⟩

theorem Keeps.update (hf : Keeps ds f) {c d : Char} (hc : c ∉ ds) (hd : d ∉ ds) :
    Keeps ds (Function.update f c d) := by
  intro x
  by_cases hx : x = c
  · subst hx
    rw [Function.update_self]
    exact ⟨fun h => absurd h hc, fun _ => hd⟩
  · rw [Function.update_of_ne hx]
    exact hf x

theorem Keeps.outline_map (hf : Keeps characters f) (cs : List Char) :
    outline (cs.map f) = outline cs := by
  rw [outline, List.map_map]
  refine List.map_congr_left fun c _ => ?_
  by_cases hc : c ∈ characters
  · exact congrArg outlineChar ((hf c).1 hc)
  · rw [Function.comp_apply, outlineChar, outlineChar, if_neg hc, if_neg ((hf c).2 hc)]

theorem Keeps.count_newline (hf : Keeps ['\n'] f) (s : String) :
    (utf8 (s.map f)).count newline = (utf8 s).count newline := by
  have hnone {c : Char} (hc : c ∉ ['\n']) : (String.utf8EncodeChar c).count newline = 0 := by
    rw [List.count_eq_zero]
    intro h
    obtain rfl : c = '\n' := eq_of_mem_encodeChar (by decide) (by decide) h
    exact hc List.mem_cons_self
  rw [utf8_eq_encode, utf8_eq_encode, String.toList_map]
  induction s.toList with
  | nil => rfl
  | cons c cs ih =>
    rw [List.map_cons, encode_cons, encode_cons, List.count_append, List.count_append, ih]
    by_cases hc : c ∈ ['\n']
    · rw [(hf c).1 hc]
    · rw [hnone hc, hnone ((hf c).2 hc)]

end Keeps

namespace Markup

/-- The outline of the characters ahead tells what kind of element they start with, how many of them
belong to it, and how many are left behind. -/
theorem Cuts.eq_of_encode {cs : List Char} (hne : cs ≠ []) {cut : Cut} (h : Cuts (encode cs) cut)
    {text : String} (htext : utf8 text = (encode cs).take cut.length) :
    Kind.ofText text = (Cut.ofBytes (outline cs)).kind ∧
      text = String.ofList (cs.take (Cut.ofBytes (outline cs)).length) ∧
      (encode cs).drop cut.passed = encode (cs.drop (Cut.ofBytes (outline cs)).passed) := by
  obtain ⟨cut', h', hscales⟩ := (cuts_ofBytes (outline cs)).exists_encode hne
  obtain rfl : cut = cut' := h.unique h'
  refine ⟨?_, ?_, ?_⟩
  · have hbytes : encode cs ≠ [] := fun hnil => hne (encode_injective hnil)
    obtain ⟨hlen, hsplit⟩ := h.eq_append hbytes htext
    rw [← hscales.kind_eq]
    exact (Cuts.ofBytes_kind_eq (hsplit.symm ▸ h) hlen).1
  · apply utf8_injective
    rw [htext, utf8_ofList, hscales.length_eq, take_width]
  · rw [hscales.passed_eq, drop_width]

theorem Stream.map_kind_text {f : Char → Char} (hf : Keeps characters f) {cs : List Char}
    {pos pos' : Nat} {line line' : LineNumber} {es es' : List Emission}
    (h : Stream pos line (encode cs) es) (h' : Stream pos' line' (encode (cs.map f)) es') :
    es'.map (fun e => (e.token.kind, e.token.text)) =
      es.map fun e => (e.token.kind, e.token.text.map f) := by
  generalize hahead : encode cs = ahead at h
  induction h generalizing cs pos' line' es' with
  | done =>
    obtain rfl : cs = [] := encode_injective hahead
    obtain rfl := h'.eq_nil
    rfl
  | @step pos line ahead cut text es hne hcut htext hrest ih =>
    subst hahead
    have hcs : cs ≠ [] := fun hnil => hne (hnil ▸ rfl)
    have hcs' : cs.map f ≠ [] := fun hnil => hcs (List.map_eq_nil_iff.mp hnil)
    generalize hahead' : encode (cs.map f) = ahead' at h'
    cases h' with
    | done => exact absurd (encode_injective hahead') hcs'
    | @step _ _ _ cut' text' es' _ hcut' htext' hrest' =>
      subst hahead'
      -- Both steps pass as many characters as a step over the outline that they share.
      obtain ⟨hkind, htext, hdrop⟩ := hcut.eq_of_encode hcs htext
      obtain ⟨hkind', htext', hdrop'⟩ := hcut'.eq_of_encode hcs' htext'
      rw [hf.outline_map] at hkind' htext' hdrop'
      rw [hdrop', ← List.map_drop] at hrest'
      have himage : text' = text.map f := by
        rw [htext', htext, ← String.toList_inj, String.toList_map, String.toList_ofList,
          String.toList_ofList, List.map_take]
      rw [List.map_cons, List.map_cons, ih hrest' hdrop.symm]
      congr 1
      exact Prod.ext (hkind'.trans hkind.symm) himage

theorem Stream.map_line_eq {pos pos' : Nat} {line : LineNumber} {ahead ahead' : List UInt8}
    {es es' : List Emission} (h : Stream pos line ahead es) (h' : Stream pos' line ahead' es')
    (hnewlines : es'.map (fun e => e.token.newlines) = es.map fun e => e.token.newlines) :
    es'.map (fun e => (e.line, e.lineAfter)) = es.map fun e => (e.line, e.lineAfter) := by
  induction h generalizing pos' ahead' es' with
  | done =>
    obtain rfl := List.map_eq_nil_iff.mp hnewlines
    rfl
  | @step pos line ahead cut text es hne hcut htext hrest ih =>
    cases h' with
    | done => cases hnewlines
    | @step _ _ _ cut' text' es' _ hcut' htext' hrest' =>
      obtain ⟨hhead, htail⟩ := List.cons.inj hnewlines
      have hafter : (emission pos' line cut' text').lineAfter =
          (emission pos line cut text).lineAfter := congrArg line.advance hhead
      rw [hafter] at hrest'
      rw [List.map_cons, List.map_cons, ih hrest' htail, hafter]
      rfl

/-- If all characters but the delimiters are replaced by others, and no delimiter comes in, there are
as many tokens as before, of the same kinds in the same order, and each text has the same replacements.
If newlines are kept as well, so are the lines before and after each token. -/
theorem drain_map {f : Char → Char} (hf : Keeps characters f) (text : String) (line : LineNumber) :
    ∃ es last es' last', (Tokenizer.start .markup text line).drain = .ok (es, last) ∧
      last.next = .ok (none, last) ∧ (Tokenizer.start .markup (text.map f) line).drain = .ok (es', last') ∧
      last'.next = .ok (none, last') ∧ es'.length = es.length ∧
      es'.map (fun e => (e.token.kind, e.token.text)) =
        es.map (fun e => (e.token.kind, e.token.text.map f)) ∧
      (Keeps ['\n'] f →
        es'.map (fun e => (e.line, e.lineAfter)) = es.map fun e => (e.line, e.lineAfter)) := by
  obtain ⟨es, last, hdrain, hlast, h⟩ := exists_stream text line
  obtain ⟨es', last', hdrain', hlast', h'⟩ := exists_stream (text.map f) line
  have himage : es'.map (fun e => (e.token.kind, e.token.text)) =
      es.map fun e => (e.token.kind, e.token.text.map f) := by
    rw [utf8_eq_encode] at h
    rw [utf8_eq_encode, String.toList_map] at h'
    exact h.map_kind_text hf h'
  refine ⟨es, last, es', last', hdrain, hlast, hdrain', hlast', ?_, himage, fun hnewline => ?_⟩
  · simpa using congrArg List.length himage
  · apply h.map_line_eq h'
    have hcounts := congrArg (List.map fun p => (utf8 p.2).count newline) himage
    simpa only [List.map_map, Function.comp_def, hnewline.count_newline, Token.newlines]
      using hcounts

/-- A wide character comes in for a null character, and a null character for a narrow one. -/
theorem drain_map_of_null : ∃ es last es' last',
    (Tokenizer.start .markup "a\x7b\x7b\x00\n\x7d\x7da" (some 1)).drain = .ok (es, last) ∧
      (Tokenizer.start .markup "\x00\x7b\x7bé\n\x7d\x7d\x00" (some 1)).drain = .ok (es', last') ∧
      es'.map (fun e => (e.token.kind, e.token.text)) =
        [(.text, "\x00"), (.var, "\x7b\x7bé\n\x7d\x7d"), (.text, "\x00")] ∧
      es'.map (fun e => (e.line, e.lineAfter)) = es.map fun e => (e.line, e.lineAfter) := by
  let f : Char → Char := Function.update (Function.update id 'a' '\x00') '\x00' 'é'
  have hf {ds : List Char} (ha : 'a' ∉ ds) (hnull : '\x00' ∉ ds) (hwide : 'é' ∉ ds) : Keeps ds f :=
    ((keeps_id ds).update ha hnull).update hnull hwide
  obtain ⟨es, last, es', last', hdrain, _, hdrain', _, _, himage, hlines⟩ :=
    drain_map (hf (by decide) (by decide) (by decide)) "a\x7b\x7b\x00\n\x7d\x7da" (some 1)
  have htokens : es.map Emission.token =
      [⟨"a", ⟨0, 1⟩⟩, ⟨"\x7b\x7b\x00\n\x7d\x7d", ⟨1, 7⟩⟩, ⟨"a", ⟨7, 8⟩⟩] :=
    Tokenizer.map_token_eq_of_drain hdrain (by decide +kernel)
  have hmap {s t : String} (h : s.toList.map f = t.toList) : s.map f = t := by
    rw [← String.toList_inj, String.toList_map, h]
  have hnull : "a".map f = "\x00" := hmap (by decide)
  have hwide : "\x7b\x7b\x00\n\x7d\x7d".map f = "\x7b\x7bé\n\x7d\x7d" := hmap (by decide)
  have hall : "a\x7b\x7b\x00\n\x7d\x7da".map f = "\x00\x7b\x7bé\n\x7d\x7d\x00" :=
    hmap (by decide)
  have hpairs : es.map (fun e => (e.token.kind, e.token.text.map f)) =
      (es.map Emission.token).map fun t => (t.kind, t.text.map f) := by
    rw [List.map_map]
    rfl
  rw [hall] at hdrain'
  have hline := hlines (hf (by decide) (by decide) (by decide))
  refine ⟨es, last, es', last', hdrain, hdrain', ?_, hline⟩
  rw [himage, hpairs, htokens]
  simp only [List.map_cons, List.map_nil, hnull, hwide]
  decide +kernel

end Markup
end LiquidTokens
