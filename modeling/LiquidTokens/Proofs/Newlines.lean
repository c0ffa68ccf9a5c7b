import LiquidTokens.Proofs.Lines
import LiquidTokens.Proofs.Renaming

/-! Line mode splits a text at its newlines, and nowhere else. Put together with newlines between them,
the lines are the text, but for a newline at its end; and no other list of lines is. The main statement
is `Lines.drain_lines`. -/
namespace LiquidTokens

open Delimiter

def EndsLine (text : String) : Prop :=
  text.toList.getLast? = some '\n'

instance : DecidablePred EndsLine := fun _ => inferInstanceAs (Decidable (_ = _))

/-- What lies between the newlines of a text. A newline at its end has nothing behind it, and an empty
text has no lines. -/
structure IsLines (text : String) (ls : List String) : Prop where
  newline_not_mem : ∀ l ∈ ls, '\n' ∉ l.toList
  eq_nil_iff : ls = [] ↔ text = ""
  eq_of_endsLine : EndsLine text → text = "\n".intercalate ls ++ "\n"
  eq_of_not_endsLine : ¬ EndsLine text → text = "\n".intercalate ls

def terminated (ls : List String) : List UInt8 :=
  ls.flatMap fun l => utf8 l ++ [newline]

@[simp] theorem terminated_nil : terminated [] = [] := rfl

@[simp] theorem terminated_cons (l : String) (ls : List String) :
    terminated (l :: ls) = utf8 l ++ newline :: terminated ls := by
  simp [terminated]

theorem newline_mem_utf8_iff {s : String} : newline ∈ utf8 s ↔ '\n' ∈ s.toList := by
  rw [utf8_eq_encode, encode, List.mem_flatMap]
  constructor
  · rintro ⟨c, hc, hmem⟩
    obtain rfl : c = '\n' := eq_of_mem_encodeChar (by decide) (by decide) hmem
    exact hc
  · intro h
    exact ⟨'\n', h, by decide⟩

theorem EndsLine.getLast?_utf8 {text : String} (h : EndsLine text) :
    (utf8 text).getLast? = some newline := by
  obtain ⟨cs, hcs⟩ := List.getLast?_eq_some_iff.mp h
  rw [utf8_eq_encode, hcs, encode_append]
  exact List.getLast?_concat

theorem endsLine_append_newline (s : String) : EndsLine (s ++ "\n") := by
  rw [EndsLine, String.toList_append]
  exact List.getLast?_concat

theorem utf8_intercalate_append {ls : List String} (hne : ls ≠ []) :
    utf8 ("\n".intercalate ls ++ "\n") = terminated ls := by
  have hnewline : utf8 "\n" = [newline] := by decide
  induction ls with
  | nil => exact absurd rfl hne
  | cons l ls ih =>
    cases ls with
    | nil => rw [String.intercalate_singleton, utf8_append, hnewline, terminated_cons, terminated_nil]
    | cons m ls =>
      rw [String.intercalate_cons_cons, String.append_assoc, String.append_assoc, utf8_append,
        utf8_append, hnewline, ih (List.cons_ne_nil _ _), terminated_cons l]
      rfl

theorem count_terminated {ls : List String} (h : ∀ l ∈ ls, '\n' ∉ l.toList) :
    (terminated ls).count newline = ls.length := by
  induction ls with
  | nil => rfl
  | cons l ls ih =>
    obtain ⟨hl, hls⟩ := List.forall_mem_cons.mp h
    have hnone : (utf8 l).count newline = 0 := by
      rw [List.count_eq_zero, newline_mem_utf8_iff]
      exact hl
    rw [terminated_cons, List.count_append, List.count_cons_self, hnone, ih hls, List.length_cons,
      Nat.zero_add]

theorem map_append (f : Char → Char) (s t : String) : (s ++ t).map f = s.map f ++ t.map f := by
  simp [← String.toList_inj]

theorem map_intercalate {f : Char → Char} (hf : f '\n' = '\n') (ls : List String) :
    ("\n".intercalate ls).map f = "\n".intercalate (ls.map (String.map f)) := by
  have hnewline : "\n".map f = "\n" := by simp [← String.toList_inj, hf]
  induction ls with
  | nil => simp [← String.toList_inj]
  | cons l ls ih =>
    cases ls with
    | nil => simp
    | cons m ls =>
      rw [String.intercalate_cons_cons, map_append, map_append, hnewline, ih]
      simp

namespace IsLines

/-- A text has one list of lines. -/
theorem unique {text : String} {ls ms : List String} (h : IsLines text ls) (h' : IsLines text ms) :
    ls = ms := by
  by_cases hempty : text = ""
  · rw [h.eq_nil_iff.mpr hempty, h'.eq_nil_iff.mpr hempty]
  · have hsplit {ks : List String} (hk : IsLines text ks) :
        List.splitOn '\n' ("\n".intercalate ks).toList = ks.map String.toList := by
      have hne : ks.map String.toList ≠ [] := fun hnil =>
        hempty (hk.eq_nil_iff.mp (List.map_eq_nil_iff.mp hnil))
      have hfree : ∀ l ∈ ks.map String.toList, '\n' ∉ l := by
        simpa using hk.newline_not_mem
      rw [String.toList_intercalate]
      exact List.splitOn_intercalate '\n' hfree hne
    have hsame : "\n".intercalate ls = "\n".intercalate ms := by
      by_cases hend : EndsLine text
      · have happend := (h.eq_of_endsLine hend).symm.trans (h'.eq_of_endsLine hend)
        exact (String.append_left_inj "\n").mp happend
      · exact (h.eq_of_not_endsLine hend).symm.trans (h'.eq_of_not_endsLine hend)
    have hlists := (hsplit h).symm.trans (hsame ▸ hsplit h')
    exact (List.map_inj_right fun _ _ => String.toList_inj.mp).mp hlists

theorem length_eq {text : String} {ls : List String} (h : IsLines text ls) :
    ls.length = (utf8 text).count newline + if text = "" ∨ EndsLine text then 0 else 1 := by
  have hcount := count_terminated h.newline_not_mem
  by_cases hempty : text = ""
  · rw [if_pos (Or.inl hempty), h.eq_nil_iff.mpr hempty, hempty]
    rfl
  · have hbytes := utf8_intercalate_append (mt h.eq_nil_iff.mp hempty)
    by_cases hend : EndsLine text
    · rw [← h.eq_of_endsLine hend] at hbytes
      rw [if_pos (Or.inr hend), hbytes, hcount, Nat.add_zero]
    · rw [← h.eq_of_not_endsLine hend, utf8_append] at hbytes
      rw [if_neg (not_or.mpr ⟨hempty, hend⟩), ← hcount, ← hbytes, List.count_append]
      rfl

theorem map {f : Char → Char} (hf : Keeps ['\n'] f) {text : String} {ls : List String}
    (h : IsLines text ls) : IsLines (text.map f) (ls.map (String.map f)) := by
  have hfix : f '\n' = '\n' := (hf '\n').1 List.mem_cons_self
  have honly {c : Char} (hc : f c = '\n') : c = '\n' := by
    by_contra hne
    exact (hf c).2 (by simpa using hne) (by simp [hc])
  have hends : EndsLine (text.map f) ↔ EndsLine text := by
    simp only [EndsLine, String.toList_map, List.getLast?_map, Option.map_eq_some_iff]
    constructor
    · rintro ⟨c, hc, hnewline⟩
      rwa [honly hnewline] at hc
    · intro hc
      exact ⟨'\n', hc, hfix⟩
  refine ⟨?_, ?_, ?_, ?_⟩
  · intro l hl hmem
    obtain ⟨m, hm, rfl⟩ := List.mem_map.mp hl
    rw [String.toList_map] at hmem
    obtain ⟨c, hc, hnewline⟩ := List.mem_map.mp hmem
    exact h.newline_not_mem m hm (honly hnewline ▸ hc)
  · rw [List.map_eq_nil_iff, h.eq_nil_iff, ← String.toList_inj, ← String.toList_inj,
      String.toList_map, String.toList_empty, List.map_eq_nil_iff]
  · intro hend
    have hsplit := congrArg (String.map f) (h.eq_of_endsLine (hends.mp hend))
    rw [map_append, map_intercalate hfix] at hsplit
    rw [hsplit]
    simp [← String.toList_inj, hfix]
  · intro hend
    rw [← map_intercalate hfix, ← h.eq_of_not_endsLine (mt hends.mpr hend)]

end IsLines

namespace Lines

/-- The lines stand one byte apart from `start` on. Each ends in front of a newline or at the end of
the bytes, and holds the bytes of its span. -/
def Spaced (bytes : List UInt8) (start : Nat) : List Token → Prop
  | [] => True
  | t :: rest => t.span.start = start ∧ start ≤ t.span.stop ∧
    (bytes[t.span.stop]? = some newline ∨ t.span.stop = bytes.length) ∧
    utf8 t.text = (bytes.drop start).take (t.span.stop - start) ∧
      Spaced bytes (t.span.stop + 1) rest

theorem Stream.newline_not_mem {pos : Nat} {line : LineNumber} {ahead : List UInt8}
    {es : List Emission} (h : Stream pos line ahead es) :
    ∀ l ∈ es.map (fun e => e.token.text), '\n' ∉ l.toList := by
  induction h with
  | done => exact List.forall_mem_nil _
  | last _ hfree =>
    exact List.forall_mem_singleton.mpr (mt newline_mem_utf8_iff.mpr hfree)
  | step hfree _ ih =>
    exact List.forall_mem_cons.mpr ⟨mt newline_mem_utf8_iff.mpr hfree, ih⟩

/-- The lines and their newlines are the bytes ahead, and one newline more where these do not end in
one. -/
theorem Stream.terminated_eq {pos : Nat} {line : LineNumber} {ahead : List UInt8}
    {es : List Emission} (h : Stream pos line ahead es) :
    terminated (es.map fun e => e.token.text) = ahead ∨
      terminated (es.map fun e => e.token.text) = ahead ++ [newline] ∧ ahead ≠ [] ∧
        ahead.getLast? ≠ some newline := by
  induction h with
  | done => exact Or.inl rfl
  | @last pos line text hne hfree =>
    refine Or.inr ⟨terminated_cons text [], hne, fun hlast => ?_⟩
    exact hfree (List.mem_of_getLast? hlast)
  | @step pos line text behind es hfree hrest ih =>
    rw [List.map_cons, terminated_cons]
    rcases ih with heq | ⟨heq, hne, hlast⟩
    · exact Or.inl (by rw [heq]; rfl)
    · refine Or.inr ⟨?_, ?_, ?_⟩
      · rw [heq, List.append_assoc]
        rfl
      · exact List.append_ne_nil_of_right_ne_nil _ (List.cons_ne_nil _ _)
      · have hbehind := List.getLast?_eq_some_getLast hne
        rwa [List.append_cons, List.getLast?_append, hbehind, Option.some_or, ← hbehind]

theorem Stream.isLines {pos : Nat} {line : LineNumber} {text : String} {es : List Emission}
    (h : Stream pos line (utf8 text) es) : IsLines text (es.map fun e => e.token.text) := by
  have hfree := h.newline_not_mem
  by_cases hempty : text = ""
  · subst hempty
    obtain rfl : es = [] := h.eq_nil
    exact ⟨hfree, ⟨fun _ => rfl, fun _ => rfl⟩, nofun, fun _ => String.intercalate_nil.symm⟩
  · have hne : (es.map fun e => e.token.text) ≠ [] := by
      intro hnil
      rcases h.terminated_eq with heq | ⟨heq, _⟩
      · rw [hnil] at heq
        exact hempty (utf8_injective heq.symm)
      · rw [hnil] at heq
        exact List.append_ne_nil_of_right_ne_nil _ (List.cons_ne_nil _ _) heq.symm
    have hbytes := utf8_intercalate_append hne
    rcases h.terminated_eq with heq | ⟨heq, _, hlast⟩
    · have htext := utf8_injective (heq.symm.trans hbytes.symm)
      have hend : EndsLine text := htext ▸ endsLine_append_newline _
      exact ⟨hfree, ⟨fun hnil => absurd hnil hne, fun hnil => absurd hnil hempty⟩, fun _ => htext,
        fun hnot => absurd hend hnot⟩
    · have hmore : utf8 (text ++ "\n") = terminated (es.map fun e => e.token.text) := by
        rw [utf8_append, heq]
        rfl
      have htext := (String.append_left_inj "\n").mp (utf8_injective (hmore.trans hbytes.symm))
      exact ⟨hfree, ⟨fun hnil => absurd hnil hne, fun hnil => absurd hnil hempty⟩,
        fun hend => absurd hend.getLast?_utf8 hlast, fun _ => htext⟩

theorem Stream.spaced {bytes : List UInt8} {pos : Nat} {line : LineNumber} {ahead : List UInt8}
    {es : List Emission} (h : Stream pos line ahead es) (hahead : bytes.drop pos = ahead) :
    Spaced bytes pos (es.map Emission.token) := by
  induction h with
  | done => trivial
  | @last pos line text hne hfree =>
    have hlen := congrArg List.length hahead
    have hpos := List.length_pos_iff.mpr hne
    rw [List.length_drop] at hlen
    refine ⟨rfl, Nat.le_add_right _ _, Or.inr ?_, ?_, trivial⟩
    · show pos + (utf8 text).length = bytes.length
      omega
    · show utf8 text = (bytes.drop pos).take (pos + (utf8 text).length - pos)
      rw [Nat.add_sub_cancel_left, hahead, List.take_length]
  | @step pos line text behind es hfree hrest ih =>
    have hdrop : bytes.drop (pos + ((utf8 text).length + 1)) = behind := by
      rw [← List.drop_drop, hahead, List.append_cons, List.drop_left' (by simp)]
    refine ⟨rfl, Nat.le_add_right _ _, Or.inl ?_, ?_, ih hdrop⟩
    · show bytes[pos + (utf8 text).length]? = some newline
      rw [← List.getElem?_drop, hahead, List.getElem?_append_right (Nat.le_refl _), Nat.sub_self]
      rfl
    · show utf8 text = (bytes.drop pos).take (pos + (utf8 text).length - pos)
      rw [Nat.add_sub_cancel_left, hahead, List.take_left]

/-- Whatever the first line, the tokens of line mode are the lines of the text and nothing else is. They
stand one byte apart, there are as many as newlines and one more for a last line without one, and all
characters but newlines belong to a line, whatever they are. -/
theorem drain_lines (text : String) (line : LineNumber) :
    ∃ es last, (Tokenizer.start .line text line).drain = .ok (es, last) ∧ last.next = .ok (none, last) ∧
      (∀ ls, IsLines text ls ↔ ls = es.map fun e => e.token.text) ∧
      Spaced (utf8 text) 0 (es.map Emission.token) ∧
      es.length = (utf8 text).count newline + (if text = "" ∨ EndsLine text then 0 else 1) ∧
      ∀ f, Keeps ['\n'] f → ∃ es' last',
        (Tokenizer.start .line (text.map f) line).drain = .ok (es', last') ∧
          es'.map (fun e => e.token.text) = es.map fun e => e.token.text.map f := by
  obtain ⟨es, last, hdrain, hlast, hs⟩ := exists_stream text line
  have hlines := hs.isLines
  refine ⟨es, last, hdrain, hlast, fun ls => ⟨fun h => h.unique hlines, fun h => h ▸ hlines⟩,
    hs.spaced List.drop_zero, ?_, fun f hf => ?_⟩
  · rw [← hlines.length_eq, List.length_map]
  · obtain ⟨es', last', hdrain', _, hs'⟩ := exists_stream (text.map f) line
    refine ⟨es', last', hdrain', ?_⟩
    rw [hs'.isLines.unique (hlines.map hf), List.map_map]
    rfl

/-- An open brace comes in for a letter, and a carriage return for a null character. -/
theorem drain_lines_of_markup : ∃ es last es' last',
    (Tokenizer.start .line "a\x00\n\na%" none).drain = .ok (es, last) ∧
      es.map (fun e => e.token.text) = ["a\x00", "", "a%"] ∧
      (Tokenizer.start .line "\x7b\r\n\n\x7b%" none).drain = .ok (es', last') ∧
      es'.map (fun e => e.token.text) = ["\x7b\r", "", "\x7b%"] := by
  let f : Char → Char := Function.update (Function.update id 'a' '\x7b') '\x00' '\r'
  have hf : Keeps ['\n'] f :=
    ((keeps_id _).update (by decide) (by decide)).update (by decide) (by decide)
  obtain ⟨es, last, hdrain, _, _, _, _, himage⟩ := drain_lines "a\x00\n\na%" none
  obtain ⟨es', last', hdrain', htexts'⟩ := himage f hf
  have htokens : es.map Emission.token = [⟨"a\x00", ⟨0, 2⟩⟩, ⟨"", ⟨3, 3⟩⟩, ⟨"a%", ⟨4, 6⟩⟩] :=
    Tokenizer.map_token_eq_of_drain hdrain (by decide +kernel)
  have htexts : es.map (fun e => e.token.text) = ["a\x00", "", "a%"] := by
    have h := congrArg (List.map Token.text) htokens
    rwa [List.map_map] at h
  have hmap {s t : String} (h : s.toList.map f = t.toList) : s.map f = t := by
    rw [← String.toList_inj, String.toList_map, h]
  have htext : "a\x00\n\na%".map f = "\x7b\r\n\n\x7b%" := hmap (by decide)
  rw [htext] at hdrain'
  refine ⟨es, last, es', last', hdrain, htexts, hdrain', ?_⟩
  have hfirst : "a\x00".map f = "\x7b\r" := hmap (by decide)
  have hempty : "".map f = "" := hmap (by decide)
  have hlast : "a%".map f = "\x7b%" := hmap (by decide)
  have h := congrArg (List.map (String.map f)) htexts
  rw [List.map_map] at h
  rw [htexts']
  simpa [Function.comp_def, hfirst, hempty, hlast] using h

-- A newline alone has an empty line in front of it, and a carriage return belongs to its line.
example : (fun r => r.1.map fun e => e.token.text) <$> (Tokenizer.start .line "\n" none).drain =
    .ok [""] := by decide +kernel

example : (fun r => r.1.map fun e => e.token.text) <$>
    (Tokenizer.start .line "a\r\n\x7b%" none).drain = .ok ["a\r", "\x7b%"] := by decide +kernel

end Lines
end LiquidTokens
