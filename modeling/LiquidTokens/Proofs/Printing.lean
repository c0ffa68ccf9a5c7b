import LiquidTokens.Exhaustion
import LiquidTokens.Proofs.Quoting
import LiquidTokens.Report

/-! The printed token list loses nothing. Each entry is one line that shows where its parts end, and so
the tokens can be read back: this is `ofText_determines_tokens`. A sink that may be too small for the
list ends up with the front of it, to the byte, and an error is told exactly where some of it is missing:
this is `ofTextInto_takes_front`. -/
namespace LiquidTokens

namespace Report

open Text

def shown (e : Emission) : Kind × Token × LineNumber :=
  (e.token.kind, e.token, e.line)

/-! ### The parts of an entry -/

theorem toList_entry (e : Emission) :
    (entry e).toList = ' ' :: ' ' :: (e.token.kind.name.toList ++ ' ' :: '\"' ::
      (escapeAll e.token.text.toList ++ '\"' :: ' ' :: '@' :: ' ' ::
        (Nat.toDigits 10 e.token.span.start ++ '.' :: '.' ::
          (Nat.toDigits 10 e.token.span.stop ++ ((lineNote e.line).toList ++ ['\n']))))) := by
  simp [entry, quoted, toString]

@[simp] theorem toList_lineNote_none : (lineNote none).toList = [] := by
  simp [lineNote]

@[simp] theorem toList_lineNote_some (k : UInt32) :
    (lineNote (some k)).toList = " (line ".toList ++ (Nat.toDigits 10 k.toNat ++ [')']) := by
  simp [lineNote, toString]

section Parts

variable {r s : List Char}

theorem name_append_inj {k k' : Kind} (h : k.name.toList ++ ' ' :: r = k'.name.toList ++ ' ' :: s) :
    k = k' ∧ r = s := by
  have hword (k : Kind) : ∀ c ∈ k.name.toList, c ≠ ' ' := by
    cases k <;> simp [Kind.name]
  obtain ⟨hname, _, hrest⟩ :=
    Search.append_cons_inj (hword k) (hword k') (not_not_intro rfl) (not_not_intro rfl) h
  exact ⟨Kind.name_injective (String.toList_inj.mp hname), hrest⟩

theorem decimal_append_inj {m n : Nat} {x y : Char} (hx : x ∉ digits) (hy : y ∉ digits)
    (h : Nat.toDigits 10 m ++ x :: r = Nat.toDigits 10 n ++ y :: s) : m = n ∧ x :: r = y :: s := by
  obtain ⟨rfl, rfl, rfl⟩ := toDigits_append_cons_inj (by decide) (by decide) hx hy h
  exact ⟨rfl, rfl⟩

theorem exists_lineNote_cons (line : LineNumber) (r : List Char) :
    ∃ x tail, (lineNote line).toList ++ '\n' :: r = x :: tail ∧ x ∉ digits := by
  cases line with
  | none => exact ⟨'\n', r, by rw [toList_lineNote_none, List.nil_append], by decide⟩
  | some k =>
    rw [toList_lineNote_some]
    exact ⟨' ', _, rfl, by decide⟩

theorem lineNote_append_inj {l l' : LineNumber}
    (h : (lineNote l).toList ++ '\n' :: r = (lineNote l').toList ++ '\n' :: s) : l = l' ∧ r = s := by
  cases l with
  | none =>
    rw [toList_lineNote_none] at h
    cases l' with
    | none =>
      rw [toList_lineNote_none] at h
      exact ⟨rfl, (List.cons.inj h).2⟩
    | some k =>
      rw [toList_lineNote_some] at h
      exact absurd (List.cons.inj h).1 (by decide)
  | some k =>
    rw [toList_lineNote_some] at h
    cases l' with
    | none =>
      rw [toList_lineNote_none] at h
      exact absurd (List.cons.inj h).1 (by decide)
    | some k' =>
      rw [toList_lineNote_some] at h
      simp only [List.append_assoc, List.append_cancel_left_eq, List.cons_append,
        List.nil_append] at h
      obtain ⟨hline, hrest⟩ := decimal_append_inj (by decide) (by decide) h
      exact ⟨congrArg some (UInt32.toNat_inj.mp hline),
        (List.cons.inj (List.cons.inj hrest).2).2⟩

/-- An entry shows its token and its own end. -/
theorem entry_append_inj {e f : Emission} (h : (entry e).toList ++ r = (entry f).toList ++ s) :
    shown e = shown f ∧ r = s := by
  simp only [toList_entry, List.cons_append, List.append_assoc, List.cons.injEq, true_and,
    List.nil_append] at h
  -- From the left each part ends in front of a character that it cannot have.
  obtain ⟨hkind, hquoted⟩ := name_append_inj h
  obtain ⟨htext, hspan⟩ := escapeAll_append_quote_inj (List.cons.inj hquoted).2
  simp only [List.cons.injEq, true_and] at hspan
  obtain ⟨hstart, hdots⟩ := decimal_append_inj (by decide) (by decide) hspan
  simp only [List.cons.injEq, true_and] at hdots
  obtain ⟨x, l, hx, hnx⟩ := exists_lineNote_cons e.line r
  obtain ⟨y, m, hy, hny⟩ := exists_lineNote_cons f.line s
  rw [hx, hy] at hdots
  obtain ⟨hstop, hnote⟩ := decimal_append_inj hnx hny hdots
  rw [← hx, ← hy] at hnote
  obtain ⟨hline, hrest⟩ := lineNote_append_inj hnote
  have htoken : e.token = f.token :=
    calc e.token = ⟨e.token.text, ⟨e.token.span.start, e.token.span.stop⟩⟩ := rfl
      _ = ⟨f.token.text, ⟨f.token.span.start, f.token.span.stop⟩⟩ := by
        rw [String.toList_inj.mp htext, hstart, hstop]
      _ = f.token := rfl
  exact ⟨Prod.ext hkind (Prod.ext htoken hline), hrest⟩

end Parts

/-! ### One line each -/

theorem exists_quotable (e : Emission) : ∃ inner : String, Quotable inner.toList ∧
    entry e = s!"  {e.token.kind} \"{inner}\" @ {e.token.span}{lineNote e.line}\n" := by
  refine ⟨String.ofList (escapeAll e.token.text.toList), ?_, ?_⟩
  · rw [String.toList_ofList]
    exact quotable_escapeAll _
  · rw [← String.toList_inj]
    simp [entry, quoted, toString]

theorem count_newline_entry (e : Emission) : (entry e).toList.count '\n' = 1 := by
  have hname : e.token.kind.name.toList.count '\n' = 0 := by
    cases e.token.kind <;> decide
  have htext : (escapeAll e.token.text.toList).count '\n' = 0 :=
    List.count_eq_zero.mpr ((quotable_escapeAll _).not_mem (by decide))
  have hdecimal (n : Nat) : (Nat.toDigits 10 n).count '\n' = 0 :=
    List.count_eq_zero.mpr fun h =>
      absurd (mem_digits_of_mem_toDigits (by decide) (by decide) h) (by decide)
  have hnote : (lineNote e.line).toList.count '\n' = 0 := by
    cases e.line with
    | none => rw [toList_lineNote_none, List.count_nil]
    | some k =>
      rw [toList_lineNote_some, List.count_append, List.count_append, hdecimal]
      decide
  rw [toList_entry]
  simp [hname, htext, hdecimal, hnote]

/-! ### The list of entries -/

theorem toList_render (path : String) (es : List Emission) :
    (render path es).toList =
      (header path es.length).toList ++ es.flatMap fun e => (entry e).toList := by
  rw [render, writes, String.toList_join, List.flatMap_cons, List.flatMap_map]

theorem map_shown_eq {es fs : List Emission}
    (h : (es.flatMap fun e => (entry e).toList) = fs.flatMap fun e => (entry e).toList) :
    es.map shown = fs.map shown := by
  have hne (e : Emission) (r : List Char) : (entry e).toList ++ r ≠ [] := by
    rw [toList_entry]
    exact List.cons_ne_nil _ _
  induction es generalizing fs with
  | nil =>
    cases fs with
    | nil => rfl
    | cons f fs =>
      rw [List.flatMap_nil, List.flatMap_cons] at h
      exact absurd h.symm (hne f _)
  | cons e es ih =>
    cases fs with
    | nil =>
      rw [List.flatMap_nil, List.flatMap_cons] at h
      exact absurd h (hne e _)
    | cons f fs =>
      rw [List.flatMap_cons, List.flatMap_cons] at h
      obtain ⟨hshown, hrest⟩ := entry_append_inj h
      rw [List.map_cons, List.map_cons, hshown, ih hrest]

theorem header_append_inj {path : String} {m n : Nat} {r s : List Char}
    (h : (header path m).toList ++ r = (header path n).toList ++ s) : m = n ∧ r = s := by
  have hparts (n : Nat) : (header path n).toList = "Tokens for '".toList ++ (path.toList ++
      ("' (".toList ++ (Nat.toDigits 10 n ++ ' ' :: "tokens):\n".toList))) := by
    simp [header_eq, toString]
  simp only [hparts, List.append_assoc, List.append_cancel_left_eq, List.cons_append] at h
  obtain ⟨hcount, hrest⟩ := decimal_append_inj (by decide) (by decide) h
  exact ⟨hcount, List.append_cancel_left (List.cons.inj hrest).2⟩

theorem ofText_eq_ok {request : LexRequest} {text : String} {es : List Emission}
    (h : tokens text request.options = .ok es) :
    ofText request text = .ok (render request.path es) := by
  rw [ofText, h]
  rfl

/-- Behind a header with their number the tokens stand one on each line, with their texts in quotes
that nothing inside closes. Whatever text has the same report has the same tokens. -/
theorem ofText_determines_tokens (request : LexRequest) (text : String) :
    ∃ es report, tokens text request.options = .ok es ∧ ofText request text = .ok report ∧
      report = "Tokens for '" ++ request.path ++ "' (" ++ toString es.length ++ " tokens):\n" ++
        String.join (es.map entry) ∧
      (∀ e ∈ es, (entry e).toList.count '\n' = 1 ∧ ∃ inner : String, Quotable inner.toList ∧
        entry e = s!"  {e.token.kind} \"{inner}\" @ {e.token.span}{lineNote e.line}\n") ∧
      ∀ other, ofText request other = .ok report →
        ∃ fs, tokens other request.options = .ok fs ∧ fs.map shown = es.map shown := by
  obtain ⟨es, hes⟩ := exists_tokens text request.options
  refine ⟨es, render request.path es, hes, ofText_eq_ok hes, ?_,
    fun e _ => ⟨count_newline_entry e, exists_quotable e⟩, fun other hother => ?_⟩
  · rw [render, writes, String.join_cons, header_eq]
  · obtain ⟨fs, hfs⟩ := exists_tokens other request.options
    rw [ofText_eq_ok hfs] at hother
    have hchars := congrArg String.toList (Except.ok.inj hother)
    rw [toList_render, toList_render] at hchars
    exact ⟨fs, hfs, map_shown_eq (header_append_inj hchars).2⟩

/-- What follows an open variable is in no token, and so it is in no entry. -/
theorem ofText_determines_tokens_of_dropped : ∃ es fs report,
    tokens "\"\n\x7b\x7ba" { numbered := true } = .ok es ∧
      tokens "\"\n\x7b\x7bbcd" { numbered := true } = .ok fs ∧
      report = "Tokens for 'page' (2 tokens):\n" ++ "  Text \"\\\"\\n\" @ 0..2 (line 1)\n" ++
        "  Variable \"\x7b\x7b\" @ 2..4 (line 2)\n" ∧
      ofText ⟨"page", { numbered := true }⟩ "\"\n\x7b\x7ba" = .ok report ∧
      ofText ⟨"page", { numbered := true }⟩ "\"\n\x7b\x7bbcd" = .ok report ∧
      fs.map shown = es.map shown := by
  obtain ⟨es, report, hes, hreport, _, _, hall⟩ :=
    ofText_determines_tokens ⟨"page", { numbered := true }⟩ "\"\n\x7b\x7ba"
  have hprinted : ofText ⟨"page", { numbered := true }⟩ "\"\n\x7b\x7ba" = .ok
      ("Tokens for 'page' (2 tokens):\n" ++ "  Text \"\\\"\\n\" @ 0..2 (line 1)\n" ++
        "  Variable \"\x7b\x7b\" @ 2..4 (line 2)\n") := by
    decide +kernel
  obtain rfl := Except.ok.inj (hreport.symm.trans hprinted)
  have hsame : ofText ⟨"page", { numbered := true }⟩ "\"\n\x7b\x7bbcd" = .ok
      ("Tokens for 'page' (2 tokens):\n" ++ "  Text \"\\\"\\n\" @ 0..2 (line 1)\n" ++
        "  Variable \"\x7b\x7b\" @ 2..4 (line 2)\n") := by
    decide +kernel
  obtain ⟨fs, hfs, hshown⟩ := hall _ hsame
  exact ⟨es, fs, _, hes, hfs, rfl, hreport, hsame, hshown⟩

end Report

namespace Report

theorem exists_ofTextInto (sink : Sink) {request : LexRequest} {text : String} {es : List Emission}
    (h : tokens text request.options = .ok es) :
    ofTextInto sink request text = .ok (deliver sink (fragments request.path es)) := by
  rw [ofTextInto, h]
  rfl

theorem outcome_deliver (limit : Nat) (appetite : Appetite) (texts : List String) :
    (texts.flatMap utf8).length ≤ limit ∧
        (deliver (.ofRoom limit appetite) texts).outcome = .ok () ∧
        (deliver (.ofRoom limit appetite) texts).held = texts.flatMap utf8 ∨
      limit < (texts.flatMap utf8).length ∧
        (deliver (.ofRoom limit appetite) texts).outcome = .error .shortWrite ∧
        (deliver (.ofRoom limit appetite) texts).held = (texts.flatMap utf8).take limit := by
  rw [deliver_eq]
  by_cases h : (texts.flatMap utf8).length ≤ limit
  · refine Or.inl ⟨h, ?_, List.take_of_length_le h⟩
    rw [Delivery.outcome, decide_eq_true h]
    rfl
  · refine Or.inr ⟨Nat.lt_of_not_le h, ?_, rfl⟩
    rw [Delivery.outcome, decide_eq_false h]
    rfl

/-- Whatever the text, the request and the room, and however much the sink takes at once. The whole
report has a header that counts all tokens of the text. Where it fits, the sink holds it as it is. Where
it does not, to write fails as a short write, and the sink holds as many bytes of its front as there is
room for. -/
theorem ofTextInto_takes_front (limit : Nat) (appetite : Appetite) (request : LexRequest)
    (text : String) :
    ∃ es report delivery, tokens text request.options = .ok es ∧ ofText request text = .ok report ∧
      report = header request.path es.length ++ String.join (es.map entry) ∧
      ofTextInto (.ofRoom limit appetite) request text = .ok delivery ∧
      ((utf8 report).length ≤ limit ∧ delivery.outcome = .ok () ∧ delivery.held = utf8 report ∨
        limit < (utf8 report).length ∧ delivery.outcome = .error .shortWrite ∧
          delivery.held = (utf8 report).take limit) := by
  obtain ⟨es, hes⟩ := exists_tokens text request.options
  refine ⟨es, render request.path es, _, hes, ofText_eq_ok hes, ?_, exists_ofTextInto _ hes, ?_⟩
  · rw [render, writes, String.join_cons]
  · rw [← flatMap_utf8_fragments]
    exact outcome_deliver limit appetite _

-- The room may end inside a character.
example : ofTextWithin 13 ⟨"é", {}⟩ "" = .ok ⟨utf8 "Tokens for '" ++ [0xc3], false⟩ := by
  decide +kernel

end Report

end LiquidTokens
