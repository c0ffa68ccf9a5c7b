import LiquidTokens.Proofs.LineNumbers
import LiquidTokens.Proofs.Outcomes
import LiquidTokens.Proofs.Printing
import LiquidTokens.Proofs.Reports

/-! The log beside the run. A setting chooses among the events of a run and touches nothing else, and the
events tell of the tokens what the printed list tells of them, whoever writes them down. The main
statement is `CommandLine.run_logged`. -/
namespace LiquidTokens

/-! ### The form of a line -/

theorem unbroken_join {ss : List String} (h : ∀ s ∈ ss, Unbroken s) : Unbroken (String.join ss) := by
  rw [Unbroken, String.toList_join, List.mem_flatMap]
  rintro ⟨s, hs, hmem⟩
  exact h s hs hmem

theorem unbroken_decimal (n : Nat) : Unbroken (toString n) := by
  intro h
  have hdigits : '\n' ∈ Nat.toDigits 10 n := by simpa [toString] using h
  exact absurd (Text.mem_digits_of_mem_toDigits (by decide) (by decide) hdigits) (by decide)

theorem Kind.unbroken_name (k : Kind) : Unbroken k.name := by
  cases k <;> decide

theorem Level.unbroken_name (l : Level) : Unbroken l.name := by
  cases l <;> decide

theorem Span.unbroken_toString (s : Span) : Unbroken (toString s) := by
  have hparts : toString s = toString s.start ++ (".." ++ toString s.stop) := by
    rw [← String.toList_inj]
    simp [toString]
  rw [hparts, unbroken_append, unbroken_append]
  exact ⟨unbroken_decimal _, by decide, unbroken_decimal _⟩

theorem LineNumber.unbroken_describe (line : LineNumber) : Unbroken line.describe := by
  cases line with
  | none => decide
  | some k =>
    have hparts : describe (some k) = "Some(" ++ (toString k.toNat ++ ")") := by
      rw [← String.toList_inj]
      simp [describe, toString]
    rw [hparts, unbroken_append, unbroken_append]
    exact ⟨by decide, unbroken_decimal _, by decide⟩

/-- The event comes from scanning. Its words are the library's own, which no message of a caller's is. -/
def Event.OfScan (e : Event) : Prop :=
  ∀ error, e ≠ .syntaxError error

namespace Event

variable {e : Event}

theorem OfScan.unbroken_message (h : e.OfScan) : Unbroken e.message := by
  cases e with
  | markupToken => exact (by decide : Unbroken "markup token")
  | lineToken => exact (by decide : Unbroken "line token")
  | unterminatedTag => exact (by decide : Unbroken "unterminated tag")
  | unterminatedVariable => exact (by decide : Unbroken "unterminated variable")
  | syntaxError error => exact absurd rfl (h error)

theorem unbroken_target (e : Event) : Unbroken e.target := by
  unfold target
  split <;> decide

theorem OfScan.unbroken_fields (h : e.OfScan) : ∀ f ∈ e.fields, Unbroken f.1 ∧ Unbroken f.2 := by
  cases e with
  | markupToken kind span line =>
    simp only [fields, List.forall_mem_cons, List.not_mem_nil, IsEmpty.forall_iff, implies_true, and_true]
    exact ⟨⟨by decide, kind.unbroken_name⟩, ⟨by decide, span.unbroken_toString⟩,
      by decide, line.unbroken_describe⟩
  | lineToken span line =>
    simp only [fields, List.forall_mem_cons, List.not_mem_nil, IsEmpty.forall_iff, implies_true, and_true]
    exact ⟨⟨by decide, span.unbroken_toString⟩, by decide, line.unbroken_describe⟩
  | unterminatedTag start =>
    exact List.forall_mem_singleton.mpr
      ⟨(by decide : Unbroken "start"), unbroken_decimal start⟩
  | unterminatedVariable start dropped =>
    simp only [fields, List.forall_mem_cons, List.not_mem_nil, IsEmpty.forall_iff, implies_true, and_true]
    exact ⟨⟨by decide, unbroken_decimal start⟩, by decide, unbroken_decimal dropped⟩
  | syntaxError error => exact absurd rfl (h error)

theorem OfScan.unbroken_shownFields (h : e.OfScan) : Unbroken e.record.shownFields := by
  refine unbroken_join (List.forall_mem_map.mpr fun f hf => ?_)
  obtain ⟨hname, hvalue⟩ := h.unbroken_fields f hf
  simp only [unbroken_append]
  exact ⟨⟨⟨by decide, hname⟩, by decide⟩, hvalue⟩

/-- Scanning reports from below the library's own name. -/
theorem OfScan.prefix_target (h : e.OfScan) :
    "liq_lexer".toList.isPrefixOf e.target.toList = true ∧
      "liqc".toList.isPrefixOf e.target.toList = false := by
  have hmarkup : "liq_lexer".toList.isPrefixOf "liq_lexer::tokenizer::markup".toList = true ∧
      "liqc".toList.isPrefixOf "liq_lexer::tokenizer::markup".toList = false := by decide
  have hline : "liq_lexer".toList.isPrefixOf "liq_lexer::tokenizer::line".toList = true ∧
      "liqc".toList.isPrefixOf "liq_lexer::tokenizer::line".toList = false := by decide
  cases e with
  | markupToken | unterminatedTag | unterminatedVariable => exact hmarkup
  | lineToken => exact hline
  | syntaxError error => exact absurd rfl (h error)

theorem OfScan.level_eq (h : e.OfScan) : e.level = .trace ∨ e.level = .debug := by
  cases e with
  | markupToken | lineToken => exact Or.inl rfl
  | unterminatedTag | unterminatedVariable => exact Or.inr rfl
  | syntaxError error => exact absurd rfl (h error)

end Event

def showsLevel (level : Level) (line : String) : Bool :=
  (' ' :: (level.name.toList ++ [' '])).isPrefixOf line.toList

section Documented

variable {subscriber : Subscriber} (hdoc : subscriber.Documented)
include hdoc

theorem exists_line {e : Event} (h : e.OfScan) : ∃ told, Unbroken told ∧
    subscriber.write e.record = " " ++ e.level.name ++ " " ++ told ++ e.record.shownFields ++ "\n" := by
  obtain ⟨told, hunbroken, hwrite⟩ := hdoc.write_eq e.record
  exact ⟨told, hunbroken e.unbroken_target h.unbroken_message, hwrite⟩

theorem exists_unbroken_line {e : Event} (h : e.OfScan) :
    ∃ content, Unbroken content ∧ subscriber.write e.record = content ++ "\n" := by
  obtain ⟨told, htold, hwrite⟩ := exists_line hdoc h
  refine ⟨_, ?_, hwrite⟩
  simp only [unbroken_append]
  exact ⟨⟨⟨⟨by decide, e.level.unbroken_name⟩, by decide⟩, htold⟩, h.unbroken_shownFields⟩

theorem showsLevel_write (level : Level) (e : Event) :
    showsLevel level (subscriber.write e.record) = decide (e.level = level) := by
  obtain ⟨told, -, hwrite⟩ := hdoc.write_eq e.record
  have hparts : ∃ tail, (subscriber.write e.record).toList =
      ' ' :: (e.level.name.toList ++ ' ' :: tail) := by
    refine ⟨told.toList ++ (e.record.shownFields.toList ++ ['\n']), ?_⟩
    rw [hwrite]
    simp [Event.record]
  obtain ⟨tail, hline⟩ := hparts
  rw [showsLevel, hline]
  cases e.level <;> cases level <;> rfl

theorem filter_showsLevel (level : Level) (events : List Event) :
    (events.map fun e => subscriber.write e.record).filter (showsLevel level) =
      (events.filter fun e => e.level = level).map fun e => subscriber.write e.record := by
  rw [List.filter_map]
  refine congrArg (List.map _) (List.filter_congr fun e _ => ?_)
  exact showsLevel_write hdoc level e

end Documented

/-! ### The events of a token list -/

section Tokens

variable {text : String} {options : Options} {es : List Emission}

theorem exists_drain_of_tokens (h : tokens text options = .ok es) :
    ∃ last, (Tokenizer.start options.mode text options.initialLine).drain = .ok (es, last) := by
  obtain ⟨fs, last, hdrain, _⟩ :=
    Tokenizer.exists_drain (Tokenizer.onBoundary_start options.mode text options.initialLine)
  rw [tokens, Tokenizer.ofOptions, hdrain] at h
  obtain rfl : fs = es := Except.ok.inj h
  exact ⟨last, hdrain⟩

theorem lineAfter_eq_line (h : tokens text options = .ok es) {k : Nat} {e f : Emission}
    (he : es[k]? = some e) (hf : es[k + 1]? = some f) : e.lineAfter = f.line := by
  obtain ⟨last, hdrain⟩ := exists_drain_of_tokens h
  obtain ⟨_, t, _, hnext, htake⟩ := Tokenizer.exists_next_of_take hdrain he
  obtain ⟨u, _, htake', hnext', _⟩ := Tokenizer.exists_next_of_take hdrain hf
  obtain rfl : t = u := (Prod.mk.inj (Except.ok.inj (htake.symm.trans htake'))).2
  rw [(Tokenizer.lines_of_next hnext).2.2.1, (Tokenizer.lines_of_next hnext').2.1]

theorem ofScan_diagnosis (length : Nat) (t : Token) (isLast : Bool) :
    ∀ x ∈ Markup.diagnosis length t isLast, x.OfScan := by
  have htag : (Event.unterminatedTag t.span.start).OfScan := nofun
  have hvar : (Event.unterminatedVariable t.span.start (length - t.span.stop)).OfScan := nofun
  unfold Markup.diagnosis
  split
  · exact List.forall_mem_singleton.mpr htag
  · split
    · cases isLast with
      | true => exact List.forall_mem_singleton.mpr hvar
      | false => exact List.forall_mem_singleton.mpr htag
    · exact List.forall_mem_nil _

theorem events_of_tokens (h : tokens text options = .ok es) :
    (∀ x ∈ es.flatMap Emission.events, x.OfScan) ∧
      (es.flatMap Emission.events).filter (fun x => x.level = .trace) =
        es.map fun e => Tokenizer.trace options.mode e.token e.lineAfter := by
  obtain ⟨last, hdrain⟩ := exists_drain_of_tokens h
  cases hmode : options.mode with
  | markup =>
    rw [hmode] at hdrain
    obtain ⟨es', last', hdrain', _, hs⟩ := Markup.exists_stream text options.initialLine
    obtain ⟨rfl, rfl⟩ := Prod.mk.inj (Except.ok.inj (hdrain.symm.trans hdrain'))
    refine ⟨fun x hx => ?_, hs.traces_eq⟩
    obtain ⟨e, he, hx⟩ := List.mem_flatMap.mp hx
    obtain ⟨before, after, hes⟩ := List.append_of_mem he
    rw [hs.events_eq rfl hes, List.mem_append, List.mem_singleton] at hx
    rcases hx with hx | rfl
    · exact ofScan_diagnosis _ _ _ x hx
    · exact nofun
  | line =>
    rw [hmode] at hdrain
    obtain ⟨es', last', hdrain', _, hs⟩ := Lines.exists_stream text options.initialLine
    obtain ⟨rfl, rfl⟩ := Prod.mk.inj (Except.ok.inj (hdrain.symm.trans hdrain'))
    have hevents : es.flatMap Emission.events =
        es.map fun e => Tokenizer.trace .line e.token e.lineAfter := by
      rw [List.flatMap_def, hs.events_eq, ← List.flatMap_def, List.map_eq_flatMap]
      rfl
    rw [hevents]
    exact ⟨List.forall_mem_map.mpr fun e _ => nofun,
      List.filter_eq_self.mpr (List.forall_mem_map.mpr fun e _ => rfl)⟩

end Tokens

/-! ### What settings select -/

section Settings

variable {subscriber : Subscriber} {events : List Event}

def Subscriber.all (subscriber : Subscriber) (events : List Event) : List String :=
  events.map fun e => subscriber.write e.record

/-- Any setting selects some of the lines, in their order. -/
theorem Log.lines_sublist (subscriber : Subscriber) (setting : Option String) (events : List Event) :
    ((Log.mk subscriber setting).lines events).Sublist (subscriber.all events) := by
  cases setting with
  | none => exact List.nil_sublist _
  | some setting => exact List.filter_sublist.map _

variable (hdoc : subscriber.Documented) (hscan : ∀ x ∈ events, x.OfScan)
include hdoc hscan

theorem Log.lines_of_limit {d : Directive} (htarget : d.target ∈ ["", "liq_lexer"]) :
    (Log.mk subscriber (some d.text)).lines events =
      subscriber.all (events.filter fun e => d.limit.any fun l => e.level.verbosity ≤ l.verbosity) := by
  obtain ⟨target, limit⟩ := d
  have hplain : Directive.Plain ⟨target, limit⟩ := by
    rcases List.mem_pair.mp htarget with rfl | rfl
    all_goals simp [Directive.Plain]
  refine congrArg (List.map _) (List.filter_congr fun e he => ?_)
  have hprefix : target.toList.isPrefixOf e.target.toList = true := by
    rcases List.mem_pair.mp htarget with rfl | rfl
    · rfl
    · exact (hscan e he).prefix_target.1
  rw [hdoc.wants_directive _ hplain, Directive.admits, hprefix, Bool.true_and]

theorem Log.lines_of_trace {d : Directive} (htarget : d.target ∈ ["", "liq_lexer"])
    (hlimit : d.limit = some .trace) :
    (Log.mk subscriber (some d.text)).lines events = subscriber.all events := by
  rw [lines_of_limit hdoc hscan htarget, hlimit]
  refine congrArg subscriber.all (List.filter_eq_self.mpr fun e _ => ?_)
  cases e.level <;> rfl

theorem Log.lines_of_debug {d : Directive} (htarget : d.target ∈ ["", "liq_lexer"])
    (hlimit : d.limit = some .debug) :
    (Log.mk subscriber (some d.text)).lines events =
      (subscriber.all events).filter (showsLevel .debug) := by
  rw [lines_of_limit hdoc hscan htarget, hlimit, Subscriber.all, Subscriber.all,
    filter_showsLevel hdoc]
  refine congrArg (List.map _) (List.filter_congr fun e he => ?_)
  rcases (hscan e he).level_eq with h | h <;> rw [h] <;> rfl

theorem Log.lines_of_quiet {d : Directive} (htarget : d.target ∈ ["", "liq_lexer"])
    (hlimit : d.limit = none ∨ d.limit = some .info) :
    (Log.mk subscriber (some d.text)).lines events = [] := by
  rw [lines_of_limit hdoc hscan htarget, Subscriber.all, List.map_eq_nil_iff, List.filter_eq_nil_iff]
  intro e he
  rcases (hscan e he).level_eq with h | h <;> rcases hlimit with hl | hl <;> rw [h, hl] <;> decide

theorem Log.lines_of_other (limit : Option Level) :
    (Log.mk subscriber (some (Directive.text ⟨"liqc", limit⟩))).lines events = [] := by
  have hplain : Directive.Plain ⟨"liqc", limit⟩ := by simp [Directive.Plain]
  refine List.map_eq_nil_iff.mpr (List.filter_eq_nil_iff.mpr fun e he => ?_)
  rw [hdoc.wants_directive _ hplain, Directive.admits, (hscan e he).prefix_target.2, Bool.false_and]
  exact Bool.false_ne_true

theorem Log.lines_of_empty : (Log.mk subscriber (some "")).lines events = [] := by
  refine List.map_eq_nil_iff.mpr (List.filter_eq_nil_iff.mpr fun e he => ?_)
  rw [hdoc.wants_empty]
  rcases (hscan e he).level_eq with h | h <;> rw [h] <;> decide

theorem Log.lines_of_settings :
    (∀ setting ∈ ["trace", "liq_lexer=trace"],
      (Log.mk subscriber (some setting)).lines events = subscriber.all events) ∧
    (∀ setting ∈ ["debug", "liq_lexer=debug"], (Log.mk subscriber (some setting)).lines events =
      (subscriber.all events).filter (showsLevel .debug)) ∧
    ∀ setting ∈ ["info", "off", "", "liqc=trace"],
      (Log.mk subscriber (some setting)).lines events = [] := by
  refine ⟨?_, ?_, ?_⟩
  · rw [List.forall_mem_cons, List.forall_mem_singleton]
    exact ⟨lines_of_trace hdoc hscan (d := ⟨"", some .trace⟩) (by decide) rfl,
      lines_of_trace hdoc hscan (d := ⟨"liq_lexer", some .trace⟩) (by decide) rfl⟩
  · rw [List.forall_mem_cons, List.forall_mem_singleton]
    exact ⟨lines_of_debug hdoc hscan (d := ⟨"", some .debug⟩) (by decide) rfl,
      lines_of_debug hdoc hscan (d := ⟨"liq_lexer", some .debug⟩) (by decide) rfl⟩
  · rw [List.forall_mem_cons, List.forall_mem_cons, List.forall_mem_cons, List.forall_mem_singleton]
    exact ⟨lines_of_quiet hdoc hscan (d := ⟨"", some .info⟩) (by decide) (Or.inr rfl),
      lines_of_quiet hdoc hscan (d := ⟨"", none⟩) (by decide) (Or.inl rfl),
      lines_of_empty hdoc hscan, lines_of_other hdoc hscan (some .trace)⟩

end Settings

/-! ### The log beside the printed list -/

theorem Report.entry_eq (e : Emission) :
    entry e = "  " ++ e.token.kind.name ++ " " ++ Text.quoted e.token.text ++ " @ " ++
      toString e.token.span ++ e.line.elim "" (fun n => " (line " ++ toString n ++ ")") ++ "\n" := by
  rw [← String.toList_inj]
  cases hline : e.line <;> simp [entry, lineNote, hline, toString]

theorem shownFields_trace (mode : Mode) (e : Emission) :
    (Tokenizer.trace mode e.token e.lineAfter).record.shownFields =
      (if mode = .markup then ", kind=" ++ e.token.kind.name else "") ++ ", span=" ++
        toString e.token.span ++ ", line=" ++
          e.lineAfter.elim "None" (fun n => "Some(" ++ toString n ++ ")") := by
  rw [← String.toList_inj]
  cases mode with
  | markup =>
    cases hline : e.lineAfter <;>
      simp [Tokenizer.trace, Event.record, Event.fields, Record.shownFields, LineNumber.describe,
        toString]
  | line =>
    cases hline : e.lineAfter <;>
      simp [Tokenizer.trace, Event.record, Event.fields, Record.shownFields, LineNumber.describe,
        toString]

/-- The lines of the level of traces are one for each token, in order. A line tells the span, the line
behind the token and in markup the kind, as the entry tells the kind, the text, the span and the line in
front of the token. -/
structure TellsTokens (mode : Mode) (lines : List String) (es : List Emission) : Prop where
  length_eq : (lines.filter (showsLevel .trace)).length = es.length
  trace_eq : ∀ (k : Nat) (e : Emission), es[k]? = some e → ∃ told, Unbroken told ∧
    (lines.filter (showsLevel .trace))[k]? = some (" TRACE " ++ told ++
      ((if mode = .markup then ", kind=" ++ e.token.kind.name else "") ++ ", span=" ++
        toString e.token.span ++ ", line=" ++
          e.lineAfter.elim "None" (fun n => "Some(" ++ toString n ++ ")")) ++ "\n")
  entry_eq : ∀ e ∈ es, Report.entry e =
    "  " ++ e.token.kind.name ++ " " ++ Text.quoted e.token.text ++ " @ " ++
      toString e.token.span ++ e.line.elim "" (fun n => " (line " ++ toString n ++ ")") ++ "\n"
  line_eq : ∀ (k : Nat) (e f : Emission), es[k]? = some e → es[k + 1]? = some f → e.lineAfter = f.line

theorem tellsTokens {subscriber : Subscriber} (hdoc : subscriber.Documented) {text : String}
    {options : Options} {es : List Emission} (h : tokens text options = .ok es) :
    TellsTokens options.mode (subscriber.all (es.flatMap Emission.events)) es := by
  have htraces : (subscriber.all (es.flatMap Emission.events)).filter (showsLevel .trace) =
      es.map fun e => subscriber.write (Tokenizer.trace options.mode e.token e.lineAfter).record := by
    rw [Subscriber.all, filter_showsLevel hdoc, (events_of_tokens h).2, List.map_map]
    rfl
  refine ⟨by rw [htraces, List.length_map], fun k e he => ?_, fun e _ => Report.entry_eq e,
    fun k e f => lineAfter_eq_line h⟩
  have hscan : (Tokenizer.trace options.mode e.token e.lineAfter).OfScan := by
    cases options.mode <;> exact nofun
  have hlevel : (Tokenizer.trace options.mode e.token e.lineAfter).level = .trace := by
    cases options.mode <;> rfl
  obtain ⟨told, htold, hwrite⟩ := exists_line hdoc hscan
  refine ⟨told, htold, ?_⟩
  rw [htraces, List.getElem?_map, he, Option.map_some, hwrite, hlevel, shownFields_trace]
  rfl

namespace CommandLine

/-- What is told of events is put in front of the complaints, and only a run that prints tokens has
events. -/
theorem exists_events (fetch : String → Except FileError ByteArray) (argv : List ByteArray) :
    ∃ (plain : Outcome) (events : List Event), (∀ log : Log, run fetch log argv =
        { plain with stderr := log.render events ++ plain.stderr }) ∧
      (events = [] ∨ plain.stderr = "") ∧ (∀ x ∈ events, x.OfScan) ∧
      ∀ texts rest, argv = List.map String.toByteArray texts → texts.tail = "lex" :: rest →
        plain.code = 0 → ∃ request text es, AsksTokens fetch texts.tail request text ∧
          tokens text request.options = .ok es ∧ plain.stdout = Report.render request.path es ∧
          events = es.flatMap Emission.events := by
  have hquiet {log : Log} {outcome : Outcome} :
      outcome = { outcome with stderr := log.render [] ++ outcome.stderr } := by
    have hnone : log.render [] = "" := by
      obtain ⟨subscriber, setting⟩ := log
      cases setting <;> rfl
    rw [hnone, String.empty_append]
  rcases cases_of_decode argv with ⟨texts, rfl, htexts⟩ | ⟨hnone, hrefused⟩
  · have hinj {texts' : List String}
        (h : texts.map String.toByteArray = texts'.map String.toByteArray) : texts = texts' :=
      List.map_injective_iff.mpr (fun _ _ => String.toByteArray_inj.mp) h
    rcases cases_of_perform fetch texts.tail with ⟨hhelp, hrun⟩ |
        ⟨request, text, es, hasks, hes, hrun⟩ | ⟨complaint, hne, hhelp, hasks, hrun⟩
    · refine ⟨succeed usage, [], fun log => (run_of_perform fetch log (hrun log)).trans hquiet,
        Or.inl rfl, List.forall_mem_nil _, ?_⟩
      intro texts' rest htexts' hlex _
      obtain rfl := hinj htexts'
      rw [hlex] at hhelp
      cases (ofArguments_eq_help_iff.mpr hhelp).symm.trans (ofArguments_eq_lex_iff.mpr rfl)
    · refine ⟨⟨0, Report.render request.path es, ""⟩, es.flatMap Emission.events, fun log => ?_,
        Or.inr rfl, (events_of_tokens hes).1, ?_⟩
      · rw [run_of_perform fetch log (hrun log), String.append_empty]
      · intro texts' rest htexts' hlex _
        obtain rfl := hinj htexts'
        exact ⟨request, text, es, hasks, hes, rfl, rfl⟩
    · refine ⟨fail complaint, [], fun log => (run_of_perform fetch log (hrun log)).trans hquiet,
        Or.inl rfl, List.forall_mem_nil _, ?_⟩
      exact fun _ _ _ _ hcode => absurd hcode (show (1 : UInt8) ≠ 0 by decide)
  · refine ⟨panic .argumentNotUnicode, [],
      fun log => (run_of_decode_eq_error fetch log hrefused).trans hquiet, Or.inl rfl,
      List.forall_mem_nil _, ?_⟩
    exact fun texts _ htexts => absurd htexts (hnone texts)

end CommandLine
end LiquidTokens
