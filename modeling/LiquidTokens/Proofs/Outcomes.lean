import LiquidTokens.CommandLine
import LiquidTokens.Exhaustion
import LiquidTokens.Template

/-! How a run of the command line ends: with what was asked for on one output, or with a complaint on
the other. The main statement is `CommandLine.run_all_or_nothing`. -/
namespace LiquidTokens

theorem fromUTF8?_eq_some_iff {bytes : ByteArray} {text : String} :
    String.fromUTF8? bytes = some text ↔ bytes = text.toByteArray := by
  unfold String.fromUTF8?
  constructor
  · intro h
    split at h
    · cases h
      rfl
    · cases h
  · rintro rfl
    rw [dif_pos text.isValidUTF8]
    rfl

theorem Template.read_eq_ok_iff {fetch : String → Except FileError ByteArray} {path text : String} :
    read fetch path = .ok text ↔ fetch path = .ok text.toByteArray := by
  unfold read
  cases fetch path with
  | error e => simp
  | ok bytes =>
    rw [Except.ok.injEq, ← fromUTF8?_eq_some_iff]
    dsimp only
    cases String.fromUTF8? bytes <;> simp

namespace CommandLine

theorem decode_map_toByteArray (texts : List String) :
    decode (texts.map String.toByteArray) = .ok texts := by
  induction texts with
  | nil => rfl
  | cons s texts ih =>
    rw [decode] at ih ⊢
    rw [List.map_cons, List.mapM_cons, ih, fromUTF8?_eq_some_iff.mpr rfl]
    rfl

theorem cases_of_decode (argv : List ByteArray) :
    (∃ texts, argv = texts.map String.toByteArray ∧ decode argv = .ok texts) ∨
      (∀ texts : List String, argv ≠ texts.map String.toByteArray) ∧
        decode argv = .error .argumentNotUnicode := by
  induction argv with
  | nil => exact Or.inl ⟨[], rfl, rfl⟩
  | cons argument argv ih =>
    cases hdecoded : String.fromUTF8? argument with
    | none =>
      refine Or.inr ⟨?_, ?_⟩
      · rintro (_ | ⟨s, texts⟩) h
        · cases h
        · rw [(List.cons.inj h).1, fromUTF8?_eq_some_iff.mpr rfl] at hdecoded
          cases hdecoded
      · rw [decode, List.mapM_cons, hdecoded]
        rfl
    | some s =>
      have hs := fromUTF8?_eq_some_iff.mp hdecoded
      rcases ih with ⟨texts, rfl, _⟩ | ⟨hnone, hrefused⟩
      · refine Or.inl ⟨s :: texts, by rw [hs]; rfl, ?_⟩
        rw [hs]
        exact decode_map_toByteArray (s :: texts)
      · refine Or.inr ⟨?_, ?_⟩
        · rintro (_ | ⟨s', texts⟩) h
          · cases h
          · exact hnone texts (List.cons.inj h).2
        · rw [decode] at hrefused ⊢
          rw [List.mapM_cons, hdecoded, hrefused]
          rfl

def AsksHelp (arguments : List String) : Prop :=
  arguments = [] ∨ ∃ name rest, arguments = name :: rest ∧ name ∈ ["help", "--help", "-h"]

/-- The arguments ask in good order for the tokens of a file, and the file holds the text: its bytes are
those of the text, with nothing added or taken away. -/
structure AsksTokens (fetch : String → Except FileError ByteArray) (arguments : List String)
    (request : LexRequest) (text : String) : Prop where
  arguments_eq : ∃ rest, arguments = "lex" :: rest ∧ LexRequest.ofArguments rest = .ok request
  fetch_eq : fetch request.path = .ok text.toByteArray

section Commands

variable {arguments rest : List String}

theorem ofArguments_eq_help_iff : Command.ofArguments arguments = .help ↔ AsksHelp arguments := by
  cases arguments with
  | nil => exact ⟨fun _ => Or.inl rfl, fun _ => rfl⟩
  | cons name rest =>
    rw [Command.ofArguments]
    by_cases hlex : name = "lex"
    · subst hlex
      simp [AsksHelp]
    · rw [if_neg hlex]
      by_cases hhelp : name = "help" ∨ name = "--help" ∨ name = "-h"
      · simp [AsksHelp, hhelp]
      · simp [AsksHelp, hhelp]

theorem ofArguments_eq_lex_iff :
    Command.ofArguments arguments = .lex rest ↔ arguments = "lex" :: rest := by
  cases arguments with
  | nil => simp [Command.ofArguments]
  | cons name others =>
    rw [Command.ofArguments]
    by_cases hlex : name = "lex"
    · simp [hlex]
    · rw [if_neg hlex]
      by_cases hhelp : name = "help" ∨ name = "--help" ∨ name = "-h"
      · simp [hlex, hhelp]
      · simp [hlex, hhelp]

end Commands

theorem not_asksTokens_of_asksHelp {fetch : String → Except FileError ByteArray}
    {arguments : List String} {request : LexRequest} {text : String} (h : AsksHelp arguments) :
    ¬ AsksTokens fetch arguments request text := by
  rintro ⟨⟨rest, hrest, _⟩, _⟩
  rw [← ofArguments_eq_help_iff] at h
  rw [← ofArguments_eq_lex_iff] at hrest
  cases h.symm.trans hrest

theorem AsksTokens.unique {fetch : String → Except FileError ByteArray} {arguments : List String}
    {request request' : LexRequest} {text text' : String} (h : AsksTokens fetch arguments request text)
    (h' : AsksTokens fetch arguments request' text') : request = request' ∧ text = text' := by
  obtain ⟨⟨rest, rfl, hrequest⟩, hfetch⟩ := h
  obtain ⟨⟨rest', hrest, hrequest'⟩, hfetch'⟩ := h'
  obtain rfl := (List.cons.inj hrest).2
  obtain rfl := Except.ok.inj (hrequest.symm.trans hrequest')
  exact ⟨rfl, String.toByteArray_inj.mp (Except.ok.inj (hfetch.symm.trans hfetch'))⟩

section Perform

variable (fetch : String → Except FileError ByteArray) (log : Log)

theorem perform_lex_of_error {rest : List String} {e : ArgumentError}
    (h : LexRequest.ofArguments rest = .error e) :
    perform fetch log (.lex rest) = .ok (fail s!"error: {e.message}\n{lexUsage}") := by
  simp only [perform, h]
  rfl

theorem perform_lex_of_ok {rest : List String} {request : LexRequest}
    (h : LexRequest.ofArguments rest = .ok request) :
    perform fetch log (.lex rest) = lex fetch log request := by
  simp only [perform, h]

/-- All that can come of arguments that are texts. Which of the three it is does not depend on the log. -/
theorem cases_of_perform (arguments : List String) :
    (AsksHelp arguments ∧ ∀ log, perform fetch log (.ofArguments arguments) = .ok (succeed usage)) ∨
      (∃ request text es, AsksTokens fetch arguments request text ∧
        tokens text request.options = .ok es ∧ ∀ log, perform fetch log (.ofArguments arguments) =
          .ok ⟨0, Report.render request.path es, log.render (es.flatMap Emission.events)⟩) ∨
      ∃ complaint, complaint ≠ "" ∧ ¬ AsksHelp arguments ∧
        (∀ request text, ¬ AsksTokens fetch arguments request text) ∧
        ∀ log, perform fetch log (.ofArguments arguments) = .ok (fail complaint) := by
  cases hcommand : Command.ofArguments arguments with
  | help => exact Or.inl ⟨ofArguments_eq_help_iff.mp hcommand, fun log => rfl⟩
  | unknown name =>
    refine Or.inr (Or.inr ⟨s!"Unknown command: {name}\n\n{usage}", by simp [toString], ?_, ?_,
      fun log => rfl⟩)
    · intro h
      cases hcommand.symm.trans (ofArguments_eq_help_iff.mpr h)
    · rintro request text ⟨⟨rest, hrest, _⟩, _⟩
      cases hcommand.symm.trans (ofArguments_eq_lex_iff.mpr hrest)
  | lex rest =>
    obtain rfl := ofArguments_eq_lex_iff.mp hcommand
    have hhelp : ¬ AsksHelp ("lex" :: rest) := fun h => by
      cases hcommand.symm.trans (ofArguments_eq_help_iff.mpr h)
    cases hrequest : LexRequest.ofArguments rest with
    | error e =>
      refine Or.inr (Or.inr ⟨s!"error: {e.message}\n{lexUsage}", by simp [toString], hhelp, ?_,
        fun log => perform_lex_of_error fetch log hrequest⟩)
      rintro request text ⟨⟨_, hrest, hok⟩, _⟩
      obtain rfl := (List.cons.inj hrest).2
      cases hrequest.symm.trans hok
    | ok request =>
      cases hread : Template.read fetch request.path with
      | error e =>
        refine Or.inr (Or.inr ⟨s!"error: {e.message}\n", by simp [toString], hhelp, ?_,
          fun log => ?_⟩)
        · rintro request' text ⟨⟨_, hrest, hok⟩, hfetch⟩
          obtain rfl := (List.cons.inj hrest).2
          obtain rfl := Except.ok.inj (hrequest.symm.trans hok)
          cases hread.symm.trans (Template.read_eq_ok_iff.mpr hfetch)
        · rw [perform_lex_of_ok fetch log hrequest, lex, hread]
          rfl
      | ok text =>
        obtain ⟨es, hes⟩ := exists_tokens text request.options
        refine Or.inr (Or.inl ⟨request, text, es,
          ⟨⟨rest, rfl, hrequest⟩, Template.read_eq_ok_iff.mp hread⟩, hes, fun log => ?_⟩)
        rw [perform_lex_of_ok fetch log hrequest, lex, hread]
        simp only [hes]
        rfl

end Perform

section Run

variable (fetch : String → Except FileError ByteArray) (log : Log)

theorem run_of_perform {texts : List String} {outcome : Outcome}
    (h : perform fetch log (.ofArguments texts.tail) = .ok outcome) :
    run fetch log (texts.map String.toByteArray) = outcome := by
  simp only [run, decode_map_toByteArray, bind, Except.bind, h]

theorem run_of_decode_eq_error {argv : List ByteArray} {fault : Fault}
    (h : decode argv = .error fault) : run fetch log argv = panic fault := by
  simp only [run, h, bind, Except.bind]

theorem run_congr {argv : List ByteArray} {other : String → Except FileError ByteArray}
    (h : ∀ path, path? argv = some path → other path = fetch path) :
    run other log argv = run fetch log argv := by
  rcases cases_of_decode argv with ⟨texts, -, htexts⟩ | ⟨-, hrefused⟩
  · have hsame : perform other log (.ofArguments texts.tail) =
        perform fetch log (.ofArguments texts.tail) := by
      cases hcommand : Command.ofArguments texts.tail with
      | help | unknown => rfl
      | lex rest =>
        cases hrequest : LexRequest.ofArguments rest with
        | error e => rw [perform_lex_of_error _ _ hrequest, perform_lex_of_error _ _ hrequest]
        | ok request =>
          have hpath : path? argv = some request.path := by
            simp only [path?, htexts, Functor.map, Except.map, hcommand, hrequest]
            rfl
          rw [perform_lex_of_ok _ _ hrequest, perform_lex_of_ok _ _ hrequest, lex, lex,
            Template.read, Template.read, h _ hpath]
    simp only [run, htexts, bind, Except.bind, hsame]
  · rw [run_of_decode_eq_error _ _ hrefused, run_of_decode_eq_error _ _ hrefused]

end Run

theorem render_ne_empty (path : String) (es : List Emission) : Report.render path es ≠ "" := by
  simp [Report.render, Report.writes, Report.header_eq]

theorem complaint_of_arguments (fetch : String → Except FileError ByteArray) (log : Log)
    {texts rest : List String} {e : ArgumentError} (hrest : texts.tail = "lex" :: rest)
    (he : LexRequest.ofArguments rest = .error e) :
    path? (texts.map String.toByteArray) = none ∧
      (run fetch log (texts.map String.toByteArray)).stderr = s!"error: {e.message}\n{lexUsage}" := by
  have hcommand := ofArguments_eq_lex_iff.mpr hrest
  constructor
  · simp only [path?, decode_map_toByteArray, Functor.map, Except.map, hcommand, he]
    rfl
  · rw [run_of_perform fetch log (hcommand ▸ perform_lex_of_error fetch log he)]
    rfl

theorem ends_of_texts (fetch : String → Except FileError ByteArray) (subscriber : Subscriber)
    {texts : List String} {outcome : Outcome}
    (h : run fetch ⟨subscriber, none⟩ (texts.map String.toByteArray) = outcome) :
    (outcome.code = 0 ∧ outcome.stdout ≠ "" ∧ outcome.stderr = "" ∨
      outcome.code = 1 ∧ outcome.stdout = "" ∧ outcome.stderr ≠ "") ∧
    (outcome.code = 0 ↔
      AsksHelp texts.tail ∨ ∃ request text, AsksTokens fetch texts.tail request text) ∧
    ∀ request text, AsksTokens fetch texts.tail request text →
      Report.ofText request text = .ok outcome.stdout := by
  subst h
  rcases cases_of_perform fetch texts.tail with ⟨hhelp, hrun⟩ |
      ⟨request, text, es, hasks, hes, hrun⟩ | ⟨complaint, hne, hhelp, hasks, hrun⟩
  all_goals rw [run_of_perform fetch _ (hrun _)]
  · refine ⟨Or.inl ⟨rfl, by decide, rfl⟩, iff_of_true rfl (Or.inl hhelp), ?_⟩
    exact fun request text hasks => absurd hasks (not_asksTokens_of_asksHelp hhelp)
  · refine ⟨Or.inl ⟨rfl, render_ne_empty _ _, rfl⟩,
      iff_of_true rfl (Or.inr ⟨request, text, hasks⟩), ?_⟩
    intro request' text' hasks'
    obtain ⟨rfl, rfl⟩ := hasks.unique hasks'
    rw [Report.ofText, hes]
    rfl
  · refine ⟨Or.inr ⟨rfl, rfl, hne⟩, iff_of_false (show (1 : UInt8) ≠ 0 by decide) ?_, ?_⟩
    · rintro (h | ⟨request, text, h⟩)
      · exact hhelp h
      · exact hasks request text h
    · exact fun request text h => absurd h (hasks request text)

end CommandLine
end LiquidTokens
