import LiquidTokens.Event

/-! Who listens to the events of a run, and what is then written about them. The listener is not part of
the library: it is any `Subscriber` that does as it is `Documented` to do, and `Subscriber.plain` is one. -/
namespace LiquidTokens

def Unbroken (s : String) : Prop :=
  '\n' ∉ s.toList

instance : DecidablePred Unbroken := fun _ => inferInstanceAs (Decidable (¬ _))

/-- A setting for a log: it admits what is reported below a target, or everywhere if the target is empty,
as long as it is no more verbose than the limit. Without a limit it admits nothing. -/
structure Directive where
  target : String
  limit : Option Level
  deriving DecidableEq, Repr

namespace Directive

def limitName : Option Level → String
  | none => "off"
  | some .error => "error"
  | some .warn => "warn"
  | some .info => "info"
  | some .debug => "debug"
  | some .trace => "trace"

def text (d : Directive) : String :=
  if d.target = "" then limitName d.limit else d.target ++ "=" ++ limitName d.limit

def Plain (d : Directive) : Prop :=
  ∀ c ∈ d.target.toList, c.isAlphanum = true ∨ c = '_' ∨ c = ':'

instance : DecidablePred Plain := fun d =>
  inferInstanceAs (Decidable (∀ c ∈ d.target.toList, _))

def admits (d : Directive) (level : Level) (target : String) : Bool :=
  d.target.toList.isPrefixOf target.toList && d.limit.any fun l => level.verbosity ≤ l.verbosity

end Directive

/-- One that is told of events: which of them it wants under a setting, by their level and target, and
what it writes about an event. -/
structure Subscriber where
  wants : String → Level → String → Bool
  write : Record → String

/-- What one may rely on. A directive is understood, and an empty setting admits errors only. An event is
told on a line that starts with its level and ends with its fields; its target and its message stand in
between. -/
structure Subscriber.Documented (s : Subscriber) : Prop where
  wants_directive : ∀ d : Directive, d.Plain → ∀ level target,
    s.wants d.text level target = d.admits level target
  wants_empty : ∀ level target, s.wants "" level target = (level == .error)
  write_eq : ∀ r : Record, ∃ told, (Unbroken r.target → Unbroken r.message → Unbroken told) ∧
    s.write r = " " ++ r.level.name ++ " " ++ told ++ r.shownFields ++ "\n"

/-- A subscriber with its setting. Where there is no setting nobody is told. -/
structure Log where
  subscriber : Subscriber
  setting : Option String

/-- What is written about events, in their order. -/
def Log.lines (log : Log) (events : List Event) : List String :=
  match log.setting with
  | none => []
  | some setting =>
    (events.filter fun e => log.subscriber.wants setting e.level e.target).map fun e =>
      log.subscriber.write e.record

def Log.render (log : Log) (events : List Event) : String :=
  String.join (log.lines events)

/-! A subscriber that reads single directives. -/

namespace Directive

def limit? : String → Option (Option Level)
  | "off" => some none
  | "error" => some (some .error)
  | "warn" => some (some .warn)
  | "info" => some (some .info)
  | "debug" => some (some .debug)
  | "trace" => some (some .trace)
  | _ => none

def ofText? (s : String) : Option Directive :=
  let front := String.ofList (s.toList.takeWhile (· ≠ '='))
  match s.toList.dropWhile (· ≠ '=') with
  | [] => (limit? front).map (Directive.mk "")
  | _ :: limit => (limit? (String.ofList limit)).map (Directive.mk front)

theorem limit?_limitName (limit : Option Level) : limit? (limitName limit) = some limit := by
  rcases limit with _ | level
  · rfl
  · cases level <;> rfl

theorem ne_equals_of_mem_limitName (limit : Option Level) :
    ∀ c ∈ (limitName limit).toList, c ≠ '=' := by
  rcases limit with _ | level
  · simp [limitName]
  · cases level <;> simp [limitName]

theorem Plain.ne_equals {d : Directive} (h : d.Plain) : ∀ c ∈ d.target.toList, c ≠ '=' := by
  rintro c hc rfl
  rcases h _ hc with h | h | h <;> revert h <;> decide

theorem ofText?_text {d : Directive} (h : d.Plain) : ofText? d.text = some d := by
  obtain ⟨target, limit⟩ := d
  have hlimit := ne_equals_of_mem_limitName limit
  by_cases hempty : target = ""
  · subst hempty
    have hplain : ∀ c ∈ (limitName limit).toList, (c ≠ '=' : Bool) = true := by simpa using hlimit
    have htake : (limitName limit).toList.takeWhile (· ≠ '=') = (limitName limit).toList := by
      rw [← List.append_nil (limitName limit).toList, List.takeWhile_append_of_pos hplain]
      rfl
    have hdrop : (limitName limit).toList.dropWhile (· ≠ '=') = [] := by
      rw [← List.append_nil (limitName limit).toList, List.dropWhile_append_of_pos hplain]
      rfl
    simp only [ofText?, text, if_true, htake, hdrop, String.ofList_toList, limit?_limitName,
      Option.map_some]
  · have htarget : ∀ c ∈ target.toList, (c ≠ '=' : Bool) = true := by simpa using h.ne_equals
    have htext : (text ⟨target, limit⟩).toList = target.toList ++ '=' :: (limitName limit).toList := by
      simp [text, hempty]
    simp only [ofText?, htext, List.takeWhile_append_of_pos htarget,
      List.dropWhile_append_of_pos htarget]
    simp [limit?_limitName]

end Directive

/-- The subscriber that understands one directive, and tells of an event in plain words. -/
def Subscriber.plain : Subscriber where
  wants setting level target :=
    if setting = "" then level == .error
    else (Directive.ofText? setting).any fun d => d.admits level target
  write r := " " ++ r.level.name ++ " " ++ (r.target ++ " " ++ r.message) ++ r.shownFields ++ "\n"

theorem Directive.text_ne_empty (d : Directive) : d.text ≠ "" := by
  obtain ⟨target, limit⟩ := d
  have hlimit : Directive.limitName limit ≠ "" := by
    rcases limit with _ | level
    · decide
    · cases level <;> decide
  unfold text
  split
  · exact hlimit
  · simp

theorem unbroken_append {s t : String} : Unbroken (s ++ t) ↔ Unbroken s ∧ Unbroken t := by
  rw [Unbroken, String.toList_append, List.mem_append, not_or]
  rfl

theorem Subscriber.plain_documented : Subscriber.plain.Documented where
  wants_directive d h level target := by
    show (if d.text = "" then _ else _) = _
    rw [if_neg d.text_ne_empty, Directive.ofText?_text h]
    rfl
  wants_empty level target := rfl
  write_eq r := by
    refine ⟨r.target ++ " " ++ r.message, fun htarget hmessage => ?_, rfl⟩
    rw [unbroken_append, unbroken_append]
    exact ⟨⟨htarget, by decide⟩, hmessage⟩

end LiquidTokens
