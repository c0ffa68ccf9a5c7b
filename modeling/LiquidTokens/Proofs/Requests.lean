import Mathlib.Data.List.Basic
import Mathlib.Data.List.Induction
import LiquidTokens.Arguments
import LiquidTokens.Proofs.Numerals

/-! Which arguments ask in good order for the tokens of a file, for what they ask, and which argument is to
blame when they do not. The main statement is `LexRequest.ofArguments_in_order`. -/
namespace LiquidTokens
namespace Argument

/-- The file is what does not start with a dash, even if it is the empty text. -/
def IsPositional (s : String) : Prop :=
  s.toList.head? ≠ some '-'

def AsksLines (s : String) : Prop :=
  s = "--line-mode" ∨ s = "-l"

def AsksNumbers (s : String) : Prop :=
  s = "--line-numbers" ∨ s = "-n"

def GivesFirstLine (s : String) : Prop :=
  ∃ value, s = "--start-line=" ++ value

def IsOption (s : String) : Prop :=
  AsksLines s ∨ AsksNumbers s ∨
    ∃ value, ∃ n < UInt32.size, s = "--start-line=" ++ value ∧ Numeral.Denotes value n

structure IsUnknown (s : String) : Prop where
  not_positional : ¬ IsPositional s
  not_lines : ¬ AsksLines s
  not_numbers : ¬ AsksNumbers s
  not_firstLine : ¬ GivesFirstLine s

section Forms

variable {s : String}

theorem ofString_of_asksLines (h : AsksLines s) : ofString s = .setting (.mode .line) :=
  if_pos h

theorem ofString_of_asksNumbers (h : AsksNumbers s) : ofString s = .setting (.numbered true) := by
  rcases h with rfl | rfl <;> decide

theorem isPrefixOf?_firstLineFlag_iff {value : List Char} :
    firstLineFlag.isPrefixOf? s.toList = some value ↔ s = "--start-line=" ++ String.ofList value := by
  have hflag : String.ofList firstLineFlag = "--start-line=" := String.ofList_toList
  rw [List.isPrefixOf?_eq_some_iff_append_eq, ← hflag, ← String.ofList_append, ← String.toList_inj,
    String.toList_ofList, eq_comm]

theorem ofString_firstLine (value : String) :
    ofString ("--start-line=" ++ value) = .firstLine value := by
  have hflag : firstLineFlag.isPrefixOf? ("--start-line=" ++ value).toList = some value.toList :=
    isPrefixOf?_firstLineFlag_iff.mpr (by rw [String.ofList_toList])
  rw [ofString, if_neg, if_neg, hflag]
  · simp
  · simp [← String.toList_inj]
  · simp [← String.toList_inj]

theorem ofString_of_no_option (hlines : ¬ AsksLines s) (hnumbers : ¬ AsksNumbers s)
    (hfirst : ¬ GivesFirstLine s) :
    ofString s = if s.toList.head? = some '-' then .unknown else .path := by
  have hflag : firstLineFlag.isPrefixOf? s.toList = none := by
    cases hs : firstLineFlag.isPrefixOf? s.toList with
    | none => rfl
    | some value => exact absurd ⟨_, isPrefixOf?_firstLineFlag_iff.mp hs⟩ hfirst
  rw [AsksLines] at hlines
  rw [AsksNumbers] at hnumbers
  rw [ofString, if_neg hlines, if_neg hnumbers, hflag]

theorem ofString_of_isUnknown (h : IsUnknown s) : ofString s = .unknown := by
  rw [ofString_of_no_option h.not_lines h.not_numbers h.not_firstLine,
    if_pos (not_not.mp h.not_positional)]

theorem not_isPositional_of_asksLines (h : AsksLines s) : ¬ IsPositional s := by
  rcases h with rfl | rfl <;> simp [IsPositional]

theorem not_isPositional_of_asksNumbers (h : AsksNumbers s) : ¬ IsPositional s := by
  rcases h with rfl | rfl <;> simp [IsPositional]

theorem not_isPositional_of_givesFirstLine (h : GivesFirstLine s) : ¬ IsPositional s := by
  obtain ⟨value, rfl⟩ := h
  simp [IsPositional]

theorem ofString_of_isPositional (h : IsPositional s) : ofString s = .path := by
  rw [ofString_of_no_option (fun hs => not_isPositional_of_asksLines hs h)
    (fun hs => not_isPositional_of_asksNumbers hs h)
    (fun hs => not_isPositional_of_givesFirstLine hs h), if_neg h]

theorem not_asksNumbers_of_asksLines (h : AsksLines s) : ¬ AsksNumbers s := fun hs => by
  cases (ofString_of_asksLines h).symm.trans (ofString_of_asksNumbers hs)

theorem not_givesFirstLine_of_asksLines (h : AsksLines s) : ¬ GivesFirstLine s := by
  rintro ⟨value, rfl⟩
  cases (ofString_of_asksLines h).symm.trans (ofString_firstLine value)

theorem not_givesFirstLine_of_asksNumbers (h : AsksNumbers s) : ¬ GivesFirstLine s := by
  rintro ⟨value, rfl⟩
  cases (ofString_of_asksNumbers h).symm.trans (ofString_firstLine value)

theorem IsOption.not_isPositional (h : IsOption s) : ¬ IsPositional s := by
  rcases h with hs | hs | ⟨value, _, _, hs, _⟩
  · exact not_isPositional_of_asksLines hs
  · exact not_isPositional_of_asksNumbers hs
  · exact not_isPositional_of_givesFirstLine ⟨value, hs⟩

theorem cases_form (s : String) :
    AsksLines s ∨ AsksNumbers s ∨ GivesFirstLine s ∨ IsUnknown s ∨ IsPositional s := by
  by_contra! h
  obtain ⟨hlines, hnumbers, hfirst, hunknown, hpath⟩ := h
  exact hunknown ⟨hpath, hlines, hnumbers, hfirst⟩

end Forms
end Argument

namespace LexRequest

open Argument

/-- What is wrong with an argument behind others. -/
inductive Blames (before : List String) (s : String) : ArgumentError → Prop
  | unknown : IsUnknown s → Blames before s (.unknownOption s)
  | badFirstLine {value : String} {cause : NumeralError} : s = "--start-line=" ++ value →
      Numeral.Refuses value cause → Blames before s (.badFirstLine value cause)
  | unexpected : IsPositional s → (∃ path ∈ before, IsPositional path) →
      Blames before s (.unexpected s)

/-- What is said of an argument that is to blame: which one it is, or which value, and why. -/
inductive Complaint (before : List String) (s : String) : String → Prop
  | unknown : IsUnknown s → Complaint before s ("unknown option '" ++ s ++ "'")
  | emptyValue : s = "--start-line=" → Complaint before s
      ("invalid --start-line value '': " ++ "cannot parse integer from empty string")
  | invalidDigit {value : String} : s = "--start-line=" ++ value →
      Numeral.Refuses value .invalidDigit → Complaint before s
        ("invalid --start-line value '" ++ value ++ "': invalid digit found in string")
  | tooLarge {value : String} : s = "--start-line=" ++ value →
      Numeral.Refuses value .tooLarge → Complaint before s
        ("invalid --start-line value '" ++ value ++ "': number too large to fit in target type")
  | unexpected : IsPositional s → (∃ path ∈ before, IsPositional path) →
      Complaint before s ("unexpected argument '" ++ s ++ "'")

def Clean (arguments : List String) : Prop :=
  ∀ before s e, before ++ [s] <+: arguments → ¬ Blames before s e

/-- The first argument that is to blame, and for what. -/
def FirstOffence (arguments : List String) (e : ArgumentError) : Prop :=
  ∃ before s, before ++ [s] <+: arguments ∧ Clean before ∧ Blames before s e

/-- One argument is the file, and all others are options in good order. -/
def InOrder (arguments : List String) (path : String) : Prop :=
  ∃ before after, arguments = before ++ path :: after ∧ IsPositional path ∧
    ∀ s ∈ before ++ after, IsOption s

inductive FirstLine (arguments : List String) : LineNumber → Prop
  | none : (∀ s ∈ arguments, ¬ GivesFirstLine s) → FirstLine arguments none
  | last {before after : List String} {value : String} {line : UInt32} :
      arguments = before ++ ("--start-line=" ++ value) :: after →
      (∀ s ∈ after, ¬ GivesFirstLine s) → Numeral.Denotes value line.toNat →
      FirstLine arguments (some line)

/-- Lines are counted from the first line, or from one if there is none but numbers are asked for. -/
inductive StartsAt (arguments : List String) : LineNumber → Prop
  | given {line : UInt32} : FirstLine arguments (some line) → StartsAt arguments (some line)
  | numbered : FirstLine arguments none → (∃ s ∈ arguments, AsksNumbers s) →
      StartsAt arguments (some 1)
  | unnumbered : FirstLine arguments none → (∀ s ∈ arguments, ¬ AsksNumbers s) →
      StartsAt arguments none

structure Answers (arguments : List String) (request : LexRequest) : Prop where
  inOrder : InOrder arguments request.path
  mode_iff : request.options.mode = .line ↔ ∃ s ∈ arguments, AsksLines s
  startsAt : StartsAt arguments request.options.initialLine

variable {seen : List String} {s : String}

section Options

variable {options : Options}

structure Chosen (seen : List String) (options : Options) : Prop where
  mode_iff : options.mode = .line ↔ ∃ s ∈ seen, AsksLines s
  numbered_iff : options.numbered = true ↔ ∃ s ∈ seen, AsksNumbers s
  firstLine : FirstLine seen options.firstLine

theorem exists_concat_iff_of_not {P : String → Prop} (h : ¬ P s) :
    (∃ x ∈ seen, P x) ↔ ∃ x ∈ seen ++ [s], P x := by
  simp [or_and_right, exists_or, h]

theorem FirstLine.concat {line : LineNumber} (h : FirstLine seen line) (hs : ¬ GivesFirstLine s) :
    FirstLine (seen ++ [s]) line := by
  have hconcat {l : List String} (hl : ∀ x ∈ l, ¬ GivesFirstLine x) :
      ∀ x ∈ l ++ [s], ¬ GivesFirstLine x := by
    rw [List.forall_mem_append, List.forall_mem_singleton]
    exact ⟨hl, hs⟩
  cases h with
  | none hnone => exact .none (hconcat hnone)
  | last hseen hlast hvalue =>
    rw [hseen, List.append_assoc, List.cons_append]
    exact .last rfl (hconcat hlast) hvalue

theorem chosen_nil : Chosen [] {} :=
  ⟨by simp, by simp, .none (by simp)⟩

theorem Chosen.concat_lines (h : Chosen seen options) (hs : AsksLines s) :
    Chosen (seen ++ [s]) (options.set (.mode .line)) where
  mode_iff := iff_of_true rfl ⟨s, by simp, hs⟩
  numbered_iff :=
    h.numbered_iff.trans (exists_concat_iff_of_not (not_asksNumbers_of_asksLines hs))
  firstLine := h.firstLine.concat (not_givesFirstLine_of_asksLines hs)

theorem Chosen.concat_numbers (h : Chosen seen options) (hs : AsksNumbers s) :
    Chosen (seen ++ [s]) (options.set (.numbered true)) where
  mode_iff :=
    h.mode_iff.trans (exists_concat_iff_of_not fun hl => not_asksNumbers_of_asksLines hl hs)
  numbered_iff := iff_of_true rfl ⟨s, by simp, hs⟩
  firstLine := h.firstLine.concat (not_givesFirstLine_of_asksNumbers hs)

theorem Chosen.concat_firstLine (h : Chosen seen options) {value : String} {line : UInt32}
    (hvalue : Numeral.Denotes value line.toNat) :
    Chosen (seen ++ ["--start-line=" ++ value]) (options.set (.firstLine line)) where
  mode_iff :=
    h.mode_iff.trans (exists_concat_iff_of_not fun hs =>
      not_givesFirstLine_of_asksLines hs ⟨value, rfl⟩)
  numbered_iff :=
    h.numbered_iff.trans (exists_concat_iff_of_not fun hs =>
      not_givesFirstLine_of_asksNumbers hs ⟨value, rfl⟩)
  firstLine := .last rfl (by simp) hvalue

theorem Chosen.concat_path (h : Chosen seen options) (hs : IsPositional s) :
    Chosen (seen ++ [s]) options where
  mode_iff :=
    h.mode_iff.trans (exists_concat_iff_of_not fun hl => not_isPositional_of_asksLines hl hs)
  numbered_iff :=
    h.numbered_iff.trans (exists_concat_iff_of_not fun hn => not_isPositional_of_asksNumbers hn hs)
  firstLine := h.firstLine.concat fun hf => not_isPositional_of_givesFirstLine hf hs

theorem Chosen.startsAt (h : Chosen seen options) : StartsAt seen options.initialLine := by
  have hfirst := h.firstLine
  unfold Options.initialLine
  split
  · rename_i line hline
    rw [hline] at hfirst
    exact .given hfirst
  · rename_i hline
    rw [hline] at hfirst
    split
    · rename_i hnumbered
      exact .numbered hfirst (h.numbered_iff.mp hnumbered)
    · rename_i hnumbered
      exact .unnumbered hfirst fun s hs hn => hnumbered (h.numbered_iff.mpr ⟨s, hs, hn⟩)

end Options

def Found (seen : List String) : Option String → Prop
  | none => ∀ s ∈ seen, IsOption s
  | some path => InOrder seen path

theorem Found.concat {path? : Option String} (h : Found seen path?) (hs : IsOption s) :
    Found (seen ++ [s]) path? := by
  cases path? with
  | none => exact List.forall_mem_append.mpr ⟨h, List.forall_mem_singleton.mpr hs⟩
  | some path =>
    obtain ⟨before, after, rfl, hpath, hoptions⟩ := h
    refine ⟨before, after ++ [s], by simp, hpath, ?_⟩
    rw [← List.append_assoc]
    exact List.forall_mem_append.mpr ⟨hoptions, List.forall_mem_singleton.mpr hs⟩

structure Stands (seen : List String) (path? : Option String) (options : Options) : Prop where
  found : Found seen path?
  chosen : Chosen seen options

section Step

variable {path? : Option String} {options : Options}

theorem read_of_setting {setting : Options.Setting} (h : ofString s = .setting setting)
    (rest : List String) :
    read path? options (s :: rest) = read path? (options.set setting) rest := by
  rw [read.eq_def]
  simp only [h]

theorem read_firstLine_of_ok {value : String} {line : UInt32}
    (h : Numeral.read value = .ok line) (rest : List String) :
    read path? options (("--start-line=" ++ value) :: rest) =
      read path? (options.set (.firstLine line)) rest := by
  rw [read.eq_def]
  simp only [ofString_firstLine, h]

theorem read_firstLine_of_error {value : String} {cause : NumeralError}
    (h : Numeral.read value = .error cause) (rest : List String) :
    read path? options (("--start-line=" ++ value) :: rest) = .error (.badFirstLine value cause) := by
  rw [read.eq_def]
  simp only [ofString_firstLine, h]

theorem read_of_isUnknown (h : IsUnknown s) (rest : List String) :
    read path? options (s :: rest) = .error (.unknownOption s) := by
  rw [read.eq_def]
  simp only [ofString_of_isUnknown h]

/-- An argument that is not to blame is read. -/
theorem Stands.exists_step (h : Stands seen path? options) (hs : ∀ e, ¬ Blames seen s e) :
    ∃ path?' options', Stands (seen ++ [s]) path?' options' ∧
      ∀ rest, read path? options (s :: rest) = read path?' options' rest := by
  rcases cases_form s with hlines | hnumbers | ⟨value, rfl⟩ | hunknown | hpath
  · exact ⟨path?, _, ⟨h.found.concat (Or.inl hlines), h.chosen.concat_lines hlines⟩,
      read_of_setting (ofString_of_asksLines hlines)⟩
  · exact ⟨path?, _, ⟨h.found.concat (Or.inr (Or.inl hnumbers)), h.chosen.concat_numbers hnumbers⟩,
      read_of_setting (ofString_of_asksNumbers hnumbers)⟩
  · cases hvalue : Numeral.read value with
    | error cause =>
      exact absurd (.badFirstLine rfl (Numeral.read_eq_error_iff.mp hvalue)) (hs _)
    | ok line =>
      have hdenotes := Numeral.read_eq_ok_iff.mp hvalue
      exact ⟨path?, _, ⟨h.found.concat (Or.inr (Or.inr ⟨value, _, line.toNat_lt, rfl, hdenotes⟩)),
        h.chosen.concat_firstLine hdenotes⟩, read_firstLine_of_ok hvalue⟩
  · exact absurd (.unknown hunknown) (hs _)
  · cases path? with
    | some path =>
      obtain ⟨before, after, rfl, hfile, _⟩ := h.found
      exact absurd (.unexpected hpath ⟨path, by simp, hfile⟩) (hs _)
    | none =>
      have hfound : Found (seen ++ [s]) (some s) :=
        ⟨seen, [], rfl, hpath, by rw [List.append_nil]; exact h.found⟩
      refine ⟨some s, options, ⟨hfound, h.chosen.concat_path hpath⟩, fun rest => ?_⟩
      rw [read, ofString_of_isPositional hpath]

theorem Stands.read_of_blames (h : Stands seen path? options) {e : ArgumentError}
    (hs : Blames seen s e) (rest : List String) : read path? options (s :: rest) = .error e := by
  cases hs with
  | unknown hunknown => exact read_of_isUnknown hunknown rest
  | badFirstLine hvalue hrefuses =>
    subst hvalue
    exact read_firstLine_of_error (Numeral.read_eq_error_iff.mpr hrefuses) rest
  | unexpected hpath hearlier =>
    obtain ⟨path, hmem, hearlier⟩ := hearlier
    cases path? with
    | none => exact absurd hearlier (h.found path hmem).not_isPositional
    | some _ => rw [read, ofString_of_isPositional hpath]

end Step

theorem not_blames_of_isOption (h : IsOption s) {e : ArgumentError} : ¬ Blames seen s e := by
  intro hs
  cases hs with
  | unknown hunknown =>
    rcases h with hlines | hnumbers | ⟨value, _, _, hvalue, _⟩
    · exact hunknown.not_lines hlines
    · exact hunknown.not_numbers hnumbers
    · exact hunknown.not_firstLine ⟨value, hvalue⟩
  | @badFirstLine bad _ hbad hrefuses =>
    rcases h with hlines | hnumbers | ⟨value, n, hn, hvalue, hdenotes⟩
    · exact not_givesFirstLine_of_asksLines hlines ⟨bad, hbad⟩
    · exact not_givesFirstLine_of_asksNumbers hnumbers ⟨bad, hbad⟩
    · obtain rfl : value = bad := by simpa using hvalue.symm.trans hbad
      exact hrefuses.not_denotes n hn hdenotes
  | unexpected hpath _ => exact h.not_isPositional hpath

theorem not_blames_of_isPositional (h : IsPositional s) (hseen : ∀ x ∈ seen, IsOption x)
    {e : ArgumentError} : ¬ Blames seen s e := by
  intro hs
  cases hs with
  | unknown hunknown => exact hunknown.not_positional h
  | badFirstLine hvalue _ => exact not_isPositional_of_givesFirstLine ⟨_, hvalue⟩ h
  | unexpected _ hearlier =>
    obtain ⟨path, hmem, hpath⟩ := hearlier
    exact (hseen path hmem).not_isPositional hpath

theorem clean_nil : Clean [] := by
  intro before s e hpre
  simp at hpre

theorem clean_concat_iff : Clean (seen ++ [s]) ↔ Clean seen ∧ ∀ e, ¬ Blames seen s e := by
  constructor
  · intro h
    exact ⟨fun before x e hpre => h before x e (hpre.trans (List.prefix_append ..)),
      fun e => h seen s e (List.prefix_refl _)⟩
  · rintro ⟨hseen, hs⟩ before x e hpre
    rcases List.prefix_concat_iff.mp hpre with heq | hpre
    · obtain ⟨rfl, hx⟩ := List.append_inj' heq rfl
      obtain rfl := List.singleton_inj.mp hx
      exact hs e
    · exact hseen before x e hpre

theorem FirstOffence.not_clean {arguments : List String} {e : ArgumentError}
    (h : FirstOffence arguments e) : ¬ Clean arguments := by
  obtain ⟨before, s, hpre, _, hs⟩ := h
  exact fun hclean => hclean before s e hpre hs

theorem clean_or_exists_firstOffence (arguments : List String) :
    Clean arguments ∨ ∃ e, FirstOffence arguments e := by
  induction arguments using List.reverseRecOn with
  | nil => exact Or.inl clean_nil
  | append_singleton seen s ih =>
    rcases ih with hclean | ⟨e, before, x, hpre, hx⟩
    · by_cases hs : ∃ e, Blames seen s e
      · obtain ⟨e, hs⟩ := hs
        exact Or.inr ⟨e, seen, s, List.prefix_refl _, hclean, hs⟩
      · exact Or.inl (clean_concat_iff.mpr ⟨hclean, not_exists.mp hs⟩)
    · exact Or.inr ⟨e, before, x, hpre.trans (List.prefix_append ..), hx⟩

theorem Clean.append_options (h : Clean seen) {more : List String} (hmore : ∀ s ∈ more, IsOption s) :
    Clean (seen ++ more) := by
  induction more using List.reverseRecOn with
  | nil => rwa [List.append_nil]
  | append_singleton more s ih =>
    obtain ⟨hmore, hs⟩ := List.forall_mem_append.mp hmore
    rw [← List.append_assoc, clean_concat_iff]
    exact ⟨ih hmore, fun e => not_blames_of_isOption (List.forall_mem_singleton.mp hs)⟩

theorem InOrder.clean {arguments : List String} {path : String} (h : InOrder arguments path) :
    Clean arguments := by
  obtain ⟨before, after, rfl, hpath, hoptions⟩ := h
  obtain ⟨hbefore, hafter⟩ := List.forall_mem_append.mp hoptions
  have hfile : Clean (before ++ [path]) :=
    clean_concat_iff.mpr ⟨clean_nil.append_options hbefore, fun e =>
      not_blames_of_isPositional hpath hbefore⟩
  rw [List.append_cons]
  exact hfile.append_options hafter

theorem Clean.exists_stands (h : Clean seen) :
    ∃ path? options, Stands seen path? options ∧
      ∀ rest, ofArguments (seen ++ rest) = read path? options rest := by
  induction seen using List.reverseRecOn with
  | nil => exact ⟨none, {}, ⟨by simp [Found], chosen_nil⟩, fun rest => rfl⟩
  | append_singleton seen s ih =>
    obtain ⟨hseen, hs⟩ := clean_concat_iff.mp h
    obtain ⟨path?, options, hstands, hread⟩ := ih hseen
    obtain ⟨path?', options', hstands', hstep⟩ := hstands.exists_step hs
    refine ⟨path?', options', hstands', fun rest => ?_⟩
    rw [List.append_assoc, List.singleton_append, hread, hstep]

theorem FirstOffence.ofArguments_eq {arguments : List String} {e : ArgumentError}
    (h : FirstOffence arguments e) : ofArguments arguments = .error e := by
  obtain ⟨before, s, ⟨rest, rfl⟩, hclean, hs⟩ := h
  obtain ⟨path?, options, hstands, hread⟩ := hclean.exists_stands
  rw [List.append_assoc, List.singleton_append, hread, hstands.read_of_blames hs]

theorem cases_of_ofArguments (arguments : List String) :
    (∃ e, FirstOffence arguments e ∧ ofArguments arguments = .error e) ∨
      (Clean arguments ∧ (∀ s ∈ arguments, IsOption s) ∧
        ofArguments arguments = .error .missingPath) ∨
      ∃ request, Clean arguments ∧ Answers arguments request ∧
        ofArguments arguments = .ok request := by
  rcases clean_or_exists_firstOffence arguments with hclean | ⟨e, he⟩
  · obtain ⟨path?, options, hstands, hread⟩ := hclean.exists_stands
    have hall : ofArguments arguments = read path? options [] := by
      rw [← hread, List.append_nil]
    cases path? with
    | none => exact Or.inr (Or.inl ⟨hclean, hstands.found, hall⟩)
    | some path =>
      exact Or.inr (Or.inr ⟨⟨path, options⟩, hclean,
        ⟨hstands.found, hstands.chosen.mode_iff, hstands.chosen.startsAt⟩, hall⟩)
  · exact Or.inl ⟨e, he, he.ofArguments_eq⟩

theorem InOrder.exists_isPositional {arguments : List String} {path : String}
    (h : InOrder arguments path) : ∃ s ∈ arguments, IsPositional s := by
  obtain ⟨before, after, rfl, hpath, _⟩ := h
  exact ⟨path, by simp, hpath⟩

theorem complaint_iff {before : List String} {message : String} :
    Complaint before s message ↔ ∃ e, Blames before s e ∧ e.message = message := by
  constructor
  · rintro (h | h | ⟨hs, h⟩ | ⟨hs, h⟩ | ⟨h, hpath⟩)
    · exact ⟨_, .unknown h, rfl⟩
    · exact ⟨_, .badFirstLine (h.trans (String.append_empty).symm) (Numeral.refuses_of_read rfl), rfl⟩
    · exact ⟨_, .badFirstLine hs h, String.append_assoc ..⟩
    · exact ⟨_, .badFirstLine hs h, String.append_assoc ..⟩
    · exact ⟨_, .unexpected h hpath, rfl⟩
  · rintro ⟨e, h | @⟨value, cause, hs, h⟩ | ⟨h, hpath⟩, rfl⟩
    · exact .unknown h
    · cases cause with
      | empty =>
        obtain rfl := h.eq_empty_iff.mp rfl
        exact .emptyValue hs
      | invalidDigit =>
        have hmessage : (ArgumentError.badFirstLine value .invalidDigit).message = _ :=
          String.append_assoc ..
        exact hmessage ▸ .invalidDigit hs h
      | tooLarge =>
        have hmessage : (ArgumentError.badFirstLine value .tooLarge).message = _ :=
          String.append_assoc ..
        exact hmessage ▸ .tooLarge hs h
    · exact .unexpected h hpath

theorem message_eq_missing_iff {e : ArgumentError} :
    e.message = "missing file path" ↔ e = .missingPath := by
  cases e with
  | missingPath => exact iff_of_true rfl rfl
  | badFirstLine value cause =>
    refine iff_of_false (fun h => ?_) nofun
    change "invalid --start-line value '" ++ value ++ "': " ++ cause.message = _ at h
    simp [← String.toList_inj] at h
  | unknownOption argument =>
    refine iff_of_false (fun h => ?_) nofun
    change "unknown option '" ++ argument ++ "'" = _ at h
    simp [← String.toList_inj] at h
  | unexpected argument =>
    refine iff_of_false (fun h => ?_) nofun
    change "unexpected argument '" ++ argument ++ "'" = _ at h
    simp [← String.toList_inj] at h

section Outcome

variable {arguments : List String}

theorem exists_ofArguments_iff :
    (∃ request, ofArguments arguments = .ok request) ↔ ∃ path, InOrder arguments path := by
  constructor
  · rintro ⟨request, h⟩
    rcases cases_of_ofArguments arguments with
      ⟨_, _, heq⟩ | ⟨_, _, heq⟩ | ⟨request', _, hanswers, _⟩
    · cases h.symm.trans heq
    · cases h.symm.trans heq
    · exact ⟨request'.path, hanswers.inOrder⟩
  · rintro ⟨path, h⟩
    rcases cases_of_ofArguments arguments with
      ⟨_, hfirst, _⟩ | ⟨_, hoptions, _⟩ | ⟨request, _, _, heq⟩
    · exact absurd h.clean hfirst.not_clean
    · obtain ⟨s, hs, hpath⟩ := h.exists_isPositional
      exact absurd hpath (hoptions s hs).not_isPositional
    · exact ⟨request, heq⟩

theorem answers_of_ofArguments {request : LexRequest} (h : ofArguments arguments = .ok request) :
    Answers arguments request := by
  rcases cases_of_ofArguments arguments with
    ⟨_, _, heq⟩ | ⟨_, _, heq⟩ | ⟨request', _, hanswers, heq⟩
  · cases h.symm.trans heq
  · cases h.symm.trans heq
  · obtain rfl := Except.ok.inj (h.symm.trans heq)
    exact hanswers

theorem ofArguments_eq_error_iff {e : ArgumentError} :
    ofArguments arguments = .error e ↔ FirstOffence arguments e ∨
      Clean arguments ∧ (∀ s ∈ arguments, ¬ IsPositional s) ∧ e = .missingPath := by
  constructor
  · intro h
    rcases cases_of_ofArguments arguments with
      ⟨e', hfirst, heq⟩ | ⟨hclean, hoptions, heq⟩ | ⟨_, _, _, heq⟩
    · obtain rfl := Except.error.inj (h.symm.trans heq)
      exact Or.inl hfirst
    · exact Or.inr ⟨hclean, fun s hs => (hoptions s hs).not_isPositional,
        Except.error.inj (h.symm.trans heq)⟩
    · cases h.symm.trans heq
  · rintro (hfirst | ⟨hclean, hnone, rfl⟩)
    · exact hfirst.ofArguments_eq
    · rcases cases_of_ofArguments arguments with
        ⟨_, hfirst, _⟩ | ⟨_, _, heq⟩ | ⟨request, _, hanswers, _⟩
      · exact absurd hclean hfirst.not_clean
      · exact heq
      · obtain ⟨s, hs, hpath⟩ := hanswers.inOrder.exists_isPositional
        exact absurd hpath (hnone s hs)

theorem exists_message_iff {message : String} :
    (∃ e, ofArguments arguments = .error e ∧ e.message = message) ↔
      (∃ before s, before ++ [s] <+: arguments ∧ Clean before ∧ Complaint before s message) ∨
      Clean arguments ∧ (∀ s ∈ arguments, ¬ IsPositional s) ∧ message = "missing file path" := by
  simp only [ofArguments_eq_error_iff, complaint_iff]
  constructor
  · rintro ⟨e, ⟨before, s, hfront, hclean, hs⟩ | ⟨hclean, hnone, rfl⟩, rfl⟩
    · exact Or.inl ⟨before, s, hfront, hclean, e, hs, rfl⟩
    · exact Or.inr ⟨hclean, hnone, rfl⟩
  · rintro (⟨before, s, hfront, hclean, e, hs, rfl⟩ | ⟨hclean, hnone, rfl⟩)
    · exact ⟨e, Or.inl ⟨before, s, hfront, hclean, hs⟩, rfl⟩
    · exact ⟨_, Or.inr ⟨hclean, hnone, rfl⟩, rfl⟩

theorem FirstOffence.ne_missingPath {e : ArgumentError} (h : FirstOffence arguments e) :
    e ≠ .missingPath := by
  obtain ⟨before, s, _, _, hs⟩ := h
  cases hs <;> nofun

end Outcome

/-- Arguments are read exactly if one of them is the file and all others are options in good order, which
may come in any order and more than once. Otherwise the first argument that is to blame is named, with
what is wrong about it; only if none is, the file is missing. -/
theorem ofArguments_in_order (arguments : List String) :
    ((∃ request, ofArguments arguments = .ok request) ↔ ∃ path, InOrder arguments path) ∧
      (∀ request, ofArguments arguments = .ok request → Answers arguments request) ∧
      (∀ e, ofArguments arguments = .error e ↔ FirstOffence arguments e ∨
        Clean arguments ∧ (∀ s ∈ arguments, ¬ IsPositional s) ∧ e = .missingPath) ∧
      (∀ message, (∃ e, ofArguments arguments = .error e ∧ e.message = message) ↔
        (∃ before s, before ++ [s] <+: arguments ∧ Clean before ∧ Complaint before s message) ∨
        Clean arguments ∧ (∀ s ∈ arguments, ¬ IsPositional s) ∧ message = "missing file path") ∧
      ∀ e, ofArguments arguments = .error e →
        (e.message = "missing file path" ↔ Clean arguments) := by
  refine ⟨exists_ofArguments_iff, fun request => answers_of_ofArguments,
    fun e => ofArguments_eq_error_iff, fun message => exists_message_iff, fun e he => ?_⟩
  rw [message_eq_missing_iff]
  rcases ofArguments_eq_error_iff.mp he with hfirst | ⟨hclean, _, hmissing⟩
  · exact iff_of_false hfirst.ne_missingPath hfirst.not_clean
  · exact iff_of_true hmissing hclean

/-- Of two first lines the last one counts, whatever its zeros, and the empty text is a file. An argument is
to blame although others behind it are too, and although its value ends in what is no digit. -/
theorem ofArguments_in_order_of_repeats :
    (∃ request, ofArguments ["-n", "--start-line=9", "", "-l", "--start-line=+007"] = .ok request ∧
      Answers ["-n", "--start-line=9", "", "-l", "--start-line=+007"] request ∧
      request.path = "" ∧ request.options.mode = .line ∧ request.options.initialLine = some 7) ∧
    ofArguments ["a", "--start-line=4294967296x", "-z"] =
        .error (.badFirstLine "4294967296x" .tooLarge) ∧
      FirstOffence ["a", "--start-line=4294967296x", "-z"] (.badFirstLine "4294967296x" .tooLarge) ∧
      (∃ before s, before ++ [s] <+: ["a", "--start-line=4294967296x", "-z"] ∧ Clean before ∧
        Complaint before s ("invalid --start-line value '4294967296x': " ++
          "number too large to fit in target type")) ∧
      ¬ Clean ["a", "--start-line=4294967296x", "-z"] := by
  constructor
  · obtain ⟨_, hanswers, _⟩ :=
      ofArguments_in_order ["-n", "--start-line=9", "", "-l", "--start-line=+007"]
    have hread : ofArguments ["-n", "--start-line=9", "", "-l", "--start-line=+007"] =
        .ok ⟨"", { numbered := true, firstLine := some 7, mode := .line }⟩ := by
      decide +kernel
    exact ⟨_, hread, hanswers _ hread, rfl, rfl, rfl⟩
  · obtain ⟨_, _, herror, hmessage, _⟩ :=
      ofArguments_in_order ["a", "--start-line=4294967296x", "-z"]
    have hread : ofArguments ["a", "--start-line=4294967296x", "-z"] =
        .error (.badFirstLine "4294967296x" .tooLarge) := by
      decide +kernel
    have hfirst := ((herror _).mp hread).resolve_right nofun
    have hsaid := ((hmessage _).mp ⟨_, hread, rfl⟩).resolve_right fun h => hfirst.not_clean h.1
    exact ⟨hread, hfirst, hsaid, hfirst.not_clean⟩

end LexRequest
end LiquidTokens
