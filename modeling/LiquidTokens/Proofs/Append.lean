import LiquidTokens.Proofs.Grammar
import LiquidTokens.Proofs.Kinds
import LiquidTokens.Proofs.Restart
import LiquidTokens.Proofs.Tiling

/-! What more input may change. The tokens in front of a lone opener and of a last text stay as they
are when bytes are appended, and the split goes on behind them as if it began there. The main statement
is `splits_append`. -/
namespace LiquidTokens

open Delimiter

def Token.IsLone (t : Token) : Prop :=
  utf8 t.text = tagOpen ∨ utf8 t.text = variableOpen

instance : DecidablePred Token.IsLone := fun t =>
  inferInstanceAs (Decidable (utf8 t.text = tagOpen ∨ utf8 t.text = variableOpen))

theorem Source.onBoundary_of_take {s : Source} {n : Nat} {front : String} (hn : n ≤ s.length)
    (h : utf8 front = s.bytes.take n) : s.OnBoundary n := by
  have hextract : s.text.toByteArray.extract 0 n = front.toByteArray := by
    apply ByteArray.ext
    apply Array.ext'
    rw [s.bytes_eq] at h
    simpa [utf8, ByteArray.data_extract, List.extract_eq_take_drop] using h.symm
  refine String.Pos.Raw.isValid_iff_isValidUTF8_extract_zero.mpr ⟨hn, ?_⟩
  rw [hextract]
  exact front.isValidUTF8

namespace Markup

/-- Tokens at the front, none of which is a lone opener or a text at the end of all. -/
def Settles (ts front : List Token) : Prop :=
  front <+: ts ∧ (∀ t ∈ front, ¬ t.IsLone) ∧
    ∀ t, ts.getLast? = some t → t.kind = .text → front ≠ ts

/-- The longest front that settles. -/
def settled : List Token → List Token
  | [] => []
  | t :: rest => if t.IsLone ∨ rest = [] ∧ t.kind = .text then [] else t :: settled rest

theorem settles_nil (ts : List Token) : Settles ts [] := by
  refine ⟨List.nil_prefix, by simp, ?_⟩
  rintro t ht _ rfl
  cases ht

theorem settles_cons_iff {t : Token} {rest front : List Token} :
    Settles (t :: rest) (t :: front) ↔
      ¬ (t.IsLone ∨ rest = [] ∧ t.kind = .text) ∧ Settles rest front := by
  constructor
  · rintro ⟨hfront, hclosed, hlast⟩
    have hprefix := (List.cons_prefix_cons.mp hfront).2
    refine ⟨?_, hprefix, fun u hu => hclosed u (List.mem_cons_of_mem _ hu), ?_⟩
    · rintro (hlone | ⟨rfl, htext⟩)
      · exact hclosed t List.mem_cons_self hlone
      · obtain rfl := List.prefix_nil.mp hprefix
        exact hlast t rfl htext rfl
    · rintro u hu htext rfl
      exact hlast u (by rw [List.getLast?_cons, hu]; rfl) htext rfl
  · rintro ⟨hstays, hprefix, hclosed, hlast⟩
    obtain ⟨hlone, hend⟩ := not_or.mp hstays
    refine ⟨List.cons_prefix_cons.mpr ⟨rfl, hprefix⟩, ?_, ?_⟩
    · intro u hu
      rcases List.mem_cons.mp hu with rfl | hu
      · exact hlone
      · exact hclosed u hu
    · intro u hu htext hall
      obtain rfl : front = rest := (List.cons.inj hall).2
      cases front with
      | nil =>
        obtain rfl : t = u := Option.some.inj hu
        exact hend ⟨rfl, htext⟩
      | cons v rest => exact hlast u (by rwa [List.getLast?_cons_cons] at hu) htext rfl

theorem settles_iff {ts front : List Token} : Settles ts front ↔ front <+: settled ts := by
  induction ts generalizing front with
  | nil =>
    constructor
    · exact And.left
    · intro h
      rw [List.prefix_nil.mp h]
      exact settles_nil _
  | cons t rest ih =>
    cases front with
    | nil => exact ⟨fun _ => List.nil_prefix, fun _ => settles_nil _⟩
    | cons u front =>
      by_cases hstop : t.IsLone ∨ rest = [] ∧ t.kind = .text
      · rw [settled, if_pos hstop, List.prefix_nil]
        refine ⟨fun h => ?_, nofun⟩
        obtain rfl := (List.cons_prefix_cons.mp h.1).1
        exact absurd hstop (settles_cons_iff.mp h).1
      · rw [settled, if_neg hstop, List.cons_prefix_cons]
        constructor
        · intro h
          obtain rfl := (List.cons_prefix_cons.mp h.1).1
          exact ⟨rfl, ih.mp (settles_cons_iff.mp h).2⟩
        · rintro ⟨rfl, h⟩
          exact settles_cons_iff.mpr ⟨hstop, ih.mpr h⟩

/-- Where the last of the tokens ends, or `start` if there is none. -/
def reach (start : Nat) (ts : List Token) : Nat :=
  (ts.getLast?.map fun t => t.span.stop).getD start

@[simp] theorem reach_nil (start : Nat) : reach start [] = start := rfl

@[simp] theorem reach_cons (start : Nat) (t : Token) (ts : List Token) :
    reach start (t :: ts) = reach t.span.stop ts := by
  cases ts with
  | nil => rfl
  | cons u ts => simp [reach, List.getLast?_cons]

theorem Tiles.reach_eq {bytes : List UInt8} {start stop : Nat} {ts : List Token}
    (h : Tiles bytes start stop ts) : reach start ts = stop := by
  induction ts generalizing start with
  | nil => exact h
  | cons t ts ih => rw [reach_cons, ih h.2.2.2.2]

theorem Tiles.of_append {bytes : List UInt8} {start stop : Nat} {ts us : List Token}
    (h : Tiles bytes start stop (ts ++ us)) : Tiles bytes start (reach start ts) ts := by
  induction ts generalizing start with
  | nil => rfl
  | cons t ts ih =>
    obtain ⟨hstart, hlt, hle, htext, hrest⟩ := h
    rw [reach_cons]
    exact ⟨hstart, hlt, hle, htext, ih hrest⟩

theorem Tiles.stop_le {bytes : List UInt8} {start stop : Nat} {ts : List Token}
    (h : Tiles bytes start stop ts) (hstart : start ≤ bytes.length) : stop ≤ bytes.length := by
  induction ts generalizing start with
  | nil => exact h ▸ hstart
  | cons t ts ih => exact ih h.2.2.2.2 h.2.2.1

theorem Cut.eq_text_of_kind {cut : Cut} (h : cut.kind = .text) : ∃ n, cut = .text n := by
  cases cut with
  | text n => exact ⟨n, rfl⟩
  | _ => cases h

/-- A closed element is cut off in the same way when bytes are appended, unless it is a text that
nothing stops. -/
theorem Cuts.append {bytes rest : List UInt8} {cut : Cut} (h : Cuts (bytes ++ rest) cut)
    (hlen : bytes.length = cut.length) (hlone : bytes ≠ tagOpen ∧ bytes ≠ variableOpen)
    (hstop : cut.kind = .text → rest ≠ []) (more : List UInt8) :
    Cuts (bytes ++ (rest ++ more)) cut ∧ cut.passed = cut.length := by
  rcases h.exists_shape hlen with ⟨htag, _⟩ | ⟨hvar, _⟩ | ⟨shape, hcut, hadmits, hstops⟩
  · exact absurd htag hlone.1
  · exact absurd hvar hlone.2
  · have hstops' : shape = .text → Stops bytes (rest ++ more) := by
      rintro rfl
      rcases hstops rfl with hend | ⟨hstart, hlast⟩
      · exact absurd hend (hstop (by rw [hcut, Shape.kind_cut]; rfl))
      · exact Or.inr ⟨startsMarkup_append_left hstart more, hlast⟩
    rw [hcut, Shape.passed_cut, Shape.length_cut]
    exact ⟨hadmits.cuts hstops', rfl⟩

/-- A run over more bytes emits the settled tokens first, and what it emits behind them is a run of
its own. -/
theorem Stream.exists_tail {bytes more : List UInt8} {pos : Nat} {line line' : LineNumber}
    {ahead : List UInt8} {es es' : List Emission} (h : Stream pos line ahead es)
    (h' : Stream pos line' (ahead ++ more) es') (hahead : bytes.drop pos = ahead ++ more) :
    ∃ tail line'', es'.map Emission.token =
        settled (es.map Emission.token) ++ tail.map Emission.token ∧
      Stream (reach pos (settled (es.map Emission.token))) line''
        (bytes.drop (reach pos (settled (es.map Emission.token)))) tail := by
  induction h generalizing line' es' with
  | done => exact ⟨es', line', rfl, by rw [List.map_nil, settled, reach_nil, hahead]; exact h'⟩
  | @step pos line ahead cut text es hne hcut htext hrest ih =>
    rw [List.map_cons]
    by_cases hstop : (emission pos line cut text).token.IsLone ∨
        es.map Emission.token = [] ∧ (emission pos line cut text).token.kind = .text
    · rw [settled, if_pos hstop, reach_nil, hahead]
      exact ⟨es', line', rfl, h'⟩
    -- A token that settles is cut off both runs, and what is left differs by `more` again.
    · obtain ⟨hlone, hlast⟩ := not_or.mp hstop
      obtain ⟨hlen, hsplit⟩ := hcut.eq_append hne htext
      rw [← hsplit] at hcut
      have hkind : (emission pos line cut text).token.kind = cut.kind :=
        (Cuts.ofBytes_kind_eq hcut hlen).1
      have hstops : cut.kind = .text → ahead.drop cut.length ≠ [] := by
        intro htextKind hend
        obtain ⟨n, rfl⟩ := Cut.eq_text_of_kind htextKind
        have hnil : ahead.drop (Cut.text n).passed = [] := hend
        rw [hnil] at hrest
        exact hlast ⟨by rw [hrest.eq_nil, List.map_nil], hkind.trans htextKind⟩
      obtain ⟨hcut', hpassed⟩ := hcut.append hlen (not_or.mp hlone) hstops more
      rw [← List.append_assoc, hsplit] at hcut'
      have hle : cut.length ≤ ahead.length := by
        rw [← hlen, ← hsplit, List.length_append]
        exact Nat.le_add_right _ _
      rw [settled, if_neg hstop, reach_cons]
      generalize hall : ahead ++ more = all at h' hcut' hahead
      cases h' with
      | done => exact absurd (List.append_eq_nil_iff.mp hall).1 hne
      | @step _ _ _ cut₁ text₁ es₁ _ hcut₁ htext₁ hrest₁ =>
        obtain rfl : cut = cut₁ := hcut'.unique hcut₁
        rw [← hall, List.take_append_of_le_length hle] at htext₁
        obtain rfl : text = text₁ := utf8_injective (htext.trans htext₁.symm)
        rw [hpassed] at ih hrest₁
        have hdrop : all.drop cut.length = ahead.drop cut.length ++ more := by
          rw [← hall, List.drop_append_of_le_length hle]
        rw [hdrop] at hrest₁
        have hbytes : bytes.drop (pos + cut.length) = ahead.drop cut.length ++ more := by
          rw [← hdrop, ← hahead, List.drop_drop]
        obtain ⟨tail, line'', htokens, htail⟩ := ih hrest₁ hbytes
        exact ⟨tail, line'', congrArg (List.cons _) htokens, htail⟩

theorem settled_eq_self {ts : List Token} (h : Settles ts ts) : settled ts = ts := by
  have hfront : settled ts <+: ts := (settles_iff.mpr List.prefix_rfl).1
  exact hfront.eq_of_length_le (settles_iff.mp h).length_le

theorem Splits.tiles {text : String} {ts : List Token} (h : Splits text ts) :
    Tiles (utf8 text) 0 (reach 0 ts) ts ∧
      ((∀ t ∈ ts, ¬ t.IsLone) → reach 0 ts = text.utf8ByteSize) := by
  obtain ⟨es, hs, rfl⟩ := h.exists_stream none
  obtain ⟨stop, htiles, hcase⟩ := hs.exists_tiles List.drop_zero (Nat.zero_le _)
  rw [htiles.reach_eq]
  refine ⟨htiles, fun hclosed => ?_⟩
  rcases hcase with ⟨s, ⟨t, hlast, _, hopen, _⟩, _⟩ | ⟨_, hstop, _⟩
  · exact absurd (Or.inr hopen) (hclosed t (List.mem_of_getLast? hlast))
  · rw [hstop, length_utf8]

/-- Behind the settled tokens the source can be cut, and its rest is split as it would be alone. -/
theorem Splits.exists_rest {a : String} {ts : List Token} (h : Splits a ts) (b : String) :
    ∃ rest us, (Source.ofText (a ++ b)).slice (reach 0 (settled ts)) (a ++ b).utf8ByteSize =
        .ok rest ∧ Splits rest us ∧
      Splits (a ++ b) (settled ts ++ us.map (Token.shift (reach 0 (settled ts)))) := by
  obtain ⟨es, hs, rfl⟩ := h.exists_stream none
  obtain ⟨vs, hvs⟩ := (existsUnique_splits (a ++ b)).exists
  obtain ⟨es', hs', rfl⟩ := hvs.exists_stream none
  have hbytes : (utf8 (a ++ b)).drop 0 = utf8 a ++ utf8 b := by rw [List.drop_zero, utf8_append]
  rw [utf8_append] at hs'
  obtain ⟨tail, line, htokens, htail⟩ := hs.exists_tail hs' hbytes
  rw [htokens] at hvs
  generalize settled (es.map Emission.token) = front at *
  have htiles := hvs.tiles.1.of_append
  have hle := htiles.stop_le (Nat.zero_le _)
  have hjoined : utf8 (String.join (front.map Token.text)) =
      (Source.ofText (a ++ b)).bytes.take (reach 0 front) := by
    rw [utf8_join, List.flatMap_map]
    exact htiles.joined_eq.2
  have hbound : (Source.ofText (a ++ b)).OnBoundary (reach 0 front) :=
    Source.onBoundary_of_take hle hjoined
  obtain ⟨rest, hslice, hrest⟩ := Source.exists_slice_to_end hbound
  rw [Source.bytes_ofText] at hrest
  obtain ⟨us, hus⟩ := (existsUnique_splits rest).exists
  obtain ⟨fs, hfs, rfl⟩ := hus.exists_stream none
  have hmoved := hfs.shift (reach 0 front)
  rw [hrest, Nat.zero_add] at hmoved
  rw [htail.map_token_eq hmoved] at hvs
  refine ⟨rest, _, hslice, hus, ?_⟩
  rw [List.map_map] at hvs ⊢
  exact hvs

/-- More input leaves the settled front of the tokens as it is. -/
theorem splits_append (a b : String) :
    ∃ ts front, Splits a ts ∧ (∀ other, Settles ts other ↔ other <+: front) ∧
      (∃ rest us, (Source.ofText (a ++ b)).slice (reach 0 front) (a ++ b).utf8ByteSize = .ok rest ∧
        Splits rest us ∧ Splits (a ++ b) (front ++ us.map (Token.shift (reach 0 front)))) ∧
      ((∀ t ∈ ts, ¬ t.IsLone) → (a = "" ∨ ∃ t, ts.getLast? = some t ∧ t.kind ≠ .text) →
        ∃ us, Splits b us ∧ Splits (a ++ b) (ts ++ us.map (Token.shift a.utf8ByteSize))) := by
  obtain ⟨ts, hts⟩ := (existsUnique_splits a).exists
  obtain ⟨rest, us, hslice, hus, happend⟩ := hts.exists_rest b
  refine ⟨ts, settled ts, hts, fun _ => settles_iff, ⟨rest, us, hslice, hus, happend⟩, ?_⟩
  intro hclosed hlast
  have hsettles : Settles ts ts := by
    refine ⟨List.prefix_rfl, hclosed, fun t ht hkind => ?_⟩
    rcases hlast with rfl | ⟨u, hu, hnot⟩
    · obtain ⟨es, hs, rfl⟩ := hts.exists_stream none
      rw [Stream.eq_nil hs] at ht
      cases ht
    · obtain rfl : t = u := Option.some.inj (ht.symm.trans hu)
      exact absurd hkind hnot
  have hreach : reach 0 ts = a.utf8ByteSize := hts.tiles.2 hclosed
  rw [settled_eq_self hsettles, hreach] at hslice happend
  have hrest : rest = b := by
    apply utf8_injective
    rw [(Source.slice_eq_ok_iff.mp hslice).2.2.2, Source.bytes_ofText, utf8_append,
      ← length_utf8 a, List.drop_left]
    exact List.take_of_length_le (by simp)
  exact ⟨us, hrest ▸ hus, happend⟩

/-- What closed a tag before closes nothing of what is appended. -/
theorem splits_append_behind_redirect :
    ∃ ts us, Splits "a\x7b\x7b\x7b%\x7d%\x7d" ts ∧
      ts.map Token.text = ["a", "\x7b\x7b\x7b%\x7d%\x7d"] ∧ (∀ t ∈ ts, ¬ t.IsLone) ∧
      (∃ t, ts.getLast? = some t ∧ t.kind ≠ .text) ∧ Splits "%\x7d\x7b\x7b" us ∧
      Splits ("a\x7b\x7b\x7b%\x7d%\x7d" ++ "%\x7d\x7b\x7b") (ts ++ us.map (Token.shift 8)) := by
  obtain ⟨ts, _, hts, _, _, hmore⟩ := splits_append "a\x7b\x7b\x7b%\x7d%\x7d" "%\x7d\x7b\x7b"
  have htokens : ts = [⟨"a", ⟨0, 1⟩⟩, ⟨"\x7b\x7b\x7b%\x7d%\x7d", ⟨1, 8⟩⟩] := by
    obtain ⟨es, last, hdrain, _, rfl⟩ := hts none
    exact Tokenizer.map_token_eq_of_drain hdrain (by decide +kernel)
  subst htokens
  have hclosed : ∀ t ∈ [(⟨"a", ⟨0, 1⟩⟩ : Token), ⟨"\x7b\x7b\x7b%\x7d%\x7d", ⟨1, 8⟩⟩],
      ¬ t.IsLone := by decide
  have hlast : ∃ t, [(⟨"a", ⟨0, 1⟩⟩ : Token), ⟨"\x7b\x7b\x7b%\x7d%\x7d", ⟨1, 8⟩⟩].getLast? =
      some t ∧ t.kind ≠ .text := ⟨_, rfl, by decide⟩
  obtain ⟨us, hus, happend⟩ := hmore hclosed (Or.inr hlast)
  exact ⟨_, us, hts, rfl, hclosed, hlast, hus, happend⟩

end Markup
end LiquidTokens
