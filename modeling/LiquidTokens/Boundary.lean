import LiquidTokens.Cursor

/-! Where characters meet. An ASCII byte is a character of its own, so that the offsets on both of its
sides lie between characters, and searches for ASCII bytes end at such offsets. -/
namespace LiquidTokens

def encode (cs : List Char) : List UInt8 :=
  cs.flatMap String.utf8EncodeChar

@[simp] theorem encode_nil : encode [] = [] := rfl

@[simp] theorem encode_cons (c : Char) (cs : List Char) :
    encode (c :: cs) = String.utf8EncodeChar c ++ encode cs := rfl

@[simp] theorem encode_append (cs ds : List Char) : encode (cs ++ ds) = encode cs ++ encode ds :=
  List.flatMap_append

theorem utf8_eq_encode (s : String) : utf8 s = encode s.toList := by
  rw [utf8, ← String.utf8Encode_toList]
  simp [List.utf8Encode, encode]

theorem utf8_ofList (cs : List Char) : utf8 (String.ofList cs) = encode cs := by
  rw [utf8_eq_encode, String.toList_ofList]

theorem encode_eq_singleton {c : Char} {b : UInt8} (h : b ∈ String.utf8EncodeChar c)
    (hb : b < 0x80) : String.utf8EncodeChar c = [b] := by
  have high (n m : Nat) (hm : 0x80 ≤ m) (hn : n + m < 256) : ¬ UInt8.ofNat (n + m) < 0x80 := by
    rw [UInt8.lt_iff_toNat_lt, UInt8.toNat_ofNat_of_lt' hn]
    exact Nat.not_lt.mpr (Nat.le_trans hm (Nat.le_add_left m n))
  unfold String.utf8EncodeChar at *
  simp only at *
  split at h
  · rename_i hv
    rw [if_pos hv, List.mem_singleton.mp h]
  · split at h
    · simp only [List.mem_cons, List.not_mem_nil, or_false] at h
      rcases h with rfl | rfl
      all_goals exact absurd hb (high _ _ (by decide) (by omega))
    · split at h
      · simp only [List.mem_cons, List.not_mem_nil, or_false] at h
        rcases h with rfl | rfl | rfl
        all_goals exact absurd hb (high _ _ (by decide) (by omega))
      · simp only [List.mem_cons, List.not_mem_nil, or_false] at h
        rcases h with rfl | rfl | rfl | rfl
        all_goals exact absurd hb (high _ _ (by decide) (by omega))

/-- An ASCII byte in an encoding splits the characters around it. -/
theorem exists_split_of_ascii {cs : List Char} {i : Nat} {b : UInt8}
    (h : (encode cs)[i]? = some b) (hb : b < 0x80) :
    ∃ before c behind, cs = before ++ c :: behind ∧ (encode before).length = i ∧
      String.utf8EncodeChar c = [b] := by
  induction cs generalizing i with
  | nil => simp at h
  | cons c cs ih =>
    rw [encode_cons] at h
    by_cases hi : i < (String.utf8EncodeChar c).length
    · rw [List.getElem?_append_left hi] at h
      have hc := encode_eq_singleton (List.mem_of_getElem? h) hb
      rw [hc] at hi
      exact ⟨[], c, cs, rfl, (Nat.lt_one_iff.mp hi).symm, hc⟩
    · rw [List.getElem?_append_right (Nat.not_lt.mp hi)] at h
      obtain ⟨before, d, behind, hcs, hlen, hd⟩ := ih h
      refine ⟨c :: before, d, behind, by rw [hcs, List.cons_append], ?_, hd⟩
      rw [encode_cons, List.length_append, hlen]
      omega

namespace Source

theorem onBoundary_iff {s : Source} {i : Nat} :
    s.OnBoundary i ↔ ∃ before behind : List Char, s.text.toList = before ++ behind ∧
      (encode before).length = i := by
  rw [OnBoundary, String.Pos.Raw.isValid_iff_exists_append]
  constructor
  · rintro ⟨t, u, ht, hi⟩
    refine ⟨t.toList, u.toList, by rw [ht, String.toList_append], ?_⟩
    rw [← utf8_eq_encode, length_utf8]
    exact (congrArg String.Pos.Raw.byteIdx hi).symm
  · rintro ⟨before, behind, ht, hi⟩
    refine ⟨String.ofList before, String.ofList behind, ?_, ?_⟩
    · rw [← String.ofList_append, ← ht, String.ofList_toList]
    · apply String.Pos.Raw.ext
      rw [← hi, String.byteIdx_rawEndPos, ← length_utf8, utf8_ofList]

theorem onBoundary_zero (s : Source) : s.OnBoundary 0 :=
  onBoundary_iff.mpr ⟨[], s.text.toList, rfl, rfl⟩

theorem onBoundary_length (s : Source) : s.OnBoundary s.length :=
  onBoundary_iff.mpr ⟨s.text.toList, [], (List.append_nil _).symm, by
    rw [← utf8_eq_encode, length_utf8, length]⟩

theorem exists_slice_to_end {s : Source} {i : Nat} (h : s.OnBoundary i) :
    ∃ text, s.slice i s.length = .ok text ∧ utf8 text = s.bytes.drop i := by
  have hslice := slice_of_onBoundary h.le_length h s.onBoundary_length
  refine ⟨_, hslice, ?_⟩
  rw [(slice_eq_ok_iff.mp hslice).2.2.2]
  exact List.take_of_length_le (by simp)

theorem onBoundary_of_ascii {s : Source} {i : Nat} {b : UInt8} (h : s.bytes[i]? = some b)
    (hb : b < 0x80) : s.OnBoundary i ∧ s.OnBoundary (i + 1) := by
  rw [s.bytes_eq, utf8_eq_encode] at h
  obtain ⟨before, c, behind, hs, hi, hc⟩ := exists_split_of_ascii h hb
  constructor
  · exact onBoundary_iff.mpr ⟨before, c :: behind, hs, hi⟩
  · refine onBoundary_iff.mpr ⟨before ++ [c], behind, by rw [hs, List.append_assoc]; rfl, ?_⟩
    rw [encode_append, List.length_append, hi, encode_cons, hc, encode_nil]
    rfl

end Source

namespace Cursor

def OnBoundary (c : Cursor) : Prop :=
  c.source.OnBoundary c.pos

theorem onBoundary_start (s : Source) : (start s).OnBoundary :=
  s.onBoundary_zero

theorem OnBoundary.inBounds {c : Cursor} (h : c.OnBoundary) : c.InBounds :=
  Source.OnBoundary.le_length h

theorem onBoundary_toEnd {c : Cursor} (h : c.InBounds) : c.toEnd.OnBoundary := by
  rw [OnBoundary, pos_toEnd h]
  exact c.source.onBoundary_length

theorem getElem?_rest (c : Cursor) (n : Nat) : c.rest[n]? = c.source.bytes[c.pos + n]? := by
  rw [c.rest_eq, List.getElem?_drop]

theorem onBoundary_forward {c : Cursor} {n : Nat} {b : UInt8} (h : c.rest[n]? = some b)
    (hb : b < 0x80) : (c.forward n).OnBoundary ∧ (c.forward (n + 1)).OnBoundary := by
  rw [getElem?_rest] at h
  exact c.source.onBoundary_of_ascii h hb

theorem onBoundary_nextMarkup {c : Cursor} (h : c.InBounds) :
    c.nextMarkup.OnBoundary ∧ c.pos ≤ c.nextMarkup.pos := by
  rw [nextMarkup, nextMarkup?]
  cases hs : Search.seek Delimiter.startsMarkup 0 c.rest with
  | none => exact ⟨onBoundary_toEnd h, Nat.le_add_right _ _⟩
  | some n =>
    obtain ⟨k, _, rfl, hk, _⟩ := (Search.seek_eq_some_iff _ _ _).mp hs
    obtain ⟨b, rest, hd, _⟩ := Delimiter.startsMarkup_iff.mp hk
    have hb : c.rest[k]? = some Delimiter.openBrace := by
      rw [← List.head?_drop, hd, List.head?_cons]
    rw [Nat.zero_add]
    exact ⟨(onBoundary_forward hb (by decide)).1, Nat.le_add_right _ _⟩

theorem onBoundary_nextLineEnd {c : Cursor} (h : c.InBounds) :
    c.nextLineEnd.OnBoundary ∧ c.pos ≤ c.nextLineEnd.pos := by
  rw [nextLineEnd]
  cases hs : Search.seek Delimiter.startsNewline 0 c.rest with
  | none => exact ⟨onBoundary_toEnd h, Nat.le_add_right _ _⟩
  | some n =>
    obtain ⟨k, hl, rfl, hk, _⟩ := (Search.seek_eq_some_iff _ _ _).mp hs
    cases hd : c.rest.drop k with
    | nil => simp [hd] at hk
    | cons b rest =>
      rw [hd, Delimiter.startsNewline_cons, beq_iff_eq] at hk
      have hb : c.rest[k]? = some Delimiter.newline := by
        rw [← List.head?_drop, hd, List.head?_cons, hk]
      simp only [Option.map_some, Option.getD_some, Nat.zero_add]
      exact ⟨(onBoundary_forward hb (by decide)).1, Nat.le_add_right _ _⟩

/-- Behind a needle there is a boundary if its last byte is ASCII. -/
theorem onBoundary_of_behindNext? {c d : Cursor} (needle : List UInt8) {b : UInt8}
    (hb : b < 0x80) (h : c.behindNext? (needle ++ [b]) = some d) :
    d.OnBoundary ∧ d.source = c.source ∧ c.pos + (needle.length + 1) ≤ d.pos := by
  rw [behindNext?] at h
  obtain ⟨n, hn, rfl⟩ := Option.map_eq_some_iff.mp h
  obtain ⟨k, _, rfl, hk, _⟩ := (Search.seek_eq_some_iff _ _ _).mp hn
  obtain ⟨t, ht⟩ := List.isPrefixOf_iff_prefix.mp hk
  have hlast : c.rest[k + needle.length]? = some b := by
    rw [← List.getElem?_drop, ← ht]
    simp
  have := (onBoundary_forward hlast hb).2
  refine ⟨by simpa [Nat.add_assoc] using this, rfl, ?_⟩
  simp only [pos_forward, List.length_append, List.length_singleton]
  omega

theorem length_le_of_sees {c : Cursor} {needle : List UInt8} (h : c.sees needle = true)
    (hn : 0 < needle.length) : c.pos + needle.length ≤ c.source.length := by
  have := (List.isPrefixOf_iff_prefix.mp h).length_le
  rw [length_rest] at this
  omega

theorem onBoundary_of_sees {c : Cursor} (needle : List UInt8) {b : UInt8} (hb : b < 0x80)
    (h : c.sees (needle ++ [b]) = true) : (c.forward (needle.length + 1)).OnBoundary := by
  obtain ⟨t, ht⟩ := List.isPrefixOf_iff_prefix.mp h
  have hlast : c.rest[needle.length]? = some b := by
    rw [← ht]
    simp
  exact (onBoundary_forward hlast hb).2

end Cursor

end LiquidTokens
