import LiquidTokens.Proofs.Calls
import LiquidTokens.Proofs.LineNumbers
import LiquidTokens.Proofs.Restart
import LiquidTokens.Session

/-! Whatever is asked of the tokenizers of a session, and in whatever order, no token is lost and none
comes twice. Each tokenizer stands where calls for the next token lead, as many as its own requests have
consumed and those that it took over as a copy. The main statement is `Session.run_follows_history`. -/
namespace LiquidTokens

namespace Tokenizer

theorem calls_eq_take (t : Tokenizer) (n : Nat) :
    t.calls n =
      (fun r => (r.1.map some ++ List.replicate (n - r.1.length) none, r.2)) <$> t.take n := by
  induction n generalizing t with
  | zero => rfl
  | succ n ih =>
    cases hnext : t.next with
    | error f => simp only [calls, take, hnext, bind, Except.bind, Functor.map, Except.map]
    | ok r =>
      obtain ⟨found, t'⟩ := r
      cases found with
      | none =>
        obtain ⟨_, rfl⟩ := next_eq_none_iff.mp hnext
        rw [calls_of_next_none hnext, take_of_next_none hnext]
        rfl
      | some e =>
        rw [calls_succ_of_next hnext, take_succ_of_next_some hnext, ih]
        cases t'.take n with
        | error f => rfl
        | ok r => simp [Functor.map, Except.map]

/-- `m` calls lead from one tokenizer to another and find a token each, the first `m` of a list. -/
structure Reached (first : Tokenizer) (es : List Emission) (m : Nat) (t : Tokenizer) : Prop where
  le_length : m ≤ es.length
  calls_eq : first.calls m = .ok ((es.take m).map some, t)

theorem Reached.of_take {first t : Tokenizer} {es : List Emission} {m : Nat} (hm : m ≤ es.length)
    (h : first.take m = .ok (es.take m, t)) : first.Reached es m t := by
  refine ⟨hm, ?_⟩
  have hlen : m - (es.take m).length = 0 := by
    rw [List.length_take]
    omega
  rw [calls_eq_take, h]
  simp only [Functor.map, Except.map, hlen, List.replicate_zero, List.append_nil]

theorem Reached.unique {first t t' : Tokenizer} {es : List Emission} {m : Nat}
    (h : first.Reached es m t) (h' : first.Reached es m t') : t = t' :=
  (Prod.mk.inj (Except.ok.inj (h.calls_eq.symm.trans h'.calls_eq))).2

theorem take_length {t t' : Tokenizer} {n : Nat} {es : List Emission}
    (h : t.take n = .ok (es, t')) : t.take es.length = .ok (es, t') := by
  induction n generalizing t es with
  | zero =>
    obtain ⟨rfl, rfl⟩ := Prod.mk.inj (Except.ok.inj h)
    rfl
  | succ n ih =>
    rcases cases_of_take_succ h with ⟨_, rfl, rfl⟩ | ⟨e, u, es', hnext, htake, rfl⟩
    · rfl
    · rw [List.length_cons, take_succ_of_next_some hnext, ih htake]
      rfl

theorem moves_of_take {t t' : Tokenizer} {n : Nat} {es : List Emission} (hb : t.cursor.OnBoundary)
    (h : t.take n = .ok (es, t')) : t'.cursor.OnBoundary ∧ t'.mode = t.mode ∧
      t'.cursor.source = t.cursor.source ∧ t.cursor.pos + es.length ≤ t'.cursor.pos := by
  obtain ⟨_, _, htake, hb', hmode, hsource, hle, _⟩ := exists_take hb n
  obtain ⟨rfl, rfl⟩ := Prod.mk.inj (Except.ok.inj (htake.symm.trans h))
  exact ⟨hb', hmode, hsource, hle⟩

def lineBehind (first : Tokenizer) (front : List Token) : LineNumber :=
  first.line.advance (linesOf first.mode front)

section Reached

variable {first t last : Tokenizer} {es : List Emission} {m : Nat}
variable (hdrain : first.drain = .ok (es, last)) (hlast : last.next = .ok (none, last))
include hdrain hlast

theorem Reached.exists_split (h : first.Reached es m t) :
    first.take m = .ok (es.take m, t) ∧ ∃ k, t.take k = .ok (es.drop m, last) := by
  obtain ⟨t', k, hbefore, hbehind⟩ := exists_take_split hdrain hlast m
  obtain rfl := h.unique (.of_take h.le_length hbefore)
  exact ⟨hbefore, k, hbehind⟩

theorem Reached.exists_take (h : first.Reached es m t) (n : Nat) :
    ∃ t', t.take n = .ok ((es.drop m).take n, t') ∧
      first.Reached es (m + min n (es.length - m)) t' := by
  obtain ⟨hbefore, k, hbehind⟩ := h.exists_split hdrain hlast
  obtain ⟨t', _, htake, _⟩ := exists_take_split hbehind hlast n
  have hle := h.le_length
  refine ⟨t', htake, .of_take (by omega) ?_⟩
  have hfound : t.take (min n (es.length - m)) = .ok ((es.drop m).take n, t') := by
    have hexact := take_length htake
    rwa [List.length_take, List.length_drop] at hexact
  have hall : es.take m ++ (es.drop m).take n = es.take (m + min n (es.length - m)) := by
    rw [List.take_add, List.take_eq_take_min (i := n), List.length_drop]
  rw [take_add, hbefore]
  simp only [bind, Except.bind, hfound, Functor.map, Except.map, hall]

theorem Reached.length_sub_le (h : first.Reached es m t) (hb : first.cursor.OnBoundary) :
    es.length - m ≤ t.unread := by
  obtain ⟨hbefore, k, hbehind⟩ := h.exists_split hdrain hlast
  obtain ⟨hend, _, hsource, hle⟩ := moves_of_take (moves_of_take hb hbefore).1 hbehind
  have hin := hend.inBounds
  rw [Cursor.InBounds, hsource] at hin
  rw [List.length_drop] at hle
  unfold unread
  omega

theorem Reached.mode_line_eq (h : first.Reached es m t) (hb : first.cursor.OnBoundary) :
    t.mode = first.mode ∧ t.line = first.lineBehind ((es.map Emission.token).take m) := by
  obtain ⟨hbefore, _⟩ := h.exists_split hdrain hlast
  rw [← List.map_take]
  exact ⟨(moves_of_take hb hbefore).2.1, line_of_take hbefore⟩

end Reached

def Pulled.ofTake {α : Type} (result : List Token → α) (taken : List Emission × Tokenizer) :
    Pulled α :=
  ⟨result (taken.1.map Emission.token), taken.1.flatMap Emission.events, taken.2⟩

theorem nextToken_eq (t : Tokenizer) : t.nextToken = Pulled.ofTake List.head? <$> t.take 1 := by
  cases hnext : t.next with
  | error f => simp only [nextToken, take, hnext, bind, Except.bind, Functor.map, Except.map]
  | ok r =>
    obtain ⟨found, t'⟩ := r
    cases found with
    | none =>
      obtain ⟨_, rfl⟩ := next_eq_none_iff.mp hnext
      simp only [nextToken, take_of_next_none hnext, hnext, bind, Except.bind]
      rfl
    | some e =>
      simp only [nextToken, take_succ_of_next_some hnext, hnext, bind, Except.bind, take_zero]
      simp [Pulled.ofTake, Functor.map, Except.map, pure, Except.pure]

/-- The token behind `k` others is the last one of a take. -/
theorem nth_eq (t : Tokenizer) (k : Nat) : t.nth k = Pulled.ofTake (·[k]?) <$> t.take (k + 1) := by
  induction k generalizing t with
  | zero =>
    have hhead : (fun ts : List Token => ts[0]?) = List.head? := by
      funext ts
      exact List.head?_eq_getElem?.symm
    rw [nth, nextToken_eq, hhead]
  | succ k ih =>
    cases hnext : t.next with
    | error f => simp only [nth, take, hnext, bind, Except.bind, Functor.map, Except.map]
    | ok r =>
      obtain ⟨found, t'⟩ := r
      cases found with
      | none =>
        obtain ⟨_, rfl⟩ := next_eq_none_iff.mp hnext
        rw [take_of_next_none hnext]
        simp only [nth, hnext, bind, Except.bind]
        rfl
      | some e =>
        rw [take_succ_of_next_some hnext]
        simp only [nth, hnext, bind, Except.bind, ih]
        cases t'.take (k + 1) with
        | error f => rfl
        | ok r => simp [Pulled.ofTake, Functor.map, Except.map, pure, Except.pure]

theorem firsts_eq (t : Tokenizer) (n : Nat) : t.firsts n = Pulled.ofTake id <$> t.take n := by
  unfold firsts
  cases t.take n with
  | error f => rfl
  | ok r => simp [Pulled.ofTake, Functor.map, Except.map, pure, Except.pure, bind, Except.bind]

/-- To pull until nothing comes is to take as many tokens as there are unread bytes, or more. -/
theorem fold_eq {α : Type} (put : α → Token → α) (result : α) {t : Tokenizer} {n : Nat}
    (hn : t.unread ≤ n) : t.fold put result = Pulled.ofTake (List.foldl put result) <$> t.take n := by
  fun_induction fold put result t generalizing n with
  | case1 result t f hnext =>
    cases n with
    | zero =>
      have hend : t.cursor.atEnd = true := atEnd_of_unread_eq_zero (Nat.le_zero.mp hn)
      rw [next_of_atEnd hend] at hnext
      cases hnext
    | succ n =>
      simp only [take, hnext, bind, Except.bind, Functor.map, Except.map]
      rfl
  | case2 result t t' hnext =>
    obtain ⟨_, rfl⟩ := next_eq_none_iff.mp hnext
    rw [take_of_next_none hnext]
    rfl
  | case3 result t e t' hnext ih =>
    have hlt := unread_lt_of_next hnext
    cases n with
    | zero => omega
    | succ n =>
      have hle : t'.unread ≤ n := by omega
      rw [ih hle, take_succ_of_next_some hnext]
      cases t'.take n with
      | error f => rfl
      | ok r => simp [Pulled.ofTake, Functor.map, Except.map, pure, Except.pure, bind, Except.bind]

theorem foldl_push_eq_map {α : Type} (f : Token → α) (ts : List Token) :
    ts.foldl (fun pushed token => pushed ++ [f token]) [] = ts.map f := by
  rw [List.foldl_append_eq_append, List.nil_append, ← List.flatMap_def, ← List.map_eq_flatMap]

theorem foldl_some_eq_getLast? (ts : List Token) :
    ts.foldl (fun _ token => some token) none = ts.getLast? := by
  rcases ts.eq_nil_or_concat with rfl | ⟨front, token, rfl⟩
  · rfl
  · simp

end Tokenizer

namespace Session

/-- How many tokens a request pulls from the current tokenizer at most. -/
def Request.demand (t : Tokenizer) : Request → Nat
  | .next | .iterNext => 1
  | .nth k => k + 1
  | .take n => n
  | .collect | .texts | .count | .last => t.unread
  | .bounds | .line | .mode | .raise _ | .clone | .use _ => 0

/-- The answer to a request, given the tokens that it pulled. -/
def reply (s : Session) (pulled : List Token) : Request → Reply
  | .next | .iterNext => .token pulled.head?
  | .nth k => .token pulled[k]?
  | .take _ | .collect => .tokens pulled
  | .texts => .texts (pulled.map Token.text)
  | .count => .count pulled.length
  | .last => .token pulled.getLast?
  | .bounds => .bounds 0 none
  | .line => .line s.active.line
  | .mode => .mode s.active.mode
  | .raise message => .raised (s.active.syntaxError message)
  | .clone => .index s.tokenizers.length
  | .use index => .index index

def Request.reports (t : Tokenizer) : Request → List Event
  | .raise message => [.syntaxError (t.syntaxError message)]
  | _ => []

def settle (s : Session) : Request → Session
  | .clone => s.clone
  | .use index => s.use index
  | _ => s

/-- How many tokens a request consumes of those that remain. -/
def Request.consumes (remaining : Nat) : Request → Nat
  | .next | .iterNext => min 1 remaining
  | .nth k => min (k + 1) remaining
  | .take n => min n remaining
  | .collect | .texts | .count | .last => remaining
  | .bounds | .line | .mode | .raise _ | .clone | .use _ => 0

def consumed (total : Nat) (asked : List Request) : Nat :=
  asked.foldl (fun m q => m + q.consumes (total - m)) 0

/-- The reply to a request where the first `m` of all tokens are consumed, in a session of so many
tokenizers. -/
def Request.answer (first : Tokenizer) (all : List Token) (m copies : Nat) : Request → Reply
  | .next | .iterNext => .token all[m]?
  | .nth k => .token all[m + k]?
  | .take n => .tokens ((all.drop m).take n)
  | .collect => .tokens (all.drop m)
  | .texts => .texts ((all.drop m).map Token.text)
  | .count => .count (all.length - m)
  | .last => .token (all.drop m).getLast?
  | .bounds => .bounds 0 none
  | .line => .line (first.lineBehind (all.take m))
  | .mode => .mode first.mode
  | .raise message => .raised ⟨message, first.lineBehind (all.take m)⟩
  | .clone => .index copies
  | .use index => .index index

/-- What was asked of each tokenizer of a session, in the order in which they were made. -/
structure History where
  asked : List (List Request)
  current : Nat
  current_lt : current < asked.length

namespace History

def start : History := ⟨[[]], 0, Nat.zero_lt_one⟩

def own (h : History) : List Request :=
  h.asked.get ⟨h.current, h.current_lt⟩

def put (h : History) (q : Request) : History :=
  ⟨h.asked.set h.current (h.own ++ [q]), h.current, by simpa using h.current_lt⟩

def clone (h : History) : History :=
  ⟨h.asked ++ [h.own], h.current, by
    have := h.current_lt
    simp only [List.length_append]
    omega⟩

def use (h : History) (index : Nat) : History :=
  if hi : index < h.asked.length then ⟨h.asked, index, hi⟩ else h

def settle (h : History) : Request → History
  | .clone => h.clone
  | .use index => h.use index
  | _ => h

def record (h : History) (q : Request) : History :=
  (h.put q).settle q

def ofRequests (requests : List Request) : History :=
  requests.foldl record start

end History

theorem consumed_append (total : Nat) (asked : List Request) (q : Request) :
    consumed total (asked ++ [q]) =
      consumed total asked + q.consumes (total - consumed total asked) := by
  simp only [consumed, List.foldl_append, List.foldl_cons, List.foldl_nil]

theorem Request.consumes_eq_min {t : Tokenizer} {remaining : Nat} (h : remaining ≤ t.unread)
    (q : Request) : q.consumes remaining = min (q.demand t) remaining := by
  cases q with
  | next | iterNext | nth | take => rfl
  | collect | texts | count | last => exact (Nat.min_eq_right h).symm
  | bounds | line | mode | raise | clone | use => exact (Nat.zero_min _).symm

/-- The tokens that a request pulls are the next ones of the list, and its reply is told from them. -/
theorem reply_eq_answer {s : Session} {first : Tokenizer} {all : List Token} {m : Nat}
    (hleft : all.length - m ≤ s.active.unread) (hmode : s.active.mode = first.mode)
    (hline : s.active.line = first.lineBehind (all.take m)) (q : Request) :
    s.reply ((all.drop m).take (q.demand s.active)) q =
      q.answer first all m s.tokenizers.length := by
  have hrest : (all.drop m).take s.active.unread = all.drop m := by
    apply List.take_of_length_le
    rwa [List.length_drop]
  cases q with
  | next | iterNext => simp [reply, Request.demand, Request.answer, List.head?_eq_getElem?]
  | nth k => simp [reply, Request.demand, Request.answer]
  | take n => rfl
  | collect | texts | last => simp only [reply, Request.demand, Request.answer, hrest]
  | count => simp only [reply, Request.demand, Request.answer, hrest, List.length_drop]
  | bounds | clone | use => rfl
  | line => simp only [reply, Request.answer, hline]
  | mode => simp only [reply, Request.answer, hmode]
  | raise message => simp only [reply, Request.answer, Tokenizer.syntaxError, hline]

/-- Each tokenizer of a session stands where its requests lead. -/
structure Tracks (first : Tokenizer) (es : List Emission) (h : History) (s : Session) : Prop where
  current_eq : s.current = h.current
  length_eq : s.tokenizers.length = h.asked.length
  reached : ∀ (i : Nat) (asked : List Request) (t : Tokenizer), h.asked[i]? = some asked →
    s.tokenizers[i]? = some t → first.Reached es (consumed es.length asked) t

section Tracks

variable {first : Tokenizer} {es : List Emission} {h : History} {s : Session}

theorem tracks_start (first : Tokenizer) (es : List Emission) :
    Tracks first es .start (start first) := by
  refine ⟨rfl, rfl, ?_⟩
  intro i asked t hasked ht
  cases i with
  | zero =>
    obtain rfl := Option.some.inj hasked
    obtain rfl := Option.some.inj ht
    exact ⟨Nat.zero_le _, rfl⟩
  | succ i => cases hasked

theorem getElem?_current (s : Session) : s.tokenizers[s.current]? = some s.active :=
  List.getElem?_eq_getElem s.current_lt

theorem History.getElem?_current (h : History) : h.asked[h.current]? = some h.own :=
  List.getElem?_eq_getElem h.current_lt

theorem Tracks.active (hs : Tracks first es h s) :
    first.Reached es (consumed es.length h.own) s.active := by
  refine hs.reached h.current h.own s.active h.getElem?_current ?_
  rw [← hs.current_eq, s.getElem?_current]

theorem Tracks.put (hs : Tracks first es h s) {q : Request} {t : Tokenizer}
    (ht : first.Reached es (consumed es.length (h.own ++ [q])) t) :
    Tracks first es (h.put q) (s.put t) := by
  refine ⟨hs.current_eq, ?_, ?_⟩
  · simp only [Session.put, History.put, List.length_set, hs.length_eq]
  · intro i asked u hasked hu
    simp only [Session.put, History.put, hs.current_eq] at hasked hu
    by_cases hi : h.current = i
    · subst hi
      rw [List.getElem?_set_self h.current_lt] at hasked
      rw [List.getElem?_set_self (hs.length_eq ▸ h.current_lt)] at hu
      obtain rfl := Option.some.inj hasked
      obtain rfl := Option.some.inj hu
      exact ht
    · rw [List.getElem?_set_ne hi] at hasked hu
      exact hs.reached i asked u hasked hu

theorem Tracks.clone (hs : Tracks first es h s) : Tracks first es h.clone s.clone := by
  refine ⟨hs.current_eq, ?_, ?_⟩
  · simp only [Session.clone, History.clone, List.length_append, hs.length_eq, List.length_singleton]
  · intro i asked t hasked ht
    simp only [Session.clone, History.clone] at hasked ht
    by_cases hi : i < h.asked.length
    · rw [List.getElem?_append_left hi] at hasked
      rw [List.getElem?_append_left (hs.length_eq ▸ hi)] at ht
      exact hs.reached i asked t hasked ht
    · rw [List.getElem?_append_right (by omega), List.getElem?_singleton] at hasked
      rw [List.getElem?_append_right (by rw [hs.length_eq]; omega), List.getElem?_singleton] at ht
      obtain ⟨_, hasked⟩ := Option.ite_none_right_eq_some.mp hasked
      obtain ⟨_, ht⟩ := Option.ite_none_right_eq_some.mp ht
      obtain rfl := Option.some.inj hasked
      obtain rfl := Option.some.inj ht
      exact hs.active

theorem Tracks.use (hs : Tracks first es h s) (index : Nat) :
    Tracks first es (h.use index) (s.use index) := by
  unfold Session.use History.use
  by_cases hi : index < h.asked.length
  · rw [dif_pos hi, dif_pos (hs.length_eq ▸ hi)]
    exact ⟨rfl, hs.length_eq, hs.reached⟩
  · rw [dif_neg hi, dif_neg (hs.length_eq ▸ hi)]
    exact hs

theorem Tracks.settle (hs : Tracks first es h s) (q : Request) :
    Tracks first es (h.settle q) (s.settle q) := by
  cases q with
  | clone => exact hs.clone
  | use index => exact hs.use index
  | _ => exact hs

theorem getElem?_settle {i : Nat} {t : Tokenizer} (ht : s.tokenizers[i]? = some t) (q : Request) :
    (s.settle q).tokenizers[i]? = some t := by
  cases q with
  | clone =>
    have hi := (List.getElem?_eq_some_iff.mp ht).1
    exact (List.getElem?_append_left hi).trans ht
  | use index =>
    simp only [settle, use]
    split <;> exact ht
  | _ => exact ht

/-- A request to a session, as its history and the tokens of the source call for it. Only the current
tokenizer changes, and only if tokens are consumed. -/
structure Answered (first : Tokenizer) (es : List Emission) (h : History) (s : Session) (q : Request)
    (made : Reply × List Event × Session) : Prop where
  before : Tracks first es h s
  after : Tracks first es (h.record q) made.2.2
  reply_eq : made.1 = q.answer first (es.map Emission.token) (consumed es.length h.own)
    s.tokenizers.length
  events_eq : made.2.1 = ((es.drop (consumed es.length h.own)).take
    (q.consumes (es.length - consumed es.length h.own))).flatMap Emission.events ++
      q.reports s.active
  kept : ∀ (i : Nat) (t : Tokenizer), s.tokenizers[i]? = some t →
    (i ≠ s.current ∨ q.consumes (es.length - consumed es.length h.own) = 0) →
      made.2.2.tokenizers[i]? = some t

theorem put_active (s : Session) : s.put s.active = s := by
  unfold put active
  congr 1
  exact List.set_getElem_self s.current_lt

theorem perform_eq {t : Tokenizer} {es : List Emission} {q : Request}
    (h : s.active.take (q.demand s.active) = .ok (es, t)) :
    s.perform q = .ok (s.reply (es.map Emission.token) q,
      es.flatMap Emission.events ++ q.reports s.active, (s.put t).settle q) := by
  -- However the tokens are pulled, it is one take, and only what is made of them differs.
  have hpull {α : Type} {reply : α → Reply} {result : List Token → α} :
      s.pull reply (Tokenizer.Pulled.ofTake result <$> s.active.take (q.demand s.active)) =
        .ok (reply (result (es.map Emission.token)), es.flatMap Emission.events, s.put t) := by
    rw [h]
    rfl
  cases q with
  | next | iterNext =>
    rw [perform, Tokenizer.nextToken_eq]
    exact hpull.trans (by simp [reply, Request.reports, settle])
  | nth k =>
    rw [perform, Tokenizer.nth_eq]
    exact hpull.trans (by simp [reply, Request.reports, settle])
  | take n =>
    rw [perform, Tokenizer.firsts_eq]
    exact hpull.trans (by simp [reply, Request.reports, settle])
  | collect =>
    rw [perform, Tokenizer.fold_eq _ _ (Nat.le_refl _)]
    exact hpull.trans (by
      rw [Tokenizer.foldl_push_eq_map fun token => token]
      simp [reply, Request.reports, settle])
  | texts =>
    rw [perform, Tokenizer.fold_eq _ _ (Nat.le_refl _)]
    exact hpull.trans (by
      rw [Tokenizer.foldl_push_eq_map]
      simp [reply, Request.reports, settle])
  | count | last =>
    rw [perform, Tokenizer.fold_eq _ _ (Nat.le_refl _)]
    exact hpull.trans (by simp [reply, Request.reports, settle, Tokenizer.foldl_some_eq_getLast?])
  | bounds | line | mode | raise | clone | use =>
    obtain ⟨rfl, rfl⟩ := Prod.mk.inj (Except.ok.inj h)
    rw [put_active]
    rfl

section Answered

variable {last : Tokenizer} (hb : first.cursor.OnBoundary) (hdrain : first.drain = .ok (es, last))
  (hlast : last.next = .ok (none, last))
include hb hdrain hlast

theorem Tracks.exists_perform (hs : Tracks first es h s) (q : Request) :
    ∃ made, s.perform q = .ok made ∧ Answered first es h s q made := by
  have hactive := hs.active
  have hleft := hactive.length_sub_le hdrain hlast hb
  obtain ⟨hmode, hline⟩ := hactive.mode_line_eq hdrain hlast hb
  obtain ⟨t, htake, ht⟩ := hactive.exists_take hdrain hlast (q.demand s.active)
  rw [← q.consumes_eq_min hleft] at ht
  have hput : Tracks first es (h.put q) (s.put t) := by
    apply hs.put
    rwa [consumed_append]
  refine ⟨_, perform_eq htake, hs, hput.settle q, ?_, ?_, ?_⟩
  · rw [List.map_take, List.map_drop]
    exact reply_eq_answer (by rwa [List.length_map]) hmode hline q
  · rw [q.consumes_eq_min hleft, ← List.length_drop, ← List.take_eq_take_min]
  · intro i u hu hkept
    apply getElem?_settle
    rcases hkept with hother | hnone
    · exact (List.getElem?_set_ne hother.symm).trans hu
    -- A take of nothing leads nowhere.
    · rw [hnone, Nat.add_zero] at ht
      rwa [← hactive.unique ht, put_active]

theorem Tracks.exists_run (hs : Tracks first es h s) (requests : List Request) :
    ∃ made, s.run requests = .ok made ∧ made.length = requests.length ∧
      ∀ k q, requests[k]? = some q → ∃ before answer,
        (s :: made.map fun m => m.2.2)[k]? = some before ∧ made[k]? = some answer ∧
        Answered first es ((requests.take k).foldl History.record h) before q answer := by
  induction requests generalizing h s with
  | nil =>
    refine ⟨[], rfl, rfl, ?_⟩
    intro k q hq
    cases hq
  | cons q₀ rest ih =>
    obtain ⟨answer, hperform, hanswer⟩ := hs.exists_perform hb hdrain hlast q₀
    obtain ⟨made, hrun, hlen, hsteps⟩ := ih hanswer.after
    refine ⟨answer :: made, ?_, congrArg Nat.succ hlen, ?_⟩
    · simp only [run, hperform, hrun, bind, Except.bind, pure, Except.pure]
    · intro k q hq
      cases k with
      | zero =>
        obtain rfl := Option.some.inj hq
        exact ⟨s, answer, rfl, rfl, hanswer⟩
      | succ k => exact hsteps k q hq

end Answered

end Tracks

/-- The ways to build a tokenizer: from options, without a choice, as one of either mode, and converted
from one of these. -/
inductive Build
  | options (options : Options)
  | plain
  | bare (mode : Mode) (line : LineNumber)
  | converted (mode : Mode) (line : LineNumber)
  deriving DecidableEq, Repr

namespace Build

def tokenizer (text : String) : Build → Tokenizer
  | .options o => .ofOptions text o
  | .plain => .ofOptions text {}
  | .bare mode line | .converted mode line => .start mode text line

def mode : Build → Mode
  | .options o => o.mode
  | .plain => .markup
  | .bare mode _ | .converted mode _ => mode

def line : Build → LineNumber
  | .options o => o.initialLine
  | .plain => none
  | .bare _ line | .converted _ line => line

theorem tokenizer_eq (text : String) (b : Build) :
    b.tokenizer text = .start b.mode text b.line := by
  cases b <;> rfl

end Build

/-- Take any text, a tokenizer over it however built, and any requests to it and to copies of it. All of
them are answered. Before and after each one every tokenizer stands where calls from the start lead, as
many as have consumed a token among what was asked of it and, until it was copied, of the ones that it
is a copy of. Each reply is told from the one list of tokens of the text, and each token reports once
on any way to it. A request changes no tokenizer but the current one, and that only if it consumes
tokens. Tokenizers that are built with the same mode and first line answer alike. -/
theorem run_follows_history (text : String) (b : Build) (requests : List Request) :
    ∃ es last made, (b.tokenizer text).drain = .ok (es, last) ∧ last.next = .ok (none, last) ∧
      (start (b.tokenizer text)).run requests = .ok made ∧ made.length = requests.length ∧
      (∀ k q, requests[k]? = some q → ∃ before answer,
        (start (b.tokenizer text) :: made.map fun m => m.2.2)[k]? = some before ∧
        made[k]? = some answer ∧
        Answered (b.tokenizer text) es (History.ofRequests (requests.take k)) before q answer) ∧
      ∀ b' : Build, b'.mode = b.mode → b'.line = b.line →
        (start (b'.tokenizer text)).run requests = .ok made := by
  have hb : (b.tokenizer text).cursor.OnBoundary := by
    rw [b.tokenizer_eq]
    exact Tokenizer.onBoundary_start b.mode text b.line
  obtain ⟨es, last, hdrain, _, hend⟩ := Tokenizer.exists_drain hb
  have hlast := Tokenizer.next_of_atEnd hend
  obtain ⟨made, hrun, hlen, hsteps⟩ :=
    (tracks_start (b.tokenizer text) es).exists_run hb hdrain hlast requests
  refine ⟨es, last, made, hdrain, hlast, hrun, hlen, hsteps, ?_⟩
  intro b' hmode hline
  rw [b'.tokenizer_eq, hmode, hline, ← b.tokenizer_eq, hrun]

/-- A copy has its own place, and runs past the end there. The line behind it counts what was dropped. -/
theorem run_follows_history_of_copy :
    ∃ made, (start ((Build.bare .markup (some 1)).tokenizer "a\n\x7b\x7bb\x7d\x7d\nc")).run
        [.clone, .nth 1, .use 1, .next, .nth 5, .line] = .ok made ∧
      (made.map Prod.fst)[3]? = some (.token (some ⟨"a\n", ⟨0, 2⟩⟩)) ∧
      (made.map Prod.fst)[4]? = some (.token none) ∧
      (made.map Prod.fst)[5]? = some (.line (some 3)) ∧
      (start ((Build.options { numbered := true }).tokenizer "a\n\x7b\x7bb\x7d\x7d\nc")).run
        [.clone, .nth 1, .use 1, .next, .nth 5, .line] = .ok made := by
  obtain ⟨es, last, made, hdrain, _, hrun, _, hsteps, hbuilds⟩ :=
    run_follows_history "a\n\x7b\x7bb\x7d\x7d\nc" (.bare .markup (some 1))
      [.clone, .nth 1, .use 1, .next, .nth 5, .line]
  have htokens : es.map Emission.token =
      [⟨"a\n", ⟨0, 2⟩⟩, ⟨"\x7b\x7bb\x7d\x7d", ⟨2, 7⟩⟩, ⟨"\nc", ⟨7, 9⟩⟩] :=
    Tokenizer.map_token_eq_of_drain hdrain (by decide +kernel)
  have hthree : es.length = 3 := by
    rw [← List.length_map Emission.token, htokens]
    rfl
  have hreply (k : Nat) (q : Request)
      (hq : [.clone, .nth 1, .use 1, .next, .nth 5, .line][k]? = some q) :
      ∃ copies, (made.map Prod.fst)[k]? = some
        (q.answer (.start .markup "a\n\x7b\x7bb\x7d\x7d\nc" (some 1))
          [⟨"a\n", ⟨0, 2⟩⟩, ⟨"\x7b\x7bb\x7d\x7d", ⟨2, 7⟩⟩, ⟨"\nc", ⟨7, 9⟩⟩]
          (consumed 3 (History.ofRequests
            ([.clone, .nth 1, .use 1, .next, .nth 5, .line].take k)).own)
          copies) := by
    obtain ⟨before, answer, _, hmade, hanswer⟩ := hsteps k q hq
    refine ⟨before.tokenizers.length, ?_⟩
    rw [List.getElem?_map, hmade, Option.map_some, hanswer.reply_eq, htokens, hthree]
    rfl
  obtain ⟨_, hnext⟩ := hreply 3 .next rfl
  obtain ⟨_, hnth⟩ := hreply 4 (.nth 5) rfl
  obtain ⟨_, hline⟩ := hreply 5 .line rfl
  exact ⟨made, hrun, hnext, hnth, hline, hbuilds (.options { numbered := true }) rfl rfl⟩

end Session
end LiquidTokens
