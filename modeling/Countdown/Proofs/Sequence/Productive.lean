import Countdown.Proofs.Sequence.Draft
import Countdown.Proofs.Sequence.Requests
set_option autoImplicit false

namespace Countdown.Sequence

/-- A queue that reads its durations one by one. -/
structure DraftQueue where
  consumed : Nat
  upcoming : Option Int
  rest : List Draft
  deriving DecidableEq, Repr

namespace DraftQueue
open Draft Queue

def ofNext (consumed : Nat) : Option (Int × List Draft) → DraftQueue
  | none => ⟨consumed,none,[]⟩
  | some (ms,ds) => ⟨consumed,some ms,ds⟩

section
variable (separator : String) (steps : Nat)

def ofDrafts (consumed : Nat) (ds : List Draft) : Except Late DraftQueue :=
  (next separator steps ds).map (ofNext consumed)

def pop (q : DraftQueue) : Except Late (Option Int × DraftQueue) :=
  match q.upcoming with
  | none => .ok (none,q)
  | some ms => (ofDrafts separator steps (q.consumed + 1) q.rest).map fun q => (some ms,q)

def skipWhile (count : Int) (taken : Nat) (q : DraftQueue) : Except Late (Nat × DraftQueue) :=
  if taken < count then
    match q.pop separator steps with
    | .error e => .error e
    | .ok (none,q) => .ok (taken,q)
    | .ok (some _,q) => skipWhile count (taken + 1) q
  else .ok (taken,q)
termination_by (count - taken).toNat

def serve (q : DraftQueue) : Request → Except Late (Answer × DraftQueue)
  | .pop => (q.pop separator steps).map fun x => (.duration x.1,x.2)
  | .peek => .ok (.duration q.upcoming,q)
  | .skip n => (q.skipWhile separator steps n 0).map fun x => (.taken x.1,x.2)

def serveAll (q : DraftQueue) : List Request → Except Late (List Answer × DraftQueue)
  | [] => .ok ([],q)
  | x :: xs => do
    let (a,q) ← q.serve separator steps x
    let (as,q) ← q.serveAll xs
    return (a :: as,q)

end

variable {separator : String} {top : Nat} {q : DraftQueue} {p : Queue} {ds : List Draft} {c : Cursor}

/-- A queue that has taken and knows of the same durations, and has drafts of those behind them. -/
structure Mirrors (separator : String) (top : Nat) (q : DraftQueue) (p : Queue) : Prop where
  consumed : q.consumed = p.consumed
  upcoming : q.upcoming = p.upcoming
  rest : Tracks separator top 0 q.rest p.rest

theorem mirrors_ofDrafts (h : Tracks separator top 0 ds c) (n : Nat) :
    ∃ q, ofDrafts separator (2 * top + 1) n ds = .ok q ∧ Mirrors separator top q (ofCursor n c) := by
  obtain ⟨x,hnext,hx⟩ := h.next
  refine ⟨ofNext n x,by rw [ofDrafts, hnext]; rfl,?_⟩
  rw [ofCursor]
  generalize Cursor.next? c = y at hx
  cases hx with
  | ended => exact ⟨rfl,rfl,.nil (Nat.zero_le _)⟩
  | next h => exact ⟨rfl,rfl,h⟩

theorem Mirrors.pop (h : Mirrors separator top q p) :
    ∃ q', q.pop separator (2 * top + 1) = .ok (p.pop.1,q') ∧ Mirrors separator top q' p.pop.2 := by
  rw [DraftQueue.pop, Queue.pop, h.upcoming]
  cases p.upcoming with
  | none => exact ⟨q,rfl,h⟩
  | some ms =>
    obtain ⟨q',hq',hmirrors⟩ := mirrors_ofDrafts h.rest (q.consumed + 1)
    rw [h.consumed] at hmirrors
    exact ⟨q',by dsimp only; rw [hq']; rfl,hmirrors⟩

theorem Mirrors.skipWhile (h : Mirrors separator top q p) (count : Int) (taken : Nat) :
    ∃ q', q.skipWhile separator (2 * top + 1) count taken = .ok ((p.skipWhile count taken).1,q') ∧
      Mirrors separator top q' (p.skipWhile count taken).2 := by
  induction hn : (count - taken).toNat generalizing taken q p with
  | zero =>
    have hdone : ¬ (taken : Int) < count := by omega
    rw [DraftQueue.skipWhile, Queue.skipWhile, if_neg hdone, if_neg hdone]
    exact ⟨q,rfl,h⟩
  | succ n ih =>
    have hmore : (taken : Int) < count := by omega
    obtain ⟨q',hq',hmirrors⟩ := h.pop
    rw [DraftQueue.skipWhile, Queue.skipWhile, if_pos hmore, if_pos hmore, hq']
    generalize p.pop = x at hmirrors
    obtain ⟨d,p'⟩ := x
    cases d with
    | none => exact ⟨q',rfl,hmirrors⟩
    | some d => exact ih hmirrors (taken + 1) (by omega)

theorem Mirrors.serve (h : Mirrors separator top q p) (x : Request) :
    ∃ q', q.serve separator (2 * top + 1) x = .ok ((p.serve x).1,q') ∧
      Mirrors separator top q' (p.serve x).2 := by
  cases x with
  | pop =>
    obtain ⟨q',hq',hmirrors⟩ := h.pop
    exact ⟨q',by rw [DraftQueue.serve, hq']; rfl,hmirrors⟩
  | peek => exact ⟨q,by rw [DraftQueue.serve, h.upcoming]; rfl,h⟩
  | skip n =>
    obtain ⟨q',hq',hmirrors⟩ := h.skipWhile n 0
    exact ⟨q',by rw [DraftQueue.serve, hq']; rfl,hmirrors⟩

/-- A queue that reads its durations one by one answers any requests as one that has read everything before. -/
theorem Mirrors.serveAll (h : Mirrors separator top q p) (xs : List Request) :
    ∃ q', q.serveAll separator (2 * top + 1) xs = .ok ((p.serveAll xs).1,q') ∧
      Mirrors separator top q' (p.serveAll xs).2 := by
  induction xs generalizing q p with
  | nil => exact ⟨q,rfl,h⟩
  | cons x xs ih =>
    obtain ⟨q₁,hq₁,hfirst⟩ := h.serve x
    obtain ⟨q₂,hq₂,hrest⟩ := ih hfirst
    refine ⟨q₂,?_,hrest⟩
    rw [DraftQueue.serveAll, hq₁]
    simp only [bind, Except.bind, hq₂]
    rfl

end DraftQueue

variable {separator text : String} {r : Run}

theorem nth?_zero (r : Run) : Cursor.nth? [r] 0 = some (r.uncons []).1 := rfl

theorem exists_mirrors (h : Run.read separator text.toList = .ok r) :
    ∃ d q, Draft.read separator text.toList = .ok d ∧ Draft.Tracks separator d.height 0 [d] [r] ∧
      DraftQueue.ofDrafts separator d.pace 0 [d] = .ok q ∧
      DraftQueue.Mirrors separator d.height q (Queue.ofCursor 0 [r]) := by
  have hlike := Draft.read_read separator text.toList
  rw [h] at hlike
  obtain ⟨d,hd,hdrafted⟩ := hlike.of_ok
  have htracks := Draft.Tracks.start hdrafted
  obtain ⟨q,hq,hmirrors⟩ := DraftQueue.mirrors_ofDrafts htracks 0
  exact ⟨d,q,hd,htracks,hq,hmirrors⟩

/-- An accepted text has a first duration, and any that is wanted of it comes in time: it is never refused,
and it is zero only where the text is a single duration. The same goes for the answers of a queue. -/
theorem read_productive (h : Run.read separator text.toList = .ok r) :
    ∃ d, Draft.read separator text.toList = .ok d ∧
      (∀ k, Draft.take separator d.pace k [d] = .ok (Cursor.take k [r])) ∧
      (∃ ms, Cursor.nth? [r] 0 = some ms) ∧
      (isSequence text.toList = true → ∀ i ms, Cursor.nth? [r] i = some ms → ms ≠ 0) ∧
      ∃ p q, Queue.read separator text = .ok p ∧ DraftQueue.ofDrafts separator d.pace 0 [d] = .ok q ∧
        (∃ ms p' q', p.pop = (some ms,p') ∧ q.pop separator d.pace = .ok (some ms,q')) ∧
        ∀ xs, ∃ q', q.serveAll separator d.pace xs = .ok ((p.serveAll xs).1,q') := by
  obtain ⟨d,q,hd,htracks,hq,hmirrors⟩ := exists_mirrors h
  have hqueue : Queue.read separator text = .ok (Queue.ofCursor 0 [r]) := by
    rw [Queue.read, h]
    rfl
  refine ⟨d,hd,htracks.take,⟨_,nth?_zero r⟩,fun hseq i ms hms => nth?_ne_zero hseq h hms,
    Queue.ofCursor 0 [r],q,hqueue,hq,?_,fun xs => ?_⟩
  · obtain ⟨q',hpop,-⟩ := hmirrors.pop
    exact ⟨_,_,q',rfl,hpop⟩
  · obtain ⟨q',hq',-⟩ := hmirrors.serveAll xs
    exact ⟨q',hq'⟩

/-- Endless rounds, each of more rounds than will ever be asked for. -/
theorem read_productive_nested : ∃ d, Draft.read ":" "((1s + 2) * 2 + 3 * 99999999999999999999)*".toList = .ok d ∧
    Draft.take ":" d.pace 7 [d] = .ok [1000,120000,1000,120000,180000,180000,180000] := by
  let r : Run := .again (.append (.again (.append (.one 1000) (.one 120000)) (some 1))
    (.again (.one 180000) (some 9223372036854775806))) none
  have hread : Run.read ":" "((1s + 2) * 2 + 3 * 99999999999999999999)*".toList = .ok r :=
    toOption_eq_some.mp (by decide +kernel)
  obtain ⟨d,hd,htake,-⟩ := read_productive hread
  refine ⟨d,hd,?_⟩
  rw [htake]
  decide +kernel

end Countdown.Sequence
