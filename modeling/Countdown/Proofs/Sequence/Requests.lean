import Mathlib.Data.ENat.Lattice
import Countdown.Proofs.Result
import Countdown.Proofs.Sequence.Durations
import Countdown.Proofs.Sequence.Playlist
set_option autoImplicit false

/-!
Requests to a queue. It looks one duration ahead, and still its answers depend on nothing but the
durations of its text and how many of them were asked for before.
-/

namespace Countdown

namespace Sequence

def Playlist.length : Playlist → ℕ∞
  | ends ds => ds.length
  | endless _ => ⊤

theorem Playlist.length_take (p : Playlist) (k : Nat) :
    ((p.take k).length : ℕ∞) = min (k : ℕ∞) p.length := by
  cases p with
  | ends ds =>
    rw [take_ends, List.length_take, length]
    exact Nat.mono_cast.map_min
  | endless d => simp [take, length]

namespace Cursor

variable {c : Cursor} {k m n : Nat} {d : Int}

theorem length_take_cases (c : Cursor) (n : Nat) :
    (take n c).length = n ∨ (take n c).length < n ∧ nth? c (take n c).length = none := by
  induction n with
  | zero => exact Or.inl rfl
  | succ n ih =>
    rw [take_succ, List.length_append]
    cases hn : nth? c n with
    | none =>
      obtain h | ⟨hlt,hnone⟩ := ih
      · simp [h, hn]
      · refine Or.inr ⟨?_,?_⟩
        · simpa using Nat.lt_succ_of_lt hlt
        · simpa using hnone
    | some d =>
      obtain h | ⟨hlt,hnone⟩ := ih
      · simp [h]
      · rw [nth?_none hnone (Nat.le_of_lt hlt)] at hn
        contradiction

theorem nth?_length_take (c : Cursor) (n : Nat) : nth? c (take n c).length = nth? c n := by
  obtain h | ⟨hlt,hnone⟩ := length_take_cases c n
  · rw [h]
  · rw [hnone, nth?_none hnone (Nat.le_of_lt hlt)]

theorem length_take_of_some (h : nth? c n = some d) : (take n c).length = n := by
  obtain heq | ⟨hlt,hnone⟩ := length_take_cases c n
  · exact heq
  · rw [nth?_none hnone (Nat.le_of_lt hlt)] at h
    contradiction

theorem length_take_of_none (h : nth? c n = none) (hk : n ≤ k) : (take k c).length = (take n c).length := by
  induction k, hk using Nat.le_induction with
  | base => rfl
  | succ k hk ih => simp [take_succ, nth?_none h hk, ih]

theorem length_take_mono (c : Cursor) (h : m ≤ n) : (take m c).length ≤ (take n c).length := by
  induction n, h using Nat.le_induction with
  | base => exact Nat.le_refl _
  | succ n _ ih =>
    rw [take_succ, List.length_append]
    omega

end Cursor
end Sequence

namespace Queue
open Sequence

/-- Takes durations as long as fewer than `count` are `taken`. -/
def skipWhile (count : Int) (taken : Nat) (q : Queue) : Nat × Queue :=
  if taken < count then
    match q.pop with
    | (none,q) => (taken,q)
    | (some _,q) => skipWhile count (taken + 1) q
  else (taken,q)
termination_by (count - taken).toNat

inductive Request where
  | pop
  | peek
  | skip (count : Int)
  deriving DecidableEq, Repr

/-- A duration, none at the end, or the number of those that were taken. -/
inductive Answer where
  | duration (d : Option Int)
  | taken (n : Nat)
  deriving DecidableEq, Repr

namespace Request

def demand : Request → Nat
  | pop => 1
  | peek => 0
  | skip n => n.toNat

def answer (c : Cursor) (n : Nat) : Request → Answer
  | pop | peek => .duration (c.nth? n)
  | skip m => .taken ((c.take (n + m.toNat)).length - (c.take n).length)

def atEnd : Request → Answer
  | pop | peek => .duration none
  | skip _ => .taken 0

end Request

def answers (c : Cursor) (n : Nat) : List Request → List Answer
  | [] => []
  | x :: xs => x.answer c n :: answers c (n + x.demand) xs

def demands (xs : List Request) : Nat := (xs.map Request.demand).sum

def serve (q : Queue) : Request → Answer × Queue
  | .pop => (.duration q.pop.1,q.pop.2)
  | .peek => (.duration q.peek,q)
  | .skip n => (.taken (q.skipWhile n 0).1,(q.skipWhile n 0).2)

def serveAll (q : Queue) : List Request → List Answer × Queue
  | [] => ([],q)
  | x :: xs => ((q.serve x).1 :: ((q.serve x).2.serveAll xs).1,((q.serve x).2.serveAll xs).2)

theorem skipWhile_eq (count : Int) (taken : Nat) (q : Queue) :
    q.skipWhile count taken = skipFrom taken (count - taken).toNat q := by
  induction hn : (count - taken).toNat generalizing taken q with
  | zero =>
    have hdone : ¬ (taken : Int) < count := by omega
    rw [skipWhile, if_neg hdone]
    rfl
  | succ n ih =>
    have hmore : (taken : Int) < count := by omega
    rw [skipWhile, if_pos hmore, skipFrom]
    cases q.pop with
    | mk d q =>
      cases d with
      | none => rfl
      | some d => exact ih (taken + 1) q (by omega)

theorem skipWhile_zero (count : Int) (q : Queue) : q.skipWhile count 0 = q.skip count.toNat := by
  rw [skipWhile_eq, skip]
  simp

/-- A queue of which `n` durations were asked for, be there as many or not. -/
def reached (c : Cursor) (n : Nat) : Queue := past c (c.take n).length

variable {c : Cursor} {k n : Nat} {q : Queue} {r : Run} {separator text : String}

@[simp] theorem consumed_reached (c : Cursor) (n : Nat) : (reached c n).consumed = (c.take n).length :=
  consumed_past _ _

@[simp] theorem peek_reached (c : Cursor) (n : Nat) : (reached c n).peek = c.nth? n := by
  rw [← Cursor.nth?_length_take]
  exact upcoming_past _ _

theorem reached_of_none (h : c.nth? n = none) (hk : n ≤ k) : reached c k = reached c n := by
  rw [reached, reached, Cursor.length_take_of_none h hk]

theorem pop_reached (c : Cursor) (n : Nat) : (reached c n).pop = (c.nth? n,reached c (n + 1)) := by
  cases hn : c.nth? n with
  | none =>
    rw [pop_of_none (by rw [peek_reached, hn]), reached_of_none hn (Nat.le_succ n)]
  | some d =>
    have hlength := Cursor.length_take_of_some hn
    have hnext : (c.take (n + 1)).length = n + 1 := by simp [Cursor.take_succ, hlength, hn]
    rw [reached, reached, hlength, hnext, pop_past hn]

theorem skipFrom_reached (c : Cursor) (taken k n : Nat) : skipFrom taken k (reached c n) =
    (taken + ((c.take (n + k)).length - (c.take n).length),reached c (n + k)) := by
  induction k generalizing taken n with
  | zero => simp [skipFrom]
  | succ k ih =>
    rw [skipFrom, pop_reached]
    cases hn : c.nth? n with
    | none =>
      have hlater : n ≤ n + (k + 1) := Nat.le_add_right _ _
      rw [reached_of_none hn hlater, Cursor.length_take_of_none hn hlater]
      simp [reached_of_none hn (Nat.le_succ n)]
    | some d =>
      have hlength := Cursor.length_take_of_some hn
      have hnext : (c.take (n + 1)).length = n + 1 := by simp [Cursor.take_succ, hlength, hn]
      have hmono := Cursor.length_take_mono c (show n + 1 ≤ n + 1 + k by omega)
      have hsum : n + (k + 1) = n + 1 + k := by omega
      simp only [ih, hsum, Prod.mk.injEq, and_true]
      omega

theorem skipWhile_reached (c : Cursor) (count : Int) (n : Nat) : (reached c n).skipWhile count 0 =
    ((c.take (n + count.toNat)).length - (c.take n).length,reached c (n + count.toNat)) := by
  rw [skipWhile_zero, skip, skipFrom_reached, Nat.zero_add]

/-- One request. -/
theorem serve_reached (c : Cursor) (n : Nat) (x : Request) :
    (reached c n).serve x = (x.answer c n,reached c (n + x.demand)) := by
  cases x with
  | pop => rw [serve, pop_reached]; rfl
  | peek => rw [serve, peek_reached]; rfl
  | skip m => rw [serve, skipWhile_reached]; rfl

theorem serveAll_reached (c : Cursor) (n : Nat) (xs : List Request) :
    (reached c n).serveAll xs = (answers c n xs,reached c (n + demands xs)) := by
  induction xs generalizing n with
  | nil => rfl
  | cons x xs ih =>
    have hdemands : n + demands (x :: xs) = n + x.demand + demands xs := by
      simp [demands, Nat.add_assoc]
    simp only [serveAll, serve_reached, ih, answers, hdemands]

theorem answers_atEnd (h : c.nth? n = none) (xs : List Request) :
    answers c n xs = xs.map Request.atEnd := by
  induction xs generalizing n with
  | nil => rfl
  | cons x xs ih =>
    have hlater := Cursor.nth?_none h (Nat.le_add_right n x.demand)
    have hfirst : x.answer c n = x.atEnd := by
      cases x with
      | pop | peek => exact congrArg Answer.duration h
      | skip m =>
        rw [Request.answer, Cursor.length_take_of_none h (Nat.le_add_right _ _), Nat.sub_self]
        rfl
    rw [answers, hfirst, ih hlater]
    rfl

theorem answers_pops (c : Cursor) (k n : Nat) : answers c n (List.replicate k .pop) =
    (List.range' n k).map fun i => .duration (c.nth? i) := by
  induction k generalizing n with
  | zero => rfl
  | succ k ih => simp [List.replicate_succ, List.range'_succ, answers, Request.demand, Request.answer, ih]

theorem read_eq_ok (h : Queue.read separator text = .ok q) :
    ∃ r, Run.read separator text.toList = .ok r ∧ q = reached [r] 0 := by
  obtain ⟨r,hr,rfl⟩ := map_eq_ok.mp h
  exact ⟨r,hr,rfl⟩

/-- A queue answers any requests as its text says. Each duration that is popped or looked at is the one
after those that were asked for before, and a skip says how many more there were of those that it asks
for. As many durations are taken as were asked for, or all; skipping in two parts is skipping at once;
and at the end the queue stays as it is. -/
theorem serves_in_order (h : Queue.read separator text = .ok q) :
    ∃ r, Run.read separator text.toList = .ok r ∧
      (∀ k, (q.serveAll (List.replicate k .pop)).1 =
        (List.range k).map fun i => .duration (Cursor.nth? [r] i)) ∧
      ∀ xs : List Request,
        let p := (q.serveAll xs).2
        (q.serveAll xs).1 = answers [r] 0 xs ∧
        (p.consumed : ℕ∞) = min (demands xs : ℕ∞) r.playlist.length ∧
        p.peek = Cursor.nth? [r] p.consumed ∧
        (∀ a b : Int, 0 ≤ a → 0 ≤ b →
          let first := p.skipWhile a 0
          let second := first.2.skipWhile b 0
          p.skipWhile (a + b) 0 = (first.1 + second.1,second.2)) ∧
        (p.peek = none → ∀ ys, p.serveAll ys = (ys.map Request.atEnd,p)) := by
  obtain ⟨r,hr,rfl⟩ := read_eq_ok h
  refine ⟨r,hr,fun k => ?_,fun xs => ?_⟩
  · rw [serveAll_reached, answers_pops, List.range_eq_range']
  · simp only [serveAll_reached, Nat.zero_add]
    generalize demands xs = n
    refine ⟨trivial,?_,?_,fun a b ha hb => ?_,fun hend ys => ?_⟩
    · rw [consumed_reached, r.take_playlist, Playlist.length_take]
    · rw [peek_reached, consumed_reached, Cursor.nth?_length_take]
    · have hcount : n + (a + b).toNat = n + a.toNat + b.toNat := by omega
      have hfirst := Cursor.length_take_mono [r] (show n ≤ n + a.toNat by omega)
      have hsecond := Cursor.length_take_mono [r] (show n + a.toNat ≤ n + a.toNat + b.toNat by omega)
      simp only [skipWhile_reached, hcount, Prod.mk.injEq, and_true]
      omega
    · rw [peek_reached] at hend
      rw [answers_atEnd hend, reached_of_none hend (Nat.le_add_right _ _)]

/-- Two of three seconds are left to be skipped, and then none. -/
theorem serves_in_order_thrice : ∃ q, Queue.read ":" "1s * 3" = .ok q ∧
    (q.serveAll [.skip (-1),.pop,.skip 5,.peek]).1 =
      [.taken 0,.duration (some 1000),.taken 2,.duration none] ∧
    (q.serveAll [.skip (-1),.pop,.skip 5,.peek]).2.consumed = 3 := by
  have hread : Run.read ":" "1s * 3".toList = .ok (.again (.one 1000) (some 2)) := rfl
  have hqueue : Queue.read ":" "1s * 3" = .ok (ofCursor 0 [.again (.one 1000) (some 2)]) := by
    rw [Queue.read, hread]
    rfl
  obtain ⟨r,hr,-,hall⟩ := serves_in_order hqueue
  rw [hread] at hr
  cases hr
  obtain ⟨hanswers,hconsumed,-⟩ := hall [.skip (-1),.pop,.skip 5,.peek]
  refine ⟨_,hqueue,?_,?_⟩
  · rw [hanswers]
    decide
  · have hthree : min (demands [.skip (-1),.pop,.skip 5,.peek] : ℕ∞)
        (Run.again (.one 1000) (some 2)).playlist.length = (3 : Nat) := by decide
    rw [hthree] at hconsumed
    exact_mod_cast hconsumed

end Queue
end Countdown
