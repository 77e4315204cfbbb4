import Countdown.Sequence.Run
set_option autoImplicit false

namespace Countdown

namespace Sequence

def Run.All (P : Int → Prop) : Run → Prop
  | .one ms => P ms
  | .append a b => a.All P ∧ b.All P
  | .again r _ => r.All P

theorem Run.uncons_all {P : Int → Prop} {r : Run} {next : Cursor} (h : r.All P)
    (hnext : ∀ x ∈ next, x.All P) :
    P (r.uncons next).1 ∧ ∀ x ∈ (r.uncons next).2, x.All P := by
  induction r generalizing next with
  | one ms => exact ⟨h,hnext⟩
  | append a b iha _ =>
    apply iha h.1
    intro x hx
    obtain rfl | hx := List.mem_cons.mp hx
    · exact h.2
    · exact hnext x hx
  | again r more ih =>
    apply ih h
    intro x hx
    obtain hx | hx := List.mem_append.mp hx
    · -- what is left of a repetition repeats the same run
      have hrest : x.All P := by
        rcases more with _ | _ | m
        · rw [List.mem_singleton.mp hx]
          exact h
        · contradiction
        · rw [List.mem_singleton.mp hx]
          exact h
      exact hrest
    · exact hnext x hx

end Sequence

namespace Sequence.Cursor

def drop : Nat → Cursor → Cursor
  | 0, c => c
  | n + 1, c => match next? c with
    | none => []
    | some (_, c) => drop n c

def nth? (c : Cursor) (i : Nat) : Option Int := (take (i + 1) c)[i]?

def total (c : Cursor) (n : Nat) : Int := (take n c).foldl (· + ·) 0

@[simp] theorem next?_nil : next? [] = none := rfl

@[simp] theorem take_nil (n : Nat) : take n [] = [] := by
  cases n <;> rfl

@[simp] theorem drop_nil (n : Nat) : drop n [] = [] := by
  cases n <;> rfl

theorem drop_succ (n : Nat) (c : Cursor) : drop (n + 1) c = drop 1 (drop n c) := by
  induction n generalizing c with
  | zero => rfl
  | succ n ih =>
    cases h : next? c with
    | none => simp [drop, h]
    | some p =>
      have hstep : ∀ m, drop (m + 1) c = drop m p.2 := fun m => by simp [drop, h]
      rw [hstep, hstep]
      exact ih p.2

theorem nth?_eq (c : Cursor) (i : Nat) : nth? c i = (next? (drop i c)).map (·.1) := by
  unfold nth?
  induction i generalizing c with
  | zero =>
    cases h : next? c with
    | none => simp [take, drop, h]
    | some p => simp [take, drop, h]
  | succ i ih =>
    cases h : next? c with
    | none => simp [take, drop, h]
    | some p =>
      have hi := ih p.2
      simp only [drop, h]
      rw [← hi]
      conv => lhs; unfold take
      simp [h]

theorem drop_drop (i n : Nat) (c : Cursor) : drop i (drop n c) = drop (n + i) c := by
  induction i with
  | zero => rfl
  | succ i ih => rw [drop_succ, ih, ← Nat.add_assoc, drop_succ (n + i)]

theorem nth?_drop (i n : Nat) (c : Cursor) : nth? (drop n c) i = nth? c (n + i) := by
  rw [nth?_eq, nth?_eq, drop_drop]

theorem drop_all {P : Int → Prop} {c : Cursor} (h : ∀ x ∈ c, x.All P) (n : Nat) :
    ∀ x ∈ drop n c, x.All P := by
  induction n generalizing c with
  | zero => exact h
  | succ n ih =>
    cases c with
    | nil => simp
    | cons r next =>
      have hnext : ∀ x ∈ next, x.All P := fun x hx => h x (by simp [hx])
      exact ih (Run.uncons_all (h r (by simp)) hnext).2

/-- Every duration of a cursor is one of the single durations of its runs. -/
theorem nth?_all {P : Int → Prop} {c : Cursor} (h : ∀ x ∈ c, x.All P) {i : Nat} {d : Int}
    (hd : nth? c i = some d) : P d := by
  rw [nth?_eq] at hd
  have hall := drop_all h i
  cases hc : drop i c with
  | nil => simp [hc] at hd
  | cons r next =>
    rw [hc] at hall hd
    cases hd
    have hnext : ∀ x ∈ next, x.All P := fun x hx => hall x (by simp [hx])
    exact (Run.uncons_all (hall r (by simp)) hnext).1

theorem take_succ (n : Nat) (c : Cursor) : take (n + 1) c = take n c ++ (nth? c n).toList := by
  induction n generalizing c with
  | zero =>
    cases h : next? c with
    | none => simp [take, nth?, h]
    | some p => simp [take, nth?, h]
  | succ n ih =>
    cases h : next? c with
    | none => simp [take, nth?, h]
    | some p =>
      have hn : nth? c (n + 1) = nth? p.2 n := by
        simp only [nth?_eq, drop, h]
      have hstep : ∀ m, take (m + 1) c = p.1 :: take m p.2 := fun m => by simp [take, h]
      rw [hstep, hstep, hn, ih p.2, List.cons_append]

@[simp] theorem total_zero (c : Cursor) : total c 0 = 0 := rfl

theorem total_succ (c : Cursor) (n : Nat) : total c (n + 1) = total c n + (nth? c n).getD 0 := by
  cases h : nth? c n <;> simp [total, take_succ, h, List.foldl_append]

theorem nth?_none {c : Cursor} {i j : Nat} (h : nth? c i = none) (hij : i ≤ j) :
    nth? c j = none := by
  induction j with
  | zero =>
    have hi : i = 0 := by omega
    rw [← hi]
    exact h
  | succ j ih =>
    by_cases hj : i = j + 1
    · rw [← hj]
      exact h
    · have hlast := ih (by omega)
      rw [nth?_eq, Option.map_eq_none_iff] at hlast ⊢
      rw [drop_succ]
      simp [drop, hlast]

theorem nth?_before {c : Cursor} {i j : Nat} (h : (nth? c j).isSome = true) (hij : i ≤ j) :
    ∃ d, nth? c i = some d := by
  cases hi : nth? c i with
  | some d => exact ⟨d,rfl⟩
  | none =>
    rw [nth?_none hi hij] at h
    contradiction

theorem total_mono {c : Cursor} (hpos : ∀ i d, nth? c i = some d → 0 < d) {m n : Nat}
    (h : m ≤ n) : total c m ≤ total c n := by
  induction n with
  | zero =>
    obtain rfl : m = 0 := by omega
    exact Int.le_refl _
  | succ n ih =>
    by_cases hm : m = n + 1
    · subst hm
      exact Int.le_refl _
    · have hle := ih (by omega)
      rw [total_succ]
      cases hn : nth? c n with
      | none => simpa using hle
      | some d =>
        have hd := hpos n d hn
        rw [Option.getD_some]
        omega

end Sequence.Cursor

namespace Queue
open Sequence

@[simp] theorem consumed_ofCursor (n : Nat) (c : Cursor) : (ofCursor n c).consumed = n := by
  unfold ofCursor
  split <;> rfl

/-- A queue that has handed out the first durations of a cursor. -/
def past (c : Cursor) (n : Nat) : Queue := ofCursor n (c.drop n)

@[simp] theorem consumed_past (c : Cursor) (n : Nat) : (past c n).consumed = n := consumed_ofCursor _ _

@[simp] theorem upcoming_past (c : Cursor) (n : Nat) : (past c n).upcoming = c.nth? n := by
  unfold past ofCursor
  rw [Cursor.nth?_eq]
  split <;> rename_i h <;> rw [h] <;> rfl

theorem pop_past {c : Cursor} {n : Nat} {d : Int} (h : c.nth? n = some d) :
    (past c n).pop = (some d,past c (n + 1)) := by
  have hup : (past c n).upcoming = some d := by rw [upcoming_past, h]
  have hrest : (past c n).rest = c.drop (n + 1) := by
    rw [Cursor.nth?_eq] at h
    obtain ⟨p,hp,-⟩ := Option.map_eq_some_iff.mp h
    rw [Cursor.drop_succ]
    simp [past, ofCursor, hp, Cursor.drop]
  simp only [pop, hup, consumed_past, hrest]
  rfl

theorem pop_of_none {q : Queue} (h : q.peek = none) : q.pop = (none,q) := by
  have hnone : q.upcoming = none := h
  simp [pop, hnone]

theorem pop_of_peek {q : Queue} {d : Int} (h : q.peek = some d) : q.pop = (some d,q.pop.2) := by
  have hsome : q.upcoming = some d := h
  simp [pop, hsome]

theorem peek_of_pop {q q' : Queue} {d : Int} (h : q.pop = (some d,q')) : q.peek = some d := by
  unfold Queue.pop at h
  split at h
  · cases h
  · rename_i ms hms
    cases h
    exact hms

theorem consumed_pop {q : Queue} {d : Int} (h : q.peek = some d) : q.pop.2.consumed = q.consumed + 1 := by
  have hsome : q.upcoming = some d := h
  simp [pop, hsome]

structure Positive (q : Queue) : Prop where
  upcoming : ∀ d, q.upcoming = some d → 0 < d
  rest : ∀ (i : Nat) (d : Int), q.rest.nth? i = some d → 0 < d

theorem positive_ofCursor {c : Cursor} (h : ∀ i d, c.nth? i = some d → 0 < d) (n : Nat) :
    (ofCursor n c).Positive := by
  unfold ofCursor
  split
  · exact ⟨by simp,by simp [Cursor.nth?]⟩
  · rename_i ms rest hc
    constructor
    · intro d hd
      cases hd
      exact h 0 ms (by simp [Cursor.nth?_eq, Cursor.drop, hc])
    · intro i d hd
      have hrest : rest = c.drop 1 := by simp [Cursor.drop, hc]
      rw [hrest, Cursor.nth?_drop] at hd
      exact h (1 + i) d hd

theorem positive_past {c : Cursor} (h : ∀ i d, c.nth? i = some d → 0 < d) (n : Nat) :
    (past c n).Positive := by
  refine positive_ofCursor (fun i d hd => ?_) n
  rw [Cursor.nth?_drop] at hd
  exact h (n + i) d hd

theorem Positive.pop {q q' : Queue} {d : Int} (h : q.Positive) (hp : q.pop = (some d,q')) :
    0 < d ∧ q'.Positive := by
  unfold Queue.pop at hp
  split at hp
  · cases hp
  · rename_i ms hms
    cases hp
    exact ⟨h.upcoming d hms,positive_ofCursor h.rest _⟩

end Queue
end Countdown
