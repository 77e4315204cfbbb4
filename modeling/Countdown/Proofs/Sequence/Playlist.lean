import Countdown.Sequence.Run
set_option autoImplicit false

namespace Countdown.Sequence

/-- Durations in order, which may never end. -/
inductive Playlist where
  | ends (ds : List Int)
  | endless (d : Nat → Int)

namespace Playlist

variable {p p' q q' r : Playlist} {k n : Nat}

def take (k : Nat) : Playlist → List Int
  | ends ds => ds.take k
  | endless d => (List.range k).map d

def append : Playlist → Playlist → Playlist
  | ends as, ends bs => ends (as ++ bs)
  | ends as, endless d => endless fun i => as[i]?.getD (d (i - as.length))
  | endless d, _ => endless d

def times (p : Playlist) : (n : Nat) → Playlist
  | 0 => ends []
  | n + 1 => p.append (times p n)

def forever : Playlist → Playlist
  | ends [] => ends []
  | ends (d :: ds) => endless fun i => (d :: ds)[i % (d :: ds).length]?.getD 0
  | endless d => endless d

def Nonempty (p : Playlist) : Prop := p.take 1 ≠ []

@[simp] theorem take_zero (p : Playlist) : p.take 0 = [] := by
  cases p <;> simp [take]

@[simp] theorem take_ends (ds : List Int) : (ends ds).take k = ds.take k := rfl

theorem take_append (p q : Playlist) (k : Nat) :
    (p.append q).take k = p.take k ++ q.take (k - (p.take k).length) := by
  cases p with
  | ends as =>
    have hleft : k - (as.take k).length = k - as.length := by
      rw [List.length_take]
      omega
    cases q with
    | ends bs => simp only [append, take, List.take_append, hleft]
    | endless d =>
      simp only [append, take, hleft]
      apply List.ext_getElem
      · simp
        omega
      · intro i hi hi'
        simp only [List.getElem_map, List.getElem_range, List.getElem_append, List.length_take]
        have hik : i < k := by simpa using hi
        split
        · rename_i h
          have hlen : i < as.length := by omega
          simp [hlen]
        · rename_i h
          have hlen : as.length ≤ i := by omega
          have hmin : i - min k as.length = i - as.length := by omega
          simp [hlen, hmin]
  | endless d => cases q <;> simp [append, take]

theorem take_forever (p : Playlist) (k : Nat) : p.forever.take k = (p.append p.forever).take k := by
  cases p with
  | ends ds =>
    cases ds with
    | nil => simp [forever, append, take]
    | cons d ds =>
      simp only [forever, append, take]
      refine List.map_congr_left fun i _ => ?_
      by_cases hi : i < (d :: ds).length
      · rw [Nat.mod_eq_of_lt hi, List.getElem?_eq_getElem hi]
        rfl
      · have hmod : i % (d :: ds).length = (i - (d :: ds).length) % (d :: ds).length :=
          Nat.mod_eq_sub_mod (Nat.le_of_not_lt hi)
        rw [hmod, List.getElem?_eq_none (Nat.le_of_not_lt hi), Option.getD_none]
  | endless d => rfl

theorem Nonempty.length_pos (h : p.Nonempty) (hk : 0 < k) : 0 < (p.take k).length := by
  cases p with
  | ends ds =>
    cases ds with
    | nil => exact absurd rfl h
    | cons d ds =>
      simp [take]
      omega
  | endless d => simpa [take] using hk

/-- The first `n` elements are the same. -/
def Agree (n : Nat) (p q : Playlist) : Prop := ∀ k, k ≤ n → p.take k = q.take k

theorem Agree.refl (n : Nat) (p : Playlist) : Agree n p p := fun _ _ => rfl

theorem Agree.symm (h : Agree n p q) : Agree n q p := fun k hk => (h k hk).symm

theorem Agree.trans (h : Agree n p q) (h' : Agree n q r) : Agree n p r :=
  fun k hk => (h k hk).trans (h' k hk)

theorem Agree.append (hp : Agree n p p') (hq : Agree n q q') : Agree n (p.append q) (p'.append q') := by
  intro k hk
  rw [take_append, take_append, hp k hk, hq _ (by omega)]

theorem agree_append_assoc (n : Nat) (p q r : Playlist) :
    Agree n ((p.append q).append r) (p.append (q.append r)) := by
  intro k _
  simp only [take_append, List.append_assoc, List.length_append, Nat.sub_sub]

theorem agree_append_nil (n : Nat) (p : Playlist) : Agree n (p.append (ends [])) p := by
  intro k _
  simp [take_append]

theorem agree_nil_append (n : Nat) (p : Playlist) : Agree n ((ends []).append p) p := by
  intro k _
  simp [take_append]

theorem agree_forever (n : Nat) (p : Playlist) : Agree n p.forever (p.append p.forever) :=
  fun k _ => take_forever p k

theorem Agree.times (h : Agree n p q) (m : Nat) : Agree n (p.times m) (q.times m) := by
  induction m with
  | zero => exact Agree.refl n (ends [])
  | succ m ih => exact h.append ih

/-- The first round is not empty, so that less is left to compare of the others. -/
theorem Agree.forever (h : Agree n p q) (hp : p.Nonempty) : Agree n p.forever q.forever := by
  intro k
  induction k using Nat.strongRecOn with
  | ind k ih =>
    intro hk
    by_cases hzero : k = 0
    · simp [hzero]
    · have hround := hp.length_pos (Nat.pos_of_ne_zero hzero)
      rw [take_forever p, take_forever q, take_append, take_append, ← h k hk, ih _ (by omega) (by omega)]

theorem agree_times_forever (hp : p.Nonempty) (n : Nat) : Agree n (p.times n) p.forever := by
  induction n with
  | zero =>
    intro k hk
    simp [Nat.le_zero.mp hk]
  | succ n ih =>
    intro k hk
    by_cases hzero : k = 0
    · simp [hzero]
    · have hround := hp.length_pos (Nat.pos_of_ne_zero hzero)
      rw [take_forever, take_append, Playlist.times, take_append, ih _ (by omega)]

theorem Agree.mono {m : Nat} (h : Agree n p q) (hm : m ≤ n) : Agree m p q :=
  fun k hk => h k (Nat.le_trans hk hm)

/-- More rounds than elements make no difference. -/
theorem agree_times_min (hp : p.Nonempty) (n m : Nat) : Agree n (p.times (min m n)) (p.times m) := by
  by_cases hm : m ≤ n
  · rw [Nat.min_eq_left hm]
    exact Agree.refl n (p.times m)
  · have hn : n ≤ m := by omega
    rw [Nat.min_eq_right hn]
    exact (agree_times_forever hp n).trans ((agree_times_forever hp m).mono hn).symm

end Playlist

open Playlist

def Run.playlist : Run → Playlist
  | .one ms => .ends [ms]
  | .append a b => a.playlist.append b.playlist
  | .again r none => r.playlist.forever
  | .again r (some m) => r.playlist.times (m + 1)

def Cursor.playlist (c : Cursor) : Playlist := c.foldr (fun r p => r.playlist.append p) (.ends [])

theorem Cursor.playlist_cons (r : Run) (c : Cursor) :
    playlist (r :: c) = r.playlist.append (playlist c) := rfl

theorem Cursor.agree_append (n : Nat) (c c' : Cursor) :
    Agree n (playlist (c ++ c')) ((playlist c).append (playlist c')) := by
  induction c with
  | nil => exact (agree_nil_append n (playlist c')).symm
  | cons r c ih => exact ((Agree.refl n r.playlist).append ih).trans (agree_append_assoc n _ _ _).symm

theorem Run.agree_again (n : Nat) (r : Run) (more : Option Nat) :
    Agree n (again r more).playlist (r.playlist.append (Cursor.playlist (r.rest more))) := by
  have hround := Agree.refl n r.playlist
  cases more with
  | none => exact (agree_forever n r.playlist).trans (hround.append (agree_append_nil n _).symm)
  | some m =>
    cases m with
    | zero => exact Agree.refl n _
    | succ m => exact hround.append (agree_append_nil n (r.playlist.times (m + 1))).symm

theorem Run.take_uncons (r : Run) (next : Cursor) (k : Nat) :
    (Cursor.playlist (r :: next)).take (k + 1) =
      (r.uncons next).1 :: (Cursor.playlist (r.uncons next).2).take k := by
  induction r generalizing next with
  | one ms => simp [Cursor.playlist_cons, uncons, playlist, take_append]
  | append a b iha _ =>
    rw [uncons, ← iha]
    exact agree_append_assoc (k + 1) a.playlist b.playlist (Cursor.playlist next) _ (Nat.le_refl _)
  | again r more ih =>
    -- what is left of the repetition comes before the runs that follow it
    have hround := (r.agree_again (k + 1) more).append (Agree.refl (k + 1) (Cursor.playlist next))
    have hrest := (Cursor.agree_append (k + 1) (r.rest more) next).symm
    rw [uncons, ← ih]
    exact (hround.trans (agree_append_assoc (k + 1) _ _ _)).trans ((Agree.refl _ _).append hrest)
      (k + 1) (Nat.le_refl _)

theorem Run.nonempty_playlist (r : Run) : r.playlist.Nonempty := by
  have hfirst := r.take_uncons [] 0
  have hall := agree_append_nil 1 r.playlist 1 (Nat.le_refl _)
  intro hnone
  rw [Cursor.playlist_cons, Cursor.playlist, List.foldr_nil, hall, hnone] at hfirst
  contradiction

theorem Cursor.take_playlist (k : Nat) (c : Cursor) : (playlist c).take k = take k c := by
  induction k generalizing c with
  | zero => simp [take]
  | succ k ih =>
    cases c with
    | nil => rfl
    | cons r next =>
      rw [r.take_uncons, ih]
      rfl

/-- A cursor hands out the list of its run. -/
theorem Run.take_playlist (r : Run) (k : Nat) : Cursor.take k [r] = r.playlist.take k := by
  rw [← Cursor.take_playlist, Cursor.playlist_cons]
  exact agree_append_nil k r.playlist k (Nat.le_refl k)

end Countdown.Sequence
