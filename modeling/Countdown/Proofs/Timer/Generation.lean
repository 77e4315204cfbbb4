import Countdown.Proofs.Timer.Alarm
set_option autoImplicit false

/-!
The generations of wakes. Each wake is of a later generation than those before it, and only the latest
one can be of the alarm's own generation: it is the wake that the alarm waits for, or a check of it is
under way.
-/

namespace Countdown

namespace Timeline

def generations (t : Timeline) : List Nat := t.wakes.map (·.generation)

theorem generations_modify (t : Timeline) (i : Nat) {f : Wake → Wake} (hf : ∀ v, (f v).generation = v.generation) :
    (t.wakes.modify i f).map (·.generation) = t.generations := by
  rw [generations]
  apply List.ext_getElem?
  intro j
  simp only [List.getElem?_map, List.getElem?_modify]
  by_cases hij : i = j
  · subst hij
    cases t.wakes[i]? <;> simp [hf]
  · simp [hij]

@[simp] theorem generations_markFired (t : Timeline) (i : Nat) : (t.markFired i).generations = t.generations :=
  generations_modify t i fun v => by split <;> rfl

@[simp] theorem generations_schedule (t : Timeline) (n g : Nat) (wait : Int) :
    (t.schedule n g wait).generations = t.generations ++ [g] := by
  simp [generations, schedule]

end Timeline

namespace Alarm
open Timeline

@[simp] theorem generations_cancelled (a : Alarm) (t : Timeline) :
    (a.cancelled t).generations = t.generations := by
  unfold cancelled
  split
  · exact generations_modify t _ fun v => by split <;> rfl
  · rfl

/-- How an alarm and the wakes on its timeline fit together while checks of some generations are under
way. -/
structure Tracks (a : Alarm) (t : Timeline) (busy : Nat → Prop) : Prop where
  rising : t.generations.Pairwise (· < ·)
  bound : ∀ g ∈ t.generations, g ≤ a.generation
  live : ∀ (i : Nat) (v : Wake), t.wakes[i]? = some v → (v.status = .pending ↔ a.pending = some i)
  held : ∀ i, a.pending = some i → a.closed = false ∧ t.generations[i]? = some a.generation
  current : ∀ i, t.generations[i]? = some a.generation →
    a.closed = false ∧ (a.pending = some i ∨ busy a.generation)

variable {a : Alarm} {t : Timeline} {busy busy' : Nat → Prop} {i j : Nat} {v : Wake}

theorem tracks_empty (h : t.wakes = []) : ({} : Alarm).Tracks t busy where
  rising := by simp [generations, h]
  bound := by simp [generations, h]
  live := by simp [h]
  held := by simp
  current := by simp [generations, h]

theorem Tracks.mono (k : a.Tracks t busy) (h : busy a.generation → busy' a.generation) : a.Tracks t busy' :=
  { k with current := fun i hi => ⟨(k.current i hi).1,(k.current i hi).2.imp_right h⟩ }

theorem Tracks.setClock (k : a.Tracks t busy) (now : Int) : a.Tracks { t with now := now } busy :=
  ⟨k.rising,k.bound,k.live,k.held,k.current⟩

theorem getElem?_generations (h : t.wakes[i]? = some v) : t.generations[i]? = some v.generation := by
  simp [generations, h]

/-- No two wakes are of one generation. -/
theorem Tracks.injective (k : a.Tracks t busy) {g : Nat} (hi : t.generations[i]? = some g)
    (hj : t.generations[j]? = some g) : i = j := by
  obtain ⟨hi,hig⟩ := List.getElem?_eq_some_iff.mp hi
  obtain ⟨hj,hjg⟩ := List.getElem?_eq_some_iff.mp hj
  have hrising := List.pairwise_iff_getElem.mp k.rising
  obtain h | h | h := Nat.lt_trichotomy i j
  · have := hrising i j hi hj h
    omega
  · exact h
  · have := hrising j i hj hi h
    omega

/-- One wake is pending if the alarm waits for one, and else none is. -/
theorem Tracks.length_pending (k : a.Tracks t busy) :
    t.pending.length = if a.isArmed then 1 else 0 := by
  unfold Timeline.pending isArmed
  cases hp : a.pending with
  | none =>
    have hnone : t.wakes.filter (fun w => w.status = .pending) = [] := by
      rw [List.filter_eq_nil_iff]
      intro v hv
      obtain ⟨i,hi⟩ := List.getElem?_of_mem hv
      simpa [hp] using k.live i v hi
    simp [hnone]
  | some i =>
    obtain ⟨v,hv,-⟩ : ∃ v, t.wakes[i]? = some v ∧ v.generation = a.generation := by
      simpa [generations] using (k.held i hp).2
    have hone : t.wakes.filter (fun w => w.status = .pending) = [v] := by
      apply filter_eq_singleton hv
      · simpa [hp] using k.live i v hv
      · intro j u hu hpend
        have hj := (k.live j u hu).mp (by simpa using hpend)
        rw [hp] at hj
        exact (Option.some.inj hj).symm
    simp [hone]

theorem Tracks.not_pending (k : a.Tracks t busy) (h : (a.cancelled t).wakes[i]? = some v) :
    v.status ≠ .pending := by
  unfold cancelled at h
  split at h
  · rename_i j hj
    simp only [cancel, List.getElem?_modify] at h
    obtain ⟨u,hu,rfl⟩ := Option.map_eq_some_iff.mp h
    by_cases hp : u.status = .pending
    · have hi := (k.live i u hu).mp hp
      rw [hj] at hi
      simp [Option.some.inj hi, hp]
    · split
      · simp [hp]
      · exact hp
  · rename_i hnone
    simp [k.live i v h, hnone]

theorem Tracks.lt_succ (k : a.Tracks t busy) {g : Nat} (h : (a.cancelled t).generations[i]? = some g) :
    g < a.generation + 1 := by
  rw [generations_cancelled] at h
  exact Nat.lt_succ_of_le (k.bound g (List.mem_of_getElem? h))

theorem Tracks.renewed (k : a.Tracks t busy) (closed : Bool) :
    Tracks { a.renewed with closed := closed } (a.cancelled t) busy' where
  rising := by simpa using k.rising
  bound g hg := by
    obtain ⟨i,hi⟩ := List.getElem?_of_mem hg
    exact Nat.le_of_lt (k.lt_succ hi)
  live i v hi := by simp [Alarm.renewed, k.not_pending hi]
  held i hi := by simp [Alarm.renewed] at hi
  current i hi := absurd (k.lt_succ hi) (Nat.lt_irrefl _)

theorem Tracks.schedule (k : a.Tracks t busy) (h : a.closed = false) (n : Nat) (wait : Int) :
    Tracks { a.renewed with pending := some t.wakes.length }
      ((a.cancelled t).schedule n a.renewed.generation wait) busy' := by
  have hlength : (a.cancelled t).generations.length = t.wakes.length := by simp [generations]
  constructor
  · rw [generations_schedule, List.pairwise_append]
    refine ⟨by simpa using k.rising,by simp,fun g hg g' hg' => ?_⟩
    obtain ⟨i,hi⟩ := List.getElem?_of_mem hg
    rw [List.mem_singleton.mp hg']
    exact k.lt_succ hi
  · intro g hg
    rw [generations_schedule] at hg
    obtain hg | hg := List.mem_append.mp hg
    · obtain ⟨i,hi⟩ := List.getElem?_of_mem hg
      exact Nat.le_of_lt (k.lt_succ hi)
    · exact Nat.le_of_eq (List.mem_singleton.mp hg)
  · intro i v hi
    simp only [Timeline.schedule, List.getElem?_append, length_cancelled] at hi
    split at hi
    · rename_i hlt
      have hne : t.wakes.length ≠ i := by omega
      simp [k.not_pending hi, hne]
    · rename_i hge
      have hlt := (List.getElem?_eq_some_iff.mp hi).1
      have hone := List.mem_of_getElem? hi
      simp only [List.length_singleton] at hlt
      simp only [List.mem_singleton] at hone
      have : t.wakes.length = i := by omega
      simp [hone, this]
  · intro i hi
    cases hi
    refine ⟨h,?_⟩
    rw [generations_schedule, ← hlength, List.getElem?_concat_length]
  · intro i hi
    refine ⟨h,Or.inl ?_⟩
    rw [generations_schedule, List.getElem?_append] at hi
    split at hi
    · exact absurd (k.lt_succ hi) (Nat.lt_irrefl _)
    · have hlt := (List.getElem?_eq_some_iff.mp hi).1
      simp only [List.length_singleton] at hlt
      have : t.wakes.length = i := by omega
      rw [this]

/-- Only the wake that the alarm waits for is pending, and that one is not stale. -/
theorem Tracks.stale (k : a.Tracks t busy) (hv : t.wakes[i]? = some v)
    (h : a.isStale (some v.generation) = true) : v.status ≠ .pending := by
  intro hp
  obtain ⟨hopen,hg⟩ := k.held i ((k.live i v hv).mp hp)
  rw [getElem?_generations hv] at hg
  simp [isStale, hopen, Option.some.inj hg] at h

theorem Tracks.roused (k : a.Tracks t busy) (hv : t.wakes[i]? = some v)
    (h : a.isStale (some v.generation) = false) (hbusy : busy' v.generation) :
    Tracks { a with pending := none } (t.markFired i) busy' := by
  have hgen : v.generation = a.generation := by
    simp only [isStale, Option.any_some, Bool.or_eq_false_iff, bne_eq_false_iff_eq] at h
    exact h.2
  constructor
  · simpa using k.rising
  · simpa using k.bound
  · intro j u hu
    simp only [markFired, List.getElem?_modify] at hu
    obtain ⟨w,hw,rfl⟩ := Option.map_eq_some_iff.mp hu
    by_cases hp : w.status = .pending
    · -- only wake `i` is of the alarm's generation
      have hheld := (k.held j ((k.live j w hw).mp hp)).2
      rw [← hgen] at hheld
      simp [k.injective (getElem?_generations hv) hheld, hp]
    · split
      · simp [hp]
      · simp [hp]
  · simp
  · intro j hj
    rw [generations_markFired] at hj
    refine ⟨(k.current j hj).1,Or.inr ?_⟩
    change busy' a.generation
    rw [← hgen]
    exact hbusy

end Alarm

end Countdown
