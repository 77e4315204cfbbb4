import Countdown.Proofs.Timer.Announcement
set_option autoImplicit false

/-!
A timer is punctual when the wake it waits for is still to come but no later than its deadline, and
nothing that is due has been left out. Every operation leaves a timer punctual.
-/

namespace Countdown

namespace Timeline

theorem of_earliest {target : Int} {ws : List Wake} {best : Option (Nat × Wake)} {i j : Nat}
    {v : Wake} (h : earliest target best i ws = some (j,v)) :
    best = some (j,v) ∨ ∃ m, j = i + m ∧ ws[m]? = some v ∧ v.status = .pending ∧ v.due ≤ target := by
  induction ws generalizing best i with
  | nil => exact Or.inl h
  | cons w ws ih =>
    simp only [earliest] at h
    obtain h | ⟨m,rfl,hm,hv⟩ := ih h
    · split at h
      · rename_i hbetter
        cases h
        exact Or.inr ⟨0,rfl,rfl,hbetter.1,hbetter.2.1⟩
      · exact Or.inl h
    · exact Or.inr ⟨m + 1,by omega,hm,hv⟩

theorem earliest_isSome {target : Int} {ws : List Wake} {best : Option (Nat × Wake)} {i : Nat}
    (h : best.isSome = true ∨ ∃ v ∈ ws, v.status = .pending ∧ v.due ≤ target) :
    (earliest target best i ws).isSome = true := by
  induction ws generalizing best i with
  | nil =>
    obtain h | ⟨v,hv,-⟩ := h
    · exact h
    · contradiction
  | cons w ws ih =>
    simp only [earliest]
    apply ih
    split
    · exact Or.inl rfl
    · rename_i hnot
      obtain h | ⟨v,hv,hp,hd⟩ := h
      · exact Or.inl h
      · obtain rfl | hv := List.mem_cons.mp hv
        · -- a wake that is due is passed over only for another
          cases best with
          | some b => exact Or.inl rfl
          | none => exact absurd ⟨hp,hd,rfl⟩ hnot
        · exact Or.inr ⟨v,hv,hp,hd⟩

theorem of_next? {line : Timeline} {target : Int} {i : Nat} {v : Wake}
    (h : line.next? target = some (i,v)) :
    line.wakes[i]? = some v ∧ v.status = .pending ∧ v.due ≤ target := by
  obtain h | ⟨m,rfl,hm,hv⟩ := of_earliest h
  · contradiction
  · rw [Nat.zero_add]
    exact ⟨hm,hv⟩

theorem earliest_le {target : Int} {ws : List Wake} {best : Option (Nat × Wake)} {i j : Nat}
    {u v : Wake} (h : earliest target best i ws = some (j,v)) (hd : v.due ≤ target)
    (hu : (∃ m, best = some (m,u)) ∨ u ∈ ws ∧ u.status = .pending) : v.due ≤ u.due := by
  induction ws generalizing best i u with
  | nil =>
    obtain ⟨m,hm⟩ | ⟨hu,-⟩ := hu
    · rw [hm] at h
      cases h
      exact Int.le_refl _
    · contradiction
  | cons w ws ih =>
    simp only [earliest] at h
    split at h
    · rename_i hbetter
      have hw : v.due ≤ w.due := ih h (Or.inl ⟨i,rfl⟩)
      obtain ⟨m,hm⟩ | ⟨hu,hp⟩ := hu
      · have hbefore : w.due < u.due := by simpa [hm] using hbetter.2.2
        omega
      · obtain rfl | hu := List.mem_cons.mp hu
        · exact hw
        · exact ih h (Or.inr ⟨hu,hp⟩)
    · rename_i hnot
      obtain ⟨m,hm⟩ | ⟨hu,hp⟩ := hu
      · exact ih h (Or.inl ⟨m,hm⟩)
      · obtain rfl | hu := List.mem_cons.mp hu
        · -- it is too late, or there was one that is no later
          cases best with
          | none =>
            by_cases hlate : u.due ≤ target
            · exact absurd ⟨hp,hlate,rfl⟩ hnot
            · omega
          | some b =>
            by_cases hlate : u.due ≤ target
            · have hno : ¬ u.due < b.2.due := fun hlt => hnot ⟨hp,hlate,by simpa using hlt⟩
              have hb : v.due ≤ b.2.due := ih h (Or.inl ⟨b.1,rfl⟩)
              omega
            · omega
        · exact ih h (Or.inr ⟨hu,hp⟩)

theorem next?_le {line : Timeline} {target : Int} {i j : Nat} {u v : Wake}
    (h : line.next? target = some (i,v)) (hu : line.wakes[j]? = some u) (hp : u.status = .pending) :
    v.due ≤ u.due :=
  earliest_le h (of_next? h).2.2 (Or.inr ⟨List.mem_of_getElem? hu,hp⟩)

theorem lt_due_of_next?_none {line : Timeline} {target : Int} {i : Nat} {v : Wake}
    (h : line.next? target = none) (hv : line.wakes[i]? = some v) (hp : v.status = .pending) :
    target < v.due := by
  by_cases hlt : target < v.due
  · exact hlt
  · have hge : v.due ≤ target := Int.not_lt.mp hlt
    have hsome : (line.next? target).isSome = true :=
      earliest_isSome (Or.inr ⟨v,List.mem_of_getElem? hv,hp,hge⟩)
    rw [h] at hsome
    contradiction

end Timeline

namespace Timer
open Timeline

structure Punctual (t : Timer) (line : Timeline) : Prop where
  due : t.isDue line.now = false
  wakes : ∀ (i : Nat) (v : Wake), t.alarm.pending = some i → line.wakes[i]? = some v →
    line.now < v.due ∧ v.due ≤ line.now + t.remaining line.now

/-- What an operation on time does to a timer `t` that stays open: it is marked as finished when its
end is announced, and until it forgets the run. -/
structure Effect.OnTime (e : Effect) (t : Timer) : Prop where
  punctual : e.timer.Punctual e.line
  marked : e.timer.finished = (e.announced.isSome || t.finished && !e.cleared)
  closed : e.timer.closed = t.closed
  listeners : e.timer.listeners = t.listeners

variable {t u : Timer} {n m : Nat} {line line' : Timeline} {g : Option Nat}

theorem Punctual.of_no_wake (hd : t.isDue line.now = false) (hp : t.alarm.pending = none) :
    t.Punctual line where
  due := hd
  wakes i v hi := by
    rw [hp] at hi
    contradiction

theorem isDue_of_remaining {now : Int} (h : 0 < t.remaining now) : t.isDue now = false := by
  have hnot : t.isFinished now = false := by
    unfold isFinished
    exact decide_eq_false (Int.not_le.mpr h)
  simp [isDue, hnot]

theorem isDue_of_not_started {now : Int} (h : t.isStarted = false) : t.isDue now = false := by
  simp [isDue, h]

theorem isDue_of_stopped {now : Int} (h : t.isStopped = true) : t.isDue now = false := by
  simp [isDue, h]

theorem silent_onTime (hp : u.Punctual line) (hf : u.finished = t.finished)
    (hc : u.closed = t.closed) (hl : u.listeners = t.listeners) : (Effect.silent u line).OnTime t where
  punctual := hp
  marked := by simp [Effect.silent, hf]
  closed := hc
  listeners := hl

theorem Punctual.silent (h : t.Punctual line) : (Effect.silent t line).OnTime t :=
  silent_onTime h rfl rfl rfl

theorem Effect.OnTime.ofCleared {e : Effect} (h : e.OnTime u) (hf : u.finished = false)
    (hc : u.closed = t.closed) (hl : u.listeners = t.listeners) : e.ofCleared.OnTime t where
  punctual := h.punctual
  marked := by
    have := h.marked
    simp only [hf, Bool.false_and, Bool.or_false] at this
    simp [Effect.ofCleared, this]
  closed := h.closed.trans hc
  listeners := h.listeners.trans hl

theorem Effect.OnTime.congr {e : Effect} (h : e.OnTime u) (hf : u.finished = t.finished)
    (hc : u.closed = t.closed) (hl : u.listeners = t.listeners) : e.OnTime t where
  punctual := h.punctual
  marked := by rw [h.marked, hf]
  closed := h.closed.trans hc
  listeners := h.listeners.trans hl

/-- A check that is not stale leaves a wake by the deadline, or nothing that is due. -/
theorem check_onTime (hg : t.alarm.isStale g = false) : (t.check n g line).OnTime t := by
  by_cases hl : 0 < t.remaining line.now
  · rw [check_waiting hg hl]
    refine silent_onTime ⟨?_,?_⟩ rfl rfl rfl
    · rw [now_schedule, Alarm.now_cancelled]
      exact isDue_of_remaining hl
    · intro i v hi hv
      simp only [Option.some.injEq] at hi
      subst hi
      have hlen := Alarm.length_cancelled t.alarm line
      have hdue : v.due = line.now + min (t.remaining line.now) maxWait := by
        simp only [schedule, List.getElem?_append_right (Nat.le_of_eq hlen), hlen, Nat.sub_self,
          List.getElem?_cons_zero, Option.some.injEq] at hv
        rw [← hv, Alarm.now_cancelled]
      rw [now_schedule, Alarm.now_cancelled, hdue]
      change _ ∧ _ ≤ line.now + t.remaining line.now
      have hday : 0 < maxWait := by decide
      omega
  · rw [check_over hg (Int.not_lt.mp hl)]
    cases hd : ({ t with alarm := t.alarm.renewed } : Timer).isDue (t.alarm.cancelled line).now with
    | true =>
      rw [expire_due hd]
      refine ⟨Punctual.of_no_wake ?_ rfl,rfl,rfl,rfl⟩
      simp [isDue]
    | false =>
      rw [expire_not_due hd]
      exact silent_onTime (.of_no_wake hd rfl) rfl rfl rfl

theorem isStale_none {a : Alarm} (h : a.closed = false) : a.isStale none = false := by
  simp [Alarm.isStale, h]

theorem wake_onTime (k : t.Guarded n line) (h : t.Punctual line) {i : Nat} {w : Wake}
    (hw : line.wakes[i]? = some w) (ho : w.owner = n) :
    (t.wake n w.generation (line.markFired i)).OnTime t := by
  cases hst : t.alarm.isStale (some w.generation) with
  | true =>
    rw [wake_stale hst, k.markFired_stale hw ho hst]
    exact h.silent
  | false =>
    rw [wake_current hst]
    exact Effect.OnTime.congr (check_onTime hst) rfl rfl rfl

theorem start_onTime (k : t.Guarded n line) (ho : t.closed = false) (h : t.Punctual line) :
    (t.start n line).OnTime t := by
  unfold start
  split
  · exact h.silent
  · refine Effect.OnTime.ofCleared (check_onTime (isStale_none ?_)) rfl rfl rfl
    exact k.closed.trans ho

theorem resume_onTime (k : t.Guarded n line) (ho : t.closed = false) (h : t.Punctual line) :
    (t.resume n line).OnTime t := by
  unfold resume
  split
  · refine Effect.OnTime.congr (check_onTime (isStale_none ?_)) rfl rfl rfl
    exact k.closed.trans ho
  · exact h.silent

theorem pause_onTime (h : t.Punctual line) :
    (Effect.silent (t.pause line).1 (t.pause line).2).OnTime t := by
  unfold pause
  split
  · refine silent_onTime (.of_no_wake ?_ rfl) rfl rfl rfl
    have hnow : (t.alarm.cancelled line).now = line.now := Alarm.now_cancelled _ _
    have hdue := h.due
    simp only [disarmed, Alarm.disarm, hnow]
    exact hdue
  · exact h.silent

theorem stop_onTime (h : t.Punctual line) :
    (Effect.silent (t.stop line).1 (t.stop line).2).OnTime t := by
  unfold stop
  split
  · have hp := pause_onTime h
    have hf : (t.pause line).1.finished = t.finished := finished_pause t line
    exact silent_onTime (.of_no_wake (isDue_of_stopped rfl) rfl) hf hp.closed hp.listeners
  · exact h.silent

theorem addInt_onTime (k : t.Guarded n line) (ho : t.closed = false) (ms : Int) :
    (t.addInt n ms line).OnTime t := by
  cases h : t.isStarted with
  | false =>
    rw [addInt_idle ms h]
    refine silent_onTime (.of_no_wake (isDue_of_not_started h) ?_) rfl rfl rfl
    by_cases hp : t.alarm.pending = none
    · exact hp
    · have hrun := k.armed hp
      simp [isRunning, h] at hrun
  | true =>
    rw [addInt_started ms h]
    split
    · refine Effect.OnTime.congr (check_onTime (isStale_none ?_)) rfl rfl rfl
      exact k.closed.trans ho
    · rename_i hr
      simp only [Bool.or_eq_true, not_or, Bool.not_eq_true] at hr
      refine silent_onTime (.of_no_wake ?_ rfl) rfl rfl rfl
      unfold isDue
      rw [hr.2, Bool.and_false]

theorem add_onTime (k : t.Guarded n line) (ho : t.closed = false) (h : t.Punctual line)
    (ms : Number.Amount) : (t.add n ms line).1.OnTime t := by
  unfold add
  split
  · exact h.silent
  · split
    · exact h.silent
    · exact addInt_onTime k ho _

theorem reset_onTime (t : Timer) (d : Option Number.Amount) (line : Timeline) :
    (t.reset d line).1.OnTime t := by
  obtain ⟨d',he⟩ := reset_eq t d line
  rw [he]
  have hidle : ({ (t.clear line).1 with duration := d' } : Timer).Punctual (t.clear line).2 :=
    .of_no_wake (isDue_of_not_started rfl) rfl
  exact hidle.silent.ofCleared rfl rfl rfl

theorem start_idle (n : Nat) (line : Timeline) (hs : t.isStarted = false) (hc : t.closed = false)
    (ha : t.alarm.closed = t.closed) (hd : 0 < t.duration) : ∃ (a : Alarm) (line' : Timeline),
      t.start n line = (Effect.silent
        { t with
          startedAt := some line.now, resumedAt := some line.now, stoppedAt := none
          accumulated := 0, finished := false, alarm := a } line').ofCleared := by
  have hopen : ¬ (t.isStarted || t.closed) = true := by simp [hs, hc]
  have hnow : (t.clear line).2.now = line.now := Alarm.now_cancelled t.alarm line
  have hfresh : t.alarm.renewed.isStale none = false := isStale_none (ha.trans hc)
  unfold start
  rw [if_neg hopen]
  dsimp only
  rw [hnow, check_waiting]
  · exact ⟨_,_,rfl⟩
  · exact hfresh
  · simpa [remaining, elapsed, clear, Alarm.disarm, Alarm.now_cancelled] using hd

theorem check_timer (t : Timer) (n : Nat) (g : Option Nat) (line : Timeline) :
    ∃ (f : Bool) (a : Alarm), (t.check n g line).timer = { t with finished := f, alarm := a } := by
  unfold check expire
  split
  · split
    · exact ⟨true,_,rfl⟩
    · exact ⟨t.finished,_,rfl⟩
  · exact ⟨t.finished,_,rfl⟩

theorem wake_timer (t : Timer) (n g : Nat) (line : Timeline) :
    ∃ (f : Bool) (a : Alarm), (t.wake n g line).timer = { t with finished := f, alarm := a } := by
  unfold wake
  split
  · exact ⟨t.finished,t.alarm,rfl⟩
  · exact check_timer _ _ _ _

theorem cleared_check (t : Timer) (n : Nat) (g : Option Nat) (line : Timeline) :
    (t.check n g line).cleared = false := by
  unfold check expire
  split
  · split <;> rfl
  · rfl

theorem cleared_wake (t : Timer) (n g : Nat) (line : Timeline) :
    (t.wake n g line).cleared = false := by
  unfold wake
  split
  · rfl
  · exact cleared_check _ _ _ _

theorem deadline_eq (h : t.resumedAt ≠ none) (now now' : Int) :
    now' + t.remaining now' = now + t.remaining now := by
  obtain ⟨r,hr⟩ := Option.ne_none_iff_exists'.mp h
  simp only [remaining, elapsed, hr]
  omega

theorem remaining_of_not_resumed (h : t.resumedAt = none) (now now' : Int) :
    t.remaining now' = t.remaining now := by
  simp only [remaining, elapsed, h]

theorem isOver_mono {now now' : Int} (h : t.isOver now = true) (hle : now ≤ now') : t.isOver now' = true := by
  obtain ⟨hstart,hstop,hleft⟩ := isOver_iff.mp h
  refine isOver_iff.mpr ⟨hstart,hstop,?_⟩
  by_cases hr : t.resumedAt = none
  · rw [remaining_of_not_resumed hr now now']
    exact hleft
  · have hdead := deadline_eq hr now now'
    omega

/-- A timer may be about to be woken: the wake that it waits for is due at the earliest now, and if it waits
for none, nothing has been left out. -/
structure Waits (t : Timer) (line : Timeline) : Prop where
  due : t.alarm.pending = none → t.isDue line.now = false
  wakes : ∀ (i : Nat) (v : Wake), t.alarm.pending = some i → line.wakes[i]? = some v →
    line.now ≤ v.due ∧ v.due ≤ line.now + t.remaining line.now

theorem Punctual.waits (h : t.Punctual line) : t.Waits line where
  due _ := h.due
  wakes i v hi hv := ⟨Int.le_of_lt (h.wakes i v hi hv).1,(h.wakes i v hi hv).2⟩

theorem Guarded.not_due (k : t.Guarded n line) (hp : t.alarm.pending = none) (hd : t.isDue line.now = false)
    (now : Int) : t.isDue now = false := by
  cases hdue : t.isDue now with
  | false => rfl
  | true =>
    obtain ⟨hc,hf,hover⟩ := isDue_iff.mp hdue
    obtain ⟨hstart,hstop,hleft⟩ := isOver_iff.mp hover
    by_cases hr : t.resumedAt = none
    · rw [remaining_of_not_resumed hr line.now now] at hleft
      rw [isDue_iff.mpr ⟨hc,hf,isOver_iff.mpr ⟨hstart,hstop,hleft⟩⟩] at hd
      contradiction
    · exact absurd hp (k.watched (isRunning_iff.mpr ⟨hstart,hr⟩) hc hf)

theorem Waits.deadline (k : t.Guarded n line) (h : t.Waits line) {i : Nat} {v : Wake}
    (hi : t.alarm.pending = some i) (hv : line.wakes[i]? = some v) (now : Int) :
    v.due ≤ now + t.remaining now := by
  have hrun := k.armed (by simp [hi])
  rw [deadline_eq (isRunning_iff.mp hrun).2 line.now now]
  exact (h.wakes i v hi hv).2

theorem Waits.setClock (k : t.Guarded n line) (h : t.Waits line) {now : Int}
    (hnext : ∀ (i : Nat) (v : Wake), t.alarm.pending = some i → line.wakes[i]? = some v →
      now ≤ v.due) : t.Waits { line with now := now } where
  due hp := k.not_due hp (h.due hp) now
  wakes i v hi hv := ⟨hnext i v hi hv,h.deadline k hi hv now⟩

theorem Waits.punctual (k : t.Guarded n line) (h : t.Waits line) {now : Int}
    (hnext : ∀ (i : Nat) (v : Wake), t.alarm.pending = some i → line.wakes[i]? = some v →
      now < v.due) : t.Punctual { line with now := now } where
  due := by
    cases hp : t.alarm.pending with
    | none => exact k.not_due hp (h.due hp) now
    | some i =>
      obtain ⟨-,v,hv,-⟩ := k.keeps.held i hp
      have hlate := hnext i v hp hv
      have hdead := h.deadline k hp hv now
      have hleft : 0 < t.remaining now := by omega
      exact isDue_of_remaining hleft
  wakes i v hi hv := ⟨hnext i v hi hv,h.deadline k hi hv now⟩

theorem Punctual.not_due (k : t.Guarded n line) (h : t.Punctual line) {now : Int}
    (hnext : ∀ (i : Nat) (v : Wake), t.alarm.pending = some i → line.wakes[i]? = some v →
      now < v.due) : t.isDue now = false := (h.waits.punctual k hnext).due

theorem Punctual.setClock (k : t.Guarded n line) (h : t.Punctual line) {now : Int}
    (hnext : ∀ (i : Nat) (v : Wake), t.alarm.pending = some i → line.wakes[i]? = some v →
      now < v.due) : t.Punctual { line with now := now } := h.waits.punctual k hnext

theorem Guarded.pending (k : t.Guarded n line) {i : Nat} {v : Wake} (hi : t.alarm.pending = some i)
    (hv : line.wakes[i]? = some v) : v.status = .pending := by
  obtain ⟨-,w,hw,-,hp,-⟩ := k.keeps.held i hi
  rw [hv] at hw
  cases hw
  exact hp

theorem Guarded.lt_due (k : t.Guarded n line) {target : Int} (h : line.next? target = none) (i : Nat)
    (v : Wake) (hi : t.alarm.pending = some i) (hv : line.wakes[i]? = some v) : target < v.due :=
  lt_due_of_next?_none h hv (k.pending hi hv)

theorem Guarded.wake_of_agrees (k : t.Guarded m line) (ha : Agrees n line line') (hm : m ≠ n) {i : Nat} {v : Wake}
    (hi : t.alarm.pending = some i) (hv : line'.wakes[i]? = some v) : line.wakes[i]? = some v := by
  obtain ⟨-,u,hu,ho,-⟩ := k.keeps.held i hi
  have hsame := (ha i u (by rw [ho]; exact hm)).mpr hu
  rw [hv] at hsame
  cases hsame
  exact hu

theorem Waits.agrees (k : t.Guarded m line) (h : t.Waits line) (ha : Agrees n line line') (hm : m ≠ n)
    (hnow : line'.now = line.now) : t.Waits line' := by
  constructor
  · rw [hnow]
    exact h.due
  · intro i v hi hv
    rw [hnow]
    exact h.wakes i v hi (k.wake_of_agrees ha hm hi hv)

theorem Punctual.agrees (k : t.Guarded m line) (h : t.Punctual line) (ha : Agrees n line line') (hm : m ≠ n)
    (hnow : line'.now = line.now) : t.Punctual line' := by
  constructor
  · rw [hnow]
    exact h.due
  · intro i v hi hv
    rw [hnow]
    exact h.wakes i v hi (k.wake_of_agrees ha hm hi hv)

/-- The wake that the alarm waits for is on time whenever it fires. -/
theorem ring_onTime (k : t.Guarded n line) {i : Nat} {w : Wake} (hp : t.alarm.pending = some i)
    (hw : line.wakes[i]? = some w) : (t.wake n w.generation (line.markFired i)).OnTime t := by
  obtain ⟨hopen,v,hv,-,-,hg,-⟩ := k.keeps.held i hp
  rw [hw] at hv
  cases hv
  have hst : t.alarm.isStale (some w.generation) = false := by simp [Alarm.isStale, hopen, hg]
  rw [wake_current hst]
  exact Effect.OnTime.congr (check_onTime hst) rfl rfl rfl

theorem wake_cases {g : Nat} (ho : (t.wake n g line).OnTime t) : (∃ a,
    (t.wake n g line).announced = none ∧ (t.wake n g line).timer = { t with alarm := a }) ∨
    ∃ a, (t.wake n g line).announced = some t.listeners ∧ t.finished = false ∧ t.closed = false ∧
      t.isOver (t.wake n g line).line.now = true ∧
      (t.wake n g line).timer = { t with finished := true, alarm := a } := by
  obtain ⟨f,a,htimer⟩ := wake_timer t n g line
  have hlatches := wake_latches t n g line
  have hmarked := ho.marked
  rw [cleared_wake, Bool.not_false, Bool.and_true, htimer] at hmarked
  cases hann : (t.wake n g line).announced with
  | none =>
    rw [hann, Option.isSome_none, Bool.false_or] at hmarked
    obtain rfl : f = t.finished := hmarked
    exact Or.inl ⟨a,rfl,htimer⟩
  | some ls =>
    rw [hann, Option.isSome_some, Bool.true_or] at hmarked
    obtain rfl : f = true := hmarked
    obtain ⟨rfl,-,hopen,hover⟩ := hlatches.told ls hann
    rw [htimer] at hopen hover ⊢
    have honce := hlatches.once (by simp [hann])
    rw [cleared_wake] at honce
    exact Or.inr ⟨a,rfl,by simpa using honce,hopen,hover,rfl⟩

/-- A timer that is over when its wake fires is woken at its deadline. -/
theorem Waits.on_deadline (k : t.Guarded n line) (h : t.Waits line) {i : Nat} {v : Wake}
    (hi : t.alarm.pending = some i) (hv : line.wakes[i]? = some v) (hnow : line.now = v.due)
    (ho : t.isOver line.now = true) (now : Int) : line.now = now + t.remaining now := by
  have hwake := (h.wakes i v hi hv).2
  have hleft := (isOver_iff.mp ho).2.2
  have hrun := (isRunning_iff.mp (k.armed (by simp [hi]))).2
  have hsame := deadline_eq hrun line.now now
  omega

end Timer
end Countdown
