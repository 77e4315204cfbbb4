import Countdown.Proofs.Session.Focus
import Countdown.Proofs.Snapshot
import Countdown.Proofs.Timer.Restore
set_option autoImplicit false

/-!
Which timekeeping fields a timer can come to have, under any clock and whatever is asked of it, when none
are set from outside: exactly those without a contradiction in which a timer that was not started has
nothing but a duration.
-/

namespace Countdown

/-- Fields that describe a state of a timer. -/
structure TimerFields.Coherent (f : TimerFields) : Prop where
  duration : 0 ≤ f.duration
  tidy : f.Tidy
  stopped : f.resumedAt = none ∨ f.stoppedAt = none

theorem TimerFields.coherent_idle {d : Int} (hd : 0 ≤ d) : ({ duration := d } : TimerFields).Coherent :=
  ⟨hd,fun _ => rfl,Or.inl rfl⟩

theorem TimerFields.Evolves.coherent {f f' : TimerFields} {now : Int} (h : f.Evolves now f') (hf : f.Coherent) :
    f'.Coherent := by
  refine ⟨h.duration hf.duration,h.tidy hf.tidy,?_⟩
  cases h with
  | adjusted _ _ => exact hf.stopped
  | started b _ => exact Or.inr rfl
  | resumed b _ _ hstop => exact Or.inr hstop
  | paused _ => exact Or.inl rfl
  | stopped _ => exact Or.inl rfl

namespace Timer

variable {t : Timer} {f : TimerFields} {line : Timeline} {d d' st r a : Int} {b : Bool}

/-- The timer has the fields, and neither it nor its alarm is closed. -/
structure Shows (t : Timer) (f : TimerFields) : Prop where
  fields : t.fields = f
  opened : t.closed = false
  heedful : t.alarm.closed = false

theorem Shows.eq (h : t.Shows f) : t = { ofFields f with listeners := t.listeners, alarm := t.alarm } := by
  obtain ⟨rfl,hopen,-⟩ := h
  cases t
  cases hopen
  rfl

theorem Shows.check (h : t.Shows f) (n : Nat) (hl : 0 < t.remaining line.now) :
    (t.check n none line).timer.Shows f := by
  rw [check_waiting (isStale_none h.heedful) hl]
  exact ⟨h.fields,h.opened,h.heedful⟩

theorem Shows.start (h : t.Shows { duration := d }) (hd : 0 ≤ d) (n : Nat) (line : Timeline) :
    (t.start n line).timer.Shows ⟨d,some line.now,some line.now,none,0,decide (d = 0)⟩ := by
  have hidle : ¬ (t.isStarted || t.closed) = true := by
    rw [h.eq]
    exact Bool.false_ne_true
  have hnow : (t.clear line).2.now = line.now := Alarm.now_cancelled t.alarm line
  let u : Timer := { (t.clear line).1 with startedAt := some line.now, resumedAt := some line.now }
  have hstart : (t.start n line).timer = (u.check n none (t.clear line).2).timer := by
    unfold Timer.start
    rw [if_neg hidle]
    dsimp only
    rw [hnow]
    rfl
  have hduration : t.duration = d := congrArg TimerFields.duration h.fields
  have hu : u.Shows ⟨d,some line.now,some line.now,none,0,false⟩ :=
    ⟨by rw [← hduration]; rfl,h.opened,h.heedful⟩
  have hleft : u.remaining (t.clear line).2.now = d := by
    rw [hnow]
    change t.duration - (0 + (line.now - line.now)) = d
    omega
  rw [hstart]
  by_cases hzero : d = 0
  · have hover : u.remaining (t.clear line).2.now ≤ 0 := by omega
    have hdue : ({ u with alarm := u.alarm.renewed } : Timer).isDue
        (u.alarm.cancelled (t.clear line).2).now = true := by
      rw [Alarm.now_cancelled]
      have hclosed : u.closed = false := h.opened
      have hfinished : u.isFinished (t.clear line).2.now = true := decide_eq_true hover
      change (!u.closed && !u.finished && u.isStarted && !u.isStopped && u.isFinished _) = true
      rw [hclosed, hfinished]
      rfl
    rw [check_over (isStale_none hu.heedful) hover, expire_due hdue, decide_eq_true hzero]
    refine ⟨?_,hu.opened,hu.heedful⟩
    change { u.fields with finished := true } = _
    rw [hu.fields]
  · rw [decide_eq_false hzero]
    exact hu.check n (by omega)

theorem Shows.add (h : t.Shows ⟨d,some st,some r,none,a,b⟩) (hd : 0 ≤ d') (n : Nat)
    (hl : a + (line.now - r) < d') :
    (t.add n (.int (d' - d)) line).1.timer.Shows ⟨d',some st,some r,none,a,b⟩ := by
  have hlong : (t.lengthened (d' - d)).Shows ⟨d',some st,some r,none,a,b⟩ := by
    have hmax : max 0 (d + (d' - d)) = d' := by omega
    refine ⟨?_,h.opened,h.heedful⟩
    rw [h.eq]
    change (⟨max 0 (d + (d' - d)),_,_,_,_,_⟩ : TimerFields) = _
    rw [hmax]
    rfl
  have hnow : (t.alarm.cancelled line).now = line.now := Alarm.now_cancelled _ _
  have hleft : 0 < (t.lengthened (d' - d)).remaining (t.alarm.cancelled line).now := by
    rw [hlong.eq, hnow]
    change 0 < d' - (a + (line.now - r))
    omega
  have hstopped : ¬ t.isStopped = true := by
    rw [h.eq]
    exact Bool.false_ne_true
  have hstarted : t.isStarted = true := by rw [h.eq]; rfl
  have hrunning : (t.lengthened (d' - d)).isRunning = true := by rw [hlong.eq]; rfl
  simp only [Timer.add, if_neg hstopped, Number.Amount.toInt, addInt_started _ hstarted, hrunning,
    Bool.true_or, if_true]
  exact hlong.check n hleft

theorem Shows.pause (h : t.Shows ⟨d,some st,some r,none,a,b⟩) (line : Timeline) :
    (t.pause line).1.Shows ⟨d,some st,none,none,a + (line.now - r),b⟩ := by
  have hrunning : t.isRunning = true := by rw [h.eq]; rfl
  refine ⟨?_,?_,?_⟩
  · rw [fields_pause, if_pos hrunning, h.fields, ← elapsed_fields, h.fields]
    rfl
  · rw [Timer.pause, if_pos hrunning]
    exact h.opened
  · rw [Timer.pause, if_pos hrunning]
    exact h.heedful

theorem Shows.resume (h : t.Shows ⟨d,some st,none,none,a,b⟩) (hl : a < d) (n : Nat) (line : Timeline) :
    (t.resume n line).timer.Shows ⟨d,some st,some line.now,none,a,b⟩ := by
  have hpaused : t.isPaused = true := by rw [h.eq]; rfl
  rw [Timer.resume, if_pos hpaused]
  have hgoes : ({ t with resumedAt := some line.now } : Timer).Shows ⟨d,some st,some line.now,none,a,b⟩ := by
    rw [h.eq]
    exact ⟨rfl,rfl,h.heedful⟩
  refine hgoes.check n ?_
  rw [hgoes.eq]
  change 0 < d - (a + (line.now - line.now))
  omega

theorem Shows.stop (h : t.Shows ⟨d,some st,some r,none,a,b⟩) (line : Timeline) :
    (t.stop line).1.Shows ⟨d,some st,none,some line.now,a + (line.now - r),b⟩ := by
  have hopen : (t.isStarted && !t.isStopped) = true := by rw [h.eq]; rfl
  have hpaused : (t.pause line).1.Shows ⟨d,some st,none,none,a + (line.now - r),b⟩ := h.pause line
  rw [Timer.stop, if_pos hopen]
  dsimp only
  rw [now_pause]
  refine ⟨?_,hpaused.opened,hpaused.heedful⟩
  change { (t.pause line).1.fields with stoppedAt := some line.now } = _
  rw [hpaused.fields]

end Timer

namespace Session
open TimerFields

variable {f f' : TimerFields} {now now' : Int} {s : Session}

def alone (t : Timer) (now : Int) : Session := { world := { line := { now := now }, timers := [t] } }

/-- Fields that a timer comes to have at some time after its creation. -/
def Attained (f : TimerFields) : Prop :=
  ∃ (d : Number.Amount) (t : Timer) (now : Int) (tasks : List Task), Timer.ofDuration d = .ok t ∧
    (∀ u ∈ tasks, u.handles Action.isPlain = true) ∧ ((alone t now).doAll tasks).focused.fields = f

theorem coherent_task {task : Task} (hs : s.focused.fields.Coherent) (h : task.handles Action.isPlain = true) :
    (s.task task).session.focused.fields.Coherent := by
  obtain ⟨subject,a,rfl,ha⟩ | hother := handles_cases h
  · cases a with
    | setFields f => contradiction
    | reset d =>
      obtain ⟨d',hfields,hd⟩ := task_reset s subject d
      rw [hfields]
      exact coherent_idle (hd hs.duration)
    | _ => exact (task_evolves s rfl).1.coherent hs
  · exact ((task_marked s hother).1.evolves s.now).coherent hs

theorem coherent_doAll {tasks : List Task} (hs : s.focused.fields.Coherent)
    (h : ∀ t ∈ tasks, t.handles Action.isPlain = true) : (s.doAll tasks).focused.fields.Coherent := by
  induction tasks generalizing s with
  | nil => exact hs
  | cons t ts ih =>
    obtain ⟨ht,hts⟩ := List.forall_mem_cons.mp h
    exact ih (coherent_task hs ht) hts

theorem ofDuration_ok {d : Number.Amount} {t : Timer} (h : Timer.ofDuration d = .ok t) :
    ∃ d', 0 ≤ d' ∧ t = { duration := d' } := by
  unfold Timer.ofDuration at h
  cases hd : d.toInt with
  | error e =>
    rw [hd] at h
    contradiction
  | ok n =>
    rw [hd] at h
    cases h
    exact ⟨max 0 n,Int.le_max_left _ _,rfl⟩

theorem Attained.coherent (h : Attained f) : f.Coherent := by
  obtain ⟨d,t,now,tasks,ht,htasks,rfl⟩ := h
  obtain ⟨d',hd,rfl⟩ := ofDuration_ok ht
  exact coherent_doAll (coherent_idle hd) htasks

def Shown (f : TimerFields) (now : Int) : Prop :=
  ∃ (d : Number.Amount) (t : Timer) (start : Int) (tasks : List Task), Timer.ofDuration d = .ok t ∧
    (∀ u ∈ tasks, u.handles Action.isPlain = true) ∧ ∃ s u, (alone t start).doAll tasks = s ∧
    s.world.timers[s.focus]? = some u ∧ s.now = now ∧ u.Shows f

theorem Shown.attained (h : Shown f now) : Attained f := by
  obtain ⟨d,t,start,tasks,ht,htasks,s,u,rfl,hget,-,hu⟩ := h
  exact ⟨d,t,start,tasks,ht,htasks,by rw [focused_eq rfl hget, hu.fields]⟩

theorem shown_idle {d : Int} (hd : 0 ≤ d) (now : Int) : Shown { duration := d } now := by
  have hmax : max 0 d = d := by omega
  refine ⟨.int d,{ duration := max 0 d },now,[],rfl,by simp,_,_,rfl,rfl,rfl,?_,rfl,rfl⟩
  rw [hmax]
  rfl

theorem shown_append {d : Number.Amount} {t u : Timer} {tasks : List Task} (ht : Timer.ofDuration d = .ok t)
    (start : Int) (htasks : ∀ u ∈ tasks, u.handles Action.isPlain = true) (task : Task)
    (htask : task.handles Action.isPlain = true)
    (hget : let s := (((alone t start).doAll tasks).task task).session
      s.world.timers[s.focus]? = some u ∧ s.now = now) (hu : u.Shows f) : Shown f now := by
  refine ⟨d,t,start,tasks ++ [task],ht,?_,_,u,rfl,?_⟩
  · simpa [or_imp, forall_and] using ⟨htasks,htask⟩
  · rw [doAll_append]
    exact ⟨hget.1,hget.2,hu⟩

theorem Shown.tick (h : Shown f now) (now' : Int) : Shown f now' := by
  obtain ⟨d,t,start,tasks,ht,htasks,s,u,rfl,hget,rfl,hu⟩ := h
  refine shown_append ht start htasks (.command none (.tick (now' - ((alone t start).doAll tasks).now))) rfl
    ⟨hget,?_⟩ hu
  change _ + (now' - _) = now'
  omega

theorem Shown.act {a : Action} (h : Shown f now) (ha : a.isPlain = true)
    (heffect : ∀ (t : Timer) (n : Nat) (line : Timeline), line.now = now → t.Shows f →
      (applyAction t n a line).1.timer.Shows f') : Shown f' now := by
  obtain ⟨d,t,start,tasks,ht,htasks,s,u,rfl,hget,rfl,hu⟩ := h
  have hshows := heffect u ((alone t start).doAll tasks).focus _ rfl hu
  have hturn : (((alone t start).doAll tasks).task (.command none (.act .focus a))).session = _ :=
    act_session hget a
  refine shown_append ht start htasks (.command none (.act .focus a)) ha ?_ hshows
  rw [hturn]
  exact ⟨World.getElem?_take hget _,(now_take _ _ _).trans (Timer.now_applyAction u _ ha _)⟩

/-- A running timer may have been started at any time, be resumed at any other, and have been running for
any time before, which takes no more than a clock that is set back. -/
theorem shown_running {d : Int} (hd : 0 ≤ d) (st r a : Int) (b : Bool) (now : Int) :
    Shown ⟨d,some st,some r,none,a,b⟩ now := by
  -- time enough for the timer not to be over while the clock is moved
  let d₀ : Int := if b then 0 else 1
  let more : Int := a.natAbs + d + 1
  have hb : decide (d₀ = 0) = b := by cases b <;> rfl
  have hd₀ : 0 ≤ d₀ := by cases b <;> decide
  have hnew : Shown { duration := d₀ } st := shown_idle hd₀ st
  have hstarted : Shown ⟨d₀,some st,some st,none,0,b⟩ st := hnew.act (a := .start) rfl fun t n line hnow ht => by
    have hs := ht.start hd₀ n line
    rwa [hnow, hb] at hs
  have hlong : Shown ⟨d₀ + more,some st,some st,none,0,b⟩ st :=
    hstarted.act (a := .add (.int (d₀ + more - d₀))) rfl fun t n line hnow ht => by
      exact ht.add (by omega) n (by omega)
  have hpaused : Shown ⟨d₀ + more,some st,none,none,a,b⟩ (st + a) :=
    (hlong.tick (st + a)).act (a := .pause) rfl fun t n line hnow ht => by
      have hp := ht.pause line
      rwa [hnow, show 0 + (st + a - st) = a by omega] at hp
  have hresumed : Shown ⟨d₀ + more,some st,some r,none,a,b⟩ r :=
    (hpaused.tick r).act (a := .resume) rfl fun t n line hnow ht => by
      have hr := ht.resume (by omega) n line
      rwa [hnow] at hr
  have hshort : Shown ⟨d,some st,some r,none,a,b⟩ (r - more) :=
    (hresumed.tick (r - more)).act (a := .add (.int (d - (d₀ + more)))) rfl fun t n line hnow ht => by
      exact ht.add hd n (by omega)
  exact hshort.tick now

theorem attained_of_coherent (h : f.Coherent) : Attained f := by
  obtain ⟨d,st,r,p,a,b⟩ := f
  obtain ⟨hd,htidy,hstop⟩ := h
  cases st with
  | none =>
    rw [htidy rfl]
    exact (shown_idle hd 0).attained
  | some st => cases r with
    | some r =>
      obtain rfl : p = none := hstop.resolve_left (Option.some_ne_none r)
      exact (shown_running hd st r a b 0).attained
    | none => cases p with
      | none =>
        refine ((shown_running hd st 0 a b 0).act (a := .pause) rfl fun t n line hnow ht => ?_).attained
        have hp := ht.pause line
        rwa [hnow, Int.sub_self, Int.add_zero] at hp
      | some p =>
        refine ((shown_running hd st p a b p).act (a := .stop) rfl fun t n line hnow ht => ?_).attained
        have hp := ht.stop line
        rwa [hnow, Int.sub_self, Int.add_zero] at hp

theorem attained_iff : Attained f ↔ f.Coherent := ⟨Attained.coherent,attained_of_coherent⟩

theorem contradiction?_eq_none_iff : Snapshot.contradiction? f = none ↔
    (f.startedAt = none → f.resumedAt = none ∧ f.stoppedAt = none) ∧
      (f.resumedAt = none ∨ f.stoppedAt = none) := by
  unfold Snapshot.contradiction?
  cases f.startedAt <;> cases f.resumedAt <;> cases f.stoppedAt <;> simp

/-- A snapshot that can be saved describes a state of a timer, unless it tells of a run that was never
started. -/
theorem coherent_iff_of_checked (hd : 0 ≤ f.duration) (hc : Snapshot.contradiction? f = none) :
    f.Coherent ↔ (f.startedAt = none → f.accumulated = 0 ∧ f.finished = false) := by
  obtain ⟨hidle,hstop⟩ := contradiction?_eq_none_iff.mp hc
  obtain ⟨d,st,r,p,a,b⟩ := f
  constructor
  · rintro ⟨-,htidy,-⟩ hs
    rw [htidy hs]
    exact ⟨rfl,rfl⟩
  · intro hrest
    refine ⟨hd,fun hs => ?_,hstop⟩
    obtain ⟨rfl,rfl⟩ := hidle hs
    obtain ⟨rfl,rfl⟩ := hrest hs
    cases hs
    rfl

theorem check_of_coherent {input : String} {consumed : Int} (h : f.Coherent) (ha : 0 ≤ f.accumulated)
    (hc : 0 ≤ consumed) : Snapshot.check ⟨f,input,consumed⟩ = .ok ⟨f,input,consumed⟩ := by
  have hnone : Snapshot.contradiction? f = none := by
    refine contradiction?_eq_none_iff.mpr ⟨fun hs => ?_,h.stopped⟩
    rw [h.tidy hs]
    exact ⟨rfl,rfl⟩
  have hneg : (⟨f,input,consumed⟩ : Snapshot).negativeFields = [] := by
    simp [Snapshot.negativeFields, Int.not_lt.mpr ha, Int.not_lt.mpr hc, Int.not_lt.mpr h.duration]
  simp [Snapshot.check, hneg, hnone]

/-- The fields of a snapshot that is read are those of a state that a timer can get to, unless the timer was
not started and yet has been running or is finished. All such states can be read, except those in which a
clock that was set back has made the time spent running negative. -/
theorem attained_of_read {v : Json} {r : Snapshot} (h : Snapshot.ofJson v = .ok r) :
    (Attained r.fields ↔ (r.fields.startedAt = none → r.fields.accumulated = 0 ∧ r.fields.finished = false)) ∧
      ∀ f, Attained f → 0 ≤ f.accumulated → ∃ v', Snapshot.ofJson v' = .ok ⟨f,r.input,r.consumed⟩ := by
  obtain ⟨hneg,hnone⟩ := Snapshot.ofJson_checked h
  obtain ⟨-,hconsumed,hduration⟩ := Snapshot.nonneg_of_negativeFields hneg
  refine ⟨attained_iff.trans (coherent_iff_of_checked hduration hnone),fun f hf ha => ?_⟩
  exact ⟨_,Snapshot.ofJson_toJson (check_of_coherent (attained_iff.mp hf) ha hconsumed)⟩

/-- Overdue since before it was started, and its end was announced. -/
theorem attained_of_read_overdue :
    let v : Json := .obj [("duration",.int 5000),("started_at",.int 9000),("resumed_at",.int 2000),
      ("accumulated_elapsed",.int 7000),("finished",.bool true)]
    ∃ r, Snapshot.ofJson v = .ok r ∧ Attained r.fields := by
  intro v
  have hread : Snapshot.ofJson v = .ok ⟨⟨5000,some 9000,some 2000,none,7000,true⟩,"",0⟩ := rfl
  exact ⟨_,hread,(attained_of_read hread).1.mpr nofun⟩

/-- A timer that is finished without a run can be read, and no timer gets there. -/
theorem read_finished_idle : ∃ r, Snapshot.ofJson (.obj [("duration",.int 1000),("finished",.bool true)]) = .ok r ∧
    ¬ Attained r.fields := by
  refine ⟨⟨{ duration := 1000, finished := true },"",0⟩,rfl,fun h => ?_⟩
  have htidy := h.coherent.tidy rfl
  contradiction

end Session
end Countdown
