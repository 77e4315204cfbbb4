import Countdown.Proofs.Session.Focus
set_option autoImplicit false

namespace Countdown.Session
open TimerFields

variable {s : Session} {task : Task} {tasks : List Task}

/-- By how much the clock moves, task after task, while the timer in focus is running. -/
def timeRunning : Session → List Task → Int
  | _, [] => 0
  | s, t :: ts => (if s.focused.isRunning then (s.task t).session.now - s.now else 0) +
      (s.task t).session.timeRunning ts

/-- At the time that a task leaves it has not changed the time spent running. -/
theorem elapsed_task_now (hs : s.focused.fields.Tidy) (h : task.handles Action.continues = true) :
    (s.task task).session.focused.elapsed (s.task task).session.now =
      s.focused.elapsed (s.task task).session.now :=
  (task_evolves s h).1.elapsed_eq hs

theorem elapsed_task (hs : s.focused.fields.Tidy) (h : task.handles Action.continues = true) :
    (s.task task).session.focused.elapsed (s.task task).session.now = s.focused.elapsed s.now +
      if s.focused.isRunning then (s.task task).session.now - s.now else 0 :=
  (elapsed_task_now hs h).trans (hs.elapsed_clock s.now _)

theorem tidy_doAll (hs : s.focused.fields.Tidy) (h : ∀ t ∈ tasks, t.handles Action.continues = true) :
    (s.doAll tasks).focused.fields.Tidy := by
  induction tasks generalizing s with
  | nil => exact hs
  | cons t ts ih =>
    obtain ⟨ht,hts⟩ := List.forall_mem_cons.mp h
    exact ih ((task_evolves s ht).1.tidy hs) hts

theorem elapsed_doAll (hs : s.focused.fields.Tidy) (h : ∀ t ∈ tasks, t.handles Action.continues = true) :
    (s.doAll tasks).focused.elapsed (s.doAll tasks).now = s.focused.elapsed s.now + s.timeRunning tasks := by
  induction tasks generalizing s with
  | nil => exact (Int.add_zero _).symm
  | cons t ts ih =>
    obtain ⟨ht,hts⟩ := List.forall_mem_cons.mp h
    calc ((s.task t).session.doAll ts).focused.elapsed ((s.task t).session.doAll ts).now
      _ = (s.task t).session.focused.elapsed (s.task t).session.now + (s.task t).session.timeRunning ts :=
        ih ((task_evolves s ht).1.tidy hs) hts
      _ = s.focused.elapsed s.now + s.timeRunning (t :: ts) := by
        rw [elapsed_task hs ht, timeRunning, Int.add_assoc]

def Anew (s : Session) : Prop :=
  (∃ d, s.focused = { duration := d }) ∨
    ∃ (s' : Session) (d : Option Number.Amount), s = (s'.perform none (.act .focus (.reset d))).session

theorem Anew.fields (h : s.Anew) : ∃ d, s.focused.fields = { duration := d } := by
  obtain ⟨d,hd⟩ | ⟨s',d,rfl⟩ := h
  · exact ⟨d,congrArg Timer.fields hd⟩
  · obtain ⟨d',hd,-⟩ := task_reset s' none d
    exact ⟨d',hd⟩

/-- Since the last reset the time that the timer has spent running, and with it the time that is left, is
told by the moves of the clock. No operation and no wake changes it at the time when it takes place. -/
theorem elapsed_since_reset (hs : s.Anew) (h : ∀ t ∈ tasks, t.handles Action.continues = true) :
    let s' := s.doAll tasks
    s'.focused.elapsed s'.now = s.timeRunning tasks ∧
      s'.focused.remaining s'.now = s'.focused.duration - s.timeRunning tasks ∧
      ∀ t : Task, t.handles Action.continues = true →
        (t.isInstant = true → (s'.task t).session.now = s'.now) ∧
        (s'.task t).session.focused.elapsed (s'.task t).session.now =
          s'.focused.elapsed (s'.task t).session.now := by
  intro s'
  obtain ⟨d,hidle⟩ := hs.fields
  have htidy : s.focused.fields.Tidy := by
    rw [hidle]
    exact fun _ => rfl
  have hzero : s.focused.elapsed s.now = 0 := by
    rw [← Timer.elapsed_fields, hidle]
    rfl
  have helapsed : s'.focused.elapsed s'.now = s.timeRunning tasks := by
    rw [elapsed_doAll htidy h, hzero, Int.zero_add]
  refine ⟨helapsed,by rw [Timer.remaining, helapsed],fun t ht => ?_⟩
  exact ⟨(task_evolves s' ht).2,elapsed_task_now (tidy_doAll htidy h) ht⟩

/-- Three seconds on, one back, and another fifth of a second after a pause. -/
theorem elapsed_since_reset_paused :
    let s₀ : Session := { world := { line := { now := 1000 }, timers := [{ duration := 7000 }] } }
    let s := (s₀.perform none (.act .focus (.reset (some (.int 10000))))).session
    let tasks : List Task := [.act .focus .start, .tick 3000, .tick (-1000), .act .focus .start,
      .act .focus .pause, .tick 500, .act .focus (.add (.int 1000)), .fire 0, .act .focus .resume,
      .act .focus .resume, .tick 200, .act .focus .stop, .tick 100].map (.command none)
    (∀ t ∈ tasks, t.handles Action.continues = true) ∧ (s.doAll tasks).focused.elapsed (s.doAll tasks).now = 2200 ∧
      (s.doAll tasks).focused.remaining (s.doAll tasks).now = 8800 := by
  intro s₀ s tasks
  have hmore : ∀ t ∈ tasks, t.handles Action.continues = true := by decide
  obtain ⟨helapsed,hremaining,-⟩ := elapsed_since_reset (Or.inr ⟨s₀,some (.int 10000),rfl⟩ : s.Anew) hmore
  exact ⟨hmore,helapsed.trans (by decide),hremaining.trans (by decide)⟩

end Countdown.Session
