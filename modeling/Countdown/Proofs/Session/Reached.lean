import Countdown.Proofs.Session.Course
set_option autoImplicit false

namespace Countdown.Session
open Countdown.Task

/-- Nothing has happened yet. -/
structure Fresh (s : Session) : Prop where
  timers : ∀ t ∈ s.world.timers, ∃ d, t = { duration := d }
  entries : s.world.entries = []
  wakes : s.world.line.wakes = []
  journal : s.world.journal = []
  listeners : s.listeners = []
  callbacks : s.callbacks = []

/-- The sessions that can be got to, each with what is still to be done in it. A command comes from
outside when nothing is left to be done, or from within a script that is being carried out. -/
inductive Reached : Session → List Task → Prop where
  | fresh {s : Session} : s.Fresh → Reached s []
  | ask {s : Session} {tasks : List Task} (subject : Option String) {c : Command} :
      Reached s tasks → (∀ t ∈ tasks.head?, t.inScript = true ∨ t.isEnd = true) → c.Sound →
      Reached s (.command subject c :: tasks)
  | work {s : Session} {t : Task} {rest : List Task} :
      Reached s (t :: rest) → Reached (s.step t rest).1 (s.step t rest).2

structure Orderly (s : Session) (tasks : List Task) : Prop where
  sound : s.Sound
  commands : ∀ t ∈ tasks, t.Sound
  nested : Nested tasks

theorem Fresh.orderly {s : Session} (h : s.Fresh) : s.Orderly [] :=
  ⟨⟨by simp [h.listeners],by simp [h.callbacks]⟩,by simp,trivial⟩

theorem Orderly.ask {s : Session} {tasks : List Task} {subject : Option String} {c : Command}
    (h : s.Orderly tasks) (hopen : ∀ t ∈ tasks.head?, t.inScript = true ∨ t.isEnd = true)
    (hc : c.Sound) : s.Orderly (.command subject c :: tasks) := by
  refine ⟨h.sound,?_,nested_command hopen h.nested⟩
  intro t ht
  obtain rfl | ht := List.mem_cons.mp ht
  · exact hc
  · exact h.commands t ht

/-- One step changes the world; the calls that it asks for are the next to be made. -/
theorem Orderly.step {s : Session} {t : Task} {rest : List Task} (h : s.Orderly (t :: rest)) :
    (s.step t rest).1.Orderly (s.step t rest).2 ∧
      ∃ due, World.Changes s.world t.call?.toList due (s.step t rest).1.world ∧
        awaited (s.step t rest).2 = due ++ awaited rest := by
  have hlaw := task_lawful h.sound (h.commands t (by simp))
  have hrest : ∀ u ∈ rest, u.Sound := fun u hu => h.commands u (by simp [hu])
  unfold Session.step
  cases hr : s.task t with
  | mk s' outcome =>
    rw [hr] at hlaw
    cases outcome with
    | ok p =>
      obtain ⟨tasks,reply⟩ := p
      refine ⟨⟨hlaw.sound,?_,hlaw.nested tasks reply rfl rest h.nested.2⟩,awaited tasks,
        hlaw.changes tasks reply rfl,awaited_append _ _⟩
      intro u hu
      obtain hu | hu := List.mem_append.mp hu
      · exact hlaw.tasks tasks reply rfl u hu
      · exact hrest u hu
    | error f =>
      have hin : t.inScript = true := inScript_of_error (s := s) (f := f) (by rw [hr])
      have hfail := hlaw.fails f rfl
      have hawait := awaited_unwind (h.nested.1 hin)
      dsimp only
      cases hu : unwind rest with
      | none =>
        rw [hu] at hawait
        exact ⟨⟨hlaw.sound,by simp,trivial⟩,[],hfail,by rw [hawait]; rfl⟩
      | some p =>
        obtain ⟨site,after⟩ := p
        have hafter := unwind_suffix hu
        rw [hu] at hawait
        refine ⟨⟨hlaw.sound.withWorld _,fun u hu' => hrest u (hafter.mem hu'),
          nested_of_suffix hafter h.nested.2⟩,[],?_,by rw [hawait]; rfl⟩
        have hlog := World.Changes.trans hfail (World.quiet_log s'.world site.log)
        rw [List.append_nil] at hlog
        exact hlog

theorem Reached.orderly {s : Session} {tasks : List Task} (h : Reached s tasks) :
    s.Orderly tasks := by
  induction h with
  | fresh h => exact h.orderly
  | ask subject _ hopen hc ih => exact ih.ask hopen hc
  | work _ ih => exact ih.step.1

/-- What holds of fresh worlds and is kept by every change holds of all worlds. -/
theorem Reached.holds {P : World → Prop} (hfresh : ∀ s : Session, s.Fresh → P s.world)
    (hchange : ∀ (w w' : World) (made due : List Call), P w → w.Change made due w' → P w')
    {s : Session} {tasks : List Task} (h : Reached s tasks) : P s.world := by
  induction h with
  | fresh h => exact hfresh _ h
  | ask _ _ _ _ ih => exact ih
  | work h ih =>
    obtain ⟨due,hc,-⟩ := h.orderly.step.2
    exact hc.keeps hchange ih

inductive Follows (s₀ : Session) (tasks₀ : List Task) : Session → List Task → Prop where
  | start : Follows s₀ tasks₀ s₀ tasks₀
  | work {s : Session} {t : Task} {rest : List Task} : Follows s₀ tasks₀ s (t :: rest) →
      Follows s₀ tasks₀ (s.step t rest).1 (s.step t rest).2

section Keeps

variable {P : Session → List Task → Prop} {fuel : Nat} {s s' : Session}
variable (hstep : ∀ s t rest, P s (t :: rest) → P (s.step t rest).1 (s.step t rest).2)
include hstep

theorem settle_keeps {tasks : List Task} (h : P s tasks) (hs : settle fuel s tasks = some s') : P s' [] := by
  induction fuel generalizing s tasks with
  | zero =>
    cases tasks with
    | nil =>
      cases hs
      exact h
    | cons t rest => contradiction
  | succ fuel ih =>
    cases tasks with
    | nil =>
      cases hs
      exact h
    | cons t rest => exact ih (hstep _ _ _ h) hs

theorem run_keeps {c : Command} {r : Except Failure Reply} (h : P s [.command none c])
    (hr : s.run fuel c = some (s',r)) : P s' [] := by
  have hfirst := hstep _ _ _ h
  unfold Session.run at hr
  simp only [Session.step, task] at hfirst
  split at hr
  · rename_i s₁ f hp
    cases hr
    simpa [hp, unwind] using hfirst
  · rename_i s₁ tasks reply hp
    rw [hp] at hfirst
    simp only [List.append_nil] at hfirst
    obtain ⟨s₂,hset,heq⟩ := Option.map_eq_some_iff.mp hr
    cases heq
    exact settle_keeps hstep hfirst hset

end Keeps

theorem Reached.run {fuel : Nat} {s s' : Session} {c : Command} {r : Except Failure Reply}
    (h : Reached s []) (hc : c.Sound) (hr : s.run fuel c = some (s',r)) : Reached s' [] :=
  run_keeps (fun _ _ _ => .work) (h.ask none (by simp) hc) hr

def runAll (fuel : Nat) (s : Session) : List Command → Option Session
  | [] => some s
  | c :: cs => (s.run fuel c).bind fun p => p.1.runAll fuel cs

def runOn (fuel : Nat) (s : Session) : List (Nat × Command) → Option Session
  | [] => some s
  | (n,c) :: cs => (({ s with focus := n } : Session).run fuel c).bind fun p => p.1.runOn fuel cs

theorem Reached.runAll {fuel : Nat} {s s' : Session} {cs : List Command} (h : Reached s [])
    (hc : ∀ c ∈ cs, c.Sound) (hr : s.runAll fuel cs = some s') : Reached s' [] := by
  induction cs generalizing s with
  | nil =>
    cases hr
    exact h
  | cons c cs ih =>
    obtain ⟨p,hp,hr⟩ := Option.bind_eq_some_iff.mp hr
    exact ih (h.run (hc c (by simp)) hp) (fun d hd => hc d (by simp [hd])) hr

end Countdown.Session
