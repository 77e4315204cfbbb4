import Countdown.Proofs.Session.Growth
set_option autoImplicit false

namespace Countdown

namespace World

/-- One move after another. Only the timer numbered `heard` may get other listeners than it had, and only
the entry numbered `replaced` another input; a queue goes on only if there is a further duration in it. -/
inductive Moves (heard replaced : Option Nat) : World → World → Prop where
  | refl (w : World) : Moves heard replaced w w
  | trans {w w' w'' : World} : Moves heard replaced w w' → Moves heard replaced w' w'' → Moves heard replaced w w''
  | take {w : World} {n : Nat} {t : Timer} {f : Timer.Effect} : w.timers[n]? = some t →
      f.timer.listeners = t.listeners → Moves heard replaced w (w.take n f).1
  | put {w : World} {n : Nat} {p : Timer × Timeline} :
      (∀ t, w.timers[n]? = some t → p.1.listeners = t.listeners) → Moves heard replaced w (w.put n p)
  | add {w : World} {t : Timer} : t.listeners = [] → Moves heard replaced w { w with timers := w.timers ++ [t] }
  | attend {w : World} {n : Nat} (t : Timer) : heard = some n → Moves heard replaced w (w.setTimer n t)
  | enter {w : World} (n : Nat) (input : String) (queue : Option Queue) :
      Moves heard replaced w (w.addEntry n input queue).1
  | spend {w : World} (n : Nat) (input : String) : Moves heard replaced w (w.spendId n input)
  | list {w : World} {k : Nat} {e : Entry} (listed : Bool) : w.entries[k]? = some e →
      Moves heard replaced w (w.setEntry k { e with listed := listed })
  | goOn {w : World} {k : Nat} {e : Entry} {d : Int} (queue : Option Queue) : w.entries[k]? = some e →
      e.upcoming = some d → Moves heard replaced w (w.setEntry k { e with queue := queue })
  | replace {w : World} {k : Nat} {e : Entry} (input : String) (queue : Option Queue) : w.entries[k]? = some e →
      replaced = some k → Moves heard replaced w (w.setEntry k { e with input := input, queue := queue })
  | note {w : World} {x : Note} : (∀ n, x.announces n = false) → Moves heard replaced w (w.note x)
  | aside {w w' : World} : w'.timers = w.timers → w'.entries = w.entries → w'.journal = w.journal →
      Moves heard replaced w w'

variable {heard replaced : Option Nat} {w w' : World} {k : Nat}

theorem moves_logs (ls : List Log) (w : World) : Moves heard replaced w (ls.foldl log w) := by
  induction ls generalizing w with
  | nil => exact .refl w
  | cons l ls ih => exact (Moves.note fun _ => rfl).trans (ih (w.log l))

theorem moves_create {input : String} {d : Option Number.Amount} (h : w.create input d = .ok (w',k)) :
    Moves heard replaced w w' := by
  obtain ⟨t,queue,ht,heq⟩ := of_create h
  obtain rfl := congrArg Prod.fst heq
  exact (Moves.add ht).trans (.enter _ _ _)

theorem moves_unlist (w : World) (k : Nat) : Moves heard replaced w (w.unlist k) := by
  unfold unlist
  split
  · rename_i e n t he ht
    refine (Moves.list false he).trans (.put fun u hu => ?_)
    obtain rfl : t = u := Option.some.inj ((timerOf?_eq ht).1.symm.trans hu)
    rfl
  · exact .refl w

theorem moves_unlists (ks : List Nat) (w : World) : Moves heard replaced w (ks.foldl unlist w) := by
  induction ks generalizing w with
  | nil => exact .refl w
  | cons k ks ih => exact (moves_unlist w k).trans (ih (w.unlist k))

theorem moves_setInput {text : String} (h : w.setInput k text = .ok w') : Moves heard (some k) w w' := by
  unfold setInput at h
  split at h
  · contradiction
  · rename_i q e n t _ he ht
    cases h
    exact (Moves.replace _ _ he rfl).trans (.take (timerOf?_eq ht).1 (listeners_applyAction t 0 (.reset _) _))
  · cases h
    exact .refl w

theorem moves_next? {cs : List Call} (h : w.next? k = some (w',cs)) : Moves heard replaced w w' := by
  unfold next? at h
  split at h
  · rename_i e n t he ht
    split at h
    · rename_i d q hpop
      obtain rfl := congrArg Prod.fst (Option.some.inj h)
      have hupcoming : e.upcoming = some d := by
        obtain ⟨q₀,hq,hp⟩ := Option.map_eq_some_iff.mp hpop
        rw [Entry.upcoming, hq]
        exact Queue.peek_of_pop hp
      have ht₁ : (w.setEntry k { e with queue := some q }).timers[n]? = some t := (timerOf?_eq ht).1
      have hreset : Moves heard replaced w ((w.setEntry k { e with queue := some q }).take n
          (t.reset (some (.int d)) w.line).1).1 :=
        (Moves.goOn _ he hupcoming).trans (.take ht₁ (listeners_applyAction t n (.reset (some (.int d))) w.line))
      exact hreset.trans (.take (getElem?_take ht₁ _) (listeners_applyAction _ n .start _))
    · contradiction
  · contradiction

theorem moves_addRestored (w : World) (f : TimerFields) : Moves heard replaced w (w.addRestored f).1 := by
  rw [addRestored_eq]
  refine (Moves.add rfl).trans (.take (t := { duration := max 0 f.duration }) (by simp) ?_)
  exact listeners_setFields _ _ _ _

theorem moves_restoreAll (w : World) (ss : List Snapshot) : Moves heard replaced w (w.restoreAll ss).1 := by
  induction ss generalizing w with
  | nil => exact .refl w
  | cons s ss ih =>
    have hadded : Moves heard replaced w (w.addRestored s.fields).1 := moves_addRestored w s.fields
    simp only [restoreAll]
    split
    · exact hadded.trans (.spend _ _)
    · rename_i queue logs _
      exact ((hadded.trans (moves_logs logs _)).trans (.enter _ s.input queue)).trans (ih _)

theorem moves_importText (w : World) (text : String) : Moves heard replaced w (w.importText text).1 := by
  unfold importText
  split
  · exact .refl w
  · exact .refl w
  · exact (moves_logs _ w).trans (moves_restoreAll _ _)

end World

namespace Task

def attends? (s : Session) : Task → Option Nat
  | .command _ (.listen _ _ _) => some s.focus
  | .command _ (.unlisten name) => (s.registered.find? fun p => p.1 == name).map (·.2)
  | _ => none

def replaces? (s : Session) : Task → Option Nat
  | .command subject (.setInput r _) => s.entry? subject r
  | _ => none

end Task

namespace Session
open World

variable {heard replaced : Option Nat} {s : Session}

theorem moves_act (s : Session) (n : Nat) (a : Action) :
    Moves heard replaced s.world (s.act n a).session.world := by
  unfold act
  split
  · exact .refl _
  · rename_i t ht
    dsimp only
    split <;> exact .take ht (listeners_applyAction _ _ _ _)

theorem moves_fire (s : Session) (i : Nat) : Moves heard replaced s.world (s.fire i).1.world := by
  unfold fire
  split
  · exact .refl _
  · dsimp only
    split
    · exact .aside rfl rfl rfl
    · rename_i t ht
      exact .take ht (listeners_wake _ _ _ _)

theorem moves_setClock (s : Session) (now : Int) : Moves heard replaced s.world (s.setClock now).world :=
  .aside rfl rfl rfl

theorem moves_advanceTo (s : Session) (target : Int) :
    Moves heard replaced s.world (s.advanceTo target).1.world := by
  unfold advanceTo
  split
  · exact moves_setClock s target
  · exact (moves_setClock s _).trans (moves_fire _ _)

theorem moves_next (s : Session) (k : Nat) : Moves heard replaced s.world (s.next k).1.world := by
  unfold next
  split
  · exact .refl _
  · rename_i w cs h
    exact moves_next? h

theorem moves_proceed (s : Session) (k : Nat) : Moves heard replaced s.world (s.proceed k).1.world := by
  unfold proceed
  split
  · split
    · exact moves_next s k
    · exact .refl _
  · exact .refl _

theorem moves_refocus (s : Session) (f : TimerFields) : Moves heard replaced s.world (s.refocus f).1.world :=
  moves_addRestored s.world f

theorem moves_onEntry (s : Session) (k : Nat) {c : Command}
    (hr : ∀ r text, c = .setInput r text → replaced = some k) :
    Moves heard replaced s.world (s.onEntry k c).session.world := by
  unfold onEntry
  split
  · exact moves_unlist _ _
  · rename_i r text
    obtain rfl := hr r text rfl
    split
    · exact .refl _
    · rename_i h
      exact moves_setInput h
  · exact moves_next s k
  · exact .refl _

theorem moves_onFocus (s : Session) (subject : Option String) (c : Command) :
    Moves ((Task.command subject c).attends? s) replaced s.world (s.onFocus c).session.world := by
  cases c with
  | listen name steps fails => exact .attend _ rfl
  | unlisten name =>
    simp only [onFocus, Task.attends?]
    cases s.registered.find? fun p => p.1 == name with
    | none => exact .refl _
    | some p =>
      dsimp only
      split
      · exact .refl _
      · exact .attend _ rfl
  | save input consumed =>
    simp only [onFocus]
    split <;> exact .refl _
  | restore saved =>
    simp only [onFocus]
    split
    · exact .refl _
    · exact moves_refocus s _
  | copy =>
    simp only [onFocus]
    split
    · exact .refl _
    · have hput : Moves none replaced s.world (s.world.put s.focus (s.focused.close s.world.line)) := by
        refine .put fun t ht => ?_
        simp [Timer.close, focused, List.getD_eq_getElem?_getD, ht]
      exact hput.trans (moves_refocus (s.withWorld _) _)
  | _ => exact .refl _

theorem moves_perform (s : Session) (subject : Option String) (c : Command) :
    Moves ((Task.command subject c).attends? s) ((Task.command subject c).replaces? s) s.world
      (s.perform subject c).session.world := by
  cases c with
  | tick ms => exact moves_setClock s _
  | fire i =>
    simp only [perform]
    split
    · exact .refl _
    · exact moves_fire s _
  | act r a =>
    simp only [perform]
    split
    · exact .refl _
    · exact moves_act s _ a
  | create input d =>
    simp only [perform]
    split
    · exact .refl _
    · rename_i h
      exact moves_create h
  | setInput r text =>
    simp only [perform]
    split
    · exact .refl _
    · rename_i h
      exact moves_onEntry s _ fun _ _ _ => h
  | get r | next r | remove r =>
    simp only [perform]
    split
    · exact .refl _
    · exact moves_onEntry s _ fun _ _ h => by contradiction
  | stopAll => exact moves_unlists _ _
  | exportAll =>
    simp only [perform]
    split <;> exact .refl _
  | importAll text =>
    simp only [perform]
    split <;> exact moves_importText _ _
  | configure separator | register name trigger steps fails | unregister name | observe => exact .aside rfl rfl rfl
  | listen name steps fails | unlisten name | describe | save input consumed | restore saved | copy =>
    exact moves_onFocus s subject _
  | advance ms | notify r => exact .refl _

theorem moves_task (s : Session) (t : Task) :
    Moves (t.attends? s) (t.replaces? s) s.world (s.task t).session.world := by
  cases t with
  | command subject c => exact moves_perform s subject c
  | call c =>
    unfold task call
    dsimp only
    split
    · exact (Moves.note fun _ => rfl).trans (.note fun _ => rfl)
    · exact .note fun _ => rfl
  | tell c e id =>
    obtain ⟨x,hx,heq⟩ := s.tell_eq c e id
    unfold task
    dsimp only
    rw [ok, heq]
    exact .note fun n => by cases x <;> first | rfl | cases hx
  | proceed k => exact moves_proceed s k
  | advanceTo target => exact moves_advanceTo s target
  | notify e id | fail | caught site => exact .refl _

theorem step_world (s : Session) (t : Task) (rest : List Task) :
    (s.step t rest).1.world = (s.task t).session.world ∨
      ∃ l, (s.step t rest).1.world = (s.task t).session.world.log l := by
  unfold step
  split
  · rename_i h
    rw [h]
    exact .inl rfl
  · rename_i h
    rw [h]
    split
    · exact .inl rfl
    · exact .inr ⟨_,rfl⟩

theorem moves_step (s : Session) (t : Task) (rest : List Task) :
    Moves (t.attends? s) (t.replaces? s) s.world (s.step t rest).1.world := by
  have htask := moves_task s t
  obtain hworld | ⟨l,hworld⟩ := step_world s t rest
  · rwa [hworld]
  · rw [hworld]
    exact htask.trans (.note fun _ => rfl)

end Session
end Countdown
