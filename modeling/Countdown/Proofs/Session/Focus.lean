import Countdown.Proofs.Session.Bench
import Countdown.Proofs.Timer.Evolution
set_option autoImplicit false

namespace Countdown

/-- A task that does nothing to the timer in focus but an operation among `ok`. -/
def Task.handles (ok : Action → Bool) : Task → Bool
  | .command _ (.act .focus a) => ok a
  | .command _ (.tick _) | .command _ (.fire _) | .command _ (.advance _) => true
  | .command _ (.listen _ _ _) | .command _ (.unlisten _) => true
  | .advanceTo _ | .call _ | .fail | .caught _ => true
  | _ => false

def Task.isInstant : Task → Bool
  | .command _ (.tick _) | .advanceTo _ => false
  | _ => true

namespace Session
open TimerFields

variable {s : Session} {n : Nat} {a : Action} {ok : Action → Bool} {task : Task}

def doAll (s : Session) (tasks : List Task) : Session := tasks.foldl (fun s t => (s.task t).session) s

theorem doAll_append (s : Session) (ts us : List Task) : s.doAll (ts ++ us) = (s.doAll ts).doAll us :=
  List.foldl_append

theorem focused_set {w : World} {t : Timer} (h : w.timers = s.world.timers.set s.focus t)
    (ht : t.fields = s.focused.fields) : (s.withWorld w).focused.fields = s.focused.fields := by
  unfold focused
  simp only [withWorld, h, List.getD_eq_getElem?_getD, List.getElem?_set_self']
  cases hget : s.world.timers[s.focus]? with
  | none => rfl
  | some u =>
    rw [focused_eq rfl hget] at ht
    exact ht

theorem focused_other {w : World} {t : Timer} (h : w.timers = s.world.timers.set n t) (hn : n ≠ s.focus) :
    (s.withWorld w).focused = s.focused := by
  unfold focused
  simp only [withWorld, h, List.getD_eq_getElem?_getD, List.getElem?_set_ne hn]

theorem focused_take {t : Timer} (ht : s.world.timers[s.focus]? = some t) (e : Timer.Effect) :
    (s.withWorld (s.world.take s.focus e).1).focused = e.timer :=
  focused_eq rfl (World.getElem?_take ht e)

theorem now_take (s : Session) (n : Nat) (e : Timer.Effect) :
    (s.withWorld (s.world.take n e).1).now = e.line.now :=
  congrArg Timeline.now (World.line_take s.world n e)

theorem act_session {t : Timer} (ht : s.world.timers[n]? = some t) (a : Action) : (s.act n a).session =
    s.withWorld (s.world.take n (applyAction t n a s.world.line).1).1 := by
  simp only [act, ht]
  split <;> rfl

theorem act_focus (s : Session) (a : Action) : s.focused = {} ∧ (s.act s.focus a).session = s ∨
    (s.act s.focus a).session.focused = (applyAction s.focused s.focus a s.world.line).1.timer ∧
      (s.act s.focus a).session.now = (applyAction s.focused s.focus a s.world.line).1.line.now := by
  cases ht : s.world.timers[s.focus]? with
  | none =>
    refine Or.inl ⟨?_,?_⟩
    · rw [focused, List.getD_eq_getElem?_getD, ht]
      rfl
    · simp only [act, ht]
      rfl
  | some t =>
    rw [act_session ht, focused_eq rfl ht]
    exact Or.inr ⟨focused_take ht _,now_take _ _ _⟩

theorem fire_marked (s : Session) (i : Nat) :
    s.focused.fields.Marked (s.fire i).1.focused.fields ∧ (s.fire i).1.now = s.now := by
  unfold fire
  split
  · exact ⟨.refl _,rfl⟩
  · rename_i wake _
    dsimp only
    split
    · exact ⟨.refl _,rfl⟩
    · rename_i t ht
      refine ⟨?_,(now_take _ _ _).trans (Timer.now_wake _ _ _ _)⟩
      by_cases hn : wake.owner = s.focus
      · rw [hn] at ht ⊢
        rw [focused_eq rfl ht, focused_take ht]
        exact Timer.marked_wake t _ _ _
      · rw [focused_other (World.timers_take _ _ _) hn]
        exact .refl _

theorem marked_of_fields {s' : Session} (h : s'.focused.fields = s.focused.fields) :
    s.focused.fields.Marked s'.focused.fields := by
  rw [h]
  exact .refl _

/-- All tasks but operations leave the timer in focus as it is, but for the mark that its end was
announced; the clock moves in two of them. -/
theorem task_marked (s : Session) (h : task.handles (fun _ => false) = true) :
    s.focused.fields.Marked (s.task task).session.focused.fields ∧
      (task.isInstant = true → (s.task task).session.now = s.now) := by
  cases task with
  | command subject c => cases c with
    | tick ms => exact ⟨.refl _,fun h => absurd h Bool.false_ne_true⟩
    | advance ms => exact ⟨.refl _,fun _ => rfl⟩
    | act r a => cases r <;> contradiction
    | fire i =>
      simp only [Session.task, perform]
      split
      · exact ⟨.refl _,fun _ => rfl⟩
      · exact ⟨(fire_marked s _).1,fun _ => (fire_marked s _).2⟩
    | listen name steps fails => exact ⟨marked_of_fields (focused_set rfl rfl),fun _ => rfl⟩
    | unlisten name =>
      simp only [Session.task, perform, onFocus]
      split
      · exact ⟨.refl _,fun _ => rfl⟩
      · rename_i m _
        split
        · exact ⟨.refl _,fun _ => rfl⟩
        · rename_i t ht
          refine ⟨?_,fun _ => rfl⟩
          by_cases hn : m = s.focus
          · rw [hn] at ht ⊢
            refine marked_of_fields (focused_set rfl ?_)
            rw [focused_eq rfl ht]
            rfl
          · refine marked_of_fields (congrArg Timer.fields (focused_other rfl hn))
    | _ => contradiction
  | advanceTo target =>
    refine ⟨?_,fun h => absurd h Bool.false_ne_true⟩
    simp only [Session.task, advanceTo]
    split
    · exact .refl _
    · exact (fire_marked _ _).1
  | call c =>
    simp only [Session.task, call]
    cases c.listener <;> exact ⟨.refl _,fun _ => rfl⟩
  | fail => exact ⟨.refl _,fun _ => rfl⟩
  | caught site => exact ⟨.refl _,fun _ => rfl⟩
  | _ => contradiction

theorem handles_cases (h : task.handles ok = true) :
    (∃ subject a, task = .command subject (.act .focus a) ∧ ok a = true) ∨
      task.handles (fun _ => false) = true := by
  cases task with
  | command subject c => cases c with
    | act r a => cases r with
      | focus => exact Or.inl ⟨subject,a,rfl,h⟩
      | _ => contradiction
    | _ => exact Or.inr h
  | _ => exact Or.inr h

/-- While the run of the timer in focus goes on, each task is a step of it at the time that it leaves. -/
theorem task_evolves (s : Session) (h : task.handles Action.continues = true) :
    s.focused.fields.Evolves (s.task task).session.now (s.task task).session.focused.fields ∧
      (task.isInstant = true → (s.task task).session.now = s.now) := by
  obtain ⟨subject,a,rfl,ha⟩ | hother := handles_cases h
  · obtain ⟨-,hstay⟩ | ⟨hfocused,hnow⟩ := act_focus s a
    · have hsame : (s.task (.command subject (.act .focus a))).session = s := hstay
      rw [hsame]
      exact ⟨.refl _ _,fun _ => rfl⟩
    · rw [Timer.now_applyAction _ _ (Action.isPlain_of_continues ha)] at hnow
      refine ⟨?_,fun _ => hnow⟩
      simp only [Session.task, perform, timer?]
      rw [hfocused, hnow]
      exact Timer.applyAction_evolves _ _ ha _
  · obtain ⟨hmarked,hnow⟩ := task_marked s hother
    exact ⟨hmarked.evolves _,hnow⟩

theorem task_reset (s : Session) (subject : Option String) (d : Option Number.Amount) : ∃ d',
    (s.task (.command subject (.act .focus (.reset d)))).session.focused.fields = { duration := d' } ∧
      (0 ≤ s.focused.duration → 0 ≤ d') := by
  simp only [Session.task, perform, timer?]
  obtain ⟨hnone,hstay⟩ | ⟨hfocused,-⟩ := act_focus s (.reset d)
  · rw [hstay, hnone]
    exact ⟨0,rfl,id⟩
  · rw [hfocused]
    exact Timer.reset_fields s.focused d s.world.line

end Session
end Countdown
