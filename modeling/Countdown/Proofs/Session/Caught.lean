import Countdown.Proofs.Session.Reached
set_option autoImplicit false

namespace Countdown

/-- Operations that do not fail, since they are given no number. -/
def Action.isSafe : Action → Bool
  | .start | .resume | .pause | .stop | .close | .reset none => true
  | _ => false

def Command.isSafe : Command → Bool
  | .act _ a => a.isSafe
  | .next _ | .notify _ => true
  | _ => false

namespace Task

def isSafe : Task → Bool
  | .command _ c => c.isSafe
  | .fail => false
  | _ => true

def isSequel : Task → Bool
  | .call _ | .advanceTo _ => true
  | .notify e _ => e != .finished
  | _ => false

/-- What may fail stands within a call. -/
def Covered : List Task → Prop
  | [] => True
  | t :: rest => (t.isSafe = false → (Session.unwind rest).isSome = true) ∧ Covered rest

variable {t : Task} {xs rest : List Task}

theorem isSafe_of_not_inScript (h : t.inScript = false) : t.isSafe = true := by
  cases t <;> first | rfl | contradiction

theorem inScript_of_isSequel (h : t.isSequel = true) : t.inScript = false := by
  cases t <;> first | rfl | contradiction

theorem isSequel_calls {cs : List Call} (h : t ∈ Session.calls cs) : t.isSequel = true := by
  obtain ⟨c,-,rfl⟩ := List.mem_map.mp h
  rfl

theorem covered_append (hx : ∀ t ∈ xs, t.isSafe = true) (h : Covered rest) : Covered (xs ++ rest) := by
  induction xs with
  | nil => exact h
  | cons t xs ih =>
    refine ⟨fun ht => ?_,ih fun u hu => hx u (List.mem_cons_of_mem _ hu)⟩
    rw [hx t List.mem_cons_self] at ht
    contradiction

theorem unwind_isSome (xs rest : List Task) (site : Site) :
    (Session.unwind (xs ++ .caught site :: rest)).isSome = true := by
  induction xs with
  | nil => rfl
  | cons t xs ih =>
    rw [List.cons_append]
    unfold Session.unwind
    split
    · contradiction
    · rfl
    · rename_i h
      cases h
      exact ih

theorem covered_script (xs : List Task) (site : Site) (h : Covered rest) :
    Covered (xs ++ .caught site :: rest) := by
  induction xs with
  | nil => exact ⟨nofun,h⟩
  | cons t xs ih => exact ⟨fun _ => unwind_isSome xs rest site,ih⟩

theorem Covered.suffix {after : List Task} (hs : after <:+ rest) (h : Covered rest) : Covered after := by
  obtain ⟨pre,rfl⟩ := hs
  induction pre with
  | nil => exact h
  | cons t pre ih => exact ih h.2

end Task

namespace Session
open Countdown.Task

variable {s s' : Session} {t : Task} {tasks rest : List Task}

def Plain (r : Turn) : Prop := ∀ tasks reply, r.outcome = .ok (tasks,reply) → ∀ t ∈ tasks, t.inScript = false

def Sequel (r : Turn) : Prop := ∀ tasks reply, r.outcome = .ok (tasks,reply) → ∀ t ∈ tasks, t.isSequel = true

theorem sequel_ok {r : Reply} (h : ∀ t ∈ tasks, t.isSequel = true) : Sequel (s.ok tasks r) := by
  rintro _ _ ⟨⟩
  exact h

theorem sequel_failed {f : Failure} : Sequel (s.failed f) := nofun

theorem sequel_act (s : Session) (n : Nat) (a : Action) : Sequel (s.act n a) := by
  unfold act
  split
  · exact sequel_ok (by simp)
  · dsimp only
    split
    · exact sequel_failed
    · exact sequel_ok fun _ => isSequel_calls

theorem isSequel_fire (s : Session) (i : Nat) : ∀ t ∈ (s.fire i).2, t.isSequel = true := by
  unfold fire
  split
  · simp
  · dsimp only
    split
    · simp
    · exact fun _ => isSequel_calls

theorem isSequel_next (s : Session) (k : Nat) : ∀ t ∈ (s.next k).2, t.isSequel = true := by
  unfold next
  split
  · simp
  · intro t ht
    obtain ht | ht := List.mem_append.mp ht
    · exact isSequel_calls ht
    · rw [List.mem_singleton.mp ht]
      rfl

theorem isSequel_proceed (s : Session) (k : Nat) : ∀ t ∈ (s.proceed k).2, t.isSequel = true := by
  unfold proceed
  split
  · split
    · exact isSequel_next s k
    · simp
  · simp

theorem isSequel_advanceTo (s : Session) (target : Int) : ∀ t ∈ (s.advanceTo target).2, t.isSequel = true := by
  unfold advanceTo
  split
  · simp
  · intro t ht
    obtain ht | ht := List.mem_append.mp ht
    · exact isSequel_fire _ _ t ht
    · rw [List.mem_singleton.mp ht]
      rfl

theorem isSequel_refocus (s : Session) (f : TimerFields) : ∀ t ∈ (s.refocus f).2, t.isSequel = true :=
  fun _ => isSequel_calls

theorem sequel_onEntry (s : Session) (k : Nat) (c : Command) : Sequel (s.onEntry k c) := by
  unfold onEntry
  split
  · exact sequel_ok (by simp [isSequel])
  · split
    · exact sequel_failed
    · exact sequel_ok (by simp [isSequel])
  · exact sequel_ok (isSequel_next s k)
  · exact sequel_ok (by simp)

theorem sequel_onFocus (s : Session) (c : Command) : Sequel (s.onFocus c) := by
  unfold onFocus
  split
  case h_1 => exact sequel_ok (by simp)
  case h_2 =>
    split
    · exact sequel_failed
    · split <;> exact sequel_ok (by simp)
  case h_3 => exact sequel_ok (by simp)
  case h_4 =>
    split
    · exact sequel_failed
    · exact sequel_ok (by simp)
  case h_5 =>
    split
    · exact sequel_failed
    · exact sequel_ok (isSequel_refocus _ _)
  case h_6 =>
    split
    · exact sequel_failed
    · exact sequel_ok (isSequel_refocus _ _)
  case h_7 => exact sequel_ok (by simp)

theorem sequel_perform (s : Session) (subject : Option String) (c : Command) : Sequel (s.perform subject c) := by
  have hnone : ∀ {s' : Session} {r : Reply}, Sequel (s'.ok [] r) := sequel_ok (by simp)
  cases c with
  | advance ms => exact sequel_ok (by simp [isSequel])
  | tick ms => exact hnone
  | fire i =>
    simp only [perform]
    split
    · exact hnone
    · exact sequel_ok (isSequel_fire s _)
  | act r a =>
    simp only [perform]
    split
    · exact hnone
    · exact sequel_act s _ a
  | create input d =>
    simp only [perform]
    split
    · exact sequel_failed
    · exact hnone
  | get r | setInput r text | next r | remove r =>
    simp only [perform]
    split
    · exact hnone
    · exact sequel_onEntry s _ _
  | notify r => exact sequel_ok (by simp [isSequel])
  | exportAll =>
    simp only [perform]
    split
    · exact sequel_failed
    · exact hnone
  | importAll text =>
    simp only [perform]
    split
    · exact sequel_failed
    · exact hnone
  | stopAll | configure separator | register name trigger steps fails | unregister name | observe => exact hnone
  | listen name steps fails | unlisten name | describe | save input consumed | restore saved | copy =>
    exact sequel_onFocus s _

theorem Sequel.plain {r : Turn} (h : Sequel r) : Plain r :=
  fun tasks reply hr t ht => inScript_of_isSequel (h tasks reply hr t ht)

theorem Plain.covered {r : Turn} {reply : Reply} (h : Plain r) (hr : r.outcome = .ok (tasks,reply))
    (hrest : Covered rest) : Covered (tasks ++ rest) :=
  covered_append (fun t ht => isSafe_of_not_inScript (h tasks reply hr t ht)) hrest

theorem covered_scripted (p : Script) (subject : Option String) (site : Site) (hrest : Covered rest) :
    Covered (scripted p subject site ++ rest) := by
  have hcovered := covered_script (p.steps.map (.command subject) ++ (if p.fails then [.fail] else [])) site hrest
  simpa [scripted] using hcovered

theorem covered_task {reply : Reply} (h : (s.task t).outcome = .ok (tasks,reply)) (hrest : Covered rest) :
    Covered (tasks ++ rest) := by
  cases t with
  | command subject c => exact (sequel_perform s subject c).plain.covered h hrest
  | call c =>
    cases h
    obtain ⟨a,l⟩ := c
    cases l with
    | named name => exact covered_scripted _ _ _ hrest
    | entry k => exact covered_append (by simp [isSafe]) hrest
  | tell c e id =>
    cases h
    cases c with
    | named name => exact covered_scripted _ _ _ hrest
    | observer => exact hrest
  | notify e id =>
    cases h
    exact covered_append (by simp [isSafe]) hrest
  | proceed k =>
    have hsequel : Sequel ((s.proceed k).1.ok (s.proceed k).2 .done) := sequel_ok (isSequel_proceed s k)
    exact hsequel.plain.covered h hrest
  | advanceTo target =>
    have hsequel : Sequel ((s.advanceTo target).1.ok (s.advanceTo target).2 .done) :=
      sequel_ok (isSequel_advanceTo s target)
    exact hsequel.plain.covered h hrest
  | fail => contradiction
  | caught site =>
    cases h
    exact hrest

theorem fault_of_isSafe {a : Action} (ha : a.isSafe = true) (t : Timer) (n : Nat) (line : Timeline) :
    (applyAction t n a line).2 = none := by
  cases a with
  | reset d =>
    cases d with
    | none => rfl
    | some d => contradiction
  | add ms => contradiction
  | setFields f => contradiction
  | _ => rfl

theorem isSafe_ok (s : Session) (h : t.isSafe = true) : ∃ tasks reply, (s.task t).outcome = .ok (tasks,reply) := by
  cases t with
  | command subject c =>
    cases c with
    | act r a =>
      simp only [task, perform]
      split
      · exact ⟨_,_,rfl⟩
      · unfold act
        split
        · exact ⟨_,_,rfl⟩
        · simp only [fault_of_isSafe h]
          exact ⟨_,_,rfl⟩
    | next r =>
      simp only [task, perform]
      split
      · exact ⟨_,_,rfl⟩
      · exact ⟨_,_,rfl⟩
    | notify r => exact ⟨_,_,rfl⟩
    | _ => contradiction
  | fail => contradiction
  | _ => exact ⟨_,_,rfl⟩

theorem not_isSafe_of_error {f : Failure} (h : (s.task t).outcome = .error f) : t.isSafe = false := by
  cases ht : t.isSafe with
  | false => rfl
  | true =>
    obtain ⟨tasks,reply,hok⟩ := isSafe_ok s ht
    rw [h] at hok
    contradiction

theorem Covered.step (h : Covered (t :: rest)) : Covered (s.step t rest).2 := by
  unfold Session.step
  cases hr : s.task t with
  | mk s' outcome =>
    cases outcome with
    | ok p =>
      obtain ⟨tasks,reply⟩ := p
      have hok : (s.task t).outcome = .ok (tasks,reply) := by rw [hr]
      exact covered_task hok h.2
    | error f =>
      dsimp only
      cases hu : unwind rest with
      | none => trivial
      | some p => exact h.2.suffix (unwind_suffix hu)

/-- A task fails, and no call ends with that. -/
def Escapes (s : Session) (t : Task) (rest : List Task) : Prop :=
  (∃ f, (s.task t).outcome = .error f) ∧ unwind rest = none

/-- Nothing that follows from safe commands fails but within a call. -/
theorem not_escapes {cs : List Command} (h : ∀ c ∈ cs, c.isSafe = true)
    (hf : s.Follows (cs.map (.command none)) s' (t :: rest)) : ¬ s'.Escapes t rest := by
  have hcovered : Covered (t :: rest) := by
    generalize htasks : t :: rest = tasks at hf
    clear htasks
    induction hf with
    | start =>
      have hsafe : ∀ t ∈ cs.map (Task.command none), t.isSafe = true := by
        intro t ht
        obtain ⟨c,hc,rfl⟩ := List.mem_map.mp ht
        exact h c hc
      have hnil : Covered [] := trivial
      simpa using covered_append hsafe hnil
    | work _ ih => exact Covered.step ih
  rintro ⟨⟨f,hfail⟩,hnone⟩
  have hcaught := hcovered.1 (not_isSafe_of_error hfail)
  rw [hnone] at hcaught
  contradiction

end Session
end Countdown
