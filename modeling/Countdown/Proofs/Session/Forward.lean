import Countdown.Proofs.Session.Faithful
set_option autoImplicit false

namespace Countdown

open World

theorem Action.sound_of_isPlain {a : Action} (h : a.isPlain = true) : a.Sound := by
  cases a <;> trivial

/-- Whether a command by itself leaves alone the clock, the separator and what a timer makes of its
timekeeping fields, and adds no timers but those of an input. -/
def Command.isCalm : Command → Bool
  | .act _ a => a.isPlain
  | .create _ d => d.isNone
  | .advance _ | .tick _ | .restore _ | .copy | .importAll _ | .configure _ => false
  | _ => true

inductive Command.Calm : Command → Prop where
  | intro {c : Command} : c.isCalm = true → (∀ d ∈ c.steps, Calm d) → Calm c

theorem Command.Calm.sound {c : Command} (h : c.Calm) : c.Sound := by
  induction h with
  | @intro c hc _ ih =>
    refine ⟨fun r a heq => ?_,ih⟩
    subst heq
    exact Action.sound_of_isPlain hc

def Command.Plain (c : Command) : Prop := c.Calm ∨ ∃ ms, 0 ≤ ms ∧ (c = .advance ms ∨ c = .tick ms)

def Script.Calm (p : Script) : Prop := ∀ c ∈ p.steps, c.Calm

def Task.Calm : Task → Prop
  | .command _ c => c.Calm
  | .advanceTo _ => False
  | _ => True

/-- All timers and queues are as they come about with time going forward, and all scripts are calm. -/
structure Session.Onward (s : Session) (separator : String) (now : Int) : Prop where
  world : s.world.Faithful separator now
  listeners : ∀ p ∈ s.listeners, p.2.Calm
  callbacks : ∀ p ∈ s.callbacks, p.2.Calm

structure Turn.Onward (r : Turn) (separator : String) (now : Int) : Prop where
  session : r.session.Onward separator now
  tasks : ∀ tasks reply, r.outcome = .ok (tasks,reply) → ∀ t ∈ tasks, t.Calm

namespace Session
open Countdown.Task Timeline

variable {s : Session} {separator : String} {now : Int} {w : World}

theorem Onward.withWorld (h : s.Onward separator now) {later : Int} (hw : w.Faithful separator later) :
    (s.withWorld w).Onward separator later := ⟨hw,h.listeners,h.callbacks⟩

theorem onward_ok {tasks : List Task} {reply : Reply} (h : s.Onward separator now) (ht : ∀ t ∈ tasks, t.Calm) :
    (s.ok tasks reply).Onward separator now := by
  refine ⟨h,?_⟩
  rintro _ _ ⟨⟩
  exact ht

theorem onward_failed {f : Failure} (h : s.Onward separator now) : (s.failed f).Onward separator now := by
  refine ⟨h,?_⟩
  rintro _ _ ⟨⟩

theorem calm_calls {cs : List Call} : ∀ t ∈ calls cs, t.Calm := by
  intro t ht
  obtain ⟨c,-,rfl⟩ := List.mem_map.mp ht
  trivial

theorem calm_append {ts us : List Task} (ht : ∀ t ∈ ts, t.Calm) (hu : ∀ t ∈ us, t.Calm) :
    ∀ t ∈ ts ++ us, t.Calm := by
  intro t h
  obtain h | h := List.mem_append.mp h
  · exact ht t h
  · exact hu t h

theorem calm_notify {e : Event} {id : String} : ∀ t ∈ [Task.notify e id], t.Calm := by
  intro t ht
  rw [List.mem_singleton.mp ht]
  trivial

theorem calm_scripted {p : Script} (hp : p.Calm) (subject : Option String) (site : Site) :
    ∀ t ∈ scripted p subject site, t.Calm := by
  intro t ht
  obtain ⟨c,hc,rfl⟩ | rfl | rfl := mem_scripted ht
  · exact hp c hc
  · trivial
  · trivial

theorem Onward.note (h : s.Onward separator now) (n : Note) :
    (s.withWorld (s.world.note n)).Onward separator now :=
  h.withWorld (h.world.congr rfl rfl rfl rfl)

theorem Onward.setFocused (h : s.Onward separator now) {t : Timer} (hd : t.duration = s.focused.duration)
    (ha : t.accumulated = s.focused.accumulated) (hr : t.resumedAt = s.focused.resumedAt) :
    (s.world.setTimer s.focus t).Faithful separator now := by
  refine h.world.setTimer (Timer.Forward.congr ?_ hd ha hr)
  unfold focused
  rw [List.getD_eq_getElem?_getD]
  cases ht : s.world.timers[s.focus]? with
  | none => exact Timer.forward_idle (Int.le_refl _) rfl rfl
  | some u => exact h.world.timers u (List.mem_of_getElem? ht)

theorem onFocus_onward (h : s.Onward separator now) {c : Command} (hc : c.Calm) :
    (s.onFocus c).Onward separator now := by
  have hsame : ∀ reply, (s.ok [] reply).Onward separator now := fun _ => onward_ok h (by simp)
  obtain ⟨hcalm,hsteps⟩ := hc
  unfold onFocus
  split
  case h_1 name steps fails =>
    have hscripts := forall_addScript h.listeners (p := ⟨none,steps,fails⟩) hsteps name
    exact onward_ok ⟨h.setFocused rfl rfl rfl,hscripts,h.callbacks⟩ (by simp)
  case h_2 name =>
    split
    · exact onward_failed h
    · split
      · exact hsame _
      · rename_i t ht
        have htimer := h.world.timers t (List.mem_of_getElem? ht)
        have hunlisten : (t.unlisten (.named name)).Forward now := htimer.congr rfl rfl rfl
        exact onward_ok (h.withWorld (h.world.setTimer hunlisten)) (by simp)
  case h_4 =>
    split
    · exact onward_failed h
    · exact hsame _
  case h_5 | h_6 => contradiction
  all_goals exact hsame _

section Guarded

variable (hg : s.world.Guarded)
include hg

theorem act_onward (h : s.Onward separator now) (n : Nat) {a : Action} (ha : a.isPlain = true) :
    (s.act n a).Onward separator now := by
  unfold act
  cases ht : s.world.timers[n]? with
  | none => exact onward_ok h (by simp)
  | some t =>
    have hsound := applyAction_sound (hg.timers n t ht) (Action.sound_of_isPlain ha)
    have hworld := h.world.take (n := n) hsound.now ((h.world.timer ht).applyAction n ha)
    cases hf : (applyAction t n a s.world.line).2 with
    | none =>
      simp only [hf]
      exact onward_ok (h.withWorld hworld) calm_calls
    | some f =>
      simp only [hf]
      exact onward_failed (h.withWorld hworld)

theorem fire_onward (h : s.Onward separator now) (i : Nat) :
    (s.fire i).1.Onward separator now ∧ ∀ t ∈ (s.fire i).2, t.Calm := by
  unfold fire
  split
  · exact ⟨h,by simp⟩
  · rename_i v hv
    dsimp only
    split
    · exact ⟨h.withWorld (h.world.congr rfl rfl rfl rfl),by simp⟩
    · rename_i t ht
      have hsound := (hg.timers _ t ht).wake hv rfl
      have hworld := h.world.take (n := v.owner) hsound.now
        ((h.world.timer ht).wake v.owner v.generation (s.world.line.markFired i))
      exact ⟨h.withWorld hworld,calm_calls⟩

theorem next_onward (h : s.Onward separator now) (k : Nat) :
    (s.next k).1.Onward separator now ∧ ∀ t ∈ (s.next k).2, t.Calm := by
  unfold next
  split
  · exact ⟨h,by simp⟩
  · rename_i w cs hn
    exact ⟨h.withWorld (h.world.next? hg hn),calm_append calm_calls calm_notify⟩

theorem proceed_onward (h : s.Onward separator now) (k : Nat) :
    (s.proceed k).1.Onward separator now ∧ ∀ t ∈ (s.proceed k).2, t.Calm := by
  unfold proceed
  split
  · split
    · exact next_onward hg h k
    · exact ⟨h,by simp⟩
  · exact ⟨h,by simp⟩

theorem onEntry_onward (h : s.Onward separator now) (k : Nat) (c : Command) :
    (s.onEntry k c).Onward separator now := by
  unfold onEntry
  split
  · exact onward_ok (h.withWorld (h.world.unlist hg k)) calm_notify
  · split
    · exact onward_failed h
    · rename_i w hw
      exact onward_ok (h.withWorld (h.world.setInput hg hw)) calm_notify
  · obtain ⟨hs,ht⟩ := next_onward hg h k
    exact onward_ok hs ht
  · exact onward_ok h (by simp)

theorem perform_onward (h : s.Onward separator now) (subject : Option String) {c : Command} (hc : c.Calm) :
    (s.perform subject c).Onward separator now := by
  have hsame : ∀ reply, (s.ok [] reply).Onward separator now := fun _ => onward_ok h (by simp)
  obtain ⟨hcalm,hsteps⟩ := hc
  cases c with
  | advance ms | tick ms | restore saved | copy | importAll text | configure separator => contradiction
  | fire i =>
    simp only [perform]
    split
    · exact hsame _
    · obtain ⟨hs,ht⟩ := fire_onward hg h i.toNat
      exact onward_ok hs ht
  | act r a =>
    simp only [perform]
    split
    · exact hsame _
    · exact act_onward hg h _ hcalm
  | create input d =>
    obtain rfl : d = none := by simpa [Command.isCalm] using hcalm
    simp only [perform]
    split
    · exact onward_failed h
    · rename_i w k hw
      exact onward_ok (h.withWorld (h.world.create hw)) (by simp)
  | get r | setInput r text | next r | remove r =>
    simp only [perform]
    split
    · exact hsame _
    · exact onEntry_onward hg h _ _
  | notify r => exact onward_ok h calm_notify
  | stopAll => exact onward_ok (h.withWorld (h.world.unlistAll hg)) (by simp)
  | exportAll =>
    simp only [perform]
    split
    · exact onward_failed h
    · exact onward_ok ⟨h.world,h.listeners,h.callbacks⟩ (by simp)
  | register name trigger steps fails =>
    have hscripts := forall_addScript h.callbacks (p := ⟨trigger,steps,fails⟩) hsteps name
    exact onward_ok ⟨h.world.congr rfl rfl rfl rfl,h.listeners,hscripts⟩ (by simp)
  | unregister name | observe => exact onward_ok (h.withWorld (h.world.congr rfl rfl rfl rfl)) (by simp)
  | listen name steps fails => exact onFocus_onward h ⟨hcalm,hsteps⟩
  | unlisten name => exact onFocus_onward h ⟨hcalm,hsteps⟩
  | describe => exact onFocus_onward h ⟨hcalm,hsteps⟩
  | save input consumed => exact onFocus_onward h ⟨hcalm,hsteps⟩

omit hg in
theorem call_onward (h : s.Onward separator now) (c : Call) :
    (s.call c).1.Onward separator now ∧ ∀ t ∈ (s.call c).2, t.Calm := by
  unfold call
  dsimp only
  split
  · rename_i name _
    exact ⟨(h.note _).note _,calm_scripted (forall_script? h.listeners name) _ _⟩
  · refine ⟨h.note _,fun t ht => ?_⟩
    simp only [List.mem_cons, List.not_mem_nil, or_false] at ht
    obtain rfl | rfl | rfl := ht <;> trivial

omit hg in
theorem tell_onward (h : s.Onward separator now) (c : Callback) (e : Event) (id : String) :
    (s.tell c e id).1.Onward separator now ∧ ∀ t ∈ (s.tell c e id).2, t.Calm := by
  cases c with
  | named name =>
    refine ⟨h.note _,calm_scripted ?_ _ _⟩
    split
    · exact forall_script? h.callbacks name
    · intro c hc
      simp at hc
  | observer => exact ⟨h.note _,by simp [tell]⟩

theorem task_onward (h : s.Onward separator now) {t : Task} (ht : t.Calm) : (s.task t).Onward separator now := by
  cases t with
  | command subject c => exact perform_onward hg h subject ht
  | call c =>
    obtain ⟨hs,ht⟩ := call_onward h c
    exact onward_ok hs ht
  | tell c e id =>
    obtain ⟨hs,ht⟩ := tell_onward h c e id
    exact onward_ok hs ht
  | notify e id =>
    refine onward_ok h fun t ht => ?_
    obtain ⟨c,-,rfl⟩ := List.mem_map.mp ht
    trivial
  | proceed k =>
    obtain ⟨hs,ht⟩ := proceed_onward hg h k
    exact onward_ok hs ht
  | advanceTo target => contradiction
  | fail => exact onward_failed h
  | caught site => exact onward_ok h (by simp)

end Guarded

/-- What is left to be done when the clock is at `now`: calm tasks, and at the end perhaps one thing that
moves the clock forward or imports an export that is no later. -/
inductive Ahead (separator : String) (now : Int) : List Task → Prop where
  | nil : Ahead separator now []
  | cons {t : Task} {rest : List Task} : t.Calm → Ahead separator now rest → Ahead separator now (t :: rest)
  | advanceTo {target : Int} : now ≤ target → Ahead separator now [.advanceTo target]
  | advance {ms : Int} : 0 ≤ ms → Ahead separator now [.command none (.advance ms)]
  | tick {ms : Int} : 0 ≤ ms → Ahead separator now [.command none (.tick ms)]
  | importAll {w : World} {before : Int} {text : String} : w.Faithful separator before → w.Wired →
      w.exported = .ok text → before ≤ now → Ahead separator now [.command none (.importAll (some text))]

theorem Ahead.append {ts rest : List Task} (ht : ∀ t ∈ ts, t.Calm) (h : Ahead separator now rest) :
    Ahead separator now (ts ++ rest) := by
  induction ts with
  | nil => exact h
  | cons t ts ih => exact .cons (ht t List.mem_cons_self) (ih fun u hu => ht u (List.mem_cons_of_mem _ hu))

theorem Ahead.tail {t : Task} {rest : List Task} (h : Ahead separator now (t :: rest)) :
    Ahead separator now rest := by
  cases h with
  | cons _ h => exact h
  | _ => exact .nil

theorem Ahead.suffix {rest after : List Task} (h : Ahead separator now rest) (hs : after <:+ rest) :
    Ahead separator now after := by
  obtain ⟨pre,rfl⟩ := hs
  induction pre with
  | nil => exact h
  | cons t pre ih => exact ih h.tail

theorem Onward.step_calm (h : s.Onward separator now) (hg : s.world.Guarded) {t : Task} {rest : List Task}
    (ht : t.Calm) (ha : Ahead separator now rest) :
    (s.step t rest).1.Onward separator now ∧ Ahead separator now (s.step t rest).2 := by
  have hturn := task_onward hg h ht
  unfold Session.step
  cases hr : s.task t with
  | mk s' outcome =>
    rw [hr] at hturn
    cases outcome with
    | ok p =>
      obtain ⟨tasks,reply⟩ := p
      exact ⟨hturn.session,ha.append (hturn.tasks tasks reply rfl)⟩
    | error f =>
      dsimp only
      cases hu : unwind rest with
      | none => exact ⟨hturn.session,.nil⟩
      | some p =>
        obtain ⟨site,after⟩ := p
        exact ⟨hturn.session.note _,ha.suffix (unwind_suffix hu)⟩

theorem Onward.setClock (h : s.Onward separator now) {later : Int} (hle : now ≤ later) :
    (s.setClock later).Onward separator later :=
  h.withWorld (h.world.setClock hle)

theorem Onward.advanceTo (h : s.Onward separator now) (hg : s.world.Guarded) {target : Int} (hle : now ≤ target) :
    ∃ later, now ≤ later ∧ (s.advanceTo target).1.Onward separator later ∧
      Ahead separator later (s.advanceTo target).2 := by
  have hnow : s.now = now := h.world.now
  unfold Session.advanceTo
  split
  · exact ⟨target,hle,h.setClock hle,.nil⟩
  · rename_i i v hv
    have hdue := (of_next? hv).2.2
    have hlater : now ≤ max s.now v.due := by omega
    have hg' : (s.setClock (max s.now v.due)).world.Guarded := hg.change (.clock _)
    obtain ⟨hs,ht⟩ := fire_onward hg' (h.setClock hlater) i
    have hrest : max s.now v.due ≤ target := by omega
    exact ⟨_,hlater,hs,.append ht (.advanceTo hrest)⟩

/-- Whatever is done first, the clock does not go back. -/
theorem Onward.step (h : s.Onward separator now) (hg : s.world.Guarded) {t : Task} {rest : List Task}
    (ha : Ahead separator now (t :: rest)) : ∃ later, now ≤ later ∧
      (s.step t rest).1.Onward separator later ∧ Ahead separator later (s.step t rest).2 := by
  have hnow : s.now = now := h.world.now
  cases ha with
  | cons ht hrest =>
    obtain ⟨hs,ha⟩ := h.step_calm hg ht hrest
    exact ⟨now,Int.le_refl _,hs,ha⟩
  | @advanceTo target hle =>
    have hstep : s.step (.advanceTo target) [] = s.advanceTo target := by
      simp [Session.step, task, ok]
    rw [hstep]
    exact h.advanceTo hg hle
  | @advance ms hms =>
    have hle : now ≤ s.now + ms := by omega
    exact ⟨now,Int.le_refl _,h,.advanceTo hle⟩
  | @tick ms hms =>
    have hle : now ≤ s.now + ms := by omega
    exact ⟨_,hle,h.setClock hle,.nil⟩
  | @importAll w₀ before text h₀ hw₀ htext hle =>
    -- what could be saved at an earlier time is no less sound now
    obtain ⟨w',ss,himport,-,hss,hrestoring⟩ := h₀.imports hw₀ htext hg h.world.separator
    have hstep : s.step (.command none (.importAll (some text))) [] = (s.withWorld w',[]) := by
      simp [Session.step, task, perform, himport, ok]
    rw [hstep]
    exact ⟨now,Int.le_refl _,h.withWorld (hrestoring.faithful h.world hss hle),.nil⟩

/-- The sessions that can be got to with one separator while time only goes forward, each with what is
still to be done in it. Only commands from outside wait, or import what was exported at an earlier time. -/
inductive Forward (separator : String) : Session → List Task → Prop where
  | fresh {s : Session} : s.Fresh → (∀ t ∈ s.world.timers, 0 ≤ t.duration) → s.world.separator = separator →
      Forward separator s []
  | ask {s : Session} {tasks : List Task} (subject : Option String) {c : Command} :
      Forward separator s tasks → (∀ t ∈ tasks.head?, t.inScript = true ∨ t.isEnd = true) → c.Calm →
      Forward separator s (.command subject c :: tasks)
  | wait {s : Session} {c : Command} {ms : Int} : Forward separator s [] → 0 ≤ ms →
      (c = .advance ms ∨ c = .tick ms) → Forward separator s [.command none c]
  | importAll {s s' : Session} {tasks : List Task} {text : String} : Forward separator s [] →
      Forward separator s' tasks → s'.world.exported = .ok text → s'.now ≤ s.now →
      Forward separator s [.command none (.importAll (some text))]
  | work {s : Session} {t : Task} {rest : List Task} : Forward separator s (t :: rest) →
      Forward separator (s.step t rest).1 (s.step t rest).2

theorem Forward.reached {tasks : List Task} (h : Forward separator s tasks) : Reached s tasks := by
  induction h with
  | fresh h _ _ => exact .fresh h
  | ask subject _ hopen hc ih => exact ih.ask subject hopen hc.sound
  | wait _ _ hc ih =>
    refine ih.ask none (by simp) ?_
    obtain rfl | rfl := hc <;> simp
  | importAll _ _ _ _ ih _ => exact ih.ask none (by simp) (Command.sound_importAll _)
  | work _ ih => exact ih.work

theorem Forward.onward {tasks : List Task} (h : Forward separator s tasks) :
    s.Onward separator s.now ∧ Ahead separator s.now tasks := by
  induction h with
  | @fresh s h hd hs =>
    have hworld : s.world.Faithful separator s.now := by
      refine ⟨fun t ht => ?_,by simp [h.entries],hs,rfl⟩
      have hpos := hd t ht
      obtain ⟨d,rfl⟩ := h.timers t ht
      exact Timer.forward_idle hpos rfl rfl
    exact ⟨⟨hworld,by simp [h.listeners],by simp [h.callbacks]⟩,.nil⟩
  | ask subject _ _ hc ih => exact ⟨ih.1,.cons hc ih.2⟩
  | wait _ hms hc ih =>
    refine ⟨ih.1,?_⟩
    obtain rfl | rfl := hc
    · exact .advance hms
    · exact .tick hms
  | importAll _ h' htext hle ih ih' => exact ⟨ih.1,.importAll ih'.1.world h'.reached.wired htext hle⟩
  | @work s t rest h ih =>
    obtain ⟨later,-,hs,ha⟩ := ih.1.step h.reached.guarded ih.2
    have hnow : (s.step t rest).1.now = later := hs.world.now
    rw [hnow]
    exact ⟨hs,ha⟩

theorem Forward.runAll {fuel : Nat} {s' : Session} {cs : List Command} (h : Forward separator s [])
    (hc : ∀ c ∈ cs, c.Plain) (hr : s.runAll fuel cs = some s') : Forward separator s' [] := by
  induction cs generalizing s with
  | nil =>
    cases hr
    exact h
  | cons c cs ih =>
    obtain ⟨⟨s₁,r⟩,hp,hr⟩ := Option.bind_eq_some_iff.mp hr
    have hasked : Forward separator s [.command none c] := by
      obtain hc | ⟨ms,hms,hc⟩ := hc c List.mem_cons_self
      · exact h.ask none (by simp) hc
      · exact h.wait hms hc
    have h₁ : Forward separator s₁ [] := run_keeps (fun _ _ _ => .work) hasked hp
    exact ih h₁ (fun d hd => hc d (List.mem_cons_of_mem _ hd)) hr

end Session
end Countdown
