import Countdown.Proofs.Session.Resemblance
set_option autoImplicit false

/-!
Listeners and callbacks that fail once they have done what they do. A session in which some do goes through
the same steps as one in which they do not; it only logs the failures.
-/

namespace Countdown

variable {d : Site → String → Bool}

mutual

/-- The command with the scripts under some names failing in the end. -/
def Command.doom (d : Site → String → Bool) : Command → Command
  | .listen name steps fails => .listen name (Command.doomAll d steps) (fails || d .listener name)
  | .register name trigger steps fails =>
    .register name trigger (Command.doomAll d steps) (fails || d .callback name)
  | c => c

def Command.doomAll (d : Site → String → Bool) : List Command → List Command
  | [] => []
  | c :: cs => c.doom d :: Command.doomAll d cs

end

def Script.doom (d : Site → String → Bool) (site : Site) (name : String) (p : Script) : Script :=
  { p with steps := Command.doomAll d p.steps, fails := p.fails || d site name }

/-- One script does what another does and may fail in the end when the other does not. -/
structure Script.Doomed (d : Site → String → Bool) (p q : Script) : Prop where
  trigger : q.trigger = p.trigger
  steps : q.steps = Command.doomAll d p.steps
  fails : p.fails = true → q.fails = true

def Session.doomScripts (d : Site → String → Bool) (site : Site) (scripts : List (String × Script)) :
    List (String × Script) :=
  scripts.map fun p => (p.1,p.2.doom d site p.1)

namespace Task

inductive Doomed (d : Site → String → Bool) : Task → Task → Prop where
  | command (subject : Option String) (c : Command) : Doomed d (.command subject c) (.command subject (c.doom d))
  | call {c c' : Call} (h : c.listener = c'.listener) : Doomed d (.call c) (.call c')
  | tell (c : Callback) (e : Event) (id : String) : Doomed d (.tell c e id) (.tell c e id)
  | notify (e : Event) (id : String) : Doomed d (.notify e id) (.notify e id)
  | proceed (k : Nat) : Doomed d (.proceed k) (.proceed k)
  | advanceTo (target : Int) : Doomed d (.advanceTo target) (.advanceTo target)
  | fail : Doomed d .fail .fail
  | caught (site : Site) : Doomed d (.caught site) (.caught site)

inductive AllDoomed (d : Site → String → Bool) : List Task → List Task → Prop where
  | nil : AllDoomed d [] []
  | cons {t u : Task} {ts us : List Task} (h : Doomed d t u) (hs : AllDoomed d ts us) : AllDoomed d (t :: ts) (u :: us)
  | fail {site : Site} {ts us : List Task} (hs : AllDoomed d ts us) :
    AllDoomed d (.caught site :: ts) (.fail :: .caught site :: us)

variable {ts us ts' us' : List Task}

theorem AllDoomed.append (h : AllDoomed d ts us) (h' : AllDoomed d ts' us') : AllDoomed d (ts ++ ts') (us ++ us') := by
  induction h with
  | nil => exact h'
  | cons h _ ih => exact .cons h ih
  | fail _ ih => exact .fail ih

theorem AllDoomed.one {t u : Task} (h : Doomed d t u) : AllDoomed d [t] [u] := .cons h .nil

theorem allDoomed_calls {cs cs' : List Call} (h : cs.map Call.listener = cs'.map Call.listener) :
    AllDoomed d (Session.calls cs) (Session.calls cs') := by
  induction cs generalizing cs' with
  | nil =>
    obtain rfl := List.map_eq_nil_iff.mp h.symm
    exact .nil
  | cons c cs ih =>
    cases cs' with
    | nil => contradiction
    | cons c' cs' =>
      obtain ⟨hc,hcs⟩ := List.cons.inj h
      exact .cons (.call hc) (ih hcs)

theorem allDoomed_commands (subject : Option String) (cs : List Command) :
    AllDoomed d (cs.map (.command subject)) ((Command.doomAll d cs).map (.command subject)) := by
  induction cs with
  | nil => exact .nil
  | cons c cs ih => exact .cons (.command subject c) ih

theorem allDoomed_tells (cs : List Callback) (e : Event) (id : String) :
    AllDoomed d (cs.map fun c => .tell c e id) (cs.map fun c => .tell c e id) := by
  induction cs with
  | nil => exact .nil
  | cons c cs ih => exact .cons (.tell c e id) ih

theorem allDoomed_scripted {p q : Script} (h : p.Doomed d q) (subject : Option String) (site : Site) :
    AllDoomed d (Session.scripted p subject site) (Session.scripted q subject site) := by
  have hsteps := allDoomed_commands (d := d) subject p.steps
  have hfails := h.fails
  simp only [Session.scripted, h.steps, List.append_assoc]
  refine hsteps.append ?_
  cases hp : p.fails <;> cases hq : q.fails
  · exact .one (.caught site)
  · exact .fail .nil
  · rw [hfails hp] at hq
    contradiction
  · exact .cons .fail (.one (.caught site))

/-- A failure ends the same call. -/
theorem AllDoomed.unwind (h : AllDoomed d ts us) : (Session.unwind ts = none ∧ Session.unwind us = none) ∨
    ∃ site after after', Session.unwind ts = some (site,after) ∧ Session.unwind us = some (site,after') ∧
      AllDoomed d after after' := by
  induction h with
  | nil => exact .inl ⟨rfl,rfl⟩
  | @cons t u ts us h hs ih =>
    cases h with
    | caught site => exact .inr ⟨site,ts,us,rfl,rfl,hs⟩
    | _ => exact ih
  | @fail site ts us hs ih => exact .inr ⟨site,ts,us,rfl,rfl,hs⟩

end Task

namespace Session
open Countdown.Task World

/-- One session resembles another in which scripts under some names fail in the end. -/
structure Doomed (d : Site → String → Bool) (s s' : Session) : Prop where
  world : s.world.Resembles s'.world
  listeners : s'.listeners = doomScripts d .listener s.listeners
  callbacks : s'.callbacks = doomScripts d .callback s.callbacks
  registered : s'.registered = s.registered
  focus : s'.focus = s.focus
  exported : s'.exported = s.exported

variable {s s' : Session} {w v : World} {scripts : List (String × Script)} {site : Site} {name : String}

theorem Doomed.withWorld (h : s.Doomed d s') (hw : w.Resembles v) : (s.withWorld w).Doomed d (s'.withWorld v) :=
  { h with world := hw }

theorem script?_doom : script? (doomScripts d site scripts) name = (script? scripts name).map (Script.doom d site name) := by
  simp only [script?, doomScripts, List.find?_map, Function.comp_def]
  cases hf : scripts.find? fun p => p.1 == name with
  | none => rfl
  | some p =>
    obtain rfl : p.1 = name := by simpa using List.find?_some hf
    rfl

theorem addScript_doom (p : Script) : addScript (doomScripts d site scripts) name (p.doom d site name) =
    doomScripts d site (addScript scripts name p) := by
  unfold addScript
  rw [script?_doom, Option.isSome_map]
  split
  · rfl
  · simp [doomScripts]

theorem doomed_script? : ((script? scripts name).getD {}).Doomed d
    ((script? (doomScripts d site scripts) name).getD {}) := by
  rw [script?_doom]
  cases script? scripts name with
  | none => exact ⟨rfl,rfl,id⟩
  | some p => exact ⟨rfl,rfl,fun h => by simpa [Script.doom] using Or.inl h⟩

theorem Doomed.find? (h : s.Doomed d s') : s'.world.find? = s.world.find? := by
  obtain ⟨-,-,-,-,-,-,hfind,-⟩ := h.world.looks
  exact hfind

theorem Doomed.now (h : s.Doomed d s') : s'.now = s.now := by
  obtain ⟨hline,-⟩ := h.world.looks
  exact congrArg Timeline.now hline

theorem Doomed.focused (h : s.Doomed d s') : s'.focused = s.focused := by
  obtain ⟨-,htimers,-⟩ := h.world.looks
  unfold Session.focused
  rw [htimers, h.focus]

theorem Doomed.entry? (h : s.Doomed d s') (subject : Option String) (r : Ref) :
    s'.entry? subject r = s.entry? subject r := by
  cases r <;> simp only [Session.entry?, h.find?]

theorem Doomed.timer? (h : s.Doomed d s') (subject : Option String) (r : Ref) :
    s'.timer? subject r = s.timer? subject r := by
  obtain ⟨-,-,hentries,-⟩ := h.world.looks
  cases r <;> simp only [Session.timer?, h.entry?, hentries, h.focus]

def Leaving (d : Site → String → Bool) (x y : Session × List Task) : Prop := x.1.Doomed d y.1 ∧ AllDoomed d x.2 y.2

/-- The outcome of a command or a task is the same. -/
inductive DoomedTurn (d : Site → String → Bool) : Turn → Turn → Prop where
  | ok {s s' : Session} {ts us : List Task} (r : Reply) (h : s.Doomed d s') (ht : AllDoomed d ts us) :
    DoomedTurn d (s.ok ts r) (s'.ok us r)
  | failed {s s' : Session} (f : Failure) (h : s.Doomed d s') : DoomedTurn d (s.failed f) (s'.failed f)

theorem Doomed.done (h : s.Doomed d s') (r : Reply) : DoomedTurn d (s.ok [] r) (s'.ok [] r) := .ok r h .nil

theorem Doomed.take (h : s.Doomed d s') (n : Nat) (e : Timer.Effect) :
    Leaving d (s.withWorld (s.world.take n e).1,calls (s.world.take n e).2)
      (s'.withWorld (s'.world.take n e).1,calls (s'.world.take n e).2) := by
  obtain ⟨hworld,hcalls⟩ := h.world.take n e
  exact ⟨h.withWorld hworld,allDoomed_calls hcalls⟩

theorem Doomed.act (h : s.Doomed d s') (n : Nat) (a : Action) : DoomedTurn d (s.act n a) (s'.act n a) := by
  obtain ⟨hline,htimers,-⟩ := h.world.looks
  unfold Session.act
  rw [htimers, hline]
  cases s.world.timers[n]? with
  | none => exact h.done _
  | some t =>
    obtain ⟨hsession,htasks⟩ := h.take n (applyAction t n a s.world.line).1
    dsimp only
    cases (applyAction t n a s.world.line).2 with
    | some f => exact .failed _ hsession
    | none => exact .ok _ hsession htasks

theorem Doomed.setClock (h : s.Doomed d s') (now : Int) : (s.setClock now).Doomed d (s'.setClock now) :=
  h.withWorld (h.world.map (f := fun w => { w with line := { w.line with now := now } }) fun _ _ => rfl)

theorem Doomed.fire (h : s.Doomed d s') (i : Nat) : Leaving d (s.fire i) (s'.fire i) := by
  obtain ⟨hline,htimers,-⟩ := h.world.looks
  unfold Session.fire
  rw [htimers, hline]
  cases s.world.line.wakes[i]? with
  | none => exact ⟨h,.nil⟩
  | some wake =>
    dsimp only
    cases s.world.timers[wake.owner]? with
    | none =>
      exact ⟨h.withWorld (h.world.map (f := fun w => { w with line := s.world.line.markFired i }) fun _ _ => rfl),.nil⟩
    | some t => exact h.take wake.owner (t.wake wake.owner wake.generation (s.world.line.markFired i))

theorem Doomed.advanceTo (h : s.Doomed d s') (target : Int) : Leaving d (s.advanceTo target) (s'.advanceTo target) := by
  obtain ⟨hline,-⟩ := h.world.looks
  unfold Session.advanceTo
  rw [hline]
  cases s.world.line.next? target with
  | none => exact ⟨h.setClock target,.nil⟩
  | some p =>
    dsimp only
    rw [h.now]
    obtain ⟨hsession,htasks⟩ := (h.setClock (max s.now p.2.due)).fire p.1
    exact ⟨hsession,htasks.append (.one (.advanceTo target))⟩

theorem Doomed.refocus (h : s.Doomed d s') (f : TimerFields) : Leaving d (s.refocus f) (s'.refocus f) := by
  obtain ⟨-,htimers,-⟩ := h.world.looks
  obtain ⟨hworld,hcalls⟩ := h.world.addRestored f
  exact ⟨{ h with world := hworld, focus := congrArg List.length htimers },allDoomed_calls hcalls⟩

theorem Doomed.next (h : s.Doomed d s') (k : Nat) : Leaving d (s.next k) (s'.next k) := by
  have hnext := h.world.next? k
  unfold Session.next
  generalize s.world.next? k = x at hnext ⊢
  generalize s'.world.next? k = y at hnext ⊢
  cases hnext with
  | none => exact ⟨h,.nil⟩
  | some hnext => exact ⟨h.withWorld hnext.1,(allDoomed_calls hnext.2).append (.one (.notify _ _))⟩

theorem Doomed.proceed (h : s.Doomed d s') (k : Nat) : Leaving d (s.proceed k) (s'.proceed k) := by
  obtain ⟨-,-,hentries,-⟩ := h.world.looks
  unfold Session.proceed
  rw [hentries]
  cases s.world.entries[k]? with
  | none => exact ⟨h,.nil⟩
  | some e =>
    dsimp only
    split
    · exact h.next k
    · exact ⟨h,.nil⟩

theorem Doomed.onFocus (h : s.Doomed d s') (c : Command) : DoomedTurn d (s.onFocus c) (s'.onFocus (c.doom d)) := by
  cases c with
  | listen name steps fails =>
    have hscripts : addScript (doomScripts d .listener s.listeners) name (Script.doom d .listener name ⟨none,steps,fails⟩) =
        doomScripts d .listener (addScript s.listeners name ⟨none,steps,fails⟩) := addScript_doom _
    refine .ok _ { h with world := ?_, listeners := ?_, registered := ?_ } .nil
    · rw [h.focused, h.focus]
      exact h.world.map (f := fun w => w.setTimer s.focus (s.focused.listen (.named name))) fun _ _ => rfl
    · rw [h.listeners]
      exact hscripts
    · rw [h.registered, h.focus]
  | unlisten name =>
    obtain ⟨-,htimers,-⟩ := h.world.looks
    simp only [Session.onFocus, Command.doom, h.registered]
    cases s.registered.find? fun p => p.1 == name with
    | none => exact .failed _ h
    | some p =>
      dsimp only
      rw [htimers]
      cases s.world.timers[p.2]? with
      | none => exact h.done _
      | some t =>
        exact (h.withWorld (h.world.map (f := fun w => w.setTimer p.2 (t.unlisten (.named name))) fun _ _ => rfl)).done _
  | describe =>
    simp only [Session.onFocus, Command.doom, h.focused, h.now]
    exact h.done _
  | save input consumed =>
    simp only [Session.onFocus, Command.doom, h.focused]
    cases s.focused.snapshot input consumed with
    | error e => exact .failed _ h
    | ok r => exact h.done _
  | restore saved =>
    simp only [Session.onFocus, Command.doom]
    cases Snapshot.ofJson saved with
    | error e => exact .failed _ h
    | ok r =>
      obtain ⟨hsession,htasks⟩ := h.refocus r.fields
      exact .ok _ hsession htasks
  | copy =>
    obtain ⟨hline,-⟩ := h.world.looks
    simp only [Session.onFocus, Command.doom, h.focused]
    cases s.focused.snapshot "" 0 with
    | error e => exact .failed _ h
    | ok r =>
      have hput : (s.world.put s.focus (s.focused.close s.world.line)).Resembles
          (s'.world.put s'.focus (s.focused.close s'.world.line)) := by
        rw [hline, h.focus]
        exact h.world.map (f := fun w => w.put s.focus (s.focused.close s.world.line)) fun _ _ => rfl
      obtain ⟨hsession,htasks⟩ := (h.withWorld hput).refocus r.fields
      exact .ok _ hsession htasks
  | _ => exact h.done _

theorem Doomed.onEntry (h : s.Doomed d s') (k : Nat) (c : Command) :
    DoomedTurn d (s.onEntry k c) (s'.onEntry k (c.doom d)) := by
  cases c with
  | remove r => exact .ok _ (h.withWorld (h.world.unlist k)) (.one (.notify _ _))
  | setInput r text =>
    have hinput := h.world.setInput k text
    simp only [Session.onEntry, Command.doom]
    generalize s.world.setInput k text = x at hinput ⊢
    generalize s'.world.setInput k text = y at hinput ⊢
    cases hinput with
    | error f => exact .failed _ h
    | ok hworld => exact .ok _ (h.withWorld hworld) (.one (.notify _ _))
  | next r =>
    obtain ⟨hsession,htasks⟩ := h.next k
    exact .ok _ hsession htasks
  | _ => exact h.done _

theorem Doomed.perform (h : s.Doomed d s') (subject : Option String) (c : Command) :
    DoomedTurn d (s.perform subject c) (s'.perform subject (c.doom d)) := by
  cases c with
  | advance ms =>
    simp only [Session.perform, Command.doom, h.now]
    exact .ok _ h (.one (.advanceTo _))
  | tick ms =>
    simp only [Session.perform, Command.doom, h.now]
    exact (h.setClock _).done _
  | fire i =>
    simp only [Session.perform, Command.doom]
    split
    · exact h.done _
    · obtain ⟨hsession,htasks⟩ := h.fire i.toNat
      exact .ok _ hsession htasks
  | act r a =>
    simp only [Session.perform, Command.doom, h.timer?]
    cases s.timer? subject r with
    | none => exact h.done _
    | some n => exact h.act n a
  | create input a =>
    have hcreate := h.world.create input a
    simp only [Session.perform, Command.doom]
    generalize s.world.create input a = x at hcreate ⊢
    generalize s'.world.create input a = y at hcreate ⊢
    cases hcreate with
    | error f => exact .failed _ h
    | @ok p q hpq =>
      obtain ⟨w,k⟩ := p
      obtain ⟨v,l⟩ := q
      obtain ⟨hworld,rfl⟩ := hpq
      exact (h.withWorld hworld).done _
  | get r | setInput r text | next r =>
    simp only [Session.perform, Command.doom, h.entry?]
    cases s.entry? subject r with
    | none => exact h.done _
    | some k => exact h.onEntry k _
  | remove r =>
    simp only [Session.perform, Command.doom, h.entry?]
    cases s.entry? subject r with
    | none => exact h.done _
    | some k => exact h.onEntry k (.remove r)
  | notify r => exact .ok _ h (.one (.notify _ _))
  | stopAll => exact (h.withWorld h.world.unlistAll).done _
  | exportAll =>
    simp only [Session.perform, Command.doom, h.world.exported]
    cases s.world.exported with
    | error f => exact .failed _ h
    | ok text =>
      have hexported : ({ s with exported := text } : Session).Doomed d { s' with exported := text } :=
        ⟨h.world,h.listeners,h.callbacks,h.registered,h.focus,rfl⟩
      exact hexported.done _
  | importAll text =>
    obtain ⟨hworld,hresult⟩ := h.world.importText (text.getD s.exported)
    simp only [Session.perform, Command.doom, h.exported, ← hresult]
    cases (s.world.importText (text.getD s.exported)).2 with
    | error f => exact .failed _ (h.withWorld hworld)
    | ok ks => exact (h.withWorld hworld).done _
  | configure separator =>
    exact (h.withWorld (h.world.map (f := fun w => { w with separator := separator }) fun _ _ => rfl)).done _
  | register name trigger steps fails =>
    have hscripts : addScript (doomScripts d .callback s.callbacks) name
        (Script.doom d .callback name ⟨trigger,steps,fails⟩) =
        doomScripts d .callback (addScript s.callbacks name ⟨trigger,steps,fails⟩) := addScript_doom _
    refine .ok _ { h with world := ?_, callbacks := ?_ } .nil
    · exact h.world.map (f := fun w => { w with callbacks := w.callbacks ++ [.named name] }) fun _ _ => rfl
    · rw [h.callbacks]
      exact hscripts
  | unregister name =>
    exact (h.withWorld (h.world.map (f := fun w => { w with callbacks := w.callbacks.erase (.named name) })
      fun _ _ => rfl)).done _
  | observe =>
    exact (h.withWorld (h.world.map (f := fun w => { w with callbacks := w.callbacks ++ [.observer] })
      fun _ _ => rfl)).done _
  | listen name steps fails => exact h.onFocus (.listen name steps fails)
  | unlisten name => exact h.onFocus (.unlisten name)
  | describe => exact h.onFocus .describe
  | save input consumed => exact h.onFocus (.save input consumed)
  | restore saved => exact h.onFocus (.restore saved)
  | copy => exact h.onFocus .copy

theorem Doomed.call (h : s.Doomed d s') {c c' : Call} (hc : c.listener = c'.listener) :
    Leaving d (s.call c) (s'.call c') := by
  obtain ⟨a,l⟩ := c
  obtain ⟨b,l'⟩ := c'
  obtain rfl : l = l' := hc
  have hcalled : (s.withWorld (s.world.note (.called ⟨a,l⟩ s.now))).Doomed d
      (s'.withWorld (s'.world.note (.called ⟨b,l⟩ s'.now))) := by
    rw [h.now]
    exact h.withWorld (h.world.note rfl)
  unfold Session.call
  cases l with
  | named name =>
    dsimp only
    rw [hcalled.focused, hcalled.now, hcalled.listeners]
    exact ⟨hcalled.withWorld (hcalled.world.note rfl),allDoomed_scripted doomed_script? none .listener⟩
  | entry k => exact ⟨hcalled,.cons (.notify _ _) (.cons (.proceed k) (.one (.caught _)))⟩

theorem Doomed.tell (h : s.Doomed d s') (c : Callback) (e : Event) (id : String) :
    Leaving d (s.tell c e id) (s'.tell c e id) := by
  cases c with
  | named name =>
    have hscript : ((script? s.callbacks name).getD {}).Doomed d ((script? s'.callbacks name).getD {}) := by
      rw [h.callbacks]
      exact doomed_script?
    have hacts : Script.actsOn ((script? s'.callbacks name).getD {}) e =
        Script.actsOn ((script? s.callbacks name).getD {}) e := by
      unfold Script.actsOn
      rw [hscript.trigger]
    simp only [Session.tell, hacts]
    refine ⟨h.withWorld (h.world.note rfl),allDoomed_scripted ?_ _ _⟩
    split
    · exact hscript
    · exact ⟨hscript.trigger,rfl,hscript.fails⟩
  | observer =>
    obtain ⟨-,-,-,-,-,-,hfind,hview⟩ := h.world.looks
    simp only [Session.tell, hfind, hview, h.now]
    exact ⟨h.withWorld (h.world.note rfl),.nil⟩

theorem Doomed.task (h : s.Doomed d s') {t u : Task} (ht : Task.Doomed d t u) :
    DoomedTurn d (s.task t) (s'.task u) := by
  cases ht with
  | command subject c => exact h.perform subject c
  | call hc => exact .ok _ (h.call hc).1 (h.call hc).2
  | tell c e id => exact .ok _ (h.tell c e id).1 (h.tell c e id).2
  | notify e id =>
    obtain ⟨-,-,-,-,hcallbacks,-⟩ := h.world.looks
    simp only [Session.task, hcallbacks]
    exact .ok _ h (allDoomed_tells _ e id)
  | proceed k => exact .ok _ (h.proceed k).1 (h.proceed k).2
  | advanceTo target => exact .ok _ (h.advanceTo target).1 (h.advanceTo target).2
  | fail => exact .failed _ h
  | caught site => exact h.done _

/-- The tasks go on alike. -/
theorem Doomed.step (h : s.Doomed d s') {t u : Task} {ts us : List Task} (ht : Task.Doomed d t u)
    (hs : AllDoomed d ts us) : Leaving d (s.step t ts) (s'.step u us) := by
  have hturn := h.task ht
  unfold Session.step
  generalize s.task t = r at hturn ⊢
  generalize s'.task u = r' at hturn ⊢
  cases hturn with
  | ok reply h ht => exact ⟨h,ht.append hs⟩
  | failed f h =>
    obtain ⟨hts,hus⟩ | ⟨site,after,after',hts,hus,hafter⟩ := hs.unwind
    · simp only [failed, hts, hus]
      exact ⟨h,.nil⟩
    · simp only [failed, hts, hus]
      exact ⟨h.withWorld (h.world.note rfl),hafter⟩

theorem Doomed.step_caught (h : s.Doomed d s') {site : Site} {ts us : List Task} (hs : AllDoomed d ts us) :
    Leaving d (s.step (.caught site) ts) (s'.step .fail (.caught site :: us)) :=
  ⟨h.withWorld (h.world.fault site),hs⟩

/-- All tasks are done in the same number of steps. -/
theorem Doomed.settle (h : s.Doomed d s') {ts us : List Task} (hs : AllDoomed d ts us) (fuel : Nat) :
    Option.Rel (Doomed d) (settle fuel s ts) (settle fuel s' us) := by
  induction fuel generalizing s s' ts us with
  | zero =>
    cases hs with
    | nil => exact .some h
    | cons => exact .none
    | fail => exact .none
  | succ fuel ih =>
    cases hs with
    | nil => exact .some h
    | cons ht hs =>
      obtain ⟨hsession,htasks⟩ := h.step ht hs
      exact ih hsession htasks
    | fail hs =>
      obtain ⟨hsession,htasks⟩ := h.step_caught hs
      exact ih hsession htasks

theorem Doomed.run (h : s.Doomed d s') (fuel : Nat) (c : Command) :
    Option.Rel (fun p q => p.1.Doomed d q.1 ∧ p.2 = q.2) (s.run fuel c) (s'.run fuel (c.doom d)) := by
  have hturn := h.perform none c
  unfold Session.run
  generalize s.perform none c = r at hturn ⊢
  generalize s'.perform none (c.doom d) = r' at hturn ⊢
  cases hturn with
  | failed f h => exact .some ⟨h,rfl⟩
  | @ok s s' ts us reply h ht =>
    have hsettle := h.settle ht fuel
    simp only [ok]
    generalize Session.settle fuel s ts = x at hsettle ⊢
    generalize Session.settle fuel s' us = y at hsettle ⊢
    cases hsettle with
    | none => exact .none
    | some h => exact .some ⟨h,rfl⟩

def converse (fuel : Nat) (s : Session) : List (Nat × Command) → Option (Session × List (Except Failure Reply))
  | [] => some (s,[])
  | (n,c) :: cs => do
    let (s,r) ← ({ s with focus := n } : Session).run fuel c
    let (s,rs) ← s.converse fuel cs
    return (s,r :: rs)

def doom (d : Site → String → Bool) (s : Session) : Session :=
  { s with listeners := doomScripts d .listener s.listeners, callbacks := doomScripts d .callback s.callbacks }

theorem Doomed.converse (h : s.Doomed d s') (fuel : Nat) (cs : List (Nat × Command)) :
    Option.Rel (fun p q => p.1.Doomed d q.1 ∧ p.2 = q.2) (s.converse fuel cs)
      (s'.converse fuel (cs.map fun p => (p.1,p.2.doom d))) := by
  induction cs generalizing s s' with
  | nil => exact .some ⟨h,rfl⟩
  | cons p cs ih =>
    have hfocus : ({ s with focus := p.1 } : Session).Doomed d { s' with focus := p.1 } := { h with focus := rfl }
    have hrun := hfocus.run fuel p.2
    simp only [Session.converse, List.map_cons]
    generalize ({ s with focus := p.1 } : Session).run fuel p.2 = x at hrun ⊢
    generalize ({ s' with focus := p.1 } : Session).run fuel (p.2.doom d) = y at hrun ⊢
    cases hrun with
    | none => exact .none
    | @some a b hab =>
      obtain ⟨hsession,hreply⟩ := hab
      have hrest := ih hsession
      simp only [Option.bind_eq_bind, Option.bind_some]
      generalize a.1.converse fuel cs = x at hrest ⊢
      generalize b.1.converse fuel (cs.map fun p => (p.1,p.2.doom d)) = y at hrest ⊢
      cases hrest with
      | none => exact .none
      | some hxy =>
        refine .some ⟨hxy.1,?_⟩
        rw [hreply, hxy.2]

/-- Listeners and callbacks that fail in the end are alone in that: the same commands come to an end, with
the same answers and the same timers, entries and wakes, after the same calls and with the same told. Apart
from their failures the same is noted in the same order. -/
theorem converse_doom (d : Site → String → Bool) (s : Session) (fuel : Nat) (cs : List (Nat × Command)) :
    (s.converse fuel cs = none ∧ (s.doom d).converse fuel (cs.map fun p => (p.1,p.2.doom d)) = none) ∨
    ∃ s₁ rs j, s.converse fuel cs = some (s₁,rs) ∧ Journal.calm j = Journal.calm s₁.world.journal ∧
      (s.doom d).converse fuel (cs.map fun p => (p.1,p.2.doom d)) =
        some ((s₁.doom d).withWorld { s₁.world with journal := j },rs) := by
  have hdoomed : s.Doomed d (s.doom d) := ⟨.refl _,rfl,rfl,rfl,rfl,rfl⟩
  have hrel := hdoomed.converse fuel cs
  generalize s.converse fuel cs = x at hrel ⊢
  generalize (s.doom d).converse fuel (cs.map fun p => (p.1,p.2.doom d)) = y at hrel ⊢
  cases hrel with
  | none => exact .inl ⟨rfl,rfl⟩
  | @some a b hab =>
    obtain ⟨s₁,rs⟩ := a
    obtain ⟨⟨v,ls,cbs,rg,fo,ex⟩,rs'⟩ := b
    obtain ⟨⟨⟨j,hj,hv⟩,hl,hc,hr,hf,he⟩,rfl⟩ := hab
    cases hv
    cases hl
    cases hc
    cases hr
    cases hf
    cases he
    exact .inr ⟨s₁,rs,j,rfl,hj,rfl⟩

/-- A listener of a timer that is over at once fails when it is to. -/
example :
    let s : Session := { world := { line := { now := 0 }, timers := [{}] } }
    let cs : List (Nat × Command) := [(0,.listen "bell" [.act .focus .stop] false),(0,.act .focus .start)]
    let fails := fun r : Session × List (Except Failure Reply) => r.1.world.journal.count (.logged .listenerFailed)
    (s.converse 9 cs).map fails = some 0 ∧
      ((s.doom fun _ _ => true).converse 9 (cs.map fun p => (p.1,p.2.doom fun _ _ => true))).map fails = some 1 := by
  decide +kernel

end Session
end Countdown
