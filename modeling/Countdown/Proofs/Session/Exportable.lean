import Countdown.Proofs.Session.RoundTrip
set_option autoImplicit false

/-!
Exporting a deck whose clock may have been set to any time. A timer that is paused or stopped at a time
before it was resumed has spent less than no time running, and such a timer cannot be saved.
-/

namespace Countdown

namespace Snapshot

variable {s : Snapshot}

def overdrawn : Invalid := ⟨["accumulated_elapsed"],[]⟩

theorem check_accumulated (hd : 0 ≤ s.fields.duration) (hn : 0 ≤ s.consumed)
    (hc : contradiction? s.fields = none) :
    s.check = if s.fields.accumulated < 0 then .error overdrawn else .ok s := by
  have hduration : ¬ s.fields.duration < 0 := Int.not_lt.mpr hd
  have hconsumed : ¬ s.consumed < 0 := Int.not_lt.mpr hn
  by_cases ha : s.fields.accumulated < 0
  · simp [check, negativeFields, overdrawn, ha, hduration, hconsumed]
  · simp [check, negativeFields, ha, hduration, hconsumed, hc]

end Snapshot

namespace Timer

variable {t : Timer}

theorem duration_applyAction (h : 0 ≤ t.duration) (n : Nat) (a : Action) (line : Timeline) :
    0 ≤ (Session.applyAction t n a line).1.timer.duration := by
  have hgoes := fun ha : a.continues = true => (applyAction_evolves t n ha line).duration h
  cases a with
  | reset d =>
    obtain ⟨d',hfields,hd⟩ := reset_fields t d line
    have hduration : (t.reset d line).1.timer.duration = d' := congrArg TimerFields.duration hfields
    exact (hd h).trans_eq hduration.symm
  | setFields f =>
    simp only [Session.applyAction, setFields]
    split
    · exact h
    · split
      · exact Int.le_max_left _ _
      · split
        · exact ((marked_check _ n none _).evolves line.now).duration (Int.le_max_left _ _)
        · exact Int.le_max_left _ _
  | _ => exact hgoes rfl

theorem accumulated_check (t : Timer) (n : Nat) (g : Option Nat) (line : Timeline) :
    (t.check n g line).timer.accumulated = t.accumulated := by
  obtain ⟨f,a,htimer⟩ := check_timer t n g line
  rw [htimer]

/-- What an operation makes of the time spent running up to the last pause: it takes in the time of this
run when the timer is paused or stopped, and else stays or is forgotten, unless it is set. -/
inductive Spends (t : Timer) (now : Int) : Action → Int → Prop where
  | keeps (a : Action) : Spends t now a t.accumulated
  | forgets (a : Action) : Spends t now a 0
  | pauses : Spends t now .pause (t.elapsed now)
  | stops : Spends t now .stop (t.elapsed now)
  | set (f : GivenFields) (ms : Int) : Spends t now (.setFields f) ms

theorem spends_applyAction (t : Timer) (n : Nat) (a : Action) (line : Timeline) :
    Spends t line.now a (Session.applyAction t n a line).1.timer.accumulated := by
  cases a with
  | start =>
    simp only [Session.applyAction, start]
    split
    · exact .keeps _
    · simp only [Effect.ofCleared, accumulated_check]
      exact .forgets _
  | resume =>
    simp only [Session.applyAction, resume]
    split
    · rw [accumulated_check]
      exact .keeps _
    · exact .keeps _
  | pause =>
    simp only [Session.applyAction, pause]
    split
    · exact .pauses
    · exact .keeps _
  | stop =>
    simp only [Session.applyAction, stop, pause]
    split
    · split
      · exact .stops
      · exact .keeps _
    · exact .keeps _
  | close => exact .keeps _
  | reset d =>
    obtain ⟨d',he⟩ := reset_eq t d line
    simp only [Session.applyAction, he]
    exact .forgets _
  | add ms =>
    simp only [Session.applyAction, add]
    split
    · exact .keeps _
    · split
      · exact .keeps _
      · rename_i ms _
        cases hs : t.isStarted with
        | false =>
          rw [addInt_idle ms hs]
          exact .keeps _
        | true =>
          rw [addInt_started ms hs]
          split
          · rw [accumulated_check]
            exact .keeps _
          · exact .keeps _
  | setFields f => exact .set f _

end Timer

namespace World

variable {w w' : World} {made due : List Call} {f : Failure} {ks : List Nat} {k : Nat} {s : Snapshot}

def Overdrawn (w : World) : Prop := ∃ t ∈ w.timers, t.accumulated < 0

/-- A world comes to be overdrawn only when a timer is paused or stopped at a time before it was resumed, or when its
fields are set. -/
theorem Change.overdrawn (hc : w.Change made due w') (h : w'.Overdrawn) : w.Overdrawn ∨
    ∃ n t a, w.timers[n]? = some t ∧ w' = (w.take n (Session.applyAction t n a w.line).1).1 ∧
      ((a = .pause ∨ a = .stop) ∧ t.elapsed w.now < 0 ∨ ∃ f, a = .setFields f) := by
  obtain ⟨u,hu,hneg⟩ := h
  have hset : ∀ {n : Nat} {t x : Timer}, w.timers[n]? = some t → w'.timers = w.timers.set n x →
      x.accumulated = t.accumulated → w.Overdrawn := by
    intro n t x ht htimers ha
    rw [htimers] at hu
    obtain hu | rfl := List.mem_or_eq_of_mem_set hu
    · exact ⟨u,hu,hneg⟩
    · rw [ha] at hneg
      exact ⟨t,List.mem_of_getElem? ht,hneg⟩
  cases hc with
  | @act n t a ht ha =>
    have hspends := Timer.spends_applyAction t n a w.line
    rw [timers_take] at hu
    obtain hu | rfl := List.mem_or_eq_of_mem_set hu
    · exact Or.inl ⟨u,hu,hneg⟩
    · generalize hms : (Session.applyAction t n a w.line).1.timer.accumulated = ms at hspends hneg
      cases hspends with
      | keeps a => exact Or.inl ⟨t,List.mem_of_getElem? ht,hneg⟩
      | forgets a => contradiction
      | pauses => exact Or.inr ⟨n,t,.pause,ht,rfl,Or.inl ⟨Or.inl rfl,hneg⟩⟩
      | stops => exact Or.inr ⟨n,t,.stop,ht,rfl,Or.inl ⟨Or.inr rfl,hneg⟩⟩
      | set f ms => exact Or.inr ⟨n,t,.setFields f,ht,rfl,Or.inr ⟨f,rfl⟩⟩
  | @ring i v t hv ht =>
    obtain ⟨b,a,htimer⟩ := Timer.wake_timer t v.owner v.generation (w.line.markFired i)
    refine Or.inl (hset ht (timers_take _ _ _) ?_)
    rw [htimer]
  | orphan _ _ => exact Or.inl ⟨u,hu,hneg⟩
  | clock now => exact Or.inl ⟨u,hu,hneg⟩
  | add d _ =>
    obtain hu | hu := List.mem_append.mp hu
    · exact Or.inl ⟨u,hu,hneg⟩
    · rw [List.mem_singleton.mp hu] at hneg
      contradiction
  | @listeners n t ls ht _ => exact Or.inl (hset (x := { t with listeners := ls }) ht rfl rfl)
  | note _ => exact Or.inl ⟨u,hu,hneg⟩
  | call c => exact Or.inl ⟨u,hu,hneg⟩
  | aside ht _ _ _ =>
    rw [ht] at hu
    exact Or.inl ⟨u,hu,hneg⟩

def Lasting (w : World) : Prop := ∀ t ∈ w.timers, 0 ≤ t.duration

theorem Lasting.set (h : w.Lasting) {n : Nat} {t : Timer} (ht : 0 ≤ t.duration)
    (htimers : w'.timers = w.timers.set n t) : w'.Lasting := by
  intro u hu
  rw [htimers] at hu
  obtain hu | rfl := List.mem_or_eq_of_mem_set hu
  · exact h u hu
  · exact ht

theorem Lasting.change (h : w.Lasting) (hc : w.Change made due w') : w'.Lasting := by
  cases hc with
  | act ht _ =>
    exact h.set (Timer.duration_applyAction (h _ (List.mem_of_getElem? ht)) _ _ _) (timers_take _ _ _)
  | @ring i v t hv ht =>
    obtain ⟨b,a,htimer⟩ := Timer.wake_timer t v.owner v.generation (w.line.markFired i)
    have hd : 0 ≤ ({ t with finished := b, alarm := a } : Timer).duration := h t (List.mem_of_getElem? ht)
    rw [← htimer] at hd
    exact h.set hd (timers_take _ _ _)
  | orphan _ _ => exact h
  | clock now => exact h
  | add d hd =>
    intro t ht
    obtain ht | ht := List.mem_append.mp ht
    · exact h t ht
    · rw [List.mem_singleton.mp ht]
      exact hd
  | @listeners n t ls ht _ =>
    exact h.set (t := { t with listeners := ls }) (h t (List.mem_of_getElem? ht)) rfl
  | note _ => exact h
  | call c => exact h
  | aside ht _ _ _ =>
    intro t hmem
    rw [ht] at hmem
    exact h t hmem

theorem check_saved (h : w.Lasting) (hg : w.Guarded) (hs : w.saved? k = some s) :
    s.check = if s.fields.accumulated < 0 then .error Snapshot.overdrawn else .ok s := by
  obtain ⟨e,t,-,ht,rfl⟩ := saved?_eq_some.mp hs
  exact Snapshot.check_accumulated (h t (List.mem_of_getElem? ht)) (Int.natCast_nonneg _)
    (hg.timers _ t ht).shaped.contradiction?

theorem snapshots_error (hall : ∀ k ∈ ks, (w.saved? k).isSome = true) (h : w.snapshots ks = .error f) :
    ∃ k ∈ ks, ∃ s e, w.saved? k = some s ∧ s.check = .error e ∧ f = .invalid e := by
  induction ks with
  | nil => contradiction
  | cons k ks ih =>
    obtain ⟨s,hs⟩ := Option.isSome_iff_exists.mp (hall k List.mem_cons_self)
    rw [snapshots_cons hs] at h
    cases hc : s.check with
    | error e =>
      rw [hc] at h
      cases h
      exact ⟨k,List.mem_cons_self,s,e,hs,hc,rfl⟩
    | ok s' =>
      rw [hc] at h
      cases hrest : w.snapshots ks with
      | error f' =>
        simp only [hrest, Except.mapError, Except.map, bind, Except.bind, Except.error.injEq] at h
        subst h
        obtain ⟨k',hk',hfault⟩ := ih (fun k hk => hall k (List.mem_cons_of_mem _ hk)) hrest
        exact ⟨k',List.mem_cons_of_mem _ hk',hfault⟩
      | ok ss =>
        simp [hrest, Except.mapError, Except.map, bind, Except.bind] at h

/-- Why an export fails. -/
theorem exported_error (hw : w.Wired) (h : w.exported = .error f) :
    (∃ k ∈ w.listed, ∃ s e, w.saved? k = some s ∧ s.check = .error e ∧ f = .invalid e) ∨ f = .unwritable := by
  have hall : ∀ k ∈ w.listed, (w.saved? k).isSome = true := by
    intro k hk
    obtain ⟨e,he,-⟩ := mem_listed.mp hk
    exact hw.saved? (List.getElem?_eq_some_iff.mp he).1
  unfold exported at h
  cases hss : w.snapshots w.listed with
  | error f' =>
    rw [hss] at h
    cases h
    exact Or.inl (snapshots_error hall hss)
  | ok ss =>
    rw [hss] at h
    simp only [bind, Except.bind] at h
    split at h
    · contradiction
    · cases h
      exact Or.inr rfl

end World

namespace Session

variable {s₀ s s' : Session} {tasks : List Task}

/-- What can be got to from one session, with what is still to be done. -/
inductive Leads (s₀ : Session) : Session → List Task → Prop where
  | start : Leads s₀ s₀ []
  | ask {s : Session} {tasks : List Task} (subject : Option String) {c : Command} :
      Leads s₀ s tasks → (∀ t ∈ tasks.head?, t.inScript = true ∨ t.isEnd = true) → c.Sound →
      Leads s₀ s (.command subject c :: tasks)
  | work {s : Session} {t : Task} {rest : List Task} :
      Leads s₀ s (t :: rest) → Leads s₀ (s.step t rest).1 (s.step t rest).2

theorem Leads.reached (h : s₀.Leads s tasks) (h₀ : Reached s₀ []) : Reached s tasks := by
  induction h with
  | start => exact h₀
  | ask subject _ hopen hc ih => exact ih.ask subject hopen hc
  | work _ ih => exact ih.work

/-- What holds at the start and is kept by every change holds all the way. -/
theorem Leads.holds {P : World → Prop} (h : s₀.Leads s tasks) (h₀ : Reached s₀ []) (hstart : P s₀.world)
    (hchange : ∀ (w w' : World) (made due : List Call), P w → w.Change made due w' → P w') : P s.world := by
  induction h with
  | start => exact hstart
  | ask _ _ _ _ ih => exact ih
  | work h ih =>
    obtain ⟨due,hc,-⟩ := (h.reached h₀).orderly.step.2
    exact hc.keeps hchange ih

theorem Leads.runAll {fuel : Nat} {cs : List Command} (h : s₀.Leads s []) (hc : ∀ c ∈ cs, c.Sound)
    (hr : s.runAll fuel cs = some s') : s₀.Leads s' [] := by
  induction cs generalizing s with
  | nil =>
    cases hr
    exact h
  | cons c cs ih =>
    obtain ⟨⟨s₁,r⟩,hp,hr⟩ := Option.bind_eq_some_iff.mp hr
    have hasked : s₀.Leads s [.command none c] := h.ask none (by simp) (hc c List.mem_cons_self)
    have h₁ : s₀.Leads s₁ [] := run_keeps (fun _ _ _ => .work) hasked hp
    exact ih h₁ (fun d hd => hc d (List.mem_cons_of_mem _ hd)) hr

/-- Whatever is done to a deck that starts without timers, and to whatever time its clock is set: it can be
exported if and only if no listed timer has spent less than no time running, and no number is too long to
be written. While time only goes forward no timer has. -/
theorem exported_any_time (h₀ : s₀.Fresh) (hnone : s₀.world.timers = []) (h : s₀.Leads s tasks) :
    ((∃ text, s.world.exported = .ok text) ↔ ∀ k ∈ s.world.listed, ∀ x, s.world.saved? k = some x →
      0 ≤ x.fields.accumulated ∧ x.Short) ∧
    (∀ f, s.world.exported = .error f → f = .unwritable ∨ f = .invalid Snapshot.overdrawn ∧
      ∃ k ∈ s.world.listed, ∃ x, s.world.saved? k = some x ∧ x.fields.accumulated < 0) ∧
    ∀ separator, Forward separator s tasks → ∀ k x, s.world.saved? k = some x → 0 ≤ x.fields.accumulated := by
  have hreached := h.reached (.fresh h₀)
  have hlasting : s.world.Lasting :=
    h.holds (.fresh h₀) (by simp [World.Lasting, hnone]) fun _ _ _ _ hw hc => hw.change hc
  have hcheck := fun k x (hx : s.world.saved? k = some x) =>
    World.check_saved hlasting hreached.guarded hx
  refine ⟨?_,fun f hf => ?_,fun separator hforward k x hx => ?_⟩
  · rw [World.exists_exported hreached.wired]
    refine forall₂_congr fun k _ => forall₂_congr fun x hx => and_congr_left' ?_
    rw [hcheck k x hx]
    by_cases ha : x.fields.accumulated < 0
    · simp [ha]
    · simp [ha, Int.not_lt.mp ha]
  · obtain ⟨k,hk,x,e,hx,he,rfl⟩ | rfl := World.exported_error hreached.wired hf
    · rw [hcheck k x hx] at he
      split at he
      · rename_i ha
        cases he
        exact Or.inr ⟨rfl,k,hk,x,hx,ha⟩
      · contradiction
    · exact Or.inl rfl
  · obtain ⟨e,t,-,ht,rfl⟩ := World.saved?_eq_some.mp hx
    exact (hforward.onward.1.world.timers t (List.mem_of_getElem? ht)).accumulated

/-- The clock goes back and comes forward again before the timer is paused. -/
theorem exported_any_time_returned :
    let s₀ : Session := { world := { line := { now := 1000 } } }
    let cs := [Command.create "5m" none,.act (.id "t1") .start,.tick (-700),.tick 3000,.act (.id "t1") .pause]
    ∃ s, s₀.runAll 9 cs = some s ∧ s.world.listed = [0] ∧
      s.world.saved? 0 = some ⟨⟨300000,some 1000,none,none,2300,false⟩,"5m",1⟩ ∧
      ∃ text, s.world.exported = .ok text := by
  intro s₀ cs
  have hfresh : s₀.Fresh := ⟨by simp [s₀],rfl,rfl,rfl,rfl,rfl⟩
  have hsound : ∀ c ∈ cs, c.Sound := by simp [cs, Action.Sound]
  have hstate : (s₀.runAll 9 cs).map (fun s => (s.world.listed,s.world.saved? 0)) =
      some ([0],some ⟨⟨300000,some 1000,none,none,2300,false⟩,"5m",1⟩) := by decide +kernel
  obtain ⟨s,hrun,hs⟩ := Option.map_eq_some_iff.mp hstate
  obtain ⟨hlisted,hsaved⟩ := Prod.mk.inj hs
  have hleads : s₀.Leads s [] := Leads.start.runAll hsound hrun
  refine ⟨s,hrun,hlisted,hsaved,(exported_any_time hfresh rfl hleads).1.mpr fun k hk x hx => ?_⟩
  rw [hlisted, List.mem_singleton] at hk
  rw [hk, hsaved] at hx
  cases hx
  exact ⟨by decide,Snapshot.short_of_lt (by decide)⟩

/-- The clock goes back by a second, and the timer is paused then. -/
theorem exported_any_time_set_back :
    let s₀ : Session := { world := { line := { now := 1000 } } }
    let cs := [Command.create "5m" none,.act (.id "t1") .start,.tick (-1000),.act (.id "t1") .pause]
    ∃ s, s₀.runAll 9 cs = some s ∧ s₀.Leads s [] ∧ s.world.listed = [0] ∧
      s.run 0 .exportAll = some (s,.error (.invalid Snapshot.overdrawn)) := by
  intro s₀ cs
  have hsound : ∀ c ∈ cs, c.Sound := by simp [cs, Action.Sound]
  have hstate : (s₀.runAll 9 cs).map (fun s => (s.world.listed,s.world.exported)) =
      some ([0],.error (.invalid Snapshot.overdrawn)) := by decide +kernel
  obtain ⟨s,hrun,hs⟩ := Option.map_eq_some_iff.mp hstate
  obtain ⟨hlisted,hexport⟩ := Prod.mk.inj hs
  exact ⟨s,hrun,Leads.start.runAll hsound hrun,hlisted,by simp [Session.run, perform, hexport, failed]⟩

end Session
end Countdown
