import Mathlib.Data.List.Basic
import Mathlib.Logic.Relation
import Countdown.Proofs.Session.Exportable
import Countdown.Proofs.Timer.Life
set_option autoImplicit false

namespace Countdown

/-- One step of the machines of all timers. -/
inductive Life.Moves : List Life → List Life → Prop where
  | stay (ls : List Life) : Moves ls ls
  | act (ls : List Life) (n : Nat) (a : Action) : Moves ls (ls.modify n fun l => l.after a)
  | add (ls : List Life) : Moves ls (ls ++ [⟨.idle,false⟩])

namespace World

variable {w w' : World} {n : Nat} {t : Timer} {a : Action} {made due : List Call}

def lives (w : World) : List Life := w.timers.map Timer.life

theorem getElem?_lives (h : w.timers[n]? = some t) : w.lives[n]? = some t.life := by
  rw [lives, List.getElem?_map, h]
  rfl

theorem lives_take (w : World) (n : Nat) (e : Timer.Effect) :
    (w.take n e).1.lives = w.lives.set n e.timer.life := by
  rw [lives, timers_take, List.map_set]
  rfl

theorem lives_set {u : Timer} (ht : w.timers[n]? = some t) (hu : u.life = t.life) :
    w.lives.set n u.life = w.lives := by
  obtain ⟨hn,hget⟩ := List.getElem?_eq_some_iff.mp (getElem?_lives ht)
  rw [hu, ← hget, List.set_getElem_self]

theorem Guarded.lives_act (h : w.Guarded) (ht : w.timers[n]? = some t) (ha : a.Sound) :
    (w.take n (Session.applyAction t n a w.line).1).1.lives = w.lives.modify n fun l => l.after a := by
  have hconsistent : ∀ f, a = .setFields f → f.Consistent := by
    rintro f rfl
    exact ha
  rw [lives_take, (h.timers n t ht).shaped.life_applyAction hconsistent, List.modify_eq_set_getElem?,
    getElem?_lives ht]
  rfl

theorem lives_ring (ht : w.timers[n]? = some t) (g : Nat) (line : Timeline) :
    (w.take n (t.wake n g line)).1.lives = w.lives := by
  rw [lives_take, lives_set ht (Timer.life_wake t n g line)]

theorem Guarded.moves (h : w.Guarded) (hc : w.Change made due w') : Life.Moves w.lives w'.lives := by
  cases hc with
  | act ht ha =>
    rw [h.lives_act ht ha]
    exact .act _ _ _
  | ring hv ht =>
    rw [lives_ring ht]
    exact .stay _
  | orphan _ _ => exact .stay _
  | clock now => exact .stay _
  | add d _ =>
    have hlives : lives { w with timers := w.timers ++ [{ duration := d }] } = w.lives ++ [⟨.idle,false⟩] :=
      List.map_append
    rw [hlives]
    exact .add _
  | @listeners n t ls ht _ =>
    have hlives : (w.setTimer n { t with listeners := ls }).lives = w.lives :=
      List.map_set.trans (lives_set (u := { t with listeners := ls }) ht rfl)
    rw [hlives]
    exact .stay _
  | note _ => exact .stay _
  | call c => exact .stay _
  | aside htimers _ _ _ =>
    rw [lives, lives, htimers]
    exact .stay _

end World

/-- Whether a task may move timers from one state to another. -/
def Task.acts : Task → Bool
  | .command _ _ | .proceed _ => true
  | _ => false

namespace Session

variable {s s' s₀ : Session} {tasks : List Task} {n : Nat} {t : Timer} {a : Action}

theorem lives_act (h : s.world.Guarded) (n : Nat) (ha : a.Sound) :
    (s.act n a).session.world.lives = s.world.lives.modify n fun l => l.after a := by
  unfold act
  cases ht : s.world.timers[n]? with
  | none =>
    have hlen : s.world.lives.length ≤ n := by
      rw [World.lives, List.length_map]
      exact List.getElem?_eq_none_iff.mp ht
    exact (List.modify_eq_self hlen).symm
  | some t =>
    rw [← h.lives_act ht ha]
    dsimp only
    split <;> rfl

theorem act_still (h : s.world.Guarded) (ht : s.world.timers[n]? = some t)
    (hno : t.life.applies a = false) : s.act n a = s.ok [] .done := by
  have htake : s.world.take n (.silent t s.world.line) = (s.world,[]) := by
    obtain ⟨hn,rfl⟩ := List.getElem?_eq_some_iff.mp ht
    simp [World.take, Timer.Effect.silent, World.setTimer]
  simp only [act, ht, (h.timers n t ht).shaped.applyAction_still hno, htake]
  rfl

theorem lives_fire (s : Session) (i : Nat) : (s.fire i).1.world.lives = s.world.lives := by
  unfold fire
  split
  · rfl
  · split
    · rfl
    · rename_i t ht
      exact World.lives_ring ht _ _

theorem lives_advanceTo (s : Session) (target : Int) : (s.advanceTo target).1.world.lives = s.world.lives := by
  unfold advanceTo
  split
  · rfl
  · exact lives_fire _ _

theorem lives_task (s : Session) {t : Task} (ht : t.acts = false) : (s.task t).session.world.lives = s.world.lives := by
  cases t with
  | command subject c => contradiction
  | call c =>
    unfold task call
    dsimp only
    split <;> rfl
  | tell c e id => cases c <;> rfl
  | notify e id => rfl
  | proceed k => contradiction
  | advanceTo target => exact lives_advanceTo s target
  | fail => rfl
  | caught site => rfl

theorem lives_step (s : Session) (t : Task) (rest : List Task) :
    (s.step t rest).1.world.lives = (s.task t).session.world.lives := by
  unfold step
  split
  · rename_i h
    rw [h]
  · rename_i h
    rw [h]
    split <;> rfl

/-- None of the listeners and callbacks that are called moves timer `n` to another state. -/
def Spares (s : Session) (tasks : List Task) (n : Nat) : Prop :=
  ∀ s' t rest, s.Follows tasks s' (t :: rest) → t.acts = true →
    (s'.step t rest).1.world.lives[n]? = s'.world.lives[n]?

theorem Spares.settle {fuel : Nat} (h : s.Spares tasks n) (hs : settle fuel s tasks = some s') :
    s'.world.lives[n]? = s.world.lives[n]? := by
  let P (s₁ : Session) (tasks₁ : List Task) : Prop :=
    s.Follows tasks s₁ tasks₁ ∧ s₁.world.lives[n]? = s.world.lives[n]?
  have hstep : ∀ s₁ t rest, P s₁ (t :: rest) → P (s₁.step t rest).1 (s₁.step t rest).2 := by
    rintro s₁ t rest ⟨hfollows,hsame⟩
    refine ⟨hfollows.work,Eq.trans ?_ hsame⟩
    cases hacts : t.acts with
    | true => exact h s₁ t rest hfollows hacts
    | false => rw [lives_step, lives_task s₁ hacts]
  exact (settle_keeps hstep ⟨.start,rfl⟩ hs).2

/-- From timers without a negative duration, whatever is asked for and whenever: all timers have gone through
their states as their machines do. A timer is in one state, as its timestamps and all questions about it
tell. Each operation is one of the machine, and one that does not apply to the state leaves everything as
it is. Adding to the duration leads to another state only by what a listener does then. -/
theorem Leads.refines_machine (h₀ : s₀.Fresh) (hd : s₀.world.Lasting) (h : s₀.Leads s tasks) :
    Relation.ReflTransGen Life.Moves s₀.world.lives s.world.lives ∧
    (∀ t ∈ s.world.timers, 0 ≤ t.duration ∧ (∀ p, t.HasShape p ↔ t.phase = p) ∧
      (t.isStarted = true ↔ t.phase ≠ .idle) ∧ (t.isRunning = true ↔ t.phase = .running) ∧
      (t.isPaused = true ↔ t.phase = .paused) ∧ (t.isStopped = true ↔ t.phase = .stopped)) ∧
    (∀ n a, a.Sound → (s.act n a).session.world.lives = s.world.lives.modify n fun l => l.after a) ∧
    (∀ n t a, s.world.timers[n]? = some t → t.life.applies a = false → s.act n a = s.ok [] .done) ∧
    (∀ i now, (s.fire i).1.world.lives = s.world.lives ∧ (s.setClock now).world.lives = s.world.lives) ∧
    ∀ n ms s₁ tasks₁ r, s.act n (.add ms) = s₁.ok tasks₁ r → ∀ m, s₁.Spares tasks₁ m →
      ∀ fuel s₂, settle fuel s₁ tasks₁ = some s₂ → s₂.world.lives[m]? = s.world.lives[m]? := by
  have hreached := h.reached (.fresh h₀)
  have hguarded := hreached.guarded
  have hlasting : s.world.Lasting := h.holds (.fresh h₀) hd fun _ _ _ _ hw hc => hw.change hc
  refine ⟨?_,fun t ht => ?_,fun n a ha => lives_act hguarded n ha,fun n t a ht hno => act_still hguarded ht hno,
    fun i now => ⟨lives_fire s i,rfl⟩,fun n ms s₁ tasks₁ r hact m hspares fuel s₂ hs => ?_⟩
  · have hmoves : s.world.Guarded ∧ Relation.ReflTransGen Life.Moves s₀.world.lives s.world.lives :=
      h.holds (P := fun w => w.Guarded ∧ Relation.ReflTransGen Life.Moves s₀.world.lives w.lives) (.fresh h₀)
        ⟨World.guarded_of_fresh h₀,.refl⟩ fun w w' made due hw hc => ⟨hw.1.change hc,hw.2.tail (hw.1.moves hc)⟩
    exact hmoves.2
  · obtain ⟨n,hn⟩ := List.getElem?_of_mem ht
    have hshaped := (hguarded.timers n t hn).shaped
    exact ⟨hlasting t ht,fun p => hshaped.hasShape_iff,hshaped.isStarted_iff,hshaped.isRunning_iff_phase,
      hshaped.isPaused_iff,Timer.isStopped_iff⟩
  · have hadd := lives_act hguarded n (a := .add ms) trivial
    simp only [Life.after_add] at hadd
    have hsame : s₁.world.lives = s.world.lives := by
      rw [hact] at hadd
      exact hadd.trans (List.modify_id n _)
    rw [hspares.settle hs, hsame]

/-- The clock goes back, and a wake that was cancelled fires after the timer was paused. -/
theorem refines_machine_paused :
    let s₀ : Session := { world := { line := { now := 1000 }, timers := [{ duration := 300000 }] } }
    let cs := [Command.act .focus .start,.tick (-500),.act .focus .pause,.act .focus (.add (.int 1000)),.fire 0]
    ∃ s, s₀.runAll 9 cs = some s ∧ s.world.lives = [⟨.paused,false⟩] ∧ s.act 0 .pause = s.ok [] .done ∧
      s.act 0 .start = s.ok [] .done ∧ (s.act 0 .stop).session.world.lives = [⟨.stopped,false⟩] := by
  intro s₀ cs
  have hfresh : s₀.Fresh := ⟨by simp [s₀],rfl,rfl,rfl,rfl,rfl⟩
  have hlasting : s₀.world.Lasting := by simp [World.Lasting, s₀]
  have hsound : ∀ c ∈ cs, c.Sound := by simp [cs, Action.Sound]
  have hstate : (s₀.runAll 9 cs).map (fun s => s.world.lives) = some [⟨.paused,false⟩] := by decide +kernel
  obtain ⟨s,hrun,hlives⟩ := Option.map_eq_some_iff.mp hstate
  obtain ⟨-,-,hact,hstill,-,-⟩ := Leads.refines_machine hfresh hlasting (Leads.start.runAll hsound hrun)
  obtain ⟨t,ht⟩ : ∃ t, s.world.timers = [t] := by
    have hlen : s.world.timers.length = 1 := by
      rw [← List.length_map Timer.life, ← World.lives, hlives]
      rfl
    exact List.length_eq_one_iff.mp hlen
  have hlife : t.life = ⟨.paused,false⟩ := by
    rw [World.lives, ht] at hlives
    exact List.head_eq_of_cons_eq hlives
  have hget : s.world.timers[0]? = some t := by rw [ht]; rfl
  refine ⟨s,hrun,hlives,hstill 0 t .pause hget ?_,hstill 0 t .start hget ?_,?_⟩
  · rw [hlife]
    rfl
  · rw [hlife]
    rfl
  · rw [hact 0 .stop trivial, hlives]
    rfl

end Session
end Countdown
