import Mathlib.Data.List.Basic
import Countdown.Proofs.Session.Bench
set_option autoImplicit false

/-!
A timer and one that was restored of its snapshot, under one clock. Their wakes come at different times and
under different numbers, but whatever is done to both alike, the two cannot be told apart.
-/

namespace Countdown

def Command.drives : Command → Bool
  | .act .focus a => a.steers
  | .advance ms => 0 ≤ ms
  | _ => false

def Command.both : Command → List (Nat × Command)
  | .advance ms => [(0,.advance ms)]
  | c => [(0,c),(1,c)]

namespace Session
open World

def RunsOn (s : Session) (cs : List (Nat × Command)) (s' : Session) : Prop :=
  ∃ k, ∀ fuel, k ≤ fuel → s.runOn fuel cs = some s'

variable {s s₁ s' : Session} {t u : Timer} {a b : String} {c : Command} {cs : List Command} {n : Nat}

theorem runsOn_nil (s : Session) : s.RunsOn [] s := ⟨0,fun _ _ => rfl⟩

theorem Runs.runsOn {cs : List (Nat × Command)} (h : ({ s with focus := n } : Session).Runs c s₁)
    (h' : s₁.RunsOn cs s') : s.RunsOn ((n,c) :: cs) s' := by
  obtain ⟨k,hk⟩ := h
  obtain ⟨k',hk'⟩ := h'
  refine ⟨max k k',fun fuel hf => ?_⟩
  obtain ⟨r,hr⟩ := hk fuel (by omega)
  simp only [runOn, hr, Option.bind_some]
  exact hk' fuel (by omega)

/-- One timer that nobody has ever listened to. -/
structure Lone (s : Session) (t : Timer) : Prop where
  ready : s.Ready
  timers : s.world.timers = [t]
  focus : s.focus = 0
  listeners : t.listeners = []
  silent : ∀ l, Journal.timesOf l s.world.journal = []

theorem Lone.getElem? (h : s.Lone t) : s.world.timers[0]? = some t := by
  rw [h.timers]
  rfl

theorem lone_of_fresh (h : s.Fresh) {d : Int} (hd : 0 ≤ d) (ht : s.world.timers = [{ duration := d }])
    (hf : s.focus = 0) : s.Lone { duration := d } := by
  have hreached : Reached s [] := .fresh h
  have hdeck : s.Deck :=
    { guarded := hreached.guarded
      wired := hreached.wired
      listeners := by simp [h.listeners]
      callbacks := by simp [h.callbacks]
      steady := fun v _ _ => steady_of_bare h.entries v.owner }
  refine ⟨⟨⟨hdeck,h.entries,?_⟩,?_⟩,ht,hf,rfl,fun l => ?_⟩
  · simpa [ht] using Timer.forward_idle hd rfl rfl
  · intro n t hn
    rw [ht, List.getElem?_singleton] at hn
    split at hn
    · cases hn
      exact .of_no_wake (Timer.isDue_of_not_started rfl) rfl
    · contradiction
  · rw [h.journal]
    rfl

theorem Lone.drive (h : s.Lone t) (hc : c.drives = true) : ∃ s' t', s.Runs c s' ∧ s'.Lone t' := by
  cases c with
  | act r x =>
    cases r with
    | focus =>
      obtain ⟨s',hruns,hready,hdone⟩ := h.ready.act h.focus h.getElem? hc
      refine ⟨s',_,hruns,hready,?_,hdone.focus.trans h.focus,hdone.onTime.listeners.trans h.listeners,fun l => ?_⟩
      · rw [hdone.timers, h.timers]
        rfl
      · rw [hdone.called, h.silent, h.listeners]
        simp
    | _ => contradiction
  | advance ms =>
    have hms : 0 ≤ ms := by simpa [Command.drives] using hc
    have hle : s.now ≤ s.now + ms := by omega
    obtain ⟨s',hset,hready,-,hlength,hfocus,hwaited⟩ := h.ready.advance hle
    obtain ⟨x,hx,hcalled⟩ := hwaited 0 t h.getElem?
    have hsole : ∀ l, s.world.Sole 0 l := by
      intro l m v hm hv
      rw [h.timers] at hv
      simp [hm] at hv
    let t' : Timer := { t with finished := t.finished || t.isOver (s.now + ms), alarm := x }
    refine ⟨s',t',Settles.runs (r := .done) rfl hset,hready,?_,hfocus.trans h.focus,h.listeners,fun l => ?_⟩
    · obtain ⟨v,hv⟩ := List.length_eq_one_iff.mp (hlength.trans (congrArg List.length h.timers))
      rw [hv] at hx ⊢
      simpa using hx
    · rw [hcalled l (hsole l), h.silent, Timer.callTimes, h.listeners]
      simp
  | _ => contradiction

theorem Lone.drives (h : s.Lone t) (hcs : ∀ c ∈ cs, c.drives = true) :
    ∃ s' t', s.RunsAll cs s' ∧ s'.Lone t' := by
  induction cs generalizing s t with
  | nil => exact ⟨s,t,runsAll_nil s,h⟩
  | cons c cs ih =>
    obtain ⟨s₁,t₁,hruns,h₁⟩ := h.drive (hcs c List.mem_cons_self)
    obtain ⟨s',t',hrest,h'⟩ := ih h₁ fun d hd => hcs d (List.mem_cons_of_mem _ hd)
    exact ⟨s',t',hruns.cons hrest,h'⟩

/-- Two timers that are alike, each with a listener that has been called when that of the other was. -/
structure Twins (s : Session) (t u : Timer) (a b : String) : Prop where
  ready : s.Ready
  timers : s.world.timers = [t,u]
  alike : t.Alike u
  first : t.listeners = [.named a]
  second : u.listeners = [.named b]
  called : Journal.timesOf (.named a) s.world.journal = Journal.timesOf (.named b) s.world.journal

theorem Ready.twins (h : s.Ready) (ht : s.world.timers = [t,u]) (halike : t.Alike u) (hfirst : t.listeners = [])
    (hsecond : u.listeners = []) (hsilent : ∀ l, Journal.timesOf l s.world.journal = []) (a b : String)
    {steps : List Command} (fails : Bool) (hsteps : ∀ c ∈ steps, c.looks = true) :
    ∃ (s₁ : Session) (t₁ u₁ : Timer), s₁.Twins t₁ u₁ a b ∧ ∀ cs s', s₁.RunsOn cs s' →
      s.RunsOn ((0,.listen a steps fails) :: (1,.listen b steps fails) :: cs) s' := by
  have h₀ : ({ s with focus := 0 } : Session).Ready := h.withFocus 0
  have hget : s.world.timers[0]? = some t := by
    rw [ht]
    rfl
  obtain ⟨s₁,hruns₁,hready₁,htimers₁,hjournal₁⟩ := h₀.listen (n := 0) rfl hget a fails hsteps
  replace htimers₁ : s₁.world.timers = [t.listen (.named a),u] := by
    rw [htimers₁, ht]
    rfl
  have h₁ : ({ s₁ with focus := 1 } : Session).Ready := hready₁.withFocus 1
  have hget₁ : s₁.world.timers[1]? = some u := by
    rw [htimers₁]
    rfl
  obtain ⟨s₂,hruns₂,hready₂,htimers₂,hjournal₂⟩ := h₁.listen (n := 1) rfl hget₁ b fails hsteps
  replace htimers₂ : s₂.world.timers = [t.listen (.named a),u.listen (.named b)] := by
    rw [htimers₂, htimers₁]
    rfl
  have hjournal : s₂.world.journal = s.world.journal := hjournal₂.trans hjournal₁
  have htwins : s₂.Twins (t.listen (.named a)) (u.listen (.named b)) a b :=
    { ready := hready₂
      timers := htimers₂
      alike := by
        obtain ⟨ls,al,rfl⟩ := halike
        exact ⟨_,al,rfl⟩
      first := by simp [Timer.listen, hfirst]
      second := by simp [Timer.listen, hsecond]
      called := by rw [hjournal, hsilent, hsilent] }
  exact ⟨s₂,_,_,htwins,fun cs s' hrest => hruns₁.runsOn (hruns₂.runsOn hrest)⟩

theorem Twins.getElem?_first (h : s.Twins t u a b) : s.world.timers[0]? = some t := by
  rw [h.timers]
  rfl

theorem Twins.getElem?_second (h : s.Twins t u a b) : s.world.timers[1]? = some u := by
  rw [h.timers]
  rfl

theorem Twins.sole (h : s.Twins t u a b) (hab : a ≠ b) :
    s.world.Sole 0 (.named a) ∧ s.world.Sole 1 (.named b) := by
  constructor
  · intro m v hm hv
    rw [h.timers] at hv
    obtain _ | _ | m := m
    · contradiction
    · obtain rfl := Option.some.inj hv
      simp [h.second, hab]
    · simp at hv
  · intro m v hm hv
    rw [h.timers] at hv
    obtain _ | _ | m := m
    · obtain rfl := Option.some.inj hv
      simp [h.first, Ne.symm hab]
    · contradiction
    · simp at hv

theorem Twins.act (h : s.Twins t u a b) (hab : a ≠ b) {x : Action} (hx : x.steers = true) :
    ∃ (s₁ : Session) (t₁ u₁ : Timer), s₁.Twins t₁ u₁ a b ∧
      ∀ cs s', s₁.RunsOn cs s' → s.RunsOn ((0,.act .focus x) :: (1,.act .focus x) :: cs) s' := by
  have hplain : x.isPlain = true := by cases x <;> first | rfl | contradiction
  have hclosed : ∀ v ∈ s.world.timers, v.alarm.closed = false := by
    intro v hv
    obtain ⟨m,hm⟩ := List.getElem?_of_mem hv
    exact (h.ready.bench.deck.guarded.timers m v hm).closed.trans (h.ready.bench.timers v hv).1
  have h₀ : ({ s with focus := 0 } : Session).Ready := h.ready.withFocus 0
  obtain ⟨s₁,hruns₁,hready₁,hdone₁⟩ := h₀.act (n := 0) rfl h.getElem?_first hx
  have hsecond : s₁.world.timers[1]? = some u := (hdone₁.turns.timers 1 (by decide)).trans h.getElem?_second
  have h₁ : ({ s₁ with focus := 1 } : Session).Ready := hready₁.withFocus 1
  obtain ⟨s₂,hruns₂,hready₂,hdone₂⟩ := h₁.act (n := 1) rfl hsecond hx
  have hnow : s₁.now = s.now := hdone₁.turns.now
  have hclock : s₁.world.line.now = s.world.line.now := hdone₁.turns.now
  obtain ⟨halike,-⟩ := h.alike.applyAction (n := 0) (m := 1)
    (hclosed t (by simp [h.timers])) (hclosed u (by simp [h.timers])) hclock hplain
  let f := (applyAction t 0 x s.world.line).1
  let g := (applyAction u 1 x s₁.world.line).1
  have htimers₁ : s₁.world.timers = [f.timer,u] := by
    rw [hdone₁.timers, h.timers]
    rfl
  have htimers₂ : s₂.world.timers = [f.timer,g.timer] := by
    rw [hdone₂.timers, htimers₁]
    rfl
  have hcalled : Journal.timesOf (.named a) s₂.world.journal = Journal.timesOf (.named b) s₂.world.journal :=
    calc Journal.timesOf (.named a) s₂.world.journal
      _ = Journal.timesOf (.named a) s₁.world.journal := hdone₂.not_called (by simp [h.second, hab])
      _ = Journal.timesOf (.named a) s.world.journal ++ if f.announced.isSome then [s.now] else [] :=
        hdone₁.called_alone h.first
      _ = Journal.timesOf (.named b) s.world.journal ++ if g.announced.isSome then [s₁.now] else [] := by
        rw [h.called, halike.announced, hnow]
      _ = Journal.timesOf (.named b) s₁.world.journal ++ if g.announced.isSome then [s₁.now] else [] := by
        rw [hdone₁.not_called (by simp [h.first, Ne.symm hab])]
      _ = Journal.timesOf (.named b) s₂.world.journal := (hdone₂.called_alone h.second).symm
  exact ⟨s₂,f.timer,g.timer,⟨hready₂,htimers₂,halike.timer,hdone₁.onTime.listeners.trans h.first,
    hdone₂.onTime.listeners.trans h.second,hcalled⟩,fun cs s' hrest => hruns₁.runsOn (hruns₂.runsOn hrest)⟩

theorem Twins.advance (h : s.Twins t u a b) (hab : a ≠ b) {ms : Int} (hms : 0 ≤ ms) :
    ∃ (s₁ : Session) (t₁ u₁ : Timer), s₁.Twins t₁ u₁ a b ∧
      ∀ cs s', s₁.RunsOn cs s' → s.RunsOn ((0,.advance ms) :: cs) s' := by
  have h₀ : ({ s with focus := 0 } : Session).Ready := h.ready.withFocus 0
  have hle : ({ s with focus := 0 } : Session).now ≤ s.now + ms := by
    change s.now ≤ _
    omega
  obtain ⟨s₁,hset,hready₁,-,hlength,-,hwaited⟩ := h₀.advance hle
  obtain ⟨y,hy,hfirst⟩ := hwaited 0 t h.getElem?_first
  obtain ⟨z,hz,hsecond⟩ := hwaited 1 u h.getElem?_second
  obtain ⟨v,w,hvw⟩ := List.length_eq_two.mp (hlength.trans (congrArg List.length h.timers))
  rw [hvw] at hy hz
  obtain rfl := Option.some.inj hy
  obtain rfl := Option.some.inj hz
  have hruns : ({ s with focus := 0 } : Session).Runs (.advance ms) s₁ := Settles.runs (r := .done) rfl hset
  have hcalled : Journal.timesOf (.named a) s₁.world.journal =
      Journal.timesOf (.named b) s₁.world.journal := by
    have hsame : t.callTimes (.named a) s.now (s.now + ms) = u.callTimes (.named b) s.now (s.now + ms) := by
      unfold Timer.callTimes
      rw [h.first, h.second, List.count_singleton_self, List.count_singleton_self]
      obtain ⟨ls,al,rfl⟩ := h.alike
      rfl
    rw [hfirst _ (h.sole hab).1, hsecond _ (h.sole hab).2]
    exact congrArg₂ (· ++ ·) h.called hsame
  refine ⟨s₁,_,_,⟨hready₁,hvw,?_,h.first,h.second,hcalled⟩,fun cs s' hrest => hruns.runsOn hrest⟩
  obtain ⟨ls,al,rfl⟩ := h.alike
  exact ⟨ls,z,rfl⟩

/-- What is done to both of two timers comes to its end, and leaves them twins. -/
theorem Twins.drive (h : s.Twins t u a b) (hab : a ≠ b) (hc : c.drives = true) :
    ∃ (s₁ : Session) (t₁ u₁ : Timer), s₁.Twins t₁ u₁ a b ∧
      ∀ cs s', s₁.RunsOn cs s' → s.RunsOn (c.both ++ cs) s' := by
  cases c with
  | act r x =>
    cases r with
    | focus => exact h.act hab hc
    | _ => contradiction
  | advance ms => exact h.advance hab (by simpa [Command.drives] using hc)
  | _ => contradiction

theorem Twins.drives (h : s.Twins t u a b) (hab : a ≠ b) (hcs : ∀ c ∈ cs, c.drives = true) : ∃ s' t' u',
    s.RunsOn (cs.flatMap Command.both) s' ∧ s'.Twins t' u' a b := by
  induction cs generalizing s t u with
  | nil => exact ⟨s,t,u,runsOn_nil s,h⟩
  | cons c cs ih =>
    obtain ⟨s₁,t₁,u₁,h₁,hruns⟩ := h.drive hab (hcs c List.mem_cons_self)
    obtain ⟨s',t',u',hrest,h'⟩ := ih h₁ fun d hd => hcs d (List.mem_cons_of_mem _ hd)
    exact ⟨s',t',u',hruns _ s' hrest,h'⟩

/-- A timer that was driven by its operations and a clock that goes forward and fires each wake when it is due
can be saved, and the snapshot restored at the same time. From then on, whatever is done to both timers alike,
the one that was restored cannot be told apart from the other: they keep the same time in the same state, and
those who have listened since the restore are called at the same times. -/
theorem restored_alike {s₀ : Session} (h : s₀.Fresh) {d : Int} (hd : 0 ≤ d)
    (ht : s₀.world.timers = [{ duration := d }]) (hfocus : s₀.focus = 0) {cs : List Command}
    (hcs : ∀ c ∈ cs, c.drives = true) (input : String) (consumed : Nat) : ∃ s r s₁, s₀.RunsAll cs s ∧
      s.run 0 (.save input consumed) = some (s,.ok (.saved r)) ∧
      s.run 0 (.restore r.toJson) = some (s₁,.ok .done) ∧
      ∀ (a b : String) (steps : List Command) (fails : Bool) (cs' : List Command), a ≠ b →
        (∀ c ∈ steps, c.looks = true) → (∀ c ∈ cs', c.drives = true) → ∃ s' t u,
          s₁.RunsOn ((0,.listen a steps fails) :: (1,.listen b steps fails) :: cs'.flatMap Command.both) s' ∧
          s'.world.timers = [t,u] ∧ t.Matches u s'.now ∧
          Journal.timesOf (.named a) s'.world.journal = Journal.timesOf (.named b) s'.world.journal := by
  obtain ⟨s,t,hruns,hlone⟩ := (lone_of_fresh h hd ht hfocus).drives hcs
  obtain ⟨r,s₁,u,hsave,hrestore,hready₁,htimers₁,halike,hnobody,hsame⟩ :=
    hlone.ready.restore hlone.focus hlone.getElem? input consumed
  refine ⟨s,r,s₁,hruns,hsave,hrestore,fun a b steps fails cs' hab hsteps hcs' => ?_⟩
  rw [hlone.timers] at htimers₁
  have hsilent : ∀ l, Journal.timesOf l s₁.world.journal = [] := fun l => (hsame l).trans (hlone.silent l)
  obtain ⟨s₂,t₂,u₂,htwins,hlisten⟩ :=
    hready₁.twins htimers₁ halike hlone.listeners hnobody hsilent a b fails hsteps
  obtain ⟨s',t',u',hrest,h'⟩ := htwins.drives hab hcs'
  exact ⟨s',t',u',hlisten _ s' hrest,h'.timers,h'.alike.matches s'.now,h'.called⟩

/-- A run of more than a day, saved halfway and paused later: the timers are woken at different times, and
their ends are told of at the same time. -/
theorem restored_alike_halfway :
    let s₀ : Session := { world := { line := { now := 1000 }, timers := [{ duration := 100000000 }] } }
    let cs := [Command.act .focus .start,.advance 50000000]
    let saved : Snapshot := ⟨{ duration := 100000000, startedAt := some 1000, resumedAt := some 1000 },"",0⟩
    let listens := [(0,Command.listen "a" [.describe] true),(1,.listen "b" [.describe] true)]
    let cs' := [Command.advance 40000000,.act .focus .pause,.advance 7,.act .focus .resume,.advance 20000000]
    (∃ s r s₁, s₀.RunsAll cs s ∧ s.run 0 (.save "" (0 : Nat)) = some (s,.ok (.saved r)) ∧
      s.run 0 (.restore r.toJson) = some (s₁,.ok .done) ∧ ∃ s' t u,
        s₁.RunsOn (listens ++ cs'.flatMap Command.both) s' ∧
        s'.world.timers = [t,u] ∧ t.Matches u s'.now ∧
        Journal.timesOf (.named "a") s'.world.journal = Journal.timesOf (.named "b") s'.world.journal) ∧
    let run := ((s₀.runAll 9 cs).bind fun s => s.run 9 (.restore saved.toJson)).bind fun p =>
      p.1.runOn 30 (listens ++ cs'.flatMap Command.both)
    run.map (fun s' => s'.world.line.wakes.map fun v => (v.owner,v.due)) =
        some [(0,86401000),(1,100001000),(0,100001000),(0,100001007),(1,100001007)] ∧
      run.map (fun s' => Journal.timesOf (.named "a") s'.world.journal) = some [100001007] ∧
      run.map (fun s' => Journal.timesOf (.named "b") s'.world.journal) = some [100001007] := by
  intro s₀ cs saved listens cs'
  have hfresh : s₀.Fresh := ⟨by simp [s₀],rfl,rfl,rfl,rfl,rfl⟩
  have hcs : ∀ c ∈ cs, c.drives = true := by decide
  have hcs' : ∀ c ∈ cs', c.drives = true := by decide
  obtain ⟨s,r,s₁,hruns,hsave,hrestore,hlater⟩ := restored_alike hfresh (by decide) rfl rfl hcs "" 0
  have hboth := hlater "a" "b" [.describe] true cs' (by decide) (by decide) hcs'
  exact ⟨⟨s,r,s₁,hruns,hsave,hrestore,hboth⟩,by decide +kernel⟩

end Session
end Countdown
