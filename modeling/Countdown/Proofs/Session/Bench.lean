import Countdown.Proofs.Session.OnTime
import Countdown.Proofs.Session.Ring
import Countdown.Proofs.Session.RoundTrip
import Countdown.Proofs.Timer.Alike
set_option autoImplicit false

namespace Countdown

def Journal.timesOf (l : Listener) (j : List Note) : List Int :=
  ((j.filterMap Note.callAt?).filter fun p => p.1 = l).map (·.2)

theorem Journal.timesOf_append (l : Listener) (j ns : List Note) :
    timesOf l (j ++ ns) = timesOf l j ++ timesOf l ns := by
  simp [timesOf]

theorem Journal.timesOf_calls (l : Listener) (ls : List Listener) (now : Int) {ns : List Note}
    (h : ns.filterMap Note.callAt? = ls.map fun x => (x,now)) :
    timesOf l ns = List.replicate (ls.count l) now := by
  unfold timesOf
  rw [h]
  clear h
  induction ls with
  | nil => rfl
  | cons x ls ih =>
    by_cases hx : x = l
    · subst hx
      simpa [List.replicate_succ] using ih
    · simpa [hx] using ih

/-- When a listener is called for a timer that is left alone while the clock goes on to a time. -/
def Timer.callTimes (t : Timer) (l : Listener) (now target : Int) : List Int :=
  if !t.finished && t.isOver target then List.replicate (t.listeners.count l) (now + t.remaining now) else []

namespace World

def Sole (w : World) (n : Nat) (l : Listener) : Prop :=
  ∀ (m : Nat) (u : Timer), m ≠ n → w.timers[m]? = some u → l ∉ u.listeners

theorem steady_of_bare {w : World} (h : w.entries = []) (n : Nat) : w.Steady n := by
  intro k e q he
  simp [h] at he

theorem timesOf_take (l : Listener) (w : World) (n : Nat) (f : Timer.Effect) :
    Journal.timesOf l (w.take n f).1.journal = Journal.timesOf l w.journal := by
  unfold Journal.timesOf
  rw [filterMap_take (fun _ => rfl) (fun _ _ _ => rfl)]

theorem timesOf_addRestored (l : Listener) (w : World) (f : TimerFields) :
    Journal.timesOf l (w.addRestored f).1.journal = Journal.timesOf l w.journal := by
  rw [addRestored_eq, timesOf_take]

end World

namespace Session
open Timeline World

/-- A session about open timers, in which time has only gone forward. -/
structure Bench (s : Session) : Prop where
  deck : s.Deck
  bare : s.world.entries = []
  timers : ∀ t ∈ s.world.timers, t.closed = false ∧ t.Forward s.now

/-- No timer is late. -/
structure Ready (s : Session) : Prop where
  bench : s.Bench
  punctual : ∀ (n : Nat) (t : Timer), s.world.timers[n]? = some t → t.Punctual s.world.line

variable {s s' s₀ : Session} {n m i : Nat} {t u : Timer} {f : Timer.Effect} {v : Wake} {target : Int}

theorem Bench.named (h : s.Bench) (ht : s.world.timers[n]? = some t) :
    ∀ l ∈ t.listeners, ∃ name, l = .named name := by
  intro l hl
  cases l with
  | named name => exact ⟨name,rfl⟩
  | entry k =>
    have howner := h.deck.wired.listeners n t k ht hl
    simp [owner?, h.bare] at howner

theorem Bench.setClock (h : s.Bench) {now : Int} (hle : s.now ≤ now) : (s.setClock now).Bench where
  deck := h.deck.setClock now
  bare := h.bare
  timers t ht := ⟨(h.timers t ht).1,(h.timers t ht).2.mono hle⟩

theorem Bench.withFocus (h : s.Bench) (n : Nat) : ({ s with focus := n } : Session).Bench where
  deck := ⟨h.deck.guarded,h.deck.wired,h.deck.listeners,h.deck.callbacks,h.deck.steady⟩
  bare := h.bare
  timers := h.timers

theorem Ready.withFocus (h : s.Ready) (n : Nat) : ({ s with focus := n } : Session).Ready :=
  ⟨h.bench.withFocus n,h.punctual⟩

structure Done (s : Session) (n : Nat) (t : Timer) (f : Timer.Effect) (s' : Session) : Prop where
  bench : s'.Bench
  onTime : f.OnTime t
  turns : s.world.Turns n s'.world
  prompt : s'.world.isLate n = false
  timers : s'.world.timers = s.world.timers.set n f.timer
  line : s'.world.line = f.line
  focus : s'.focus = s.focus
  called : ∀ l, Journal.timesOf l s'.world.journal = Journal.timesOf l s.world.journal ++
    if f.announced.isSome then List.replicate (t.listeners.count l) s.now else []

theorem Bench.change (h : s.Bench) {w : World} (hg : w.Guarded) (hw : w.Wired) (he : w.entries = [])
    (ht : ∀ u ∈ w.timers, u.closed = false ∧ u.Forward w.now) : (s.withWorld w).Bench where
  deck := ⟨hg,hw,h.deck.listeners,h.deck.callbacks,fun v _ _ => steady_of_bare he v.owner⟩
  bare := he
  timers := ht

theorem Bench.take (h : s.Bench) (ht : s.world.timers[n]? = some t) (hs : f.Sound n s.world.line)
    (hl : f.Latches t) (ho : f.OnTime t) (hf : f.timer.Forward s.now) : ∃ s', s.Done n t f s' ∧
      ∀ rest s'', Settles s' rest s'' → Settles (s.withWorld (s.world.take n f).1)
        (calls (s.world.take n f).2 ++ rest) s'' := by
  obtain ⟨hturn,hprompt⟩ := h.deck.guarded.turns_take ht hs ho
  obtain ⟨hopen,-⟩ := h.timers t (List.mem_of_getElem? ht)
  let s₁ := s.withWorld (s.world.take n f).1
  have hnow : s₁.now = s.now := hturn.now
  have htimers : s₁.world.timers = s.world.timers.set n f.timer := timers_take _ _ _
  have hbench : s₁.Bench := by
    refine h.change (h.deck.guarded.take ht hs) (h.deck.wired.take ht ho.listeners)
      ((entries_take _ _ _).trans h.bare) fun u hu => ?_
    rw [timers_take] at hu
    rw [hturn.now]
    obtain hu | rfl := List.mem_or_eq_of_mem_set hu
    · exact h.timers u hu
    · exact ⟨ho.closed.trans hopen,hf⟩
  have hcalls : ∀ c ∈ (s.world.take n f).2, ∃ name, c.listener = .named name := by
    intro c hc
    exact hbench.named (getElem?_take ht f) _ (listener_of_take hl hc)
  obtain ⟨ns,text,hnotes,hcalled,hrest⟩ := settles_calls hbench.deck.listeners hcalls
  refine ⟨s₁.beside ns text,?_,hrest⟩
  constructor
  · exact ⟨hbench.deck.beside ns text,hbench.bare,hbench.timers⟩
  · exact ho
  · have hnone : ns.filterMap Note.delivery? = [] :=
      List.filterMap_eq_nil_iff.mpr fun x hx => (hnotes x hx).1
    refine hturn.trans (turns_beside (s := s₁) (fun k _ => ?_) text)
    simp [Journal.deliveries, hnone]
  · exact hprompt
  · exact htimers
  · exact line_take _ _ _
  · rfl
  · intro l
    have hpairs : ns.filterMap Note.callAt? =
        ((s.world.take n f).2.map fun c => c.listener).map fun x => (x,s.now) := by
      rw [hcalled, hnow, List.map_map]
      rfl
    change Journal.timesOf l ((s.world.take n f).1.journal ++ ns) = _
    rw [Journal.timesOf_append, timesOf_take, Journal.timesOf_calls l _ _ hpairs, listeners_take hl, ho.listeners]
    cases f.announced <;> rfl

theorem Done.called_alone (hd : s.Done n t f s') {l : Listener} (hl : t.listeners = [l]) :
    Journal.timesOf l s'.world.journal =
      Journal.timesOf l s.world.journal ++ if f.announced.isSome then [s.now] else [] := by
  rw [hd.called, hl]
  simp

theorem Done.not_called (hd : s.Done n t f s') {l : Listener} (hl : l ∉ t.listeners) :
    Journal.timesOf l s'.world.journal = Journal.timesOf l s.world.journal := by
  rw [hd.called, List.count_eq_zero.mpr hl, List.replicate_zero, ite_self, List.append_nil]

theorem Done.ready (hd : s.Done n t f s') (h : s.Ready) (ht : s.world.timers[n]? = some t) : s'.Ready := by
  refine ⟨hd.bench,fun m u hu => ?_⟩
  by_cases hm : m = n
  · subst hm
    have hlt := (List.getElem?_eq_some_iff.mp ht).1
    rw [hd.timers, List.getElem?_set_self hlt] at hu
    cases hu
    rw [hd.line]
    exact hd.onTime.punctual
  · rw [hd.turns.timers m hm] at hu
    exact hd.turns.punctual h.bench.deck.guarded hu hm (h.punctual m u hu)

theorem Ready.act (h : s.Ready) (hn : s.focus = n) (ht : s.world.timers[n]? = some t) {a : Action}
    (ha : a.steers = true) : ∃ s', s.Runs (.act .focus a) s' ∧ s'.Ready ∧
      s.Done n t (applyAction t n a s.world.line).1 s' := by
  have k := h.bench.deck.guarded.timers n t ht
  obtain ⟨hopen,hforward⟩ := h.bench.timers t (List.mem_of_getElem? ht)
  have hplain : a.isPlain = true := by cases a <;> first | rfl | contradiction
  have hsound := Action.sound_of_isPlain hplain
  have ho := applyAction_onTime k hopen (h.punctual n t ht) ha
  obtain ⟨s',hdone,hrest⟩ := h.bench.take ht (applyAction_sound k hsound) (applyAction_latches t n a _) ho
    (hforward.applyAction n hplain)
  have hset := hrest [] s' (.nil s')
  rw [List.append_nil] at hset
  exact ⟨s',runs_act hn ht hset,hdone.ready h ht,hdone⟩

theorem focused_eq (hn : s.focus = n) (ht : s.world.timers[n]? = some t) : s.focused = t := by
  unfold focused
  rw [List.getD_eq_getElem?_getD, hn, ht]
  rfl

theorem Ready.listen (h : s.Ready) (hn : s.focus = n) (ht : s.world.timers[n]? = some t) (name : String)
    {steps : List Command} (fails : Bool) (hlooks : ∀ c ∈ steps, c.looks = true) : ∃ s',
      s.Runs (.listen name steps fails) s' ∧ s'.Ready ∧
      s'.world.timers = s.world.timers.set n (t.listen (.named name)) ∧ s'.world.journal = s.world.journal := by
  let w := s.world.setTimer n (t.listen (.named name))
  let s' : Session := { s with
    world := w
    listeners := addScript s.listeners name ⟨none,steps,fails⟩
    registered := (name,n) :: s.registered }
  have hchange : Change s.world [] [] w := by
    refine .listeners (t.listeners ++ [.named name]) ht fun k hk => Or.inl ?_
    simpa using hk
  have hbench : (s.withWorld w).Bench := by
    refine h.bench.change (h.bench.deck.guarded.change hchange) (h.bench.deck.wired.change hchange) h.bench.bare
      fun u hu => ?_
    obtain hu | rfl := List.mem_or_eq_of_mem_set hu
    · exact h.bench.timers u hu
    · obtain ⟨hopen,hforward⟩ := h.bench.timers t (List.mem_of_getElem? ht)
      exact ⟨hopen,hforward.congr rfl rfl rfl⟩
  have hscripts := forall_addScript h.bench.deck.listeners (p := ⟨none,steps,fails⟩) hlooks name
  have hready : s'.Ready := by
    refine ⟨⟨{ hbench.deck with listeners := hscripts },hbench.bare,hbench.timers⟩,fun m u hu => ?_⟩
    by_cases hm : m = n
    · subst hm
      change (s.world.timers.set m _)[m]? = _ at hu
      rw [List.getElem?_set_self (List.getElem?_eq_some_iff.mp ht).1] at hu
      cases hu
      have hp := h.punctual m t ht
      exact ⟨hp.due,hp.wakes⟩
    · change (s.world.timers.set n _)[m]? = _ at hu
      rw [List.getElem?_set_ne (Ne.symm hm)] at hu
      exact h.punctual m u hu
  refine ⟨s',Settles.runs (r := .done) ?_ (.nil s'),hready,rfl,rfl⟩
  simp only [perform, onFocus, focused_eq hn ht, hn, s', w]

theorem Ready.restore (h : s.Ready) (hn : s.focus = n) (ht : s.world.timers[n]? = some t) (input : String)
    (consumed : Nat) : ∃ r s' u, s.run 0 (.save input consumed) = some (s,.ok (.saved r)) ∧
      s.run 0 (.restore r.toJson) = some (s',.ok .done) ∧ s'.Ready ∧
      s'.world.timers = s.world.timers ++ [u] ∧ t.Alike u ∧ u.listeners = [] ∧
      ∀ l, Journal.timesOf l s'.world.journal = Journal.timesOf l s.world.journal := by
  have hguarded := h.bench.deck.guarded
  obtain ⟨hopen,hforward⟩ := h.bench.timers t (List.mem_of_getElem? ht)
  have k := hguarded.timers n t ht
  have hcheck := hforward.check_snapshot k.shaped input consumed
  have hnone := k.shaped.contradiction?
  let w := (s.world.addRestored t.fields).1
  let u := (Timer.restore t.fields s.world.timers.length s.world.line).timer
  let s' : Session := { s.withWorld w with focus := s.world.timers.length }
  obtain ⟨halike,hlisteners,hpunctual⟩ := Timer.restore_alike hforward.duration hopen
    (h.punctual n t ht) s.world.timers.length (rfl : s.world.line.now = s.world.line.now)
  have hgains : s.world.Gains u w := gains_addRestored hguarded hnone
  have hquiet : Quiet s.world w := quiet_addRestored s.world hnone
  have hbench : (s.withWorld w).Bench := by
    refine h.bench.change (hquiet.keeps (fun _ _ _ _ hg hc => hg.change hc) hguarded)
      (hquiet.keeps (fun _ _ _ _ hw hc => hw.change hc) h.bench.deck.wired)
      (hgains.entries.trans h.bench.bare) fun v hv => ?_
    rw [hgains.timers] at hv
    rw [hgains.now]
    obtain hv | hv := List.mem_append.mp hv
    · exact h.bench.timers v hv
    · rw [List.mem_singleton.mp hv]
      exact ⟨(Timer.alike_iff.mp halike).2.symm.trans hopen,halike.forward hforward⟩
  have hready : s'.Ready := by
    refine ⟨hbench.withFocus _,fun m v hv => ?_⟩
    change w.timers[m]? = some v at hv
    change v.Punctual w.line
    rw [hgains.timers] at hv
    by_cases hm : m < s.world.timers.length
    · rw [List.getElem?_append_left hm] at hv
      have hagrees := hgains.agrees
      exact Timer.Punctual.agrees (hguarded.timers m v hv) (h.punctual m v hv) hagrees (by omega) hgains.now
    · rw [List.getElem?_append_right (by omega), List.getElem?_singleton] at hv
      split at hv
      · cases hv
        rw [line_addRestored]
        exact hpunctual
      · contradiction
  refine ⟨⟨t.fields,input,consumed⟩,s',u,?_,?_,hready,hgains.timers,halike,hlisteners,
    fun l => timesOf_addRestored l s.world t.fields⟩
  · simp only [run, perform, onFocus, focused_eq hn ht, Timer.snapshot, hcheck, ok, settle_nil, Option.map_some]
  · have hcalls : (s.world.addRestored t.fields).2 = [] := addRestored_calls _ _
    simp only [run, perform, onFocus, Snapshot.ofJson_toJson hcheck, refocus, hcalls, ok]
    rfl

/-- What has become of timer `n`, which was `t`, and of those who listen to it alone, while the clock went
on: its end may have been announced, and if so at its deadline. -/
structure Waited (s₀ s : Session) (n : Nat) (t : Timer) (f : Bool) (a : Alarm) : Prop where
  timer : s.world.timers[n]? = some { t with finished := f, alarm := a }
  waits : ({ t with finished := f, alarm := a } : Timer).Waits s.world.line
  kept : t.finished = true → f = true
  ended : f = true → t.finished = true ∨ t.isOver s.now = true
  called : ∀ l, s₀.world.Sole n l →
    Journal.timesOf l s.world.journal = Journal.timesOf l s₀.world.journal ++
      if f && !t.finished then List.replicate (t.listeners.count l) (s₀.now + t.remaining s₀.now) else []

structure Since (s₀ s : Session) : Prop where
  bench : s.Bench
  later : s₀.now ≤ s.now
  length : s.world.timers.length = s₀.world.timers.length
  focus : s.focus = s₀.focus
  waited : ∀ n t, s₀.world.timers[n]? = some t → ∃ f a, Waited s₀ s n t f a

theorem Ready.since (h : s.Ready) : Since s s where
  bench := h.bench
  later := Int.le_refl _
  length := rfl
  focus := rfl
  waited n t ht := by
    refine ⟨t.finished,t.alarm,ht,(h.punctual n t ht).waits,id,Or.inl,fun l _ => ?_⟩
    simp

theorem Waited.setClock {a : Alarm} {b : Bool} (h : Waited s₀ s n t b a) (hg : s.world.Guarded) {now : Int}
    (hle : s.now ≤ now)
    (hnext : ∀ (i : Nat) (v : Wake), s.world.line.wakes[i]? = some v → v.status = .pending → now ≤ v.due) :
    Waited s₀ (s.setClock now) n t b a where
  timer := h.timer
  waits := by
    have k := hg.timers n _ h.timer
    exact h.waits.setClock k fun i v hi hv => hnext i v hv (k.pending hi hv)
  kept := h.kept
  ended hb := (h.ended hb).imp_right fun ho => Timer.isOver_mono ho hle
  called := h.called

theorem Waited.other {a : Alarm} {b : Bool} (h : Waited s₀ s m t b a) (hg : s.world.Guarded) (hm : m ≠ n)
    (hd : s.Done n u f s') (hsole : ∀ l, s₀.world.Sole m l → l ∉ u.listeners) : Waited s₀ s' m t b a where
  timer := (hd.turns.timers m hm).trans h.timer
  waits := hd.turns.waits hg h.timer hm h.waits
  kept := h.kept
  ended hb := by
    have hnow : s'.now = s.now := hd.turns.now
    rw [hnow]
    exact h.ended hb
  called l hl := by
    rw [hd.not_called (hsole l hl)]
    exact h.called l hl

theorem Waited.ring {a : Alarm} {b : Bool} (h : Waited s₀ s n t b a) (hg : s.world.Guarded)
    (hi : a.pending = some i) (hv : s.world.line.wakes[i]? = some v) (hnow : s.now = v.due)
    (hd : s.Done n { t with finished := b, alarm := a }
      (({ t with finished := b, alarm := a } : Timer).wake n v.generation (s.world.line.markFired i)) s') :
    ∃ b' a', Waited s₀ s' n t b' a' := by
  let u : Timer := { t with finished := b, alarm := a }
  let f := u.wake n v.generation (s.world.line.markFired i)
  have k : u.Guarded n s.world.line := hg.timers n u h.timer
  have hclock : s'.now = s.now := hd.turns.now
  have hpunctual : f.timer.Punctual s'.world.line := by
    rw [hd.line]
    exact hd.onTime.punctual
  have htimer : s'.world.timers[n]? = some f.timer := by
    rw [hd.timers]
    exact List.getElem?_set_self (List.getElem?_eq_some_iff.mp h.timer).1
  have hcalled : ∀ l, Journal.timesOf l s'.world.journal = Journal.timesOf l s.world.journal ++
      if f.announced.isSome then List.replicate (t.listeners.count l) s.now else [] := hd.called
  obtain ⟨a',hnone,hf⟩ | ⟨a',hann,hfin,-,hover,hf⟩ := Timer.wake_cases hd.onTime
  · replace hf : f.timer = { u with alarm := a' } := hf
    replace hnone : f.announced = none := hnone
    rw [hf] at hpunctual htimer
    refine ⟨b,a',htimer,hpunctual.waits,h.kept,fun hb => ?_,fun l hsole => ?_⟩
    · rw [hclock]
      exact h.ended hb
    · rw [hcalled, hnone, Option.isSome_none, if_neg Bool.false_ne_true, List.append_nil]
      exact h.called l hsole
  · replace hf : f.timer = { u with finished := true, alarm := a' } := hf
    replace hann : f.announced = some u.listeners := hann
    obtain rfl : b = false := hfin
    have hend : f.line.now = s.now := by
      rw [← hd.line]
      exact hclock
    replace hover : u.isOver s.now = true := by
      rw [← hend]
      exact hover
    have hdead : s.now = s₀.now + t.remaining s₀.now := h.waits.on_deadline k hi hv hnow hover s₀.now
    have hfirst : t.finished = false := by
      rw [Bool.eq_false_iff]
      exact fun ht => Bool.false_ne_true (h.kept ht)
    rw [hf] at hpunctual htimer
    refine ⟨true,a',htimer,hpunctual.waits,fun _ => rfl,fun _ => ?_,fun l hsole => ?_⟩
    · rw [hclock]
      exact Or.inr hover
    · have hbefore := h.called l hsole
      rw [Bool.false_and, if_neg Bool.false_ne_true, List.append_nil] at hbefore
      rw [hcalled, hann, Option.isSome_some, if_pos rfl, hbefore, hfirst, hdead]
      rfl

/-- The clock goes on to the next wake, that fires, and its calls are made. -/
theorem Since.hop (h : Since s₀ s) (hn : s.world.line.next? target = some (i,v)) : ∃ s',
    Since s₀ s' ∧ (s.setClock (max s.now v.due)).world.Turns v.owner s'.world ∧
      s'.world.isLate v.owner = false ∧
      ∀ s'', Settles s' [.advanceTo target] s'' → Settles s [.advanceTo target] s'' := by
  obtain ⟨hv,hp,-⟩ := of_next? hn
  obtain ⟨u,hu,hi⟩ := h.bench.deck.waits hv hp
  have hlt : v.owner < s₀.world.timers.length := by
    rw [← h.length]
    exact (List.getElem?_eq_some_iff.mp hu).1
  obtain ⟨b,a,hw⟩ := h.waited v.owner _ (List.getElem?_eq_getElem hlt)
  obtain rfl := Option.some.inj (hu.symm.trans hw.timer)
  have hle : s.now ≤ v.due := (hw.waits.wakes i v hi hv).1
  have hclock : max s.now v.due = v.due := by omega
  have htask := task_advanceTo hn hu
  rw [hclock] at htask ⊢
  have hfirst : ∀ (j : Nat) (u : Wake), s.world.line.wakes[j]? = some u → u.status = .pending → v.due ≤ u.due :=
    fun j u hj hpend => next?_le hn hj hpend
  have hbench := h.bench.setClock hle
  have hguarded := hbench.deck.guarded
  have hw₁ := hw.setClock h.bench.deck.guarded hle hfirst
  have k := hguarded.timers v.owner _ hw₁.timer
  obtain ⟨-,hforward⟩ := hbench.timers _ (List.mem_of_getElem? hw₁.timer)
  obtain ⟨s',hdone,hrest⟩ := hbench.take hw₁.timer (k.wake hv rfl) (Timer.wake_latches _ _ _ _)
    (Timer.ring_onTime k hi hv) (hforward.wake _ _ _)
  refine ⟨s',?_,hdone.turns,hdone.prompt,fun s'' hset => ?_⟩
  · have hnow : s'.now = (s.setClock v.due).now := hdone.turns.now
    refine ⟨hdone.bench,?_,hdone.turns.length.trans h.length,hdone.focus.trans h.focus,fun m t ht => ?_⟩
    · rw [hnow]
      exact Int.le_trans h.later hle
    · by_cases hm : m = v.owner
      · subst hm
        obtain rfl := Option.some.inj ((List.getElem?_eq_getElem hlt).symm.trans ht)
        exact hw₁.ring hguarded hi hv rfl hdone
      · obtain ⟨c,a',hw'⟩ := h.waited m t ht
        have hw'₁ := hw'.setClock h.bench.deck.guarded hle hfirst
        refine ⟨c,a',hw'₁.other hguarded hm hdone fun l hsole => ?_⟩
        exact hsole v.owner s₀.world.timers[v.owner] (Ne.symm hm) (List.getElem?_eq_getElem hlt)
  · refine Settles.ok htask ?_
    rw [List.append_nil]
    exact hrest _ s'' hset

/-- Each timer that is left alone comes to be over at its deadline, and that is when those who listen to it
alone are called. -/
theorem Ready.advance (h : s.Ready) (hle : s.now ≤ target) : ∃ s', Settles s [.advanceTo target] s' ∧
    s'.Ready ∧ s'.now = target ∧ s'.world.timers.length = s.world.timers.length ∧ s'.focus = s.focus ∧
    ∀ n t, s.world.timers[n]? = some t → ∃ a,
      s'.world.timers[n]? = some { t with finished := t.finished || t.isOver target, alarm := a } ∧
      ∀ l, s.world.Sole n l → Journal.timesOf l s'.world.journal =
        Journal.timesOf l s.world.journal ++ t.callTimes l s.now target := by
  obtain ⟨s₁,h₁,hle₁,hnone,hset⟩ := settles_advance (fun _ hs => hs.bench.deck)
    (fun _ _ _ hs hn => hs.hop hn) h.since hle
  have hguarded := h₁.bench.deck.guarded
  have hpunctual : ∀ (n : Nat) (u : Timer), s₁.world.timers[n]? = some u →
      u.Punctual (s₁.setClock target).world.line := by
    intro n u hu
    have hlt : n < s.world.timers.length := by
      rw [← h₁.length]
      exact (List.getElem?_eq_some_iff.mp hu).1
    obtain ⟨b,a,hw⟩ := h₁.waited n _ (List.getElem?_eq_getElem hlt)
    obtain rfl := Option.some.inj (hu.symm.trans hw.timer)
    have k := hguarded.timers n _ hu
    exact hw.waits.punctual k (k.lt_due hnone)
  refine ⟨s₁.setClock target,hset,⟨h₁.bench.setClock hle₁,hpunctual⟩,rfl,h₁.length,h₁.focus,fun n t ht => ?_⟩
  obtain ⟨b,a,hw⟩ := h₁.waited n t ht
  obtain rfl : b = (t.finished || t.isOver target) := by
    cases b with
    | true =>
      obtain hf | ho := hw.ended rfl
      · simp [hf]
      · simp [Timer.isOver_mono ho hle₁]
    | false =>
      obtain ⟨hopen,-⟩ := h₁.bench.timers _ (List.mem_of_getElem? hw.timer)
      have hdue := (hpunctual n _ hw.timer).due
      have hnot : t.isOver target ≠ true := by
        intro ho
        exact Bool.false_ne_true (hdue.symm.trans (Timer.isDue_iff.mpr ⟨hopen,rfl,ho⟩))
      have hfin : t.finished ≠ true := fun ht => Bool.false_ne_true (hw.kept ht)
      simp [hnot, hfin]
  refine ⟨a,hw.timer,fun l hsole => ?_⟩
  refine (hw.called l hsole).trans ?_
  unfold Timer.callTimes
  cases t.finished <;> cases t.isOver target <;> rfl

end Session
end Countdown
