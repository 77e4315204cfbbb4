import Countdown.Proofs.Sequence.Durations
import Countdown.Proofs.Session.Ring
set_option autoImplicit false

/-!
A timer whose run is under way, while nothing is done in the deck but that the clock goes on. Its own wakes
take it on, and those of other timers leave it as it is: the run ends in time, that is told once, and the
timer goes on to the next duration of its entry. If the end of the run counts as announced, nothing is told
any more.
-/

namespace Countdown

def Event.ofProgress (i : Nat) (ended : Bool) : List Event :=
  (List.replicate i [Event.finished, .state]).flatten ++ if ended then [.finished] else []

theorem Event.ofProgress_over (i : Nat) :
    ofProgress i true = ofProgress i false ++ [.finished] := by
  simp [ofProgress]

theorem Event.ofProgress_succ (i : Nat) :
    ofProgress (i + 1) false = ofProgress i false ++ [.finished,.state] := by
  simp [ofProgress, List.replicate_succ']

theorem Event.ofProgress_first (i : Nat) (b : Bool) :
    ofProgress (i + 1) b = .finished :: .state :: ofProgress i b := by
  simp [ofProgress, List.replicate_succ]

namespace Queue

def after : Nat → Queue → Queue
  | 0, q => q
  | n + 1, q => (after n q).pop.2

end Queue

namespace Session
open Timeline World

/-- A run that is under way, what comes after it, who is told of it, and what they had been told. -/
structure Resumption where
  entry : Nat
  duration : Int
  deadline : Int
  queue : Option Queue
  callbacks : List Callback
  before : List (Callback × Event × String)

namespace Resumption

/-- The queue during run number `j`; the run that is under way has number 0. -/
def queueAt (p : Resumption) (j : Nat) : Option Queue := p.queue.map (Queue.after j)

def upcoming (p : Resumption) (j : Nat) : Option Int := (p.queueAt j).bind Queue.peek

def consumed (p : Resumption) (j : Nat) : Nat := ((p.queueAt j).map Queue.consumed).getD 0

def lasts (p : Resumption) : Nat → Option Int
  | 0 => some p.duration
  | j + 1 => p.upcoming j

def ends (p : Resumption) : Nat → Int
  | 0 => p.deadline
  | j + 1 => p.ends j + (p.upcoming j).getD 0

def told (p : Resumption) (events : List Event) : List (Callback × Event × String) :=
  p.before ++ Callback.deliveries p.callbacks (Entry.idOf p.entry) events

theorem told_append (p : Resumption) (es ds : List Event) : p.told (es ++ ds) =
    p.told es ++ Callback.deliveries p.callbacks (Entry.idOf p.entry) ds := by
  simp [told, Callback.deliveries_append]

variable {p : Resumption} {i j : Nat} {t : Timer} {e : Entry}

theorem upcoming_succ (h : p.upcoming j = none) : p.upcoming (j + 1) = none := by
  cases hq : p.queue with
  | none => simp [Resumption.upcoming, queueAt, hq]
  | some q =>
    have hpeek : (Queue.after j q).peek = none := by simpa [Resumption.upcoming, queueAt, hq] using h
    simp [Resumption.upcoming, queueAt, hq, Queue.after, Queue.pop_of_none hpeek, hpeek]

theorem consumed_succ {d : Int} (h : p.upcoming j = some d) : p.consumed (j + 1) = p.consumed j + 1 := by
  cases hq : p.queue with
  | none => simp [Resumption.upcoming, queueAt, hq] at h
  | some q =>
    have hpeek : (Queue.after j q).peek = some d := by simpa [Resumption.upcoming, queueAt, hq] using h
    simpa [consumed, queueAt, hq, Queue.after] using Queue.consumed_pop hpeek

theorem lasts_none (h : p.lasts i = none) (hij : i ≤ j) : p.lasts j = none := by
  induction j with
  | zero =>
    obtain rfl : i = 0 := by omega
    exact h
  | succ j ih =>
    obtain rfl | hlt := Nat.eq_or_lt_of_le hij
    · exact h
    · have hlast := ih (by omega)
      cases j with
      | zero => contradiction
      | succ j => exact upcoming_succ hlast

/-- The timer and the entry during run number `j`. -/
structure Counts (p : Resumption) (j : Nat) (t : Timer) (e : Entry) : Prop where
  listed : e.listed = true
  listeners : t.listeners = [.entry p.entry]
  running : t.isRunning = true
  unclosed : t.closed = false
  duration : p.lasts j = some t.duration
  remaining : ∀ now, t.remaining now = p.ends j - now
  queue : e.queue = p.queueAt j

theorem Counts.marked (h : p.Counts j t e) (b : Bool) (a : Alarm) :
    p.Counts j { t with finished := b, alarm := a } e := { h with }

theorem Counts.upcoming (h : p.Counts j t e) : e.upcoming = p.upcoming j := by
  rw [Entry.upcoming, h.queue, Resumption.upcoming]

theorem Counts.next? (h : p.Counts j t e) : e.next? = p.upcoming j := by
  rw [Entry.next?, if_pos h.listed, h.upcoming]

theorem Counts.startedOn (h : p.Counts j t e) {d : Int} {q : Queue} (hd : p.upcoming j = some d)
    (hq : e.queue = some q) (a : Alarm) :
    p.Counts (j + 1) (t.startedOn d (p.ends j) a) { e with queue := some q.pop.2 } where
  listed := h.listed
  listeners := h.listeners
  running := rfl
  unclosed := h.unclosed
  duration := hd
  remaining now := by
    simp only [Timer.startedOn, Timer.remaining, Timer.elapsed, ends, hd, Option.getD_some]
    omega
  queue := by
    rw [h.queue, queueAt] at hq
    obtain ⟨q₀,hq₀,rfl⟩ := Option.map_eq_some_iff.mp hq
    rw [queueAt, hq₀]
    rfl

end Resumption

/-- The timer of an entry is in run number `j`, and all has been told that was to be told by then. It may
be about to be woken; only the last run is marked as finished. -/
structure Resumes (s : Session) (p : Resumption) (j : Nat) (t : Timer) (e : Entry) : Prop where
  stands : s.Stands p.entry t e p.callbacks (p.told (Event.ofProgress j t.finished))
  counts : p.Counts j t e
  begun : ∀ i, i < j → p.ends i ≤ s.now
  waits : ∀ (m : Nat) (v : Wake), t.alarm.pending = some m → s.world.line.wakes[m]? = some v →
    s.now ≤ v.due ∧ v.due ≤ p.ends j
  ended : t.finished = true → t.alarm.pending = none ∧ p.ends j ≤ s.now ∧ p.lasts (j + 1) = none

variable {s s' : Session} {p : Resumption} {i j m k : Nat} {t u : Timer} {e e' : Entry} {v : Wake}
  {now target : Int} {events : List Event}

theorem resumes_of_punctual
    (h : s.Stands p.entry t e p.callbacks (p.told (Event.ofProgress j false))) (hc : p.Counts j t e)
    (hf : t.finished = false) (hbegun : ∀ i, i < j → p.ends i ≤ s.now) (hp : t.Punctual s.world.line) :
    s.Resumes p j t e where
  stands := by
    rw [hf]
    exact h
  counts := hc
  begun := hbegun
  waits m v hm hv := by
    have hwakes := hp.wakes m v hm hv
    have hclock : s.world.line.now = s.now := rfl
    rw [hc.remaining, hclock] at hwakes
    omega
  ended hno := by
    rw [hf] at hno
    contradiction

theorem Resumes.setClock (h : s.Resumes p j t e) (hlater : s.now ≤ now)
    (hnext : ∀ (m : Nat) (v : Wake), t.alarm.pending = some m →
      s.world.line.wakes[m]? = some v → now ≤ v.due) : (s.setClock now).Resumes p j t e where
  stands := h.stands.setClock now
  counts := h.counts
  begun i hi := Int.le_trans (h.begun i hi) hlater
  waits m v hm hv := ⟨hnext m v hm hv,(h.waits m v hm hv).2⟩
  ended hf := ⟨(h.ended hf).1,Int.le_trans (h.ended hf).2.1 hlater,(h.ended hf).2.2⟩

theorem Resumes.turns (h : s.Resumes p j t e) (hm : m ≠ e.timer) (ht : s.world.Turns m s'.world)
    (hd : s'.Deck) : s'.Resumes p j t e := by
  have hnow : s'.now = s.now := ht.now
  constructor
  · exact h.stands.turns hm ht hd
  · exact h.counts
  · rw [hnow]
    exact h.begun
  · intro l v hl hv
    rw [hnow]
    exact h.waits l v hl (h.stands.wake hm ht hl hv)
  · rw [hnow]
    exact h.ended

/-- The timer's own wake has fired: either it waits again, or it is the end of the run, and the timer
goes on to the next duration or stays as it is. -/
theorem Resumes.rings (h : s.Resumes p j t e) (hf : t.finished = false) (hlater : s.now ≤ now)
    (hbefore : now ≤ p.ends j) (hm : (s.setClock now).Moved p.entry e events s' u e')
    (hr : Rings now s'.world.line t e u e' events) : ∃ j', s'.Resumes p j' u e' := by
  have hnow : s'.now = now := hm.turns.now
  have hcounts := h.counts
  have hstands := h.stands
  rw [hf] at hstands
  have hbegun : ∀ i, i < j → p.ends i ≤ s'.now := by
    intro i hi
    have := h.begun i hi
    omega
  cases hr with
  | waits a hpunctual =>
    have hmoved := hstands.moved hm rfl
    rw [Callback.deliveries, List.flatMap_nil, List.append_nil] at hmoved
    exact ⟨j,resumes_of_punctual hmoved (hcounts.marked t.finished a) hf hbegun hpunctual⟩
  | ends _ hover hpend hgoes =>
    -- the wake came no later than the end, and no time is left
    have hend : now = p.ends j := by
      have hleft := (Timer.isOver_iff.mp hover).2.2
      rw [hcounts.remaining] at hleft
      omega
    cases hgoes with
    | stays hnext =>
      rw [hcounts.next?] at hnext
      have hmoved := hstands.moved hm rfl
      rw [← Resumption.told_append, ← Event.ofProgress_over] at hmoved
      refine ⟨j,hmoved,hcounts.marked true _,hbegun,fun m v hm => ?_,fun _ => ⟨hpend,by omega,hnext⟩⟩
      rw [hpend] at hm
      contradiction
    | @on d q a hnext hq hpunctual =>
      rw [hcounts.next?] at hnext
      have hmoved := hstands.moved hm rfl
      rw [← Resumption.told_append, ← Event.ofProgress_succ] at hmoved
      have hcounts' := hcounts.startedOn hnext hq a
      rw [← hend] at hcounts'
      refine ⟨j + 1,resumes_of_punctual hmoved hcounts' rfl (fun i hi => ?_) hpunctual⟩
      obtain hi | rfl := Nat.lt_succ_iff_lt_or_eq.mp hi
      · exact hbegun i hi
      · omega

theorem Resumes.unfinished (h : s.Resumes p j t e) (hm : t.alarm.pending = some m) : t.finished = false := by
  cases hf : t.finished with
  | false => rfl
  | true =>
    have hpend := (h.ended hf).1
    rw [hm] at hpend
    contradiction

theorem Resumes.hop (h : s.Resumes p j t e) (hn : s.world.line.next? target = some (m,v)) :
    ∃ s' j' t' e', s'.Resumes p j' t' e' ∧
      (s.setClock (max s.now v.due)).world.Turns v.owner s'.world ∧ s'.world.isLate v.owner = false ∧
      ∀ s'', Settles s' [.advanceTo target] s'' → Settles s [.advanceTo target] s'' := by
  obtain ⟨hv,hp,-⟩ := of_next? hn
  by_cases ho : v.owner = e.timer
  · obtain ⟨t₀,ht,hm⟩ := h.stands.deck.waits hv hp
    obtain rfl : t₀ = t := Option.some.inj (ht.symm.trans (by rw [ho]; exact h.stands.timer))
    obtain ⟨hlater,hbefore⟩ := h.waits m v hm hv
    obtain ⟨s',u,e',events,hmoved,hprompt,hrings,hset⟩ :=
      h.stands.deck.ring hn h.stands.timer h.stands.entry ho h.counts.listeners
    obtain ⟨j',hresumes⟩ := h.rings (h.unfinished hm) (by omega) (by omega) hmoved hrings
    have hturns := hmoved.turns
    rw [← ho] at hturns
    exact ⟨s',j',u,e',hresumes,hturns,hprompt,hset⟩
  · obtain ⟨s',hdeck,hturn,hprompt,hset⟩ := h.stands.deck.hop hn
    refine ⟨s',j,t,e,?_,hturn,hprompt,hset⟩
    refine (h.setClock (by omega) fun m' v' hm' hv' => ?_).turns ho hturn hdeck
    have hfirst := h.stands.due_le hn hm' hv'
    have hbefore := (h.waits m' v' hm' hv').1
    omega

structure Rests (s : Session) (p : Resumption) (j : Nat) (t : Timer) (e : Entry) : Prop where
  resumes : s.Resumes p j t e
  early : t.finished = false → s.now < p.ends j

theorem Resumes.rests (h : s.Resumes p j t e) (hlater : s.now ≤ target)
    (hn : s.world.line.next? target = none) : (s.setClock target).Rests p j t e := by
  have k := h.stands.deck.guarded.timers e.timer t h.stands.timer
  have hnext := k.lt_due hn
  refine ⟨h.setClock hlater fun m v hm hv => Int.le_of_lt (hnext m v hm hv),fun hf => ?_⟩
  -- a run that has not ended waits for a wake, and that would have fired by its end
  obtain ⟨m,hm⟩ := Option.ne_none_iff_exists'.mp (k.watched h.counts.running h.counts.unclosed hf)
  obtain ⟨-,v,hv,-⟩ := k.keeps.held m hm
  have hfires := hnext m v hm hv
  have hdue := (h.waits m v hm hv).2
  change target < p.ends j
  omega

theorem Resumes.settles (h : s.Resumes p j t e) (hlater : s.now ≤ target) : ∃ s' j' t' e',
      Settles s [.advanceTo target] s' ∧ s'.now = target ∧ s'.Rests p j' t' e' := by
  obtain ⟨s₁,⟨j',t',e',hresumes⟩,hle,hn,hset⟩ :=
    settles_advance (P := fun s => ∃ j t e, s.Resumes p j t e) (fun s ⟨_,_,_,hs⟩ => hs.stands.deck)
      (fun s m v ⟨_,_,_,hs⟩ hn => by
        obtain ⟨s',j',t',e',hresumes,hrest⟩ := hs.hop hn
        exact ⟨s',⟨j',t',e',hresumes⟩,hrest⟩) ⟨j,t,e,h⟩ hlater
  exact ⟨_,j',t',e',hset,rfl,hresumes.rests hle hn⟩

/-- However the time is cut into steps, each run ends when it is to end. -/
theorem Rests.advances (h : s.Rests p j t e) {steps : List Int} (hsteps : ∀ ms ∈ steps, 0 ≤ ms) :
    ∃ s' j' t' e', s.RunsAll (steps.map .advance) s' ∧ s'.now = s.now + steps.foldl (· + ·) 0 ∧
      s'.Rests p j' t' e' := by
  obtain ⟨s',hruns,hnow,j',t',e',hrests⟩ :=
    runsAll_advances (Q := fun s => ∃ j t e, s.Rests p j t e) (fun s target ⟨_,_,_,hs⟩ hle => by
      obtain ⟨s',j',t',e',hset,hnow,hrests⟩ := hs.resumes.settles hle
      exact ⟨s',hset,hnow,j',t',e',hrests⟩) ⟨j,t,e,h⟩ hsteps
  exact ⟨s',j',t',e',hruns,hnow,hrests⟩

theorem Resumes.view (h : s.Resumes p j t e) : ∃ v, s.world.view? p.entry = some v ∧ v.running = true ∧
    p.lasts j = some v.duration ∧ v.remaining = p.ends j - s.now ∧ v.consumed = p.consumed j ∧
    v.upcoming = p.upcoming j := by
  refine ⟨_,view?_eq h.stands.entry h.stands.timer,h.counts.running,h.counts.duration,h.counts.remaining _,?_,
    h.counts.upcoming⟩
  change e.consumed = _
  rw [Entry.consumed, h.counts.queue, Resumption.consumed]

theorem Rests.eq_of_lt {d : Int} (h : s.Rests p i t e) (hj : p.lasts j = some d)
    (hbegun : ∀ l, l < j → p.ends l ≤ s.now) (hlt : s.now < p.ends j) : i = j ∧ t.finished = false := by
  cases hf : t.finished with
  | true =>
    obtain ⟨-,hend,hlast⟩ := h.resumes.ended hf
    have hji : j < i + 1 := by
      refine Nat.lt_of_not_le fun hij => ?_
      rw [Resumption.lasts_none hlast hij] at hj
      contradiction
    obtain hlt' | rfl := Nat.lt_succ_iff_lt_or_eq.mp hji
    · have hover := h.resumes.begun j hlt'
      omega
    · omega
  | false =>
    refine ⟨?_,rfl⟩
    have hend := h.early hf
    obtain hij | hij | hij := Nat.lt_trichotomy i j
    · have hover := hbegun i hij
      omega
    · exact hij
    · have hover := h.resumes.begun j hij
      omega

theorem Rests.eq_of_last {d : Int} (h : s.Rests p i t e) (hj : p.lasts j = some d)
    (hlast : p.lasts (j + 1) = none) (hover : ∀ l, l ≤ j → p.ends l ≤ s.now) :
    i = j ∧ t.finished = true := by
  have hij : i ≤ j := by
    refine Nat.le_of_not_lt fun hji => ?_
    have hnone := Resumption.lasts_none hlast hji
    rw [h.resumes.counts.duration] at hnone
    contradiction
  cases hf : t.finished with
  | true =>
    refine ⟨?_,rfl⟩
    have hji : ¬ i < j := by
      intro hlt
      rw [Resumption.lasts_none (h.resumes.ended hf).2.2 hlt] at hj
      contradiction
    omega
  | false =>
    have hend := h.early hf
    have hpast := hover i hij
    omega

variable {cs : List Callback} {told : List (Callback × Event × String)} {a : Alarm}

theorem Stands.hop_finished (h : s.Stands k { t with alarm := a } e cs told) (hf : t.finished = true)
    (hl : t.listeners = [.entry k]) (hn : s.world.line.next? target = some (m,v)) : ∃ s',
      (∃ a', s'.Stands k { t with alarm := a' } e cs told) ∧
      (s.setClock (max s.now v.due)).world.Turns v.owner s'.world ∧ s'.world.isLate v.owner = false ∧
      ∀ s'', Settles s' [.advanceTo target] s'' → Settles s [.advanceTo target] s'' := by
  by_cases ho : v.owner = e.timer
  · obtain ⟨s',u,e',events,hmoved,hprompt,hrings,hset⟩ := h.deck.ring hn h.timer h.entry ho hl
    have hturns := hmoved.turns
    rw [← ho] at hturns
    refine ⟨s',?_,hturns,hprompt,hset⟩
    cases hrings with
    | waits a' _ =>
      have hstands := h.moved hmoved rfl
      rw [Callback.deliveries, List.flatMap_nil, List.append_nil] at hstands
      exact ⟨a',hstands⟩
    | ends hno =>
      change t.finished = false at hno
      rw [hf] at hno
      contradiction
  · obtain ⟨s',hdeck,hturn,hprompt,hset⟩ := h.deck.hop hn
    exact ⟨s',⟨a,(h.setClock _).turns ho hturn hdeck⟩,hturn,hprompt,hset⟩

theorem Stands.advances_finished (h : s.Stands k t e cs told) (hf : t.finished = true)
    (hl : t.listeners = [.entry k]) {steps : List Int} (hsteps : ∀ ms ∈ steps, 0 ≤ ms) : ∃ s' a,
      s.RunsAll (steps.map .advance) s' ∧ s'.now = s.now + steps.foldl (· + ·) 0 ∧
      s'.Stands k { t with alarm := a } e cs told := by
  obtain ⟨s',hruns,hnow,a,hlast⟩ := runsAll_advances
    (Q := fun s => ∃ a, s.Stands k { t with alarm := a } e cs told) (fun s target hs hle => by
      obtain ⟨s₁,⟨a,h₁⟩,-,-,hset⟩ := settles_advance
        (P := fun s => ∃ a, s.Stands k { t with alarm := a } e cs told) (fun s ⟨_,hs⟩ => hs.deck)
        (fun s m v ⟨_,hs⟩ hn => hs.hop_finished hf hl hn) hs hle
      exact ⟨_,hset,rfl,a,h₁.setClock target⟩) ⟨t.alarm,h⟩ hsteps
  exact ⟨s',a,hruns,hnow,hlast⟩

end Session
end Countdown
