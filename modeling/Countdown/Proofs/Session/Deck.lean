import Countdown.Proofs.Session.Turn
set_option autoImplicit false

namespace Countdown

/-- A timer that was started on a duration at some time. -/
def Timer.startedOn (t : Timer) (d now : Int) (a : Alarm) : Timer :=
  { t with
    duration := d, startedAt := some now, resumedAt := some now, stoppedAt := none
    accumulated := 0, finished := false, alarm := a }

def Entry.next? (e : Entry) : Option Int := if e.listed then e.upcoming else none

theorem Entry.next?_isSome (e : Entry) :
    e.next?.isSome = true ↔ e.upcoming.isSome = true ∧ e.listed = true := by
  unfold Entry.next?
  cases e.listed <;> simp

theorem Entry.of_next? {e : Entry} {d : Int} (h : e.next? = some d) :
    ∃ q, e.queue = some q ∧ q.pop = (some d,q.pop.2) := by
  unfold Entry.next? at h
  split at h
  · obtain ⟨q,hq,hpeek⟩ := Option.bind_eq_some_iff.mp h
    exact ⟨q,hq,Queue.pop_of_peek hpeek⟩
  · contradiction

namespace World
open Timeline

variable {w : World} {n k : Nat} {t : Timer} {e : Entry} {q q' : Queue} {d : Int}

theorem start_startedOn (hg : w.Guarded) (ht : w.timers[n]? = some t)
    (hidle : t.isStarted = false) (hc : t.closed = false) (hd : 0 < t.duration) :
    ∃ a f, t.start n w.line = f ∧ f.announced = none ∧
      f.timer = t.startedOn t.duration w.now a ∧ f.OnTime t ∧ f.Sound n w.line := by
  have k := hg.timers n t ht
  obtain ⟨a,line',hstart⟩ := Timer.start_idle n w.line hidle hc k.closed hd
  have hpend : t.alarm.pending = none := by
    by_cases hp : t.alarm.pending = none
    · exact hp
    · have hrun := k.armed hp
      simp [Timer.isRunning, hidle] at hrun
  have hpunctual : t.Punctual w.line := .of_no_wake (Timer.isDue_of_not_started hidle) hpend
  refine ⟨a,_,rfl,?_,?_,Timer.start_onTime k hc hpunctual,k.start⟩
  · rw [hstart]
    rfl
  · rw [hstart]
    rfl

theorem Guarded.restart (h : w.Guarded) (ht : w.timers[n]? = some t) (hc : t.closed = false) (hd : 0 < d) :
    let r := (t.reset (some (.int d)) w.line).1
    ∃ w' a, (w.take n r).1.take n (r.timer.start n r.line) = (w',[]) ∧ w.Turns n w' ∧
      w'.timers[n]? = some (t.startedOn d w.now a) ∧ (t.startedOn d w.now a).Punctual w'.line ∧
      w'.entries = w.entries ∧ w'.separator = w.separator ∧
      ∀ id, Journal.deliveries id w'.journal = Journal.deliveries id w.journal := by
  intro r
  have hr : r = (Timer.Effect.silent { (t.clear w.line).1 with duration := max 0 d }
      (t.clear w.line).2).ofCleared := rfl
  have hdur : r.timer.duration = d := by
    rw [hr]
    change max 0 d = d
    omega
  have hsound : r.Sound n w.line := (h.timers n t ht).reset _
  have honTime : r.OnTime t := Timer.reset_onTime t _ _
  let w₁ := (w.take n r).1
  have h₁ : w₁.Guarded := h.take ht hsound
  have hturn₁ : w.Turns n w₁ := (h.turns_take ht hsound honTime).1
  have ht₁ : w₁.timers[n]? = some r.timer := getElem?_take ht r
  obtain ⟨a,f,hf,hnone,htimer,honTime₂,hsound₂⟩ := start_startedOn h₁ ht₁ rfl hc (by rw [hdur]; exact hd)
  have hstart : r.timer.start n r.line = f := by
    rw [← line_take w n r]
    exact hf
  have hstarted : f.timer = t.startedOn d w.now a := by
    rw [htimer, hdur, hturn₁.now]
    rfl
  refine ⟨(w₁.take n f).1,a,?_,hturn₁.trans (h₁.turns_take ht₁ hsound₂ honTime₂).1,?_,?_,?_,?_,fun id => ?_⟩
  · rw [hstart, ← Session.take_of_not_announced w₁ n hnone]
  · rw [← hstarted]
    exact getElem?_take ht₁ f
  · rw [line_take, ← hstarted]
    exact honTime₂.punctual
  · rw [entries_take, entries_take]
  · rw [separator_take, separator_take]
  · rw [deliveries_take, deliveries_take]

theorem Guarded.next (h : w.Guarded) (he : w.entries[k]? = some e) (ht : w.timers[e.timer]? = some t)
    (hc : t.closed = false) (hq : e.queue = some q) (hpop : q.pop = (some d,q')) (hd : 0 < d) :
    ∃ w' a, w.next? k = some (w',[]) ∧ w.Turns e.timer w' ∧
      w'.timers[e.timer]? = some (t.startedOn d w.now a) ∧ (t.startedOn d w.now a).Punctual w'.line ∧
      w'.entries = w.entries.set k { e with queue := some q' } ∧ w'.separator = w.separator ∧
      ∀ id, Journal.deliveries id w'.journal = Journal.deliveries id w.journal := by
  have h₁ : (w.setEntry k { e with queue := some q' }).Guarded := h.congr rfl rfl
  have hturn₁ : w.Turns e.timer (w.setEntry k { e with queue := some q' }) := turns_setEntry he rfl
  obtain ⟨w',a,hw,hturn₂,hrest⟩ := h₁.restart ht hc hd
  refine ⟨w',a,?_,hturn₁.trans hturn₂,hrest⟩
  have htimerOf : w.timerOf? k = some (e.timer,t) := by
    simp [timerOf?, he, ht]
  rw [← hw]
  simp only [next?, he, htimerOf, hq, Option.map_some, hpop]

end World

namespace Session
open Timeline World

/-- A deck in which scripts only look, and timers that wait go on to positive durations only. Without
these the clock might never get on, since a duration that is over at once is followed by the next. -/
structure Deck (s : Session) : Prop where
  guarded : s.world.Guarded
  wired : s.world.Wired
  listeners : ∀ p ∈ s.listeners, p.2.Looks
  callbacks : ∀ p ∈ s.callbacks, p.2.Looks
  steady : ∀ v ∈ s.world.line.wakes, v.status = .pending → s.world.Steady v.owner

variable {s s' : Session} {n k : Nat} {t : Timer} {e : Entry} {q q' : Queue} {d : Int}

theorem Deck.setClock (h : s.Deck) (now : Int) : (s.setClock now).Deck where
  guarded := h.guarded.change (.clock now)
  wired := h.wired.change (.clock now)
  listeners := h.listeners
  callbacks := h.callbacks
  steady := h.steady

theorem Deck.turns (h : s.Deck) {w : World} (ht : s.world.Turns n w) (hg : w.Guarded)
    (hw : w.Wired) (hs : w.Steady n) : (s.withWorld w).Deck where
  guarded := hg
  wired := hw
  listeners := h.listeners
  callbacks := h.callbacks
  steady v hv hp := by
    by_cases hn : v.owner = n
    · rw [hn]
      exact hs
    · exact (h.steady v ((ht.mem_wakes hn).mp hv) hp).turns ht hn

theorem Deck.take (h : s.Deck) (ht : s.world.timers[n]? = some t) {f : Timer.Effect}
    (hf : f.Sound n s.world.line) (ho : f.OnTime t) (hs : s.world.Steady n) :
    (s.withWorld (s.world.take n f).1).Deck :=
  h.turns (h.guarded.turns_take ht hf ho).1 (h.guarded.take ht hf) (h.wired.take ht ho.listeners)
    (hs.congr (entries_take _ _ _))

theorem Deck.beside (h : s.Deck) (ns : List Note) (text : String) : (s.beside ns text).Deck where
  guarded := h.guarded.congr rfl rfl
  wired := h.wired.congr rfl rfl
  listeners := h.listeners
  callbacks := h.callbacks
  steady := h.steady

theorem turns_beside {ns : List Note} (h : ∀ k, s.world.owner? k ≠ some n →
    Journal.deliveries (Entry.idOf k) ns = []) (text : String) :
    s.world.Turns n (s.beside ns text).world where
  now := rfl
  length := rfl
  timers _ _ := rfl
  agrees := Agrees.refl _ _
  later hl := hl
  owners _ := rfl
  entries _ _ := rfl
  callbacks := rfl
  told k hk := by
    have hjournal : (s.beside ns text).world.journal = s.world.journal ++ ns := rfl
    rw [hjournal, Journal.deliveries_append, h k hk, List.append_nil]

theorem Deck.next (h : s.Deck) (he : s.world.entries[k]? = some e)
    (ht : s.world.timers[e.timer]? = some t) (hc : t.closed = false)
    (hs : s.world.Steady e.timer) (hq : e.queue = some q) (hpop : q.pop = (some d,q')) : ∃ w a,
      s.world.next? k = some (w,[]) ∧ (s.withWorld w).Deck ∧ s.world.Turns e.timer w ∧
      w.Steady e.timer ∧ w.timers[e.timer]? = some (t.startedOn d s.now a) ∧
      (t.startedOn d s.now a).Punctual w.line ∧
      w.entries[k]? = some { e with queue := some q' } ∧
      ∀ id, Journal.deliveries id w.journal = Journal.deliveries id s.world.journal := by
  obtain ⟨hd,hpos⟩ := (hs k e q he rfl hq).pop hpop
  obtain ⟨w,a,hw,hturn,ht₁,hpunctual,hentries,-,hjournal⟩ := h.guarded.next he ht hc hq hpop hd
  have hchanges := changes_next? hw
  have hguarded : w.Guarded := hchanges.keeps (fun _ _ _ _ hg hc => hg.change hc) h.guarded
  have hwired : w.Wired := hchanges.keeps (fun _ _ _ _ hw hc => hw.change hc) h.wired
  have hsteady : w.Steady e.timer := by
    intro l e' q'' hl ht hq''
    rw [hentries, List.getElem?_set] at hl
    split at hl
    · split at hl
      · cases hl
        cases hq''
        exact hpos
      · contradiction
    · exact hs l e' q'' hl ht hq''
  refine ⟨w,a,hw,h.turns hturn hguarded hwired hsteady,hturn,hsteady,ht₁,hpunctual,?_,hjournal⟩
  rw [hentries]
  exact List.getElem?_set_self (List.getElem?_eq_some_iff.mp he).1

theorem Deck.notify (h : s.Deck) (event : Event) (hk : s.world.owner? k = some n) :
    ∃ (ns : List Note) (text : String), s.world.Turns n (s.beside ns text).world ∧
      Journal.deliveries (Entry.idOf k) ns =
        Callback.deliveries s.world.callbacks (Entry.idOf k) [event] ∧
      ∀ rest s'', Settles (s.beside ns text) rest s'' →
        Settles s (.notify event (Entry.idOf k) :: rest) s'' := by
  obtain ⟨ns,text,⟨-,hseen⟩,hrest⟩ := leaves_notify (e := event) (fun p hp _ => h.callbacks p hp) (Entry.idOf k)
  refine ⟨ns,text,turns_beside (fun l hl => ?_) text,?_,hrest⟩
  · have hkl : Entry.idOf k ≠ Entry.idOf l := by
      intro hid
      rw [← idOf_injective hid] at hl
      exact hl hk
    simp [Journal.deliveries, hseen, hkl]
  · rw [Journal.deliveries, hseen]
    simp [Callback.deliveries]

/-- From one session to another entry `k` and its timer have had their turn, and callbacks were told
of some events of the entry. -/
structure Moved (s : Session) (k : Nat) (e : Entry) (events : List Event) (s' : Session) (t' : Timer)
    (e' : Entry) : Prop where
  deck : s'.Deck
  turns : s.world.Turns e.timer s'.world
  steady : s'.world.Steady e.timer
  timer : s'.world.timers[e.timer]? = some t'
  entry : s'.world.entries[k]? = some e'
  told : Journal.deliveries (Entry.idOf k) s'.world.journal =
    Journal.deliveries (Entry.idOf k) s.world.journal ++
      Callback.deliveries s.world.callbacks (Entry.idOf k) events

/-- A timer at the end of a run, and what becomes of it and its entry: they stay as they are, or go on
to the next duration. -/
inductive Goes (now : Int) (line : Timeline) (t : Timer) (e : Entry) :
    Timer → Entry → List Event → Prop where
  | stays : e.next? = none → Goes now line t e t e []
  | on {d : Int} {q : Queue} {a : Alarm} : e.next? = some d → e.queue = some q →
      (t.startedOn d now a).Punctual line →
      Goes now line t e (t.startedOn d now a) { e with queue := some q.pop.2 } [.state]

theorem Deck.proceed (h : s.Deck) (he : s.world.entries[k]? = some e)
    (ht : s.world.timers[e.timer]? = some t) (hc : t.closed = false)
    (hs : s.world.Steady e.timer) : ∃ s' t' e' events, s.Moved k e events s' t' e' ∧
      Goes s.now s'.world.line t e t' e' events ∧
      ∀ rest s'', Settles s' rest s'' → Settles s (.proceed k :: rest) s'' := by
  have hiff := e.next?_isSome
  cases hnext : e.next? with
  | none =>
    rw [hnext] at hiff
    have hproceed : s.task (.proceed k) = s.ok [] .done := by
      simp only [task, Session.proceed, he, if_neg (fun hyes => absurd (hiff.mpr hyes) (by simp))]
    refine ⟨s,t,e,[],⟨h,.refl _ _,hs,ht,he,?_⟩,.stays hnext,fun rest s'' => Settles.ok hproceed⟩
    exact (List.append_nil _).symm
  | some d =>
    rw [hnext] at hiff
    obtain ⟨q,hq,hpop⟩ := Entry.of_next? hnext
    obtain ⟨w,a,hw,h₁,hturn₁,hs₁,ht₁,hpunctual,he₁,hsame⟩ := h.next he ht hc hs hq hpop
    have howner : w.owner? k = some e.timer := by
      rw [owner?, he₁]
      rfl
    obtain ⟨ns,text,hturn₂,htold,hstate⟩ := h₁.notify .state howner
    have hproceed : s.task (.proceed k) =
        (s.withWorld w).ok [.notify .state (Entry.idOf k)] .done := by
      simp only [task, Session.proceed, he, if_pos (hiff.mp rfl), Session.next, hw]
      rfl
    refine ⟨(s.withWorld w).beside ns text,_,_,[.state],
      ⟨h₁.beside _ _,hturn₁.trans hturn₂,hs₁,ht₁,he₁,?_⟩,.on hnext hq hpunctual,
      fun rest s'' hset => Settles.ok hproceed (hstate _ _ hset)⟩
    change Journal.deliveries _ (w.journal ++ ns) = _
    rw [Journal.deliveries_append, hsame, htold]
    exact congrArg (fun cs => _ ++ Callback.deliveries cs _ _) hturn₁.callbacks

/-- The call of an entry whose timer has finished: all callbacks are told of that, and the timer goes
on to the next duration, if there is one. -/
theorem Deck.call (h : s.Deck) (he : s.world.entries[k]? = some e)
    (ht : s.world.timers[e.timer]? = some t) (hc : t.closed = false) (hs : s.world.Steady e.timer)
    (a : Nat) : ∃ s' t' e' events, s.Moved k e (.finished :: events) s' t' e' ∧
      Goes s.now s'.world.line t e t' e' events ∧
      ∀ rest s'', Settles s' rest s'' → Settles s (.call ⟨a,.entry k⟩ :: rest) s'' := by
  have howner : s.world.owner? k = some e.timer := by
    rw [owner?, he]
    rfl
  let s₁ := s.beside [.called ⟨a,.entry k⟩ s.now] s.exported
  have h₁ : s₁.Deck := h.beside _ _
  have hturn₁ : s.world.Turns e.timer s₁.world := turns_beside (fun _ _ => rfl) _
  obtain ⟨ns,text,hturn₂,htold,hnotify⟩ := h₁.notify .finished howner
  have h₂ : (s₁.beside ns text).Deck := h₁.beside _ _
  obtain ⟨s',t',e',events,hmoved,hgoes,hproceed⟩ := h₂.proceed he ht hc hs
  refine ⟨s',t',e',events,⟨hmoved.deck,(hturn₁.trans hturn₂).trans hmoved.turns,hmoved.steady,
    hmoved.timer,hmoved.entry,?_⟩,hgoes,fun rest s'' hset => ?_⟩
  · have hjournal : Journal.deliveries (Entry.idOf k) (s₁.beside ns text).world.journal =
        Journal.deliveries (Entry.idOf k) s.world.journal ++
          Callback.deliveries s.world.callbacks (Entry.idOf k) [.finished] := by
      change Journal.deliveries _ ((s.world.journal ++ [.called ⟨a,.entry k⟩ s.now]) ++ ns) = _
      rw [Journal.deliveries_append, Journal.deliveries_append, htold]
      exact congrArg (· ++ _) (List.append_nil _)
    rw [hmoved.told, hjournal, List.append_assoc]
    exact congrArg _ (Callback.deliveries_append _ _ [.finished] events).symm
  · have hcall : s.task (.call ⟨a,.entry k⟩) =
        s₁.ok [.notify .finished (Entry.idOf k),.proceed k,.caught .listener] .done := rfl
    exact Settles.ok hcall (hnotify _ _ (hproceed _ _ (Settles.cons hset)))

theorem listener_of_take {w : World} {f : Timer.Effect} (hl : f.Latches t) {c : Call}
    (hc : c ∈ (w.take n f).2) : c.listener ∈ f.timer.listeners := by
  rw [take_eq] at hc
  cases ha : f.announced with
  | none => simp [ha] at hc
  | some ls =>
    simp only [ha] at hc
    obtain ⟨l,hmem,rfl⟩ := List.mem_map.mp hc
    rw [← (hl.told ls ha).1]
    exact hmem

theorem Deck.calls (h : s.Deck) (ht : s.world.timers[n]? = some t) (hc : t.closed = false)
    (hs : s.world.Steady n) {cs : List Call}
    (hcs : ∀ c ∈ cs, ∀ k, c.listener = .entry k → s.world.owner? k = some n) : ∃ s',
      s'.Deck ∧ s.world.Turns n s'.world ∧
      ∀ rest s'', Settles s' rest s'' → Settles s (Session.calls cs ++ rest) s'' := by
  induction cs generalizing s t with
  | nil => exact ⟨s,h,.refl _ _,fun rest s'' hset => hset⟩
  | cons c cs ih =>
    obtain ⟨s₁,t₁,h₁,hturn₁,ht₁,hc₁,hs₁,hfirst⟩ : ∃ s₁ t₁, s₁.Deck ∧ s.world.Turns n s₁.world ∧
        s₁.world.timers[n]? = some t₁ ∧ t₁.closed = false ∧ s₁.world.Steady n ∧
        ∀ rest s'', Settles s₁ rest s'' → Settles s (.call c :: rest) s'' := by
      obtain ⟨a,l⟩ := c
      cases l with
      | named name =>
        obtain ⟨ns,text,⟨ls,rfl⟩,hrest⟩ := leaves_call (c := ⟨a,.named name⟩) h.listeners rfl
        refine ⟨_,t,h.beside _ text,turns_beside (fun k _ => ?_) text,ht,hc,hs,hrest⟩
        simp [Journal.deliveries, Note.delivery?]
      | entry k =>
        obtain ⟨e,he,rfl⟩ := Option.map_eq_some_iff.mp (hcs ⟨a,.entry k⟩ (by simp) k rfl)
        obtain ⟨s',t',e',events,hmoved,hgoes,hset⟩ := h.call he ht hc hs a
        have hc' : t'.closed = false := by
          cases hgoes with
          | stays _ => exact hc
          | on _ _ _ => exact hc
        exact ⟨s',t',hmoved.deck,hmoved.turns,hmoved.timer,hc',hmoved.steady,hset⟩
    obtain ⟨s₂,h₂,hturn₂,hrest⟩ := ih h₁ ht₁ hc₁ hs₁ fun d hd k hk =>
      (hturn₁.owners k).trans (hcs d (by simp [hd]) k hk)
    exact ⟨s₂,h₂,hturn₁.trans hturn₂,fun rest s'' hset => hfirst _ _ (hrest rest s'' hset)⟩

structure Fired (s : Session) (v : Wake) (t : Timer) (f : Timer.Effect) (s' : Session) : Prop where
  deck : s'.Deck
  turns : s.world.Turns v.owner s'.world
  prompt : s'.world.isLate v.owner = false
  steady : s'.world.Steady v.owner
  timer : s'.world.timers[v.owner]? = some f.timer
  line : s'.world.line = f.line
  latches : f.Latches t
  onTime : f.OnTime t

variable {i : Nat} {v : Wake} {target : Int}

theorem Deck.waits (h : s.Deck) (hv : s.world.line.wakes[i]? = some v) (hp : v.status = .pending) :
    ∃ t, s.world.timers[v.owner]? = some t ∧ t.alarm.pending = some i := by
  have hlt := h.guarded.owned v (List.mem_of_getElem? hv)
  have ht := List.getElem?_eq_getElem hlt
  exact ⟨_,ht,(h.guarded.timers v.owner _ ht).keeps.current i v hv rfl (Or.inl hp)⟩

theorem Deck.fire (h : s.Deck) (hv : s.world.line.wakes[i]? = some v) (hp : v.status = .pending)
    (ht : s.world.timers[v.owner]? = some t) (hi : t.alarm.pending = some i) :
    let f := t.wake v.owner v.generation (s.world.line.markFired i)
    s.Fired v t f (s.withWorld (s.world.take v.owner f).1) := by
  intro f
  have k := h.guarded.timers v.owner t ht
  have hsound : f.Sound v.owner s.world.line := k.wake hv rfl
  have honTime : f.OnTime t := Timer.ring_onTime k hi hv
  have hsteady := h.steady v (List.mem_of_getElem? hv) hp
  obtain ⟨hturn,hprompt⟩ := h.guarded.turns_take ht hsound honTime
  exact
    { deck := h.take ht hsound honTime hsteady
      turns := hturn
      prompt := hprompt
      steady := hsteady.congr (entries_take _ _ _)
      timer := getElem?_take ht f
      line := line_take _ _ _
      latches := Timer.wake_latches _ _ _ _
      onTime := honTime }

theorem task_advanceTo (hn : s.world.line.next? target = some (i,v))
    (ht : s.world.timers[v.owner]? = some t) :
    let s₀ := s.setClock (max s.now v.due)
    let p := s₀.world.take v.owner (t.wake v.owner v.generation (s₀.world.line.markFired i))
    s.task (.advanceTo target) = (s₀.withWorld p.1).ok (Session.calls p.2 ++ [.advanceTo target]) .done := by
  intro s₀ p
  have hfire := fire_eq (s := s₀) ht (of_next? hn).1 rfl
  simp only [task, advanceTo, hn]
  rw [hfire]

/-- Another timer's wake fires, and its calls are made. -/
theorem Deck.hop (h : s.Deck) (hn : s.world.line.next? target = some (i,v)) : ∃ s',
    s'.Deck ∧ (s.setClock (max s.now v.due)).world.Turns v.owner s'.world ∧
    s'.world.isLate v.owner = false ∧
    ∀ s'', Settles s' [.advanceTo target] s'' → Settles s [.advanceTo target] s'' := by
  obtain ⟨hv,hp,-⟩ := of_next? hn
  obtain ⟨t,ht,hi⟩ := h.waits hv hp
  let s₀ := s.setClock (max s.now v.due)
  let f := t.wake v.owner v.generation (s₀.world.line.markFired i)
  have hfired : s₀.Fired v t f (s₀.withWorld (s₀.world.take v.owner f).1) :=
    (h.setClock _).fire hv hp ht hi
  have htask : s.task (.advanceTo target) = (s₀.withWorld (s₀.world.take v.owner f).1).ok
      (Session.calls (s₀.world.take v.owner f).2 ++ [.advanceTo target]) .done :=
    task_advanceTo hn ht
  cases hann : f.announced with
  | none =>
    have hcs : (s₀.world.take v.owner f).2 = [] := take_of_not_announced _ _ hann
    rw [hcs] at htask
    exact ⟨_,hfired.deck,hfired.turns,hfired.prompt,fun s'' hset => Settles.ok htask hset⟩
  | some ls =>
    have hopen := (hfired.latches.told ls hann).2.2.1
    have hmine : ∀ c ∈ (s₀.world.take v.owner f).2, ∀ k, c.listener = .entry k →
        (s₀.world.take v.owner f).1.owner? k = some v.owner := by
      intro c hc k hk
      refine hfired.deck.wired.listeners _ _ k hfired.timer ?_
      rw [← hk]
      exact listener_of_take hfired.latches hc
    obtain ⟨s₁,h₁,hturn,hrest⟩ := hfired.deck.calls hfired.timer hopen hfired.steady hmine
    refine ⟨s₁,h₁,hfired.turns.trans hturn,hturn.prompt hfired.prompt,fun s'' hset => ?_⟩
    refine Settles.ok htask ?_
    rw [List.append_nil]
    exact hrest _ s'' hset

end Session
end Countdown
