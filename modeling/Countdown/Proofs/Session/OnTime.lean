import Countdown.Proofs.Session.Announcement
import Countdown.Proofs.Session.LiveWake
import Countdown.Proofs.Session.Watcher
set_option autoImplicit false

namespace Countdown.Session
open Timeline

/-- A session about one open timer, whose listeners have names and only look. -/
structure Solo (s : Session) (t : Timer) : Prop where
  timers : s.world.timers = [t]
  focus : s.focus = 0
  scripts : ∀ p ∈ s.listeners, p.2.Looks
  named : ∀ l ∈ t.listeners, ∃ name, l = .named name
  unclosed : t.closed = false
  guarded : s.world.Guarded

/-- The calls of this run are those that a watcher would have made. -/
structure Timely (s : Session) (t : Timer) (ms : List Moment) : Prop where
  solo : s.Solo t
  punctual : t.Punctual s.world.line
  called : Journal.callsSince 0 s.world.journal = Moment.told ms
  marked : t.finished = ms.any fun m => m.isOver

variable {s s' : Session} {t t' : Timer} {ms : List Moment}

theorem Solo.getElem? (h : s.Solo t) : s.world.timers[0]? = some t := by
  rw [h.timers]
  rfl

theorem Solo.focused (h : s.Solo t) : s.focused = t := by
  unfold Session.focused
  rw [h.timers, h.focus]
  rfl

theorem Solo.timerGuarded (h : s.Solo t) : t.Guarded 0 s.world.line :=
  h.guarded.timers 0 t h.getElem?

theorem Solo.owner (h : s.Solo t) {i : Nat} {v : Wake} (hv : s.world.line.wakes[i]? = some v) :
    v.owner = 0 := by
  have hlt := h.guarded.owned v (List.mem_of_getElem? hv)
  rw [h.timers] at hlt
  simp only [List.length_singleton] at hlt
  omega

theorem Solo.beside (h : s.Solo t) (ns : List Note) (text : String) : (s.beside ns text).Solo t where
  timers := h.timers
  focus := h.focus
  scripts := h.scripts
  named := h.named
  unclosed := h.unclosed
  guarded := h.guarded.congr rfl rfl

theorem Solo.setClock (h : s.Solo t) (now : Int) : (s.setClock now).Solo t where
  timers := h.timers
  focus := h.focus
  scripts := h.scripts
  named := h.named
  unclosed := h.unclosed
  guarded := h.guarded.change (.clock now)

theorem Timely.pass (h : s.Timely t ms) {ns : List Moment}
    (hns : ∀ m ∈ ns, t.finished = true ∨ m.isOver = false) : s.Timely t (ms ++ ns) := by
  refine ⟨h.solo,h.punctual,?_,?_⟩
  · rw [h.called, Moment.told_append]
    cases hf : t.finished with
    | true =>
      rw [h.marked] at hf
      rw [if_pos hf]
    | false =>
      have hnone : (ns.any fun m => m.isOver) = false := by
        rw [List.any_eq_false]
        intro m hm
        simpa [hf] using hns m hm
      rw [h.marked] at hf
      rw [if_neg (by simp [hf]), Moment.told_of_not_any hf, Moment.told_of_not_any hnone]
  · rw [List.any_append, ← h.marked]
    cases hf : t.finished with
    | true => rfl
    | false =>
      symm
      rw [Bool.false_or, List.any_eq_false]
      intro m hm
      simpa [hf] using hns m hm

theorem Timely.next (h : s.Timely t ms) (forgot announced : Bool) (hsolo : s'.Solo t')
    (hp : t'.Punctual s'.world.line)
    (hm : t'.finished = (announced || t.finished && !forgot))
    (hover : announced = true →
      (forgot = true ∨ t.finished = false) ∧ t'.isOver s'.now = true)
    (hcalls : Journal.callsSince 0 s'.world.journal =
      (if forgot then [] else Journal.callsSince 0 s.world.journal) ++
        if announced then t'.listeners.map fun l => (l,s'.now) else []) :
    s'.Timely t' ((if forgot then [] else ms) ++ [t'.moment s'.now]) := by
  have hany : ((if forgot then [] else ms).any fun m => m.isOver) = (t.finished && !forgot) := by
    cases forgot with
    | true => simp
    | false => simp [h.marked]
  have htold : (if forgot then [] else Journal.callsSince 0 s.world.journal) =
      Moment.told (if forgot then [] else ms) := by
    cases forgot with
    | true => rfl
    | false => exact h.called
  have hdue := hp.due
  cases announced with
  | true =>
    obtain ⟨honce,hisOver⟩ := hover rfl
    have hnone : ((if forgot then [] else ms).any fun m => m.isOver) = false := by
      rw [hany]
      obtain hf | hf := honce <;> simp [hf]
    refine ⟨hsolo,hp,?_,?_⟩
    · rw [hcalls, htold, Moment.told_append, hnone, Moment.told_of_not_any hnone]
      simp [Moment.told, Timer.moment, hisOver]
    · rw [hm, List.any_append, hnone]
      simp [Timer.moment, hisOver]
  | false =>
    have hlast : t'.finished = true ∨ t'.isOver s'.now = false := by
      have hnot : ¬ (t'.closed = false ∧ t'.finished = false ∧ t'.isOver s'.now = true) := by
        rw [← Timer.isDue_iff]
        change ¬ t'.isDue s'.world.line.now = true
        rw [hdue]
        simp
      cases hf : t'.finished with
      | true => exact Or.inl rfl
      | false => simpa [hsolo.unclosed, hf] using hnot
    simp only [Bool.false_or] at hm
    have hbefore : s'.Timely t' (if forgot then [] else ms) :=
      ⟨hsolo,hp,by rw [hcalls, htold]; simp,by rw [hm, hany]⟩
    apply hbefore.pass
    simpa [Timer.moment] using hlast

theorem settles_calls (hs : ∀ p ∈ s.listeners, p.2.Looks) {cs : List Call}
    (hcs : ∀ c ∈ cs, ∃ name, c.listener = .named name) : ∃ (ns : List Note) (text : String),
      (∀ x ∈ ns, x.delivery? = none ∧ ∀ n, x ≠ .cleared n) ∧
      ns.filterMap Note.callAt? = cs.map (fun c => (c.listener,s.now)) ∧
      ∀ rest s', Settles (s.beside ns text) rest s' → Settles s (calls cs ++ rest) s' := by
  apply settles_all .call cs (P := fun s' => (∀ p ∈ s'.listeners, p.2.Looks) ∧ s'.now = s.now)
  · exact fun _ _ _ h => h
  · rintro s' ⟨hlooks,hnow⟩ c hc
    obtain ⟨name,hname⟩ := hcs c hc
    obtain ⟨ns,text,⟨ls,rfl⟩,hrest⟩ := leaves_call hlooks hname
    refine ⟨_,text,⟨?_,?_⟩,hrest⟩
    · intro x hx
      simp only [List.mem_cons] at hx
      obtain rfl | rfl | hx := hx
      · simp [Note.delivery?]
      · simp [Note.delivery?]
      · obtain ⟨l,rfl⟩ := mem_logged hx
        simp [Note.delivery?]
    · simp [Note.callAt?, hnow]
  · exact ⟨hs,rfl⟩

def callsAfter (before : List (Listener × Int)) (e : Timer.Effect) : List (Listener × Int) :=
  (if e.cleared then [] else before) ++
    if e.announced.isSome then e.timer.listeners.map fun l => (l,e.line.now) else []

theorem callsSince_cleared_journal (w : World) (e : Timer.Effect) :
    Journal.callsSince 0 (w.cleared 0 e).journal =
      if e.cleared then [] else Journal.callsSince 0 w.journal := by
  unfold World.cleared
  cases h : e.cleared with
  | true => exact Journal.callsSince_cleared 0 w.journal
  | false => rfl

theorem Solo.take (h : s.Solo t) {e : Timer.Effect} (hs : e.Sound 0 s.world.line)
    (ho : e.OnTime t) : (s.withWorld (s.world.take 0 e).1).Solo e.timer where
  timers := by
    change (s.world.take 0 e).1.timers = [e.timer]
    rw [World.timers_take, h.timers]
    rfl
  focus := h.focus
  scripts := h.scripts
  named := by
    rw [ho.listeners]
    exact h.named
  unclosed := ho.closed.trans h.unclosed
  guarded := h.guarded.take h.getElem? hs

theorem listeners_take {e : Timer.Effect} (hl : e.Latches t) (w : World) (n : Nat) :
    (w.take n e).2.map (fun c => c.listener) = if e.announced.isSome then e.timer.listeners else [] := by
  rw [World.take_eq]
  cases ha : e.announced with
  | none => rfl
  | some ls =>
    rw [← (hl.told ls ha).1]
    simp [Function.comp_def]

theorem settles_take (h : s.Solo t) {e : Timer.Effect} (hs : e.Sound 0 s.world.line)
    (hl : e.Latches t) (ho : e.OnTime t) : ∃ s',
      (∀ rest s'', Settles s' rest s'' →
        Settles (s.withWorld (s.world.take 0 e).1) (calls (s.world.take 0 e).2 ++ rest) s'') ∧
      s'.Solo e.timer ∧ s'.world.line = e.line ∧
      Journal.callsSince 0 s'.world.journal =
        callsAfter (Journal.callsSince 0 s.world.journal) e := by
  have hsolo := h.take hs ho
  have hline : (s.withWorld (s.world.take 0 e).1).world.line = e.line := World.line_take _ _ _
  have hnow : (s.withWorld (s.world.take 0 e).1).now = e.line.now := by
    change (s.world.take 0 e).1.line.now = e.line.now
    rw [World.line_take]
  have hlisteners := listeners_take hl s.world 0
  have hcs : ∀ c ∈ (s.world.take 0 e).2, ∃ name, c.listener = .named name := by
    intro c hc
    have hmem : c.listener ∈ (s.world.take 0 e).2.map fun c => c.listener :=
      List.mem_map_of_mem hc
    rw [hlisteners] at hmem
    split at hmem
    · exact hsolo.named _ hmem
    · contradiction
  have hwho : (s.world.take 0 e).2.map (fun c => (c.listener,e.line.now)) =
      if e.announced.isSome then e.timer.listeners.map fun l => (l,e.line.now) else [] := by
    have hpairs := congrArg (List.map fun l => (l,e.line.now)) hlisteners
    rw [List.map_map] at hpairs
    refine hpairs.trans ?_
    split <;> rfl
  have hjournal : Journal.callsSince 0 (s.world.take 0 e).1.journal =
      if e.cleared then [] else Journal.callsSince 0 s.world.journal := by
    rw [← callsSince_cleared_journal, World.take_eq]
    cases ha : e.announced with
    | none => rfl
    | some ls =>
      have hnote : Journal.callsSince 0
          ((s.world.cleared 0 e).journal ++ [.announced 0 e.timer e.line.now]) =
          Journal.callsSince 0 (s.world.cleared 0 e).journal ++ [] :=
        Journal.callsSince_append 0 _ (by simp)
      rw [List.append_nil] at hnote
      exact hnote
  obtain ⟨ns,text,hclear,hnotes,hcalls⟩ := settles_calls hsolo.scripts hcs
  refine ⟨_,hcalls,hsolo.beside ns text,hline,?_⟩
  rw [hnow, hwho] at hnotes
  change Journal.callsSince 0 ((s.world.take 0 e).1.journal ++ ns) = _
  rw [Journal.callsSince_append 0 _ fun x hx => (hclear x hx).2 0, hnotes, hjournal]
  rfl

/-- An operation at one time keeps up with a watcher. -/
theorem Timely.effect (h : s.Timely t ms) {e : Timer.Effect} (hl : e.Latches t) (ho : e.OnTime t)
    (hsolo : s'.Solo e.timer) (hline : s'.world.line = e.line)
    (hcalls : Journal.callsSince 0 s'.world.journal =
      callsAfter (Journal.callsSince 0 s.world.journal) e) :
    s'.Timely e.timer ((if e.cleared then [] else ms) ++ [e.timer.moment s'.now]) := by
  have hnow : s'.now = e.line.now := by
    change s'.world.line.now = e.line.now
    rw [hline]
  apply h.next e.cleared e.announced.isSome hsolo _ ho.marked
  · intro ha
    obtain ⟨ls,hls⟩ := Option.isSome_iff_exists.mp ha
    refine ⟨hl.once (by simp [hls]),?_⟩
    rw [hnow]
    exact (hl.told ls hls).2.2.2
  · rw [hcalls, hnow]
    rfl
  · rw [hline]
    exact ho.punctual

theorem Timely.stay (h : s.Timely t ms) (hsolo : s'.Solo t') (hp : t'.Punctual s'.world.line)
    (hf : t'.finished = t.finished) (hj : Journal.callsSince 0 s'.world.journal =
      Journal.callsSince 0 s.world.journal) : s'.Timely t' (ms ++ [t'.moment s'.now]) := by
  apply h.next false false hsolo hp
  · simp [hf]
  · intro hno
    contradiction
  · simp [hj]

theorem applyAction_onTime {n : Nat} {line : Timeline} (k : t.Guarded n line)
    (ho : t.closed = false) (hp : t.Punctual line) {a : Action} (ha : a.steers = true) :
    (applyAction t n a line).1.OnTime t := by
  cases a with
  | start => exact Timer.start_onTime k ho hp
  | resume => exact Timer.resume_onTime k ho hp
  | pause => exact Timer.pause_onTime hp
  | stop => exact Timer.stop_onTime hp
  | close => contradiction
  | reset d => exact Timer.reset_onTime t d line
  | add ms => exact Timer.add_onTime k ho hp ms
  | setFields f => contradiction

theorem applyAction_cleared (h : s.Solo t) (n : Nat) {a : Action} (ha : a.steers = true)
    (line : Timeline) : (applyAction t n a line).1.cleared = s.forgets (.act .focus a) := by
  cases a with
  | start =>
    simp only [applyAction, Timer.start, forgets, h.focused, h.unclosed, Bool.or_false]
    cases hs : t.isStarted <;> rfl
  | resume =>
    simp only [applyAction, Timer.resume, forgets]
    split
    · exact Timer.cleared_check _ _ _ _
    · rfl
  | pause => rfl
  | stop => rfl
  | close => contradiction
  | reset d =>
    obtain ⟨d',he⟩ := Timer.reset_eq t d line
    simp only [applyAction, he]
    rfl
  | add ms =>
    simp only [applyAction, Timer.add, forgets]
    split
    · rfl
    · split
      · rfl
      · rename_i i _
        cases hs : t.isStarted with
        | false =>
          rw [Timer.addInt_idle i hs]
          rfl
        | true =>
          rw [Timer.addInt_started i hs]
          split
          · exact Timer.cleared_check _ _ _ _
          · rfl
  | setFields f => contradiction

/-- A command comes to its end, and what was told since the timer forgot its run is what a watcher
would have told. -/
def Watched (s : Session) (ms : List Moment) (c : Command) : Prop :=
  ∃ s' t', s.Runs c s' ∧
    s'.Timely t' ((if s.forgets c then [] else ms) ++ s.passed c ++ [t'.moment s'.now])

theorem runs_act {n : Nat} (hn : s.focus = n) (ht : s.world.timers[n]? = some t) {a : Action}
    (h : Settles (s.withWorld (s.world.take n (applyAction t n a s.world.line).1).1)
      (calls (s.world.take n (applyAction t n a s.world.line).1).2) s') : s.Runs (.act .focus a) s' := by
  have hact : s.perform none (.act .focus a) = s.act n a := by
    simp [perform, timer?, hn]
  cases hf : (applyAction t n a s.world.line).2 with
  | none =>
    refine Settles.runs (r := .done) ?_ h
    rw [hact]
    simp [act, ht, hf]
  | some f =>
    -- nobody is called when the operation fails
    have hnone : (s.world.take n (applyAction t n a s.world.line).1).2 = [] :=
      take_of_not_announced _ _ (applyAction_fault hf)
    rw [hnone] at h
    cases h
    refine runs_failed (f := .noInteger f) ?_
    rw [hact]
    simp [act, ht, hf]

theorem watched_act (h : s.Timely t ms) {a : Action} (ha : a.steers = true) :
    s.Watched ms (.act .focus a) := by
  have k := h.solo.timerGuarded
  have hsound : a.Sound := by cases a <;> trivial
  have hl := World.applyAction_latches t 0 a s.world.line
  have ho := applyAction_onTime k h.solo.unclosed h.punctual ha
  obtain ⟨s',hrest,hsolo,hline,hcalls⟩ :=
    settles_take h.solo (World.applyAction_sound k hsound) hl ho
  have htimely := h.effect hl ho hsolo hline hcalls
  rw [applyAction_cleared h.solo 0 ha] at htimely
  have hset := hrest [] s' (.nil s')
  rw [List.append_nil] at hset
  exact ⟨s',_,runs_act h.solo.focus h.solo.getElem? hset,by simpa [passed] using htimely⟩

theorem watched_fire (h : s.Timely t ms) (i : Int) : s.Watched ms (.fire i) := by
  have hsame : s.Timely t (ms ++ [t.moment s.now]) := h.stay h.solo h.punctual rfl rfl
  have hidle : ∀ r, s.perform none (.fire i) = s.ok [] r → s.Watched ms (.fire i) := by
    intro r hr
    exact ⟨s,t,Settles.runs hr (.nil s),by simpa [forgets, passed] using hsame⟩
  by_cases hi : i < 0
  · exact hidle .done (by simp [perform, hi])
  · cases hv : s.world.line.wakes[i.toNat]? with
    | none => exact hidle .done (by simp [perform, hi, fire, hv])
    | some v =>
      have k := h.solo.timerGuarded
      have hl := Timer.wake_latches t 0 v.generation (s.world.line.markFired i.toNat)
      have ho := Timer.wake_onTime k h.punctual hv (h.solo.owner hv)
      obtain ⟨s',hrest,hsolo,hline,hcalls⟩ :=
        settles_take h.solo (k.wake hv (h.solo.owner hv)) hl ho
      have htimely := h.effect hl ho hsolo hline hcalls
      rw [Timer.cleared_wake] at htimely
      refine ⟨s',_,?_,by simpa [forgets, passed] using htimely⟩
      have hset := hrest [] s' (.nil s')
      rw [List.append_nil] at hset
      refine Settles.runs (r := .done) ?_ hset
      simp only [perform, hi, if_false, fire_eq h.solo.getElem? hv (h.solo.owner hv)]

theorem Timely.wait (h : s.Timely t ms) {now : Int}
    (hnext : ∀ (i : Nat) (v : Wake), t.alarm.pending = some i → s.world.line.wakes[i]? = some v →
      now < v.due) : s.Timely t (ms ++ t.moments s.now now) := by
  apply h.pass
  intro m hm
  obtain ⟨c,-,hc,rfl⟩ := Timer.mem_moments hm
  have hdue : t.isDue c = false := by
    apply h.punctual.not_due h.solo.timerGuarded
    intro i v hi hv
    have := hnext i v hi hv
    omega
  have hnot : ¬ (t.closed = false ∧ t.finished = false ∧ t.isOver c = true) := by
    rw [← Timer.isDue_iff, hdue]
    simp
  cases hf : t.finished with
  | true => exact Or.inl rfl
  | false => simpa [h.solo.unclosed, hf, Timer.moment] using hnot

theorem hop (h : s.Timely t ms) {target : Int} {i : Nat} {v : Wake}
    (hn : s.world.line.next? target = some (i,v)) : ∃ s₁ t₁,
      s.now < v.due ∧ v.due ≤ target ∧ s₁.now = v.due ∧ (∀ c, t₁.moment c = t.moment c) ∧
      s₁.Timely t₁ (ms ++ t.moments s.now (v.due - 1) ++ [t₁.moment v.due]) ∧
      ∀ s', Settles s₁ [.advanceTo target] s' → Settles s [.advanceTo target] s' := by
  obtain ⟨hv,hpend,hdue⟩ := of_next? hn
  have hi : t.alarm.pending = some i :=
    h.solo.timerGuarded.keeps.current i v hv (h.solo.owner hv) (Or.inl hpend)
  have hlater : s.now < v.due := (h.punctual.wakes i v hi hv).1
  have hclock : max s.now v.due = v.due := by omega
  have hsolo := h.solo.setClock v.due
  have k := hsolo.timerGuarded
  have hs := k.wake hv (h.solo.owner hv)
  have hl := Timer.wake_latches t 0 v.generation ((s.setClock v.due).world.line.markFired i)
  have ho := Timer.ring_onTime k hi hv
  obtain ⟨s₁,hrest,hsolo₁,hline,hcalls⟩ := settles_take hsolo hs hl ho
  have hnow : s₁.now = v.due := by
    change s₁.world.line.now = v.due
    rw [hline]
    exact hs.now
  have hbefore : s.Timely t (ms ++ t.moments s.now (v.due - 1)) := by
    apply h.wait
    intro j u hj hu
    rw [hi] at hj
    cases hj
    rw [hv] at hu
    cases hu
    omega
  have htimely := hbefore.effect hl ho hsolo₁ hline hcalls
  rw [Timer.cleared_wake, hnow] at htimely
  refine ⟨s₁,_,hlater,hdue,hnow,Timer.moment_wake _ _ _ _,htimely,fun s' hset => ?_⟩
  have hend := hrest [.advanceTo target] s' hset
  rw [← List.append_nil (calls _ ++ [Task.advanceTo target])] at hend
  refine Settles.ok (r := .done) ?_ hend
  simp [task, advanceTo, hn, hclock, fire_eq hsolo.getElem? hv (h.solo.owner hv)]

/-- Wake by wake the clock comes to where it is to go. -/
theorem settles_advanceTo (h : s.Timely t ms) (target : Int) : ∃ s' t',
    Settles s [.advanceTo target] s' ∧
    s'.Timely t' (ms ++ t.moments s.now target ++ [t'.moment s'.now]) := by
  induction hk : (target - s.now).toNat using Nat.strongRecOn generalizing s t ms with
  | ind k ih =>
    cases hn : s.world.line.next? target with
    | none =>
      have k := h.solo.timerGuarded
      have hnext := k.lt_due hn
      refine ⟨s.setClock target,t,?_,?_⟩
      · refine Settles.ok (r := .done) (?_ : _ = (s.setClock target).ok [] .done) (.nil _)
        simp [task, advanceTo, hn]
      · exact (h.wait hnext).stay (h.solo.setClock target) (h.punctual.setClock k hnext) rfl rfl
    | some p =>
      obtain ⟨i,v⟩ := p
      obtain ⟨s₁,t₁,hlater,hdue,hnow,hsame,htimely,hset⟩ := hop h hn
      obtain ⟨s',t',hend,hlast⟩ := ih (target - s₁.now).toNat (by omega) htimely rfl
      refine ⟨s',t',hset s' hend,?_⟩
      rw [hnow] at hlast
      rw [← Timer.moments_through hlater hdue hsame]
      simpa using hlast

theorem watched_advance (h : s.Timely t ms) (n : Int) : s.Watched ms (.advance n) := by
  obtain ⟨s',t',hset,htimely⟩ := settles_advanceTo h (s.now + n)
  refine ⟨s',t',Settles.runs (r := .done) rfl hset,?_⟩
  simpa [forgets, passed, h.solo.focused] using htimely

theorem Solo.withListeners (h : s.Solo t) {ls : List Listener}
    (hls : ∀ l ∈ ls, ∃ name, l = .named name) :
    (s.withWorld (s.world.setTimer 0 { t with listeners := ls })).Solo
      { t with listeners := ls } where
  timers := by
    change s.world.timers.set 0 { t with listeners := ls } = _
    rw [h.timers]
    rfl
  focus := h.focus
  scripts := h.scripts
  named := hls
  unclosed := h.unclosed
  guarded := by
    refine h.guarded.change (.listeners ls h.getElem? fun k hk => ?_)
    obtain ⟨name,hname⟩ := hls _ hk
    contradiction

theorem Timely.withListeners (h : s.Timely t ms) {ls : List Listener}
    (hls : ∀ l ∈ ls, ∃ name, l = .named name) :
    (s.withWorld (s.world.setTimer 0 { t with listeners := ls })).Timely
      { t with listeners := ls }
      (ms ++ [({ t with listeners := ls } : Timer).moment s.now]) :=
  h.stay (h.solo.withListeners hls) ⟨h.punctual.due,h.punctual.wakes⟩ rfl rfl

theorem watched_listen (h : s.Timely t ms) (name : String) {steps : List Command} (fails : Bool)
    (hlooks : ∀ c ∈ steps, c.looks = true) : s.Watched ms (.listen name steps fails) := by
  have hnamed : ∀ l ∈ t.listeners ++ [.named name], ∃ name, l = .named name := by
    intro l hl
    obtain hl | hl := List.mem_append.mp hl
    · exact h.solo.named l hl
    · exact ⟨name,List.mem_singleton.mp hl⟩
  have hlisten := h.withListeners hnamed
  have hscripts := forall_addScript h.solo.scripts (p := ⟨none,steps,fails⟩) hlooks name
  let s' : Session := { s with
    world := s.world.setTimer 0 (t.listen (.named name))
    listeners := addScript s.listeners name ⟨none,steps,fails⟩
    registered := (name,0) :: s.registered }
  have hsolo : s'.Solo (t.listen (.named name)) :=
    { hlisten.solo with scripts := hscripts }
  have htimely : s'.Timely (t.listen (.named name)) (ms ++ [(t.listen (.named name)).moment s.now]) :=
    ⟨hsolo,hlisten.punctual,hlisten.called,hlisten.marked⟩
  refine ⟨s',t.listen (.named name),Settles.runs (r := .done) ?_ (.nil s'),?_⟩
  · simp only [perform, onFocus, h.solo.focused, h.solo.focus, s']
  · simp only [forgets, passed]
    rw [List.append_nil]
    exact htimely

theorem watched_unlisten (h : s.Timely t ms) (name : String) : s.Watched ms (.unlisten name) := by
  have hsame : s.Timely t (ms ++ [t.moment s.now]) := h.stay h.solo h.punctual rfl rfl
  have hkept : (if s.forgets (.unlisten name) then [] else ms) ++ s.passed (.unlisten name) = ms := by
    simp [forgets, passed]
  unfold Watched
  rw [hkept]
  cases hr : s.registered.find? fun p => p.1 == name with
  | none =>
    exact ⟨s,t,runs_failed (f := .unregistered name) (by simp [perform, onFocus, hr]),hsame⟩
  | some p =>
    obtain ⟨name',n⟩ := p
    cases n with
    | succ n =>
      have hnone : s.world.timers[n + 1]? = none := by
        rw [h.solo.timers]
        rfl
      refine ⟨s,t,Settles.runs (r := .done) ?_ (.nil s),hsame⟩
      simp [perform, onFocus, hr, hnone]
    | zero =>
      have hnamed : ∀ l ∈ t.listeners.erase (.named name), ∃ name, l = .named name :=
        fun l hl => h.solo.named l (List.mem_of_mem_erase hl)
      refine ⟨_,_,Settles.runs (r := .done) ?_ (.nil _),h.withListeners hnamed⟩
      simp only [perform, onFocus, hr, h.solo.getElem?]
      rfl

theorem watched_looks (h : s.Timely t ms) {c : Command} (hc : c.looks = true) :
    s.Watched ms c := by
  obtain ⟨text,hp⟩ := perform_looks s none hc
  have hruns : s.Runs c (s.beside [] text) := by
    obtain ⟨r,hr⟩ | ⟨f,hf⟩ := hp
    · exact Settles.runs hr (.nil _)
    · exact runs_failed hf
  have hkept : (if s.forgets c then [] else ms) ++ s.passed c = ms := by
    cases c <;> first | contradiction | simp [forgets, passed]
  have htimely : (s.beside [] text).Timely t (ms ++ [t.moment s.now]) :=
    h.stay (h.solo.beside [] text) h.punctual rfl (by simp [beside])
  refine ⟨_,t,hruns,?_⟩
  rw [hkept]
  exact htimely

theorem Timely.watched (h : s.Timely t ms) {c : Command} (hc : c.steers = true) :
    s.Watched ms c := by
  cases c with
  | act r a =>
    cases r with
    | focus => exact watched_act h hc
    | _ => contradiction
  | fire i => exact watched_fire h i
  | advance n => exact watched_advance h n
  | listen name steps fails => exact watched_listen h name fails (List.all_eq_true.mp hc)
  | unlisten name => exact watched_unlisten h name
  | _ => exact watched_looks h hc

/-- With enough fuel all commands are carried out. -/
theorem Timely.watch (h : s.Timely t ms) {cs : List Command} (hcs : ∀ c ∈ cs, c.steers = true) :
    ∃ k, ∀ fuel, k ≤ fuel → ∃ s' t' ms', s.watch fuel ms cs = some (s',ms') ∧
      s'.Timely t' ms' := by
  induction cs generalizing s t ms with
  | nil => exact ⟨0,fun fuel _ => ⟨s,t,ms,rfl,h⟩⟩
  | cons c cs ih =>
    obtain ⟨s₁,t₁,⟨k₁,hrun⟩,htimely⟩ := h.watched (hcs c (by simp))
    obtain ⟨k₂,hrest⟩ := ih htimely fun d hd => hcs d (by simp [hd])
    refine ⟨max k₁ k₂,fun fuel hf => ?_⟩
    obtain ⟨r,hr⟩ := hrun fuel (by omega)
    obtain ⟨s',t',ms',hwatch,hlast⟩ := hrest fuel (by omega)
    refine ⟨s',t',ms',?_,hlast⟩
    simp only [Session.watch, hr, Option.bind_some, htimely.solo.focused]
    exact hwatch

/-- A timer that is driven by commands and by a clock that fires each wake when it is due tells the
end of its run at the first time at which it is over, to those who listen then, and never else. -/
theorem on_time {s₀ : Session} (h : s₀.Fresh) {d : Int} (ht : s₀.world.timers = [{ duration := d }])
    (hfocus : s₀.focus = 0) {cs : List Command} (hcs : ∀ c ∈ cs, c.steers = true) :
    ∃ k, ∀ fuel, k ≤ fuel → ∃ s ms, s₀.watch fuel [] cs = some (s,ms) ∧
      Journal.callsSince 0 s.world.journal = Moment.told ms := by
  have hsolo : s₀.Solo { duration := d } :=
    { timers := ht
      focus := hfocus
      scripts := by simp [h.listeners]
      named := by simp
      unclosed := rfl
      guarded := World.guarded_of_fresh h }
  have hidle : Timer.Punctual { duration := d } s₀.world.line :=
    .of_no_wake (Timer.isDue_of_not_started rfl) rfl
  have htimely : s₀.Timely { duration := d } [] :=
    ⟨hsolo,hidle,by rw [h.journal]; rfl,rfl⟩
  obtain ⟨k,hk⟩ := htimely.watch hcs
  refine ⟨k,fun fuel hf => ?_⟩
  obtain ⟨s,t,ms,hwatch,hlast⟩ := hk fuel hf
  exact ⟨s,ms,hwatch,hlast.called⟩

/-- A pause in between, and a second wake since the first is fired too early. -/
theorem on_time_paused :
    let s₀ : Session := { world := { line := { now := 1000 }, timers := [{ duration := 5 }] } }
    let cs := [Command.listen "bell" [.describe] true, .act .focus .start, .advance 3, .fire 0,
      .act .focus .pause, .advance 7, .act .focus .resume, .advance 4]
    (∃ k, ∀ fuel, k ≤ fuel → ∃ s ms, s₀.watch fuel [] cs = some (s,ms) ∧
      Journal.callsSince 0 s.world.journal = Moment.told ms) ∧
    (s₀.watch 9 [] cs).map (fun p => Moment.told p.2) = some [(.named "bell",1012)] := by
  intro s₀ cs
  have hfresh : s₀.Fresh := ⟨by simp [s₀],rfl,rfl,rfl,rfl,rfl⟩
  have hsteers : ∀ c ∈ cs, c.steers = true := by decide
  exact ⟨on_time hfresh rfl rfl hsteers,by decide⟩

end Countdown.Session
