import Countdown.Proofs.Session.Export
import Countdown.Proofs.Session.Resumption
set_option autoImplicit false

/-!
A run that was under way when it was saved, and goes on where it is imported. If that is before its end,
the end is told there once. An end that has passed by then is never told: it counts as announced before
the new entry listens to its timer.
-/

namespace Countdown

/-- An entry is to be seen running on a duration, with so many durations used and so much time left. -/
def World.RunsOn (w : World) (k : Nat) (duration : Int) (consumed : Nat) (remaining : Int) : Prop :=
  ∃ v, w.view? k = some v ∧ v.running = true ∧ v.duration = duration ∧ v.consumed = consumed ∧
    v.remaining = remaining

namespace Session
open Timeline World Sequence

variable {s s₁ s₂ s₃ : Session} {p : Resumption} {j : Nat} {t : Timer} {e : Entry} {d : Int}

theorem Resumes.runsOn (h : s.Resumes p j t e) (hd : p.lasts j = some d) :
    s.world.RunsOn p.entry d (p.consumed j) (p.ends j - s.now) := by
  obtain ⟨v,hview,hrunning,hduration,hremaining,hconsumed,-⟩ := h.view
  exact ⟨v,hview,hrunning,Option.some.inj (hduration.symm.trans hd),hconsumed,hremaining⟩

theorem Rests.before_end (h : s.Rests p j t e) (hlt : s.now < p.deadline) :
    Journal.deliveries (Entry.idOf p.entry) s.world.journal = p.told [] ∧
      s.world.RunsOn p.entry p.duration (p.consumed 0) (p.deadline - s.now) := by
  obtain ⟨rfl,hf⟩ := h.eq_of_lt (j := 0) rfl (by simp) hlt
  have htold := h.resumes.stands.told
  rw [hf] at htold
  exact ⟨htold,h.resumes.runsOn rfl⟩

theorem Rests.after_last (h : s.Rests p j t e) (hnone : p.upcoming 0 = none) (hle : p.deadline ≤ s.now) :
    Journal.deliveries (Entry.idOf p.entry) s.world.journal = p.told [.finished] ∧
      s.world.RunsOn p.entry p.duration (p.consumed 0) (p.deadline - s.now) := by
  have hover : ∀ l, l ≤ 0 → p.ends l ≤ s.now := by
    intro l hl
    obtain rfl := Nat.le_zero.mp hl
    exact hle
  obtain ⟨rfl,hf⟩ := h.eq_of_last (j := 0) rfl hnone hover
  have htold := h.resumes.stands.told
  rw [hf] at htold
  exact ⟨htold,h.resumes.runsOn rfl⟩

theorem Rests.after_end (h : s.Rests p j t e) (hd : p.upcoming 0 = some d) (hle : p.deadline ≤ s.now) : ∃ i b,
      Journal.deliveries (Entry.idOf p.entry) s.world.journal =
        p.told (.finished :: .state :: Event.ofProgress i b) ∧
      (s.now < p.deadline + d → i = 0 ∧ b = false ∧
        s.world.RunsOn p.entry d (p.consumed 0 + 1) (p.deadline + d - s.now)) := by
  have hnext : p.ends 1 = p.deadline + d := by
    rw [Resumption.ends, hd]
    rfl
  have hlasts : p.lasts 1 = some d := hd
  have hj : j ≠ 0 := by
    rintro rfl
    cases hf : t.finished with
    | false =>
      have hlt : s.now < p.deadline := h.early hf
      omega
    | true =>
      have hnone := (h.resumes.ended hf).2.2
      rw [hlasts] at hnone
      contradiction
  obtain ⟨i,rfl⟩ := Nat.exists_eq_succ_of_ne_zero hj
  have htold := h.resumes.stands.told
  rw [Event.ofProgress_first] at htold
  refine ⟨i,t.finished,htold,fun hlt => ?_⟩
  have hbegun : ∀ l, l < 1 → p.ends l ≤ s.now := by
    intro l hl
    obtain rfl := Nat.lt_one_iff.mp hl
    exact hle
  obtain ⟨hi,hf⟩ := h.eq_of_lt hlasts hbegun (by rw [hnext]; exact hlt)
  obtain rfl := Nat.succ.inj hi
  have hruns := h.resumes.runsOn hlasts
  rw [Resumption.consumed_succ hd, hnext] at hruns
  exact ⟨rfl,hf,hruns⟩

/-- What has become, after a time `T`, of an entry that was to be seen running and had time left. -/
structure RunsOut (s : Session) (k : Nat) (v : View) (T : Int)
    (told : List Event → List (Callback × Event × String)) : Prop where
  early : T < v.remaining → Journal.deliveries (Entry.idOf k) s.world.journal = told [] ∧
    s.world.RunsOn k v.duration v.consumed (v.remaining - T)
  last : v.remaining ≤ T → v.upcoming = none →
    Journal.deliveries (Entry.idOf k) s.world.journal = told [.finished] ∧
      s.world.RunsOn k v.duration v.consumed (v.remaining - T)
  next : ∀ d, v.remaining ≤ T → v.upcoming = some d → ∃ i b,
    Journal.deliveries (Entry.idOf k) s.world.journal = told (.finished :: .state :: Event.ofProgress i b) ∧
      (T < v.remaining + d → i = 0 ∧ b = false ∧ s.world.RunsOn k d (v.consumed + 1) (v.remaining + d - T))

variable {k : Nat} {cs : List Callback} {before : List (Callback × Event × String)} {steps : List Int}

/-- A timer that runs and has time left is on time to its end, and goes on from there. -/
theorem Stands.runs_out (h : s.Stands k t e cs before) (hlisted : e.listed = true)
    (hl : t.listeners = [.entry k]) (hr : t.isRunning = true) (hc : t.closed = false) (hf : t.finished = false)
    (hp : t.Punctual s.world.line) (hleft : 0 < t.remaining s.now) (hsteps : ∀ ms ∈ steps, 0 ≤ ms) :
    ∃ s', s.RunsAll (steps.map .advance) s' ∧
      s'.RunsOut k (e.view k t s.now) (steps.foldl (· + ·) 0)
        fun events => before ++ Callback.deliveries cs (Entry.idOf k) events := by
  let p : Resumption := ⟨k,t.duration,s.now + t.remaining s.now,e.queue,cs,before⟩
  have hqueue : e.queue = p.queueAt 0 := Option.map_id'.symm
  have hconsumed : p.consumed 0 = e.consumed := by rw [Resumption.consumed, ← hqueue, Entry.consumed]
  have hupcoming : p.upcoming 0 = e.upcoming := by rw [Resumption.upcoming, ← hqueue, Entry.upcoming]
  have hdeadline : p.deadline = s.now + t.remaining s.now := rfl
  have hcounts : p.Counts 0 t e :=
    { listed := hlisted
      listeners := hl
      running := hr
      unclosed := hc
      duration := rfl
      remaining := fun now => by
        have hsame := Timer.deadline_eq (Timer.isRunning_iff.mp hr).2 s.now now
        rw [Resumption.ends, hdeadline]
        omega
      queue := hqueue }
  have hresumes : s.Resumes p 0 t e := by
    refine resumes_of_punctual ?_ hcounts hf (by simp) hp
    exact { h with told := by rw [h.told]; exact (List.append_nil _).symm }
  have hrests : s.Rests p 0 t e := ⟨hresumes,fun _ => by rw [Resumption.ends, hdeadline]; omega⟩
  obtain ⟨s',j,t',e',hruns,hnow,hlast⟩ := hrests.advances hsteps
  have hleft' : t.remaining s.now - steps.foldl (· + ·) 0 = p.deadline - s'.now := by omega
  have hlater : (e.view k t s.now).remaining ≤ steps.foldl (· + ·) 0 → p.deadline ≤ s'.now := by
    intro (hle : t.remaining s.now ≤ _)
    omega
  refine ⟨s',hruns,fun (hlt : _ < t.remaining s.now) => ?_,fun hle hnone => ?_,fun d hle hd => ?_⟩
  · rw [Entry.view, hleft', ← hconsumed]
    exact hlast.before_end (by omega)
  · rw [Entry.view, hleft', ← hconsumed]
    exact hlast.after_last (hupcoming.trans hnone) (hlater hle)
  · obtain ⟨i,b,htold,hwhile⟩ := hlast.after_end (hupcoming.trans hd) (hlater hle)
    refine ⟨i,b,htold,fun (hlt : _ < t.remaining s.now + d) => ?_⟩
    obtain ⟨hi,hb,hon⟩ := hwhile (by omega)
    have hsame : p.deadline + d - s'.now = t.remaining s.now + d - steps.foldl (· + ·) 0 := by omega
    rw [hconsumed, hsame] at hon
    exact ⟨hi,hb,hon⟩

theorem Stands.runs_on (h : s.Stands k t e cs before) (hl : t.listeners = [.entry k]) (hr : t.isRunning = true)
    (hf : t.finished = true) (hsteps : ∀ ms ∈ steps, 0 ≤ ms) : ∃ s', s.RunsAll (steps.map .advance) s' ∧
      Journal.deliveries (Entry.idOf k) s'.world.journal = before ∧
      s'.world.RunsOn k t.duration e.consumed (t.remaining s.now - steps.foldl (· + ·) 0) := by
  obtain ⟨s',a,hruns,hnow,hlast⟩ := h.advances_finished hf hl hsteps
  refine ⟨s',hruns,hlast.told,_,view?_eq hlast.entry hlast.timer,hr,rfl,rfl,?_⟩
  have hsame := Timer.deadline_eq (Timer.isRunning_iff.mp hr).2 s.now s'.now
  change t.remaining s'.now = _
  omega

variable {w' : World} {ss : List Snapshot} {x : Snapshot} {text : String} {fuel : Nat} {ks : List Nat}

theorem stands_restored (h : s.world.Restoring ss w') (hdeck : (s.withWorld w').Deck) (hx : ss[j]? = some x) :
    ∃ t e, (s.withWorld w').Stands (s.world.entries.length + j) t e s.world.callbacks
        (Journal.deliveries (Entry.idOf (s.world.entries.length + j)) s.world.journal) ∧
      e.listed = true ∧ t.Restores x.fields s.now ∧ t.listeners = [.entry (s.world.entries.length + j)] ∧
      (t.isRunning = true → t.Punctual w'.line) := by
  obtain ⟨t,queue,logs,-,he,ht,hrestores,hlisteners,hpunctual⟩ := h.added j x hx
  obtain ⟨ns,hjournal,hquiet,-⟩ := h.notes
  have htold : Journal.deliveries (Entry.idOf (s.world.entries.length + j)) w'.journal =
      Journal.deliveries (Entry.idOf (s.world.entries.length + j)) s.world.journal := by
    rw [hjournal, Journal.deliveries_append, hquiet, List.append_nil]
  exact ⟨t,⟨s.world.timers.length + j,x.input,queue,true⟩,⟨hdeck,ht,he,h.callbacks,htold⟩,rfl,hrestores,
    hlisteners,hpunctual⟩

/-- A timer is saved while it runs, and is imported into a deck. Whatever the time is by then, it runs
there with the time that is left. If its end was not announced and is still to come, it is told once,
when that time is over; if a duration follows in the input, the timer then goes on to that. But if the end
has passed, nothing is ever told, and the timer does not go on. -/
theorem imported_run {tasks : List Task} (h₁ : Reached s₁ tasks) (htext : s₁.world.exported = .ok text)
    (h₂ : Reached s₂ []) (hlisteners : ∀ p ∈ s₂.listeners, p.2.Looks)
    (hcallbacks : ∀ p ∈ s₂.callbacks, p.2.Looks)
    (himport : s₂.run fuel (.importAll (some text)) = some (s₃,.ok (.entries ks)))
    (hsteady : ∀ u ∈ s₃.world.line.wakes, u.status = .pending → s₃.world.Steady u.owner)
    {k' : Nat} (hk : s₁.world.listed[j]? = some k) (hk' : ks[j]? = some k')
    (hx : s₁.world.saved? k = some x) {v : View} (hv : s₁.world.view? k = some v) (hr : v.running = true)
    (hsteps : ∀ ms ∈ steps, 0 ≤ ms) :
    let T := steps.foldl (· + ·) 0
    let told (events : List Event) := Journal.deliveries (Entry.idOf k') s₂.world.journal ++
      Callback.deliveries s₂.world.callbacks (Entry.idOf k') events
    ∃ v₃ s, s₃.world.view? k' = some v₃ ∧ v₃.running = true ∧ v₃.duration = v.duration ∧
      v₃.remaining = v.remaining - (s₂.now - s₁.now) ∧ s₃.RunsAll (steps.map .advance) s ∧
      (x.fields.finished = false → 0 < v₃.remaining → s.RunsOut k' v₃ T told) ∧
      (x.fields.finished = true ∨ v₃.remaining ≤ 0 →
        Journal.deliveries (Entry.idOf k') s.world.journal = told [] ∧
        s.world.RunsOn k' v₃.duration v₃.consumed (v₃.remaining - T)) := by
  have h₃ : Reached s₃ [] := h₂.run (Command.sound_importAll _) himport
  obtain ⟨w',hdone,rfl⟩ := run_importAll.mp himport
  obtain ⟨ss,hmap,rfl,hrestoring⟩ := importText_restoring h₁.wired htext h₂.guarded hdone
  have hdeck : (s₂.withWorld w').Deck := ⟨h₃.guarded,h₃.wired,hlisteners,hcallbacks,hsteady⟩
  obtain ⟨hlt,hnew⟩ := List.getElem?_eq_some_iff.mp hk'
  rw [List.getElem_range', Nat.one_mul] at hnew
  subst hnew
  intro T told
  have hxj : ss[j]? = some x := by
    have hboth := congrArg (fun xs => xs[j]?) hmap
    have hlt' : j < ss.length := by simpa using hlt
    have hsome : some (some x) = some (some ss[j]) := by simpa [hk, hx, hlt'] using hboth
    rw [List.getElem?_eq_getElem hlt', ← Option.some.inj hsome]
  obtain ⟨t,e,hstands,hlisted,hrestores,hl,hpunctual⟩ := stands_restored hrestoring hdeck hxj
  obtain ⟨e₁,t₁,he₁,ht₁,rfl⟩ := saved?_eq_some.mp hx
  rw [view?_eq he₁ ht₁] at hv
  cases hv
  -- the timer keeps time as the saved one does
  have hkept := hrestores.eq_of_fields
  have hrunning : t.isRunning = true := by
    rw [hkept]
    exact hr
  have hremaining : t.remaining s₂.now = t₁.remaining s₁.now - (s₂.now - s₁.now) := by
    have hsame := Timer.deadline_eq (Timer.isRunning_iff.mp hr).2 s₁.now s₂.now
    rw [hkept]
    change t₁.remaining s₂.now = _
    omega
  have hview := view?_eq hstands.entry hstands.timer
  have hnow : (s₂.withWorld w').now = s₂.now := hrestoring.now
  have hclock : (s₂.withWorld w').world.now = s₂.now := hnow
  rw [hclock] at hview
  have hended : t.finished = true ↔ t₁.fields.finished = true ∨ t.remaining s₂.now ≤ 0 := by
    rw [hrestores.finished, hrunning, Bool.true_and, Bool.or_eq_true, Timer.isFinished, decide_eq_true_iff]
  cases hf : t.finished with
  | false =>
    obtain ⟨hunmarked,hleft⟩ := not_or.mp fun h => Bool.false_ne_true (hf.symm.trans (hended.mpr h))
    obtain ⟨s,hruns,hout⟩ := hstands.runs_out hlisted hl hrunning hrestores.unclosed hf (hpunctual hrunning)
      (by rw [hnow]; exact Int.not_le.mp hleft) hsteps
    rw [hnow] at hout
    exact ⟨_,s,hview,hrunning,hrestores.duration,hremaining,hruns,fun _ _ => hout,
      fun h => absurd h (not_or.mpr ⟨hunmarked,hleft⟩)⟩
  | true =>
    obtain ⟨s,hruns,htold,hon⟩ := hstands.runs_on hl hrunning hf hsteps
    rw [hnow] at hon
    refine ⟨_,s,hview,hrunning,hrestores.duration,hremaining,hruns,fun hno hleft => ?_,fun _ => ⟨?_,hon⟩⟩
    · obtain hmarked | hover := hended.mp hf
      · rw [hno] at hmarked
        contradiction
      · exact absurd hleft (Int.not_lt.mpr hover)
    · rw [htold]
      exact (List.append_nil _).symm

/-- A second is saved with 600 ms left, and is imported with 500 ms left: two seconds follow it. -/
theorem imported_run_two_seconds :
    let s₀ : Session := { world := { line := { now := 1000 } } }
    let s₂ : Session := { world := { line := { now := 1500 }, callbacks := [.named "log"] } }
    ∃ s₁ text s₃ s, s₀.runAll 20 [.create "1s + 2s" none,.act (.id "t1") .start,.advance 400] = some s₁ ∧
      s₁.world.exported = .ok text ∧
      s₂.run 0 (.importAll (some text)) = some (s₃,.ok (.entries [0])) ∧
      s₃.RunsAll [.advance 200,.advance 400] s ∧ s.world.RunsOn 0 2000 2 1900 ∧
      Journal.deliveries "t1" s.world.journal = [(.named "log",.finished,"t1"),(.named "log",.state,"t1")] := by
  intro s₀ s₂
  let cs := [Command.create "1s + 2s" none,.act (.id "t1") .start,.advance 400]
  let r := Run.append (.one 1000) (.one 2000)
  let imported : World :=
    { line := { now := 1500, wakes := [⟨2000,500,0,2,.pending⟩] }
      timers := [{ duration := 1000, startedAt := some 1000, resumedAt := some 1000, listeners := [.entry 0]
                   alarm := { generation := 2, pending := some 0 } }]
      entries := [⟨0,"1s + 2s",some (Queue.past [r] 1),true⟩]
      callbacks := [.named "log"], journal := [.cleared 0] }
  have hsaved : (s₀.runAll 20 cs).map (fun s₁ => (s₁.world.listed,s₁.world.saved? 0,s₁.world.view? 0)) =
      some ([0],some ⟨⟨1000,some 1000,some 1000,none,0,false⟩,"1s + 2s",1⟩,
        some ⟨"t1","1s + 2s",1,some 2000,.running,1000,400,600,true,false,true,false,false⟩) := by decide +kernel
  have himport : ((s₀.runAll 20 cs).bind fun s₁ => s₁.world.exported.toOption).map (fun text =>
      ((s₂.world.importText text).1,(s₂.world.importText text).2.toOption)) = some (imported,some [0]) := by
    decide +kernel
  obtain ⟨s₁,hrun,hs₁⟩ := Option.map_eq_some_iff.mp hsaved
  simp only [Prod.mk.injEq] at hs₁
  obtain ⟨hlisted,hsaved,hview⟩ := hs₁
  rw [hrun] at himport
  obtain ⟨text,htext,himport⟩ := Option.map_eq_some_iff.mp himport
  obtain ⟨hworld,hnumbers⟩ := Prod.mk.inj himport
  have himport : s₂.world.importText text = (imported,.ok [0]) :=
    Prod.ext hworld (toOption_eq_some.mp hnumbers)
  have hrun₂ : s₂.run 0 (.importAll (some text)) = some (s₂.withWorld imported,.ok (.entries [0])) :=
    run_importAll.mpr ⟨imported,himport,rfl⟩
  have hfirst : Reached s₀ [] := .fresh ⟨by simp [s₀],rfl,rfl,rfl,rfl,rfl⟩
  have hsound : ∀ c ∈ cs, c.Sound := by simp [cs, Action.Sound]
  have hfresh : Reached s₂ [] := .fresh ⟨by simp [s₂],rfl,rfl,rfl,rfl,rfl⟩
  have hsteady : ∀ u ∈ imported.line.wakes, u.status = .pending → imported.Steady u.owner := by
    rintro u - - k e q he - hq
    rw [List.mem_singleton.mp (List.mem_of_getElem? he)] at hq
    cases hq
    refine Queue.positive_past (fun i d hd => ?_) 1
    have hall : ∀ x ∈ [r], x.All fun d => 0 < d := by simp [r, Run.All]
    exact Cursor.nth?_all hall hd
  have hsteps : ∀ ms ∈ [(200 : Int),400], 0 ≤ ms := by simp
  obtain ⟨v₃,s,hview₃,-,-,-,hruns,hout,-⟩ := imported_run (hfirst.runAll hsound hrun)
    (toOption_eq_some.mp htext) hfresh (by simp [s₂]) (by simp [s₂]) hrun₂ hsteady (j := 0)
    (by rw [hlisted]; rfl) rfl hsaved hview rfl hsteps
  cases hview₃
  obtain ⟨i,b,htold,hwhile⟩ := (hout rfl (by decide)).next 2000 (by decide) (by decide)
  obtain ⟨rfl,rfl,hon⟩ := hwhile (by decide)
  exact ⟨s₁,text,_,s,hrun,toOption_eq_some.mp htext,hrun₂,hruns,hon,htold⟩

/-- A second is imported when it is over: the end is never told, and the two seconds are not begun. -/
theorem imported_run_overdue :
    (runAll 30 { world := { line := { now := 1000 } } } [.register "log" none [] false,.create "1s + 2s" none,
      .act (.id "t1") .start,.exportAll,.stopAll,.tick 1500,.importAll none,.advance 60000]).map
        (fun s => (s.world.view? 1,Journal.deliveries "t2" s.world.journal)) =
      some (some ⟨"t2","1s + 2s",1,some 2000,.running,1000,61500,-60500,true,false,true,false,true⟩,[]) := by
  decide +kernel

end Session
end Countdown
