import Countdown.Proofs.Session.Resumption
set_option autoImplicit false

namespace Countdown.Session
open Timeline World Sequence

variable {s : Session} {i j : Nat} {t : Timer} {e : Entry}

theorem read_queue {separator text : String} {r : Run}
    (h : Run.read separator text.toList = .ok r) :
    Queue.read separator text = .ok (Queue.past [r] 0) := by
  unfold Queue.read
  rw [h]
  rfl

def created (w : World) (d : Int) (text : String) (q : Queue) : World :=
  (World.addEntry { w with timers := w.timers ++ [{ duration := d }] } w.timers.length text (some q)).1

theorem create_eq {w : World} {text : String} {r : Run} {d : Int}
    (hblank : (Text.trim text.toList).isEmpty = false)
    (hread : Run.read w.separator text.toList = .ok r) (hd : Cursor.nth? [r] 0 = some d)
    (hpos : 0 < d) :
    w.create text none = .ok (created w d text (Queue.past [r] 1),w.entries.length) := by
  have hinput : w.readInput text = .ok (some (Queue.past [r] 1),d) := by
    simp [World.readInput, hblank, read_queue hread, Queue.pop_past hd]
  have hmax : max 0 d = d := by omega
  unfold World.create
  simp only [hinput]
  change Except.ok (World.addEntry { w with timers := w.timers ++ [{ duration := max 0 d }] } _ _ _) = _
  rw [hmax]
  rfl

variable {d : Int} {text : String} {q : Queue} {k : Nat}

theorem created_timer (w : World) : (created w d text q).timers[w.timers.length]? =
    some { duration := d, listeners := [.entry w.entries.length] } := by
  simp [created, World.addEntry, Timer.listen]

theorem created_entry (w : World) : (created w d text q).entries[w.entries.length]? =
    some ⟨w.timers.length,text,some q,true⟩ := by
  simp [created, World.addEntry]

theorem created_cases {w : World} (h : w.Wired) {e : Entry}
    (he : (created w d text q).entries[k]? = some e) :
    (e = ⟨w.timers.length,text,some q,true⟩) ∨
      w.entries[k]? = some e ∧ e.timer < w.timers.length := by
  change (w.entries ++ [_])[k]? = some e at he
  obtain hlt | hge := Nat.lt_or_ge k w.entries.length
  · rw [List.getElem?_append_left hlt] at he
    refine Or.inr ⟨he,h.timers k _ ?_⟩
    rw [owner?, he]
    rfl
  · rw [List.getElem?_append_right hge] at he
    exact Or.inl (List.mem_singleton.mp (List.mem_of_getElem? he))

theorem Deck.created (h : s.Deck)
    (hc : s.world.create text none = .ok (created s.world d text q,k)) (hq : q.Positive) :
    (s.withWorld (created s.world d text q)).Deck ∧
      (created s.world d text q).Steady s.world.timers.length := by
  have hquiet := quiet_create hc
  constructor
  · constructor
    · exact hquiet.keeps (fun _ _ _ _ hg hc => hg.change hc) h.guarded
    · exact hquiet.keeps (fun _ _ _ _ hw hc => hw.change hc) h.wired
    · exact h.listeners
    · exact h.callbacks
    · intro v hv hp l e q' he ht hq'
      have howner := h.guarded.owned v hv
      obtain rfl | ⟨he,-⟩ := created_cases h.wired he
      · exact absurd ht (by dsimp only; omega)
      · exact h.steady v hv hp l e q' he ht hq'
  · intro l e q' he ht hq'
    obtain rfl | ⟨-,hlt⟩ := created_cases h.wired he
    · cases hq'
      exact hq
    · omega

theorem after_past {c : Cursor} {m n : Nat} (h : ∀ i, i < n → (c.nth? (m + i)).isSome = true) :
    Queue.after n (Queue.past c m) = Queue.past c (m + n) := by
  induction n with
  | zero => rfl
  | succ n ih =>
    obtain ⟨d,hd⟩ := Option.isSome_iff_exists.mp (h n (Nat.lt_succ_self n))
    rw [Queue.after, ih fun i hi => h i (Nat.lt_succ_of_lt hi), Queue.pop_past hd]
    rfl

def Resumption.ofCursor (k : Nat) (c : Cursor) (d start : Int) (cs : List Callback)
    (before : List (Callback × Event × String)) : Resumption :=
  ⟨k,d,start + d,some (Queue.past c 1),cs,before⟩

namespace Resumption

variable {c : Cursor} {start : Int} {cs : List Callback} {before : List (Callback × Event × String)}

theorem queueAt_ofCursor (h : (c.nth? j).isSome = true) :
    (ofCursor k c d start cs before).queueAt j = some (Queue.past c (j + 1)) := by
  have hall : ∀ i, i < j → (c.nth? (1 + i)).isSome = true := by
    intro i hi
    obtain ⟨d,hd⟩ := Cursor.nth?_before h (show 1 + i ≤ j by omega)
    rw [hd]
    rfl
  change some (Queue.after j (Queue.past c 1)) = _
  rw [after_past hall, Nat.add_comm]

theorem upcoming_ofCursor (hd : c.nth? 0 = some d) :
    (ofCursor k c d start cs before).upcoming j = c.nth? (j + 1) := by
  have hpresent : ∀ j, (c.nth? j).isSome = true →
      (ofCursor k c d start cs before).upcoming j = c.nth? (j + 1) := by
    intro j h
    rw [Resumption.upcoming, queueAt_ofCursor h]
    exact Queue.upcoming_past c (j + 1)
  induction j with
  | zero => exact hpresent 0 (by rw [hd]; rfl)
  | succ j ih =>
    cases hj : c.nth? (j + 1) with
    | some d' => exact hpresent (j + 1) (by rw [hj]; rfl)
    -- past the last duration the queue stays as it is
    | none => rw [upcoming_succ (ih.trans hj), Cursor.nth?_none hj (Nat.le_succ _)]

theorem lasts_ofCursor (hd : c.nth? 0 = some d) : (ofCursor k c d start cs before).lasts j = c.nth? j := by
  cases j with
  | zero => exact hd.symm
  | succ j => exact upcoming_ofCursor hd

theorem ends_ofCursor (hd : c.nth? 0 = some d) :
    (ofCursor k c d start cs before).ends j = start + c.total (j + 1) := by
  induction j with
  | zero => simp [ends, ofCursor, Cursor.total_succ, hd]
  | succ j ih =>
    rw [ends, ih, upcoming_ofCursor hd, Cursor.total_succ c (j + 1)]
    omega

end Resumption

/-- Once it is started an idle timer goes through the durations of its input. -/
theorem Deck.start {n : Nat} {c : Cursor} (h : s.Deck)
    (ht : s.world.timers[n]? = some { duration := d, listeners := [.entry k] })
    (he : s.world.entries[k]? = some ⟨n,text,some (Queue.past c 1),true⟩)
    (hs : s.world.Steady n) (hpos : 0 < d) : ∃ s₁ t e,
      s.Runs (.act (.id (Entry.idOf k)) .start) s₁ ∧ s₁.now = s.now ∧
      s₁.Rests (.ofCursor k c d s.now s.world.callbacks
        (Journal.deliveries (Entry.idOf k) s.world.journal)) 0 t e := by
  obtain ⟨a,f,hf,hnone,htimer,honTime,hsound⟩ := start_startedOn h.guarded ht rfl rfl hpos
  let s₁ := s.withWorld (s.world.take n f).1
  let p := Resumption.ofCursor k c d s.now s.world.callbacks (Journal.deliveries (Entry.idOf k) s.world.journal)
  have hturn := (h.guarded.turns_take ht hsound honTime).1
  have hnow : s₁.now = s.now := hturn.now
  have hstart : s.perform none (.act (.id (Entry.idOf k)) .start) = s₁.ok [] .done := by
    have hfind : s.world.find? (Entry.idOf k) = some k := find?_idOf he rfl
    have htimer? : s.timer? none (.id (Entry.idOf k)) = some n := by
      simp [timer?, entry?, hfind, he]
    have hcs : (s.world.take n f).2 = [] := take_of_not_announced _ _ hnone
    simp [perform, htimer?, act, ht, applyAction, hf, hcs, Session.calls, s₁]
  have hcounts : p.Counts 0 f.timer ⟨n,text,some (Queue.past c 1),true⟩ := by
    rw [htimer]
    exact
      { listed := rfl
        listeners := rfl
        running := rfl
        unclosed := rfl
        duration := rfl
        remaining := fun now => by
          change d - (0 + (now - s.now)) = s.now + d - now
          omega
        queue := rfl }
  have hunfinished : f.timer.finished = false := by rw [htimer]; rfl
  have hstands : s₁.Stands k f.timer ⟨n,text,some (Queue.past c 1),true⟩ s.world.callbacks
      (p.told (Event.ofProgress 0 false)) := by
    refine ⟨h.take ht hsound honTime hs,getElem?_take ht f,?_,hturn.callbacks,?_⟩
    · change (s.world.take n f).1.entries[k]? = _
      rw [entries_take]
      exact he
    · exact (deliveries_take _ _ _ _).trans (List.append_nil _).symm
  have hpunctual : f.timer.Punctual s₁.world.line := by
    change f.timer.Punctual (s.world.take n f).1.line
    rw [line_take]
    exact honTime.punctual
  have hresumes : s₁.Resumes p 0 f.timer _ :=
    resumes_of_punctual hstands hcounts hunfinished (by simp) hpunctual
  refine ⟨s₁,f.timer,_,Settles.runs hstart (.nil _),hnow,hresumes,fun _ => ?_⟩
  change s₁.now < s.now + d
  omega

/-- A timer that is created from a text whose durations are positive, and started, is after a time
`T`, however it was cut into steps, at the duration during which `T` falls; after the last one it
stays at that. At each end all callbacks were told that the timer had finished, and then of the new
state. Whatever other timers there are, they make no difference; only may none that waits go on to
a duration that is not positive, since time would never get past that. -/
theorem progress {s₀ : Session} (h : Reached s₀ []) (hlisteners : ∀ p ∈ s₀.listeners, p.2.Looks)
    (hcallbacks : ∀ p ∈ s₀.callbacks, p.2.Looks)
    (hsteady : ∀ v ∈ s₀.world.line.wakes, v.status = .pending → s₀.world.Steady v.owner)
    {text : String} {r : Run} (hblank : (Text.trim text.toList).isEmpty = false)
    (hread : Run.read s₀.world.separator text.toList = .ok r)
    (hpos : ∀ i d, Cursor.nth? [r] i = some d → 0 < d) {steps : List Int}
    (hsteps : ∀ ms ∈ steps, 0 ≤ ms) :
    let k := s₀.world.entries.length
    let T := steps.foldl (· + ·) 0
    let told (events : List Event) := Journal.deliveries (Entry.idOf k) s₀.world.journal ++
      Callback.deliveries s₀.world.callbacks (Entry.idOf k) events
    ∃ s v, s₀.RunsAll (.create text none :: .act (.id (Entry.idOf k)) .start :: steps.map .advance) s ∧
      s.world.view? k = some v ∧ v.running = true ∧
      (∀ i d, Cursor.nth? [r] i = some d → Cursor.total [r] i ≤ T → T < Cursor.total [r] (i + 1) →
        v.duration = d ∧ v.remaining = Cursor.total [r] (i + 1) - T ∧ v.consumed = i + 1 ∧
        v.upcoming = Cursor.nth? [r] (i + 1) ∧
        Journal.deliveries (Entry.idOf k) s.world.journal = told (Event.ofProgress i false)) ∧
      ∀ i d, Cursor.nth? [r] i = some d → Cursor.nth? [r] (i + 1) = none →
        Cursor.total [r] (i + 1) ≤ T →
        v.duration = d ∧ v.remaining = Cursor.total [r] (i + 1) - T ∧ v.consumed = i + 1 ∧
        v.upcoming = none ∧
        Journal.deliveries (Entry.idOf k) s.world.journal = told (Event.ofProgress i true) := by
  intro k T told
  obtain ⟨d,hd⟩ : ∃ d, Cursor.nth? [r] 0 = some d := ⟨_,rfl⟩
  have hdpos := hpos 0 d hd
  have hdeck : s₀.Deck := ⟨h.guarded,h.wired,hlisteners,hcallbacks,hsteady⟩
  have hcreate := create_eq hblank hread hd hdpos
  obtain ⟨hdeck₁,hsteady₁⟩ := hdeck.created hcreate (Queue.positive_past hpos 1)
  obtain ⟨s₂,t,e,hstart,hnow₂,hrests⟩ := hdeck₁.start (created_timer s₀.world)
    (created_entry s₀.world) hsteady₁ hdpos
  let p := Resumption.ofCursor k [r] d s₀.now s₀.world.callbacks
    (Journal.deliveries (Entry.idOf k) s₀.world.journal)
  have hrests : s₂.Rests p 0 t e := hrests
  obtain ⟨s,i,t',e',hruns,hnow,hlast⟩ := hrests.advances hsteps
  obtain ⟨v,hview,hrunning,hduration,hremaining,hconsumed,hupcoming⟩ := hlast.resumes.view
  have hT : s.now = s₀.now + T := by
    rw [hnow, hnow₂]
    rfl
  have hcreated : s₀.Runs (.create text none) _ :=
    Settles.runs (r := .entry k) (by simp only [perform, hcreate]; rfl) (.nil _)
  have hlasts : ∀ j, p.lasts j = Cursor.nth? [r] j := fun _ => Resumption.lasts_ofCursor hd
  have hends : ∀ j, p.ends j = s₀.now + Cursor.total [r] (j + 1) := fun _ => Resumption.ends_ofCursor hd
  have hmono : ∀ m n, m ≤ n → Cursor.total [r] m ≤ Cursor.total [r] n := fun _ _ => Cursor.total_mono hpos
  have htold := hlast.resumes.stands.told
  have hseen : ∀ d, Cursor.nth? [r] i = some d → v.duration = d ∧
      v.remaining = Cursor.total [r] (i + 1) - T ∧ v.consumed = i + 1 ∧
      v.upcoming = Cursor.nth? [r] (i + 1) := by
    intro d hi
    rw [hlasts, hi] at hduration
    refine ⟨(Option.some.inj hduration).symm,?_,?_,hupcoming.trans (hlasts (i + 1))⟩
    · rw [hremaining, hends]
      omega
    · rw [hconsumed, Resumption.consumed, Resumption.queueAt_ofCursor (by rw [hi]; rfl)]
      exact Queue.consumed_past [r] (i + 1)
  refine ⟨s,v,hcreated.cons (hstart.cons hruns),hview,hrunning,?_,?_⟩
  · intro j d hj hle hlt
    have hbegun : ∀ l, l < j → p.ends l ≤ s.now := by
      intro l hl
      have hbefore := hmono (l + 1) j hl
      rw [hends]
      omega
    obtain ⟨rfl,hf⟩ := hlast.eq_of_lt ((hlasts j).trans hj) hbegun (by rw [hends]; omega)
    rw [hf] at htold
    obtain ⟨hduration,hremaining,hconsumed,hupcoming⟩ := hseen d hj
    exact ⟨hduration,hremaining,hconsumed,hupcoming,htold⟩
  · intro j d hj hnone hle
    have hover : ∀ l, l ≤ j → p.ends l ≤ s.now := by
      intro l hl
      have hbefore := hmono (l + 1) (j + 1) (Nat.succ_le_succ hl)
      rw [hends]
      omega
    obtain ⟨rfl,hf⟩ := hlast.eq_of_last ((hlasts j).trans hj) ((hlasts (j + 1)).trans hnone) hover
    rw [hf] at htold
    obtain ⟨hduration,hremaining,hconsumed,hupcoming⟩ := hseen d hj
    exact ⟨hduration,hremaining,hconsumed,hupcoming.trans hnone,htold⟩

/-- A second, and then two seconds without end. -/
theorem progress_endless :
    let s₀ : Session :=
      { world := { line := { now := 1000 }, callbacks := [.named "log", .observer] } }
    let told (e : Event) : List (Callback × Event × String) :=
      [(.named "log",e,"t1"),(.observer,e,"t1")]
    ∃ s v, s₀.RunsAll [.create "1s + 2s*" none,.act (.id "t1") .start,.advance 1500,.advance 2000] s ∧
      s.world.view? 0 = some v ∧ v.running = true ∧ v.duration = 2000 ∧ v.remaining = 1500 ∧
      v.consumed = 3 ∧ v.upcoming = some 2000 ∧
      Journal.deliveries "t1" s.world.journal =
        told .finished ++ told .state ++ told .finished ++ told .state := by
  intro s₀ told
  let r : Run := .append (.one 1000) (.again (.one 2000) none)
  have hfresh : Reached s₀ [] := .fresh ⟨by simp [s₀],rfl,rfl,rfl,rfl,rfl⟩
  have hpos : ∀ i d, Cursor.nth? [r] i = some d → 0 < d := by
    intro i d hd
    have hall : ∀ x ∈ [r], x.All fun d => 0 < d := by simp [r, Run.All]
    exact Cursor.nth?_all hall hd
  have hread : Run.read ":" "1s + 2s*".toList = .ok r := rfl
  have hsteps : ∀ ms ∈ [(1500 : Int),2000], 0 ≤ ms := by simp
  obtain ⟨s,v,hruns,hview,hrunning,hwhile,-⟩ :=
    progress hfresh (by simp [s₀]) (by simp [s₀]) (by simp [s₀]) (by decide) hread hpos hsteps
  obtain ⟨hduration,hremaining,hconsumed,hupcoming,htold⟩ :=
    hwhile 2 2000 (by decide) (by decide) (by decide)
  have hid : Entry.idOf s₀.world.entries.length = "t1" := by decide
  rw [hid] at hruns
  refine ⟨s,v,hruns,hview,hrunning,hduration,?_,hconsumed,hupcoming,?_⟩
  · rw [hremaining]
    decide
  · rw [hid] at htold
    rw [htold]
    decide

end Countdown.Session
