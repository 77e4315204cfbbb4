import Countdown.Proofs.Timer.Generation
import Countdown.Timer.AlarmTrial
set_option autoImplicit false

/-!
An alarm under trial, whatever is done to it and whenever: also between the moment at which a check
takes its sample and the moment at which it acts on it. The wake that the alarm waits for is the only
live one, no wake comes to two outcomes, and nothing comes of any check once the alarm is closed.
-/

namespace Countdown

abbrev Sample := Option Nat × Int

inductive TrialEvent where
  | sampled (c : Sample)
  | waited (c : Sample)
  | called (c : Sample)
  | closed
  deriving DecidableEq, Repr

namespace TrialEvent

def sample? : TrialEvent → Option Sample
  | .sampled c => some c
  | _ => none

def outcome? : TrialEvent → Option Sample
  | .waited c | .called c => some c
  | _ => none

def isCall : TrialEvent → Bool
  | .called _ => true
  | _ => false

def isWait : TrialEvent → Bool
  | .waited _ => true
  | _ => false

end TrialEvent

def TrialTask.sample? : TrialTask → Option Sample
  | .settle generation left => some (generation,left)
  | _ => none

namespace AlarmTrial

def samples (tasks : List TrialTask) : List Sample := tasks.filterMap TrialTask.sample?

def taken (es : List TrialEvent) : List Sample := es.filterMap TrialEvent.sample?

def outcomes (es : List TrialEvent) : List Sample := es.filterMap TrialEvent.outcome?

def begun (x : AlarmTrial) (tasks : List TrialTask) : List TrialEvent :=
  (samples tasks).map fun c => .sampled (c.1,x.deadline - x.line.now)

def events (x : AlarmTrial) : TrialTask → List TrialEvent
  | .settle g left =>
    if x.alarm.isStale g then [] else if 0 < left then [.waited (g,left)] else [.called (g,left)]
  | .step .close => [.closed]
  | t => begun (x.task t).1 (x.task t).2

structure Fresh (x : AlarmTrial) : Prop where
  alarm : x.alarm = {}
  wakes : x.line.wakes = []
  calls : x.calls = 0

/-- The trials that can be got to, with what is still to be done and what has happened. Steps may be
asked for at any time, and a check may take its sample after some of them. -/
inductive Reached : AlarmTrial → List TrialTask → List TrialEvent → Prop where
  | fresh {x : AlarmTrial} : x.Fresh → Reached x [] []
  | ask {x : AlarmTrial} {tasks : List TrialTask} {es : List TrialEvent} (s : TrialStep) :
      Reached x tasks es → Reached x (.step s :: tasks) es
  | resample {x : AlarmTrial} {g : Option Nat} {left : Int} {rest : List TrialTask} {es : List TrialEvent} :
      Reached x (.settle g left :: rest) es →
      Reached x (.settle g (x.deadline - x.line.now) :: rest)
        (es ++ [.sampled (g,x.deadline - x.line.now)])
  | work {x : AlarmTrial} {t : TrialTask} {rest : List TrialTask} {es : List TrialEvent} :
      Reached x (t :: rest) es → Reached (x.task t).1 ((x.task t).2 ++ rest) (es ++ x.events t)

variable {x x' : AlarmTrial} {t : TrialTask} {tasks tasks' rest : List TrialTask} {es more : List TrialEvent}
variable {g : Option Nat} {left : Int} {i : Nat}

@[simp] theorem samples_nil : samples [] = [] := rfl

@[simp] theorem samples_append (ts us : List TrialTask) : samples (ts ++ us) = samples ts ++ samples us :=
  List.filterMap_append

@[simp] theorem samples_steps (ss : List TrialStep) : samples (ss.map .step) = [] := by
  simp [samples, TrialTask.sample?]

@[simp] theorem samples_settle (g : Option Nat) (left : Int) (ts : List TrialTask) :
    samples (.settle g left :: ts) = (g,left) :: samples ts := rfl

@[simp] theorem samples_step (s : TrialStep) (ts : List TrialTask) : samples (.step s :: ts) = samples ts := rfl

@[simp] theorem samples_advanceTo (target : Int) (ts : List TrialTask) :
    samples (.advanceTo target :: ts) = samples ts := rfl

@[simp] theorem taken_append (es es' : List TrialEvent) : taken (es ++ es') = taken es ++ taken es' :=
  List.filterMap_append

@[simp] theorem outcomes_append (es es' : List TrialEvent) : outcomes (es ++ es') = outcomes es ++ outcomes es' :=
  List.filterMap_append

def Busy (tasks : List TrialTask) (g : Nat) : Prop := ∃ left, (some g,left) ∈ samples tasks

theorem settled_stale (h : x.alarm.isStale g = true) : x.settled g left = x := by
  simp [settled, Alarm.settle, h]

theorem settled_waiting (h : x.alarm.isStale g = false) (hl : 0 < left) : x.settled g left =
    { x with
      alarm := { x.alarm.renewed with pending := some x.line.wakes.length }
      line := (x.alarm.cancelled x.line).schedule 0 x.alarm.renewed.generation (min left maxWait) } := by
  simp [settled, Alarm.settle, h, hl]

theorem settled_due (h : x.alarm.isStale g = false) (hl : ¬ 0 < left) : x.settled g left =
    { x with
      alarm := x.alarm.renewed, line := x.alarm.cancelled x.line, calls := x.calls + 1
      logs := if x.fails then x.logs ++ [.alarmFailed] else x.logs } := by
  simp [settled, Alarm.settle, h, hl]

theorem settled_tracks (k : x.alarm.Tracks x.line (Busy (.settle g left :: rest))) :
    (x.settled g left).alarm.Tracks (x.settled g left).line (Busy rest) := by
  cases hs : x.alarm.isStale g with
  | true =>
    rw [settled_stale hs]
    refine { k with current := fun i hi => ?_ }
    obtain ⟨hopen,hp | ⟨left',hbusy⟩⟩ := k.current i hi
    · exact ⟨hopen,Or.inl hp⟩
    · rw [samples_settle] at hbusy
      obtain heq | hbusy := List.mem_cons.mp hbusy
      · rw [← (Prod.mk.inj heq).1] at hs
        simp [Alarm.isStale, hopen] at hs
      · exact ⟨hopen,Or.inr ⟨left',hbusy⟩⟩
  | false =>
    by_cases hl : 0 < left
    · have hopen : x.alarm.closed = false := by
        simp only [Alarm.isStale, Bool.or_eq_false_iff] at hs
        exact hs.1
      rw [settled_waiting hs hl]
      exact k.schedule hopen 0 _
    · rw [settled_due hs hl]
      exact k.renewed x.alarm.closed

theorem fire_tracks (k : x.alarm.Tracks x.line (Busy rest)) (i : Nat) :
    (x.fire i).1.alarm.Tracks (x.fire i).1.line (Busy ((x.fire i).2 ++ rest)) := by
  unfold fire
  split
  · exact k
  · rename_i v hv
    dsimp only
    cases hs : x.alarm.isStale (some v.generation) with
    | true =>
      simp only [Alarm.roused?, hs, if_true]
      rw [Timeline.markFired_of_not_pending hv (k.stale hv hs)]
      exact k
    | false =>
      simp only [Alarm.roused?, hs, Bool.false_eq_true, if_false, check]
      exact k.roused hv hs ⟨x.deadline - x.line.now,by simp⟩

theorem task_tracks (k : x.alarm.Tracks x.line (Busy (t :: rest))) :
    (x.task t).1.alarm.Tracks (x.task t).1.line (Busy ((x.task t).2 ++ rest)) := by
  cases t with
  | settle g left => exact settled_tracks k
  | advanceTo target =>
    simp only [task, advanceTo]
    split
    · exact k.setClock _
    · rename_i i v _
      have hfire := fire_tracks (x := x.setClock (max x.line.now v.due)) (k.setClock _) i
      refine hfire.mono ?_
      simp [Busy]
  | step s =>
    cases s with
    | arm => exact k.mono (by simp [Busy, task, perform, check])
    | disarm => exact k.renewed x.alarm.closed
    | close => exact k.renewed true
    | move ms => exact k
    | advance ms => exact k
    | tick ms => exact k.setClock _
    | fire i =>
      simp only [task, perform]
      split
      · exact k
      · have hrest : x.alarm.Tracks x.line (Busy rest) := k
        exact fire_tracks hrest i.toNat
    | onSample steps => exact k

/-- What has happened accounts for the calls, the wakes and the closing, and for all samples but those
that came to nothing. -/
structure Records (x : AlarmTrial) (tasks : List TrialTask) (es : List TrialEvent) : Prop where
  calls : x.calls = es.countP TrialEvent.isCall
  wakes : x.line.wakes.length = es.countP TrialEvent.isWait
  closed : x.alarm.closed = true ↔ .closed ∈ es
  older : ∀ (g : Nat) (left : Int), (some g,left) ∈ outcomes es → g < x.alarm.generation
  once : ∀ g : Nat, (outcomes es).countP (·.1 == some g) ≤ 1
  sampled : ∀ c, (outcomes es).count c + (samples tasks).count c ≤ (taken es).count c
  due : ∀ c, .called c ∈ es → c.2 ≤ 0
  last : es.Pairwise fun e e' => e = .closed → e'.outcome? = none

theorem Records.quiet (r : Records x tasks es) (cs : List Sample) (hcalls : x'.calls = x.calls)
    (hwakes : x'.line.wakes.length = x.line.wakes.length) (hclosed : x'.alarm.closed = x.alarm.closed)
    (hgeneration : x.alarm.generation ≤ x'.alarm.generation)
    (hsamples : ∀ c, (samples tasks').count c ≤ (samples tasks).count c + cs.count c) :
    Records x' tasks' (es ++ cs.map .sampled) := by
  have htaken : taken (cs.map .sampled) = cs := by simp [taken, TrialEvent.sample?, Function.comp_def]
  have hnone : outcomes (cs.map .sampled) = [] := by simp [outcomes, TrialEvent.outcome?]
  constructor
  · simp [hcalls, r.calls, List.countP_append, List.countP_map, Function.comp_def, TrialEvent.isCall]
  · simp [hwakes, r.wakes, List.countP_append, List.countP_map, Function.comp_def, TrialEvent.isWait]
  · simp [hclosed, r.closed]
  · intro g left h
    rw [outcomes_append, hnone, List.append_nil] at h
    exact Nat.lt_of_lt_of_le (r.older g left h) hgeneration
  · simpa [hnone] using r.once
  · intro c
    have hold := r.sampled c
    have hnew := hsamples c
    simp only [outcomes_append, hnone, List.append_nil, taken_append, htaken, List.count_append]
    omega
  · intro c h
    exact r.due c (by simpa using h)
  · rw [List.pairwise_append]
    refine ⟨r.last,List.pairwise_map.mpr (List.pairwise_of_forall fun _ _ _ => rfl),fun e _ e' he' _ => ?_⟩
    obtain ⟨c,-,rfl⟩ := List.mem_map.mp he'
    rfl

theorem Records.close (r : Records x tasks es) (hcalls : x'.calls = x.calls)
    (hwakes : x'.line.wakes.length = x.line.wakes.length) (hclosed : x'.alarm.closed = true)
    (hgeneration : x.alarm.generation ≤ x'.alarm.generation) : Records x' tasks (es ++ [.closed]) := by
  have hnone : outcomes [.closed] = [] := rfl
  constructor
  · simp [hcalls, r.calls, List.countP_append, TrialEvent.isCall]
  · simp [hwakes, r.wakes, List.countP_append, TrialEvent.isWait]
  · simp [hclosed]
  · intro g left h
    rw [outcomes_append, hnone, List.append_nil] at h
    exact Nat.lt_of_lt_of_le (r.older g left h) hgeneration
  · simpa [hnone] using r.once
  · intro c
    have htaken : taken [.closed] = [] := rfl
    simpa [hnone, htaken] using r.sampled c
  · intro c h
    exact r.due c (by simpa using h)
  · rw [List.pairwise_append]
    refine ⟨r.last,List.pairwise_singleton _ _,fun e _ e' he' _ => ?_⟩
    rw [List.mem_singleton.mp he']
    rfl

/-- A check that is not stale comes to an outcome, the first one of its generation. -/
theorem Records.outcome (r : Records x (.settle g left :: rest) es) (hs : x.alarm.isStale g = false)
    {e : TrialEvent} (he : e.outcome? = some (g,left)) (hdue : e = .called (g,left) → left ≤ 0)
    (hcalls : x'.calls = x.calls + if e.isCall then 1 else 0)
    (hwakes : x'.line.wakes.length = x.line.wakes.length + if e.isWait then 1 else 0)
    (hclosed : x'.alarm.closed = x.alarm.closed) (hgeneration : x'.alarm.generation = x.alarm.generation + 1) :
    Records x' rest (es ++ [e]) := by
  simp only [Alarm.isStale, Bool.or_eq_false_iff] at hs
  obtain ⟨hopen,hcurrent⟩ := hs
  have hnot : TrialEvent.closed ∉ es := by
    rw [← r.closed, hopen]
    simp
  have hout : outcomes [e] = [(g,left)] := by simp [outcomes, he]
  have htaken : taken [e] = [] := by cases e <;> first | rfl | cases he
  have hmem : ∀ {k : Nat}, g = some k → k = x.alarm.generation := by
    rintro k rfl
    simpa using hcurrent
  constructor
  · simp [hcalls, r.calls, List.countP_append, List.countP_singleton]
  · simp [hwakes, r.wakes, List.countP_append, List.countP_singleton]
  · have hne : e ≠ .closed := by
      rintro rfl
      cases he
    simp [hclosed, r.closed, hnot, Ne.symm hne]
  · intro k left' h
    rw [outcomes_append, hout] at h
    obtain h | h := List.mem_append.mp h
    · have := r.older k left' h
      omega
    · have := hmem (Prod.mk.inj (List.mem_singleton.mp h)).1.symm
      omega
  · intro k
    rw [outcomes_append, hout, List.countP_append, List.countP_singleton]
    by_cases hk : g = some k
    · have hzero : (outcomes es).countP (·.1 == some k) = 0 := by
        rw [List.countP_eq_zero]
        rintro ⟨g',left'⟩ hc heq
        obtain rfl : g' = some k := by simpa using heq
        have := r.older k left' hc
        have := hmem hk
        omega
      simp [hzero, hk]
    · simpa [hk] using r.once k
  · intro c
    have hold := r.sampled c
    rw [samples_settle, List.count_cons] at hold
    rw [outcomes_append, hout, List.count_append, taken_append, htaken, List.append_nil, List.count_singleton]
    omega
  · intro c h
    obtain h | h := List.mem_append.mp h
    · exact r.due c h
    · obtain rfl := List.mem_singleton.mp h
      cases he
      exact hdue rfl
  · rw [List.pairwise_append]
    exact ⟨r.last,List.pairwise_singleton _ _,fun e' h' _ _ heq => absurd (heq ▸ h') hnot⟩

structure Begins (x x' : AlarmTrial) (tasks : List TrialTask) : Prop where
  calls : x'.calls = x.calls
  wakes : x'.line.wakes.length = x.line.wakes.length
  closed : x'.alarm.closed = x.alarm.closed
  generation : x.alarm.generation ≤ x'.alarm.generation
  found : begun x' tasks = (samples tasks).map .sampled

theorem Begins.records (h : x.Begins x' tasks) (r : Records x (t :: rest) es) (ht : t.sample? = none) :
    Records x' (tasks ++ rest) (es ++ begun x' tasks) := by
  rw [h.found]
  refine r.quiet (samples tasks) h.calls h.wakes h.closed h.generation fun c => ?_
  have hrest : samples (t :: rest) = samples rest := by simp [samples, ht]
  rw [samples_append, List.count_append, hrest]
  omega

theorem begins_check (x : AlarmTrial) (g : Option Nat) : x.Begins (x.check g).1 (x.check g).2 where
  calls := rfl
  wakes := rfl
  closed := rfl
  generation := Nat.le_refl _
  found := by simp [begun, check]

theorem begins_fire (x : AlarmTrial) (i : Nat) : x.Begins (x.fire i).1 (x.fire i).2 := by
  have hlength : ∀ t : Timeline, (t.markFired i).wakes.length = t.wakes.length := by simp [Timeline.markFired]
  unfold fire
  split
  · exact ⟨rfl,rfl,rfl,Nat.le_refl _,rfl⟩
  · rename_i v _
    dsimp only
    cases hs : x.alarm.isStale (some v.generation) with
    | true =>
      simp only [Alarm.roused?, hs, if_true]
      exact ⟨rfl,hlength _,rfl,Nat.le_refl _,rfl⟩
    | false =>
      simp only [Alarm.roused?, hs, Bool.false_eq_true, if_false]
      exact ⟨rfl,hlength _,rfl,Nat.le_refl _,by simp [begun, check]⟩

theorem begins_task (x : AlarmTrial) (ht : t.sample? = none) (hc : t ≠ .step .close) :
    x.Begins (x.task t).1 (x.task t).2 := by
  cases t with
  | settle g left => cases ht
  | advanceTo target =>
    simp only [task, advanceTo]
    split
    · exact ⟨rfl,rfl,rfl,Nat.le_refl _,rfl⟩
    · rename_i i v _
      obtain ⟨hcalls,hwakes,hclosed,hgeneration,hfound⟩ := begins_fire (x.setClock (max x.line.now v.due)) i
      refine ⟨hcalls,hwakes,hclosed,hgeneration,?_⟩
      simpa [begun] using hfound
  | step s =>
    cases s with
    | arm => exact begins_check x none
    | disarm =>
      exact ⟨rfl,Alarm.length_cancelled _ _,rfl,Nat.le_succ _,rfl⟩
    | close => exact absurd rfl hc
    | move ms => exact ⟨rfl,rfl,rfl,Nat.le_refl _,rfl⟩
    | advance ms => exact ⟨rfl,rfl,rfl,Nat.le_refl _,rfl⟩
    | tick ms => exact ⟨rfl,rfl,rfl,Nat.le_refl _,rfl⟩
    | fire i =>
      simp only [task, perform]
      split
      · exact ⟨rfl,rfl,rfl,Nat.le_refl _,rfl⟩
      · exact begins_fire x i.toNat
    | onSample steps => exact ⟨rfl,rfl,rfl,Nat.le_refl _,rfl⟩

theorem settled_records (r : Records x (.settle g left :: rest) es) :
    Records (x.settled g left) rest (es ++ x.events (.settle g left)) := by
  cases hs : x.alarm.isStale g with
  | true =>
    have hnone : x.events (.settle g left) = [] := by simp [events, hs]
    rw [settled_stale hs, hnone]
    refine r.quiet [] rfl rfl rfl (Nat.le_refl _) fun c => ?_
    rw [samples_settle, List.count_cons, List.count_nil]
    omega
  | false =>
    by_cases hl : 0 < left
    · have hone : x.events (.settle g left) = [.waited (g,left)] := by simp [events, hs, hl]
      rw [settled_waiting hs hl, hone]
      refine r.outcome hs rfl (fun h => by cases h) rfl ?_ rfl rfl
      simp [Timeline.schedule, TrialEvent.isWait]
    · have hone : x.events (.settle g left) = [.called (g,left)] := by simp [events, hs, hl]
      rw [settled_due hs hl, hone]
      refine r.outcome hs rfl (fun _ => Int.not_lt.mp hl) rfl ?_ rfl rfl
      simp [TrialEvent.isWait]

theorem task_records (r : Records x (t :: rest) es) :
    Records (x.task t).1 ((x.task t).2 ++ rest) (es ++ x.events t) := by
  cases hsample : t.sample? with
  | some c =>
    cases t with
    | settle g left => exact settled_records r
    | _ => cases hsample
  | none =>
    by_cases hc : t = .step .close
    · subst hc
      refine Records.close (x := x) ?_ rfl (Alarm.length_cancelled _ _) rfl (Nat.le_succ _)
      exact ⟨r.calls,r.wakes,r.closed,r.older,r.once,r.sampled,r.due,r.last⟩
    · have hevents : x.events t = begun (x.task t).1 (x.task t).2 := by
        cases t with
        | settle g left => cases hsample
        | advanceTo target => rfl
        | step s => cases s <;> first | rfl | exact absurd rfl hc
      rw [hevents]
      exact (begins_task x hsample hc).records r hsample

theorem Fresh.records (h : x.Fresh) : Records x [] [] := by
  obtain ⟨halarm,hwakes,hcalls⟩ := h
  constructor <;> simp [halarm, hwakes, hcalls, outcomes, taken]

theorem Reached.tracks (h : Reached x tasks es) : x.alarm.Tracks x.line (Busy tasks) := by
  induction h with
  | fresh h =>
    rw [h.alarm]
    exact Alarm.tracks_empty h.wakes
  | ask s _ ih => exact ih
  | @resample x g left rest es _ ih =>
    refine ih.mono ?_
    rintro ⟨left',h⟩
    obtain h | h := List.mem_cons.mp h
    · exact ⟨_,List.mem_cons.mpr (Or.inl (Prod.ext (Prod.mk.inj h).1 rfl))⟩
    · exact ⟨left',List.mem_cons_of_mem _ h⟩
  | work _ ih => exact task_tracks ih

theorem Reached.records (h : Reached x tasks es) : Records x tasks es := by
  induction h with
  | fresh h => exact h.records
  | ask s _ ih => exact ⟨ih.calls,ih.wakes,ih.closed,ih.older,ih.once,ih.sampled,ih.due,ih.last⟩
  | @resample x g left rest es _ ih =>
    refine ih.quiet [(g,x.deadline - x.line.now)] rfl rfl rfl (Nat.le_refl _) fun c => ?_
    simp only [samples_settle, List.count_cons, List.count_nil]
    omega
  | work _ ih => exact task_records ih

theorem Reached.settle {fuel : Nat} (h : Reached x tasks es) (hs : AlarmTrial.settle fuel x tasks = some x') :
    ∃ more, Reached x' [] (es ++ more) := by
  induction fuel generalizing x tasks es with
  | zero =>
    cases tasks with
    | nil =>
      cases hs
      exact ⟨[],by simpa using h⟩
    | cons t rest => contradiction
  | succ fuel ih =>
    cases tasks with
    | nil =>
      cases hs
      exact ⟨[],by simpa using h⟩
    | cons t rest =>
      obtain ⟨more,hmore⟩ := ih h.work hs
      exact ⟨x.events t ++ more,by simpa using hmore⟩

def runAll (fuel : Nat) (x : AlarmTrial) : List TrialStep → Option AlarmTrial
  | [] => some x
  | s :: ss => (x.run fuel s).bind fun x => x.runAll fuel ss

theorem Reached.runAll {fuel : Nat} {ss : List TrialStep} (h : Reached x [] es)
    (hr : x.runAll fuel ss = some x') : ∃ more, Reached x' [] (es ++ more) := by
  induction ss generalizing x es with
  | nil =>
    cases hr
    exact ⟨[],by simpa using h⟩
  | cons s ss ih =>
    obtain ⟨x₁,hrun,hr⟩ := Option.bind_eq_some_iff.mp hr
    have hdone : AlarmTrial.settle (fuel + 1) x [.step s] = some x₁ := by
      simpa [AlarmTrial.run, AlarmTrial.settle, task] using hrun
    obtain ⟨now,hnow⟩ := (h.ask s).settle hdone
    obtain ⟨later,hlater⟩ := ih hnow hr
    exact ⟨now ++ later,by simpa using hlater⟩

/-- At any time an alarm has one live wake if it is armed, and else none. Firing any other wake does
nothing, unless a check of it is under way. All wakes are of different generations and come to at most
one call or new wake each; an alarm calls only when a check has found no time left, and once it is
closed there are neither calls nor new wakes. -/
theorem Reached.generation_safe (h : Reached x tasks es) :
    x.line.pending.length = (if x.alarm.isArmed then 1 else 0) ∧
      (∀ (i : Nat) (v : Wake), x.line.wakes[i]? = some v → v.status ≠ .pending → ¬ Busy tasks v.generation →
        x.perform (.fire i) = (x,[])) ∧
      x.line.generations.Nodup ∧ (∀ g ∈ x.line.generations, (outcomes es).countP (·.1 == some g) ≤ 1) ∧
      (x.calls = es.countP TrialEvent.isCall ∧ x.line.wakes.length = es.countP TrialEvent.isWait) ∧
      (∀ c, .called c ∈ es → c.2 ≤ 0) ∧ (∀ c, (outcomes es).count c ≤ (taken es).count c) ∧
      (x.alarm.closed = true ↔ .closed ∈ es) ∧ es.Pairwise fun e e' => e = .closed → e'.outcome? = none := by
  have k := h.tracks
  have r := h.records
  refine ⟨k.length_pending,fun i v hv hp hb => ?_,k.rising.imp Nat.ne_of_lt,fun g _ => r.once g,
    ⟨r.calls,r.wakes⟩,r.due,fun c => Nat.le_of_add_right_le (r.sampled c),r.closed,r.last⟩
  have hstale : x.alarm.isStale (some v.generation) = true := by
    cases hs : x.alarm.isStale (some v.generation) with
    | true => rfl
    | false =>
      have hgen : v.generation = x.alarm.generation := by
        simp only [Alarm.isStale, Option.any_some, Bool.or_eq_false_iff, bne_eq_false_iff_eq] at hs
        exact hs.2
      have hi := Alarm.getElem?_generations hv
      rw [hgen] at hi hb
      obtain hpend | hbusy := (k.current i hi).2
      · exact absurd ((k.live i v hv).mpr hpend) hp
      · exact absurd hbusy hb
  have hnot : ¬ (i : Int) < 0 := Int.not_lt.mpr (Int.natCast_nonneg i)
  simp [perform, hnot, fire, hv, Alarm.roused?, hstale, Timeline.markFired_of_not_pending hv hp]

/-- A wake is fired again while the check that it has begun takes its sample, and the alarm calls once. -/
theorem generation_safe_refired :
    let x₀ : AlarmTrial := { line := { now := 1000 }, deadline := 1500 }
    let ss := [TrialStep.arm,.tick 500,.onSample [.fire 0],.fire 0,.move 300,.arm]
    ∃ x es, x₀.runAll 9 ss = some x ∧ Reached x [] es ∧ x.alarm.pending = some 1 ∧ x.line.pending.length = 1 ∧
      x.perform (.fire 0) = (x,[]) ∧ es.countP TrialEvent.isCall = 1 ∧ es.countP TrialEvent.isWait = 2 := by
  intro x₀ ss
  have hfresh : Reached x₀ [] [] := .fresh ⟨rfl,rfl,rfl⟩
  have hstate : (x₀.runAll 9 ss).map (fun x => (x.calls,x.alarm,x.line.wakes)) =
      some (1,{ pending := some 1, generation := 3 },
        [⟨1500,500,0,1,.fired⟩,⟨1800,300,0,3,.pending⟩]) := by decide
  obtain ⟨x,hrun,hx⟩ := Option.map_eq_some_iff.mp hstate
  simp only [Prod.mk.injEq] at hx
  obtain ⟨hcalls,halarm,hwakes⟩ := hx
  obtain ⟨es,hes⟩ := hfresh.runAll hrun
  rw [List.nil_append] at hes
  obtain ⟨hpending,hfire,-,-,⟨hcalled,hwaited⟩,-⟩ := Reached.generation_safe hes
  refine ⟨x,es,hrun,hes,by rw [halarm],?_,hfire 0 _ (by rw [hwakes]; rfl) (by simp) (by simp [Busy]),?_,?_⟩
  · rw [hpending, halarm]
    rfl
  · rw [← hcalled, hcalls]
  · rw [← hwaited, hwakes]
    rfl

end AlarmTrial
end Countdown
