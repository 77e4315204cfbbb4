import Countdown.Proofs.Sequence.Productive
import Countdown.Proofs.Session.Reaction
import Countdown.Proofs.Session.Telling
set_option autoImplicit false

namespace Countdown
open Sequence

/-- How far an input gets if its durations are read only when they are taken. -/
inductive Intake where
  | refused (e : SequenceError)
  | unready (e : Draft.Late)
  | halfway (e : Draft.Late)
  | taken (ms : Option Int) (q : DraftQueue)

def intake (separator text : String) : Intake :=
  match Draft.read separator text.toList with
  | .error e => .refused e
  | .ok d => match DraftQueue.ofDrafts separator d.pace 0 [d] with
    | .error e => .unready e
    | .ok q => match q.pop separator d.pace with
      | .error e => .halfway e
      | .ok (ms,q) => .taken ms q

/-- What is wrong with a text is known before anything has changed. -/
def Refused (separator text : String) (f : Failure) : Prop :=
  ∃ e, f = .sequence e ∧ intake separator text = .refused e

/-- A timer waits with the first duration of a text, and its queue has looked at the second one. -/
def Begins (separator text : String) (f : Figures) : Prop :=
  ∃ r ms q, Run.read separator text.toList = .ok r ∧ Cursor.nth? [r] 0 = some ms ∧
    f = ⟨text,1,Cursor.nth? [r] 1,.idle,max 0 ms⟩ ∧
    intake separator text = .taken (some ms) q ∧ q.consumed = 1 ∧ q.upcoming = Cursor.nth? [r] 1

variable {separator text : String} {q : Queue} {e : SequenceError}

theorem refused_of_read (h : Queue.read separator text = .error e) : Refused separator text (.sequence e) := by
  have hread : Run.read separator text.toList = .error e := map_eq_error.mp h
  have hlike := Draft.read_read separator text.toList
  rw [hread] at hlike
  exact ⟨e,rfl,by rw [intake, hlike.of_error]⟩

theorem begins_of_read (h : Queue.read separator text = .ok q) :
    ∃ ms, q.pop.1 = some ms ∧ Begins separator text ⟨text,q.pop.2.consumed,q.pop.2.peek,.idle,max 0 ms⟩ := by
  obtain ⟨r,hr,rfl⟩ := map_eq_ok.mp h
  obtain ⟨d,q,hd,-,hq,hmirrors⟩ := exists_mirrors hr
  obtain ⟨q',hpop,hrest⟩ := hmirrors.pop
  have hfirst : (Queue.ofCursor 0 [r]).pop = (some (r.uncons []).1,Queue.past [r] 1) :=
    Queue.pop_past (c := [r]) (n := 0) (nth?_zero r)
  rw [hfirst] at hpop hrest ⊢
  have hintake : intake separator text = .taken (some (r.uncons []).1) q' := by
    have hpop' : q.pop separator d.pace = .ok (some (r.uncons []).1,q') := hpop
    simp only [intake, hd, hq, hpop']
  refine ⟨_,rfl,r,_,q',hr,nth?_zero r,?_,hintake,?_,?_⟩
  · rw [Queue.consumed_past]
    exact congrArg (Figures.mk text 1 · _ _) (Queue.upcoming_past [r] 1)
  · exact hrest.consumed.trans (Queue.consumed_past [r] 1)
  · exact hrest.upcoming.trans (Queue.upcoming_past [r] 1)

namespace World

variable {w w' : World} {k : Nat} {e : Entry} {t : Timer} {f : Failure}

theorem setInput_error (h : w.setInput k text = .error f) : Refused w.separator text f := by
  unfold setInput at h
  split at h
  · rename_i hq
    cases h
    exact refused_of_read hq
  · contradiction
  · contradiction

theorem setInput_ok (hl : w.Lists k e t) (h : w.setInput k text = .ok w') :
    ∃ f, w'.figures? (Entry.idOf k) = some f ∧ Begins w.separator text f := by
  have htimer : w.timerOf? k = some (e.timer,t) := by simp [timerOf?, hl.entry, hl.timer]
  cases hq : Queue.read w.separator text with
  | error e => simp [setInput, hq] at h
  | ok q =>
    obtain ⟨ms,hms,hbegins⟩ := begins_of_read hq
    simp only [setInput, hq, hl.entry, htimer, Except.ok.injEq] at h
    subst h
    have hset := hl.setEntry (x := { e with input := text, queue := some q.pop.2 }) hl.listed rfl
    refine ⟨_,(hset.take _).figures,?_⟩
    rw [hms]
    exact hbegins

def Blank (text : String) : Prop := (Text.trim text.toList).isEmpty = true

def withInput (w : World) (text : String) (queue : Option Queue) (d : Int) : World × Nat :=
  addEntry { w with timers := w.timers ++ [{ duration := max 0 d }] } w.timers.length text queue

theorem create_none (w : World) (text : String) :
    w.create text none = (w.readInput text).map fun r => w.withInput text r.1 r.2 := by
  unfold create
  cases w.readInput text <;> rfl

theorem figures_withInput (w : World) (text : String) (queue : Option Queue) (d : Int) :
    (w.withInput text queue d).1.figures? (Entry.idOf w.entries.length) =
      some ⟨text,(queue.map Queue.consumed).getD 0,queue.bind Queue.peek,.idle,max 0 d⟩ := by
  have hlists : (w.withInput text queue d).1.Lists w.entries.length ⟨w.timers.length,text,queue,true⟩
      { duration := max 0 d, listeners := [.entry w.entries.length] } :=
    ⟨by simp [withInput, addEntry],rfl,by simp [withInput, addEntry, Timer.listen]⟩
  exact hlists.figures

theorem create_error (h : w.create text none = .error f) : Refused w.separator text f := by
  rw [create_none, map_eq_error, readInput] at h
  split at h
  · contradiction
  · split at h
    · rename_i hq
      cases h
      exact refused_of_read hq
    · contradiction

theorem create_ok (h : w.create text none = .ok (w',k)) : k = w.entries.length ∧
    ∃ f, w'.figures? (Entry.idOf k) = some f ∧
      (Blank text → f = ⟨text,0,none,.idle,0⟩) ∧ (¬ Blank text → Begins w.separator text f) := by
  rw [create_none] at h
  obtain ⟨r,hr,hnew⟩ := map_eq_ok.mp h
  obtain ⟨rfl,rfl⟩ := Prod.mk.inj hnew
  refine ⟨rfl,_,w.figures_withInput text r.1 r.2,?_⟩
  rw [readInput] at hr
  split at hr
  · rename_i hblank
    cases hr
    exact ⟨fun _ => rfl,fun hnot => absurd hblank hnot⟩
  · rename_i hnot
    split at hr
    · contradiction
    · rename_i q hq
      cases hr
      obtain ⟨ms,hms,hbegins⟩ := begins_of_read hq
      refine ⟨fun hblank => absurd hblank hnot,fun _ => ?_⟩
      rw [hms]
      exact hbegins

end World

def Command.isAloof : Command → Bool
  | .tick _ | .create _ _ | .configure _ | .notify _ | .register _ _ _ _ | .unregister _ | .observe => true
  | c => c.looks

/-- The command leaves timers alone, and so do all in a script of it. -/
inductive Command.Aloof : Command → Prop where
  | intro {c : Command} : c.isAloof = true → (∀ d ∈ c.steps, Aloof d) → Aloof c

def Script.Aloof (p : Script) : Prop := ∀ c ∈ p.steps, c.Aloof

def Task.Aloof : Task → Prop
  | .command _ c => c.Aloof
  | .call _ | .proceed _ | .advanceTo _ => False
  | _ => True

structure Session.Untouched (w : World) (s : Session) (tasks : List Task) : Prop where
  retains : w.Retains s.world
  callbacks : ∀ p ∈ s.callbacks, p.2.Aloof
  tasks : ∀ t ∈ tasks, t.Aloof

/-- A turn that leaves all as it was, whether or not it fails. -/
structure Turn.Untouched (r : Turn) (w : World) : Prop where
  session : r.session.Untouched w []
  tasks : ∀ tasks reply, r.outcome = .ok (tasks,reply) → ∀ t ∈ tasks, t.Aloof

namespace Session
open World

variable {w v : World} {s s' : Session} {t : Task} {c : Command} {rest tasks : List Task}

theorem Untouched.withWorld (h : s.Untouched w []) (hv : s.world.Retains v) : (s.withWorld v).Untouched w [] :=
  ⟨h.retains.trans hv,h.callbacks,h.tasks⟩

theorem untouched_ok {r : Reply} (h : s.Untouched w []) (ht : ∀ t ∈ tasks, t.Aloof) : (s.ok tasks r).Untouched w := by
  refine ⟨h,?_⟩
  rintro _ _ ⟨⟩
  exact ht

theorem untouched_failed {f : Failure} (h : s.Untouched w []) : (s.failed f).Untouched w := by
  refine ⟨h,?_⟩
  rintro _ _ ⟨⟩

theorem perform_untouched (h : s.Untouched w []) (subject : Option String) (hc : c.Aloof) :
    (s.perform subject c).Untouched w := by
  obtain ⟨haloof,hsteps⟩ := hc
  have hsame : ∀ {v : World} {reply : Reply}, v.entries = s.world.entries → v.timers = s.world.timers →
      ((s.withWorld v).ok [] reply).Untouched w := fun hentries htimers =>
    untouched_ok (h.withWorld (retains_of_same hentries htimers)) (by simp)
  by_cases hlooks : c.looks = true
  · obtain ⟨text,⟨r,hr⟩ | ⟨f,hr⟩⟩ := perform_looks s subject hlooks
    · rw [hr]
      exact untouched_ok ⟨h.retains.trans (retains_of_same rfl rfl),h.callbacks,h.tasks⟩ (by simp)
    · rw [hr]
      exact untouched_failed ⟨h.retains.trans (retains_of_same rfl rfl),h.callbacks,h.tasks⟩
  · cases c with
    | tick ms | configure separator | unregister name | observe => exact hsame rfl rfl
    | notify r =>
      refine untouched_ok h fun t ht => ?_
      rw [List.mem_singleton.mp ht]
      trivial
    | create input d =>
      simp only [perform]
      split
      · exact untouched_failed h
      · rename_i v k hv
        exact untouched_ok (h.withWorld (retains_create hv)) (by simp)
    | register name trigger steps fails =>
      have hscripts := forall_addScript h.callbacks (p := ⟨trigger,steps,fails⟩) hsteps name
      exact untouched_ok ⟨h.retains.trans (retains_of_same rfl rfl),hscripts,h.tasks⟩ (by simp)
    | _ => exact absurd haloof hlooks

theorem aloof_scripted {p : Script} (hp : p.Aloof) (subject : Option String) (site : Site) :
    ∀ t ∈ scripted p subject site, t.Aloof := by
  intro t ht
  obtain ⟨c,hc,rfl⟩ | rfl | rfl := mem_scripted ht
  · exact hp c hc
  · trivial
  · trivial

theorem task_untouched (h : s.Untouched w []) (ht : t.Aloof) : (s.task t).Untouched w := by
  cases t with
  | command subject c => exact perform_untouched h subject ht
  | tell c e id =>
    obtain ⟨x,-,heq⟩ := s.tell_eq c e id
    have hnote : (s.tell c e id).1.Untouched w [] := by
      rw [heq]
      exact h.withWorld (retains_of_same rfl rfl)
    refine untouched_ok hnote ?_
    cases c with
    | observer => simp
    | named name =>
      refine aloof_scripted ?_ (some id) .callback
      split
      · exact forall_script? h.callbacks name
      · simp [Script.Aloof]
  | notify e id =>
    refine untouched_ok h fun t ht => ?_
    obtain ⟨c,-,rfl⟩ := List.mem_map.mp ht
    trivial
  | fail => exact untouched_failed h
  | caught site => exact untouched_ok h (by simp)
  | call c | proceed k | advanceTo target => contradiction

theorem Untouched.step (h : s.Untouched w (t :: rest)) : (s.step t rest).1.Untouched w (s.step t rest).2 := by
  have hrest : ∀ u ∈ rest, u.Aloof := fun u hu => h.tasks u (List.mem_cons_of_mem _ hu)
  have hturn := task_untouched ⟨h.retains,h.callbacks,by simp⟩ (h.tasks t List.mem_cons_self)
  unfold Session.step
  split
  · rename_i s' tasks reply hr
    rw [hr] at hturn
    refine ⟨hturn.session.retains,hturn.session.callbacks,fun u hu => ?_⟩
    obtain hu | hu := List.mem_append.mp hu
    · exact hturn.tasks tasks reply rfl u hu
    · exact hrest u hu
  · rename_i s' f hr
    rw [hr] at hturn
    split
    · exact hturn.session
    · rename_i site after hu
      have hlog := hturn.session.withWorld (v := s'.world.log site.log) (retains_of_same rfl rfl)
      exact ⟨hlog.retains,hlog.callbacks,fun u hu' => hrest u ((unwind_suffix hu).mem hu')⟩

theorem retains_of_settle {fuel : Nat} {e : Event} {id : String} (hs : ∀ p ∈ s.callbacks, p.2.Aloof)
    (h : settle fuel s [.notify e id] = some s') : s.world.Retains s'.world := by
  have hstart : s.Untouched s.world [.notify e id] := by
    refine ⟨.refl _,hs,fun t ht => ?_⟩
    rw [List.mem_singleton.mp ht]
    trivial
  exact (settle_keeps (P := Untouched s.world) (fun _ _ _ => Untouched.step) hstart h).retains

theorem run_create (s : Session) (fuel : Nat) (text : String) : s.run fuel (.create text none) =
    match s.world.create text none with
    | .error f => some (s,.error f)
    | .ok (w,k) => some (s.withWorld w,.ok (.entry k)) := by
  simp only [run, perform]
  cases s.world.create text none with
  | error f => rfl
  | ok p => simp [Session.ok, settle_nil]

theorem run_setInput {id : String} {k : Nat} (hk : s.world.find? id = some k) (fuel : Nat) (text : String) :
    s.run fuel (.setInput (.id id) text) = match s.world.setInput k text with
    | .error f => some (s,.error f)
    | .ok w => (settle fuel (s.withWorld w) [.notify .state id]).map fun s => (s,.ok (.entry k)) := by
  obtain ⟨rfl,-⟩ := of_find? hk
  have hentry : s.entry? none (.id (Entry.idOf k)) = some k := hk
  simp only [run, perform, hentry, onEntry]
  cases s.world.setInput k text <;> rfl

theorem run_setInput_none {id : String} (hk : s.world.find? id = none) (fuel : Nat) (text : String) :
    s.run fuel (.setInput (.id id) text) = some (s,.ok .done) := by
  have hentry : s.entry? none (.id id) = none := hk
  simp [run, perform, hentry, Session.ok, settle_nil]

theorem exists_lists {id : String} {k : Nat} (hw : s.world.Wired) (hk : s.world.find? id = some k) :
    id = Entry.idOf k ∧ ∃ e t, s.world.Lists k e t := by
  obtain ⟨hid,e,he,hl⟩ := of_find? hk
  have hlt := hw.timers k e.timer (by simp [owner?, he])
  exact ⟨hid,e,_,he,hl,List.getElem?_eq_getElem hlt⟩

/-- A text that is refused leaves the session as it is, whether a timer was to be created or given an input. One
that is not refused is taken over as a whole: the timer is idle on its first duration, and the second one is the
next, as long as callbacks act on no timer. A timer that is created without an input has no duration. -/
theorem input_all_or_nothing (h : Reached s tasks) (fuel : Nat) (text : String) :
    (∀ s' f, s.run fuel (.create text none) = some (s',.error f) →
      s' = s ∧ Refused s.world.separator text f) ∧
    (∀ id s' f, s.run fuel (.setInput (.id id) text) = some (s',.error f) →
      s' = s ∧ Refused s.world.separator text f) ∧
    (∀ s' reply, s.run fuel (.create text none) = some (s',.ok reply) →
      reply = .entry s.world.entries.length ∧
      ∃ f, s'.world.figures? (Entry.idOf s.world.entries.length) = some f ∧
        (Blank text → f = ⟨text,0,none,.idle,0⟩) ∧ (¬ Blank text → Begins s.world.separator text f)) ∧
    ∀ id k s' reply, s.world.find? id = some k → (∀ p ∈ s.callbacks, p.2.Aloof) →
      s.run fuel (.setInput (.id id) text) = some (s',.ok reply) →
      reply = .entry k ∧ ∃ f, s'.world.figures? id = some f ∧ Begins s.world.separator text f := by
  refine ⟨fun s' f hr => ?_,fun id s' f hr => ?_,fun s' reply hr => ?_,fun id k s' reply hk haloof hr => ?_⟩
  · rw [run_create] at hr
    split at hr
    · rename_i hcreate
      cases hr
      exact ⟨rfl,create_error hcreate⟩
    · cases hr
  · cases hk : s.world.find? id with
    | none =>
      rw [run_setInput_none hk] at hr
      cases hr
    | some k =>
      rw [run_setInput hk] at hr
      split at hr
      · rename_i hset
        cases hr
        exact ⟨rfl,setInput_error hset⟩
      · obtain ⟨s₁,-,heq⟩ := Option.map_eq_some_iff.mp hr
        cases heq
  · rw [run_create] at hr
    split at hr
    · cases hr
    · rename_i w k hcreate
      cases hr
      obtain ⟨rfl,hfigures⟩ := create_ok hcreate
      exact ⟨rfl,hfigures⟩
  · obtain ⟨rfl,e,t,hlists⟩ := exists_lists h.wired hk
    rw [run_setInput hk] at hr
    split at hr
    · cases hr
    · rename_i w hset
      obtain ⟨s₁,hsettle,heq⟩ := Option.map_eq_some_iff.mp hr
      cases heq
      obtain ⟨f,hf,hbegins⟩ := setInput_ok hlists hset
      exact ⟨rfl,f,retains_of_settle (s := s.withWorld w) haloof hsettle _ f hf,hbegins⟩

/-- A timer of five minutes is given an input that is refused, and then one of a second and two minutes. -/
theorem input_all_or_nothing_replaced :
    let s₀ : Session := { world := { line := { now := 1000 } } }
    ∃ s₁ s₂ f, s₀.run 0 (.create "5m" none) = some (s₁,.ok (.entry 0)) ∧
      s₁.run 1 (.setInput (.id "t1") "1s +") = some (s₁,.error f) ∧ Refused ":" "1s +" f ∧
      s₁.run 1 (.setInput (.id "t1") "1s + 2m") = some (s₂,.ok (.entry 0)) ∧
      s₂.world.figures? "t1" = some ⟨"1s + 2m",1,some 120000,.idle,1000⟩ := by
  intro s₀
  have hfresh : Reached s₀ [] := .fresh ⟨by simp [s₀],rfl,rfl,rfl,rfl,rfl⟩
  let w : World := { line := { now := 1000 }
                     timers := [{ duration := 300000, listeners := [.entry 0] }]
                     entries := [⟨0,"5m",some ⟨1,none,[]⟩,true⟩] }
  let s₁ := s₀.withWorld w
  have hworld : s₀.world.create "5m" none = .ok (w,0) := by decide +kernel
  have hcreate : s₀.run 0 (.create "5m" none) = some (s₁,.ok (.entry 0)) := by
    rw [run_create, hworld]
  have hreached : Reached s₁ [] := hfresh.run (Command.sound_create _ _) hcreate
  have hfind : s₁.world.find? "t1" = some 0 := by decide +kernel
  have hrefused : s₁.world.setInput 0 "1s +" = .error (.sequence (.unexpected "+")) := by decide +kernel
  have htaken : (s₁.world.setInput 0 "1s + 2m").toOption.isSome = true := by decide +kernel
  obtain ⟨w₂,hw₂⟩ := Option.isSome_iff_exists.mp htaken
  rw [toOption_eq_some] at hw₂
  have hfailed : s₁.run 1 (.setInput (.id "t1") "1s +") = some (s₁,.error (.sequence (.unexpected "+"))) := by
    rw [run_setInput hfind, hrefused]
  have hdone : s₁.run 1 (.setInput (.id "t1") "1s + 2m") = some (s₁.withWorld w₂,.ok (.entry 0)) := by
    have hcallbacks : w₂.callbacks = [] := World.callbacks_setInput hw₂
    rw [run_setInput hfind, hw₂]
    simp [settle, Session.step, task, hcallbacks, withWorld, Session.ok]
  obtain ⟨-,hrefusal,-,-⟩ := input_all_or_nothing hreached 1 "1s +"
  obtain ⟨-,-,-,hintake⟩ := input_all_or_nothing hreached 1 "1s + 2m"
  obtain ⟨-,f,hf,r,ms,q,hr,hms,rfl,-⟩ := hintake "t1" 0 _ _ hfind (by simp [s₁, s₀, withWorld]) hdone
  have hread : Run.read ":" "1s + 2m".toList = .ok (.append (.one 1000) (.one 120000)) := by decide +kernel
  have hsame := hr.symm.trans hread
  cases hsame
  cases hms
  exact ⟨s₁,_,_,hcreate,hfailed,(hrefusal "t1" _ _ hfailed).2,hdone,hf⟩

end Session
end Countdown
