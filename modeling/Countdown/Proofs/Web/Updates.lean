import Countdown.Proofs.Session.Informed
import Countdown.Proofs.Web.Controls
import Countdown.Proofs.Web.Display
import Countdown.Proofs.Web.Rejection
set_option autoImplicit false

/-!
What clients are told of timers that change. Whatever is asked of the service and however time goes by, a timer is
as it was before, or the last that was published of it says what it is now, or it was published that it is gone.
-/

namespace Countdown.Web

structure States (status : Json) (id : String) (f : Figures) : Prop where
  timer : status.get? "id" = some (.str id)
  input : status.get? "input" = some (.str f.input)
  consumed : status.get? "consumed" = some (.int f.consumed)
  upcoming : status.get? "next" = some (Json.ofOption .int f.upcoming)
  phase : status.get? "state" = some (.str f.phase.name)
  duration : status.get? "duration" = some (.int f.duration)

theorem states_statusOf (v : View) (shown : List Duration.Segment) (ending : Option String) :
    States (statusOf v shown ending) v.id v.figures := by
  constructor <;> simp [statusOf, Json.get?, Json.field?, View.figures]

namespace Server

variable {s s' : Server} {fuel n seen : Nat} {id : String} {f : Figures} {v : View} {now : Int} {status : Json}

structure Presentable (s : Server) (now : Int) (v : View) : Prop where
  present : v.started = true → v.stopped = false → ∃ t, s.timeAt now = .ok t
  short : ∀ x ∈ display s.settings v.remaining, Text.isShort x.value = true

theorem endTime_isOk : (∃ x, endTime s.settings (s.timeAt now) v = .ok x) ↔
    (v.started = true → v.stopped = false → ∃ t, s.timeAt now = .ok t) := by
  unfold endTime
  cases hs : v.started <;> cases hp : v.stopped <;> cases ht : s.timeAt now <;> simp

theorem displayed_isOk : (∃ x, displayed s.settings v = .ok x) ↔
    ∀ x ∈ display s.settings v.remaining, Text.isShort x.value = true :=
  ⟨fun ⟨_,h⟩ => (displayed_eq_ok.mp h).2,fun h => ⟨_,displayed_eq_ok.mpr ⟨rfl,h⟩⟩⟩

theorem statusAt_eq_ok : s.statusAt now v = .ok status ↔ ∃ shown ending,
    displayed s.settings v = .ok shown ∧ endTime s.settings (s.timeAt now) v = .ok ending ∧
    statusOf v shown ending = status := by
  unfold statusAt Web.status
  simp only [bind_eq_ok, pure, Except.pure, Except.ok.injEq]
  constructor
  · rintro ⟨shown,hshown,ending,hending,rfl⟩
    exact ⟨shown,ending,hshown,hending,rfl⟩
  · rintro ⟨shown,ending,hshown,hending,rfl⟩
    exact ⟨shown,hshown,ending,hending,rfl⟩

theorem statusAt_isOk : (∃ status, s.statusAt now v = .ok status) ↔ s.Presentable now v := by
  constructor
  · rintro ⟨status,hstatus⟩
    obtain ⟨shown,ending,hshown,hending,-⟩ := statusAt_eq_ok.mp hstatus
    exact ⟨endTime_isOk.mp ⟨ending,hending⟩,displayed_isOk.mp ⟨shown,hshown⟩⟩
  · rintro ⟨hpresent,hshort⟩
    obtain ⟨shown,hshown⟩ := displayed_isOk.mpr hshort
    obtain ⟨ending,hending⟩ := endTime_isOk.mpr hpresent
    exact ⟨_,statusAt_eq_ok.mpr ⟨shown,ending,hshown,hending,rfl⟩⟩

theorem states_statusAt (h : s.statusAt now v = .ok status) : States status v.id v.figures := by
  obtain ⟨shown,ending,-,-,rfl⟩ := statusAt_eq_ok.mp h
  exact states_statusOf v shown ending

def published (s : Server) (seen : Nat) : List Message :=
  ((s.world.journal.drop seen).filterMap s.messageOf?).filterMap (·.toOption)

theorem deliver_published (h : s.attached = true) (seen : Nat) :
    s.deliver seen = broadcastAll (((s.world.journal.drop seen).filterMap s.messageOf?).foldl logFailed s)
      (((s.world.journal.drop seen).filterMap s.messageOf?).foldl logFailed s).hub (s.published seen) := by
  have hattached : ∀ (ms : List (Except StatusError Message)) (s : Server), (ms.foldl logFailed s).attached = s.attached := by
    intro ms
    induction ms with
    | nil => exact fun _ => rfl
    | cons m ms ih =>
      intro s
      rw [List.foldl_cons, ih]
      cases m <;> rfl
  simp only [deliver, published, hattached, h, if_true]

theorem published_of_note {x : Note} {m : Message} (hx : s.world.journal[n]? = some x)
    (hm : s.messageOf? x = some (.ok m)) (hle : seen ≤ n) :
    ∃ earlier, s.published seen = earlier ++ m :: s.published (n + 1) := by
  obtain ⟨before,hsplit⟩ : ∃ before, s.world.journal.drop seen = before ++ x :: s.world.journal.drop (n + 1) := by
    obtain ⟨hn,rfl⟩ := List.getElem?_eq_some_iff.mp hx
    have hdrop : s.world.journal.drop n = (s.world.journal.drop seen).drop (n - seen) := by
      rw [List.drop_drop]
      congr 1
      omega
    rw [← List.drop_eq_getElem_cons hn, hdrop]
    exact ⟨_,(List.take_append_drop _ _).symm⟩
  refine ⟨(before.filterMap s.messageOf?).filterMap (·.toOption),?_⟩
  rw [published, hsplit, List.filterMap_append, List.filterMap_append, List.filterMap_cons_some hm,
    List.filterMap_cons_some (by rfl)]
  rfl

/-- Time goes by: the clock goes on with all wakes that fall due, or it is set, or one wake fires, in time or not. -/
inductive Passes : Command → Prop where
  | advance (ms : Int) : Passes (.advance ms)
  | tick (ms : Int) : Passes (.tick ms)
  | fire (index : Int) : Passes (.fire index)

/-- What may befall the timers of a server: a request, a message from a client, or time that goes by. -/
inductive Befalls (fuel : Nat) (s : Server) : Server → Prop where
  | request {r : Request} {x : Answer} {s' : Server} (h : s.handle fuel r = some (s',x)) : Befalls fuel s s'
  | message {m : Json} {s' : Server} (h : s.receive fuel m = some s') : Befalls fuel s s'
  | time {c : Command} {session : Session} {r : Except Failure Reply} (hc : Passes c)
      (h : s.session.run fuel c = some (session,r)) : Befalls fuel s { s with session := session }

inductive Comes : List Command → Prop where
  | operated {about : String} {cs : List Command} (h : Operates about cs) : Comes cs
  | requested {c : Command} (h : Requested c) : Comes [c]
  | passed {c : Command} (h : Passes c) : Comes [c]

/-- In the course of the commands clients are told of a timer, when its figures are what they are from then on.
The message is published if the status of the timer can be made up at that time. -/
def Publishes (s : Server) (id : String) (f : Figures) (s' : Server) : Prop :=
  ∃ cs n, Comes cs ∧ s.session.Tells (cs.map (.command none)) id f n s'.session ∧
    ∃ now v, s'.world.journal[n]? = some (.observed .state id now (some v)) ∧
      (s'.Presentable now v → ∃ status earlier, States status id f ∧
        s'.published s.world.journal.length = earlier ++ .state status :: s'.published (n + 1))

/-- What has become of a timer is known to clients. -/
inductive Known (s : Server) (id : String) (f : Figures) (s' : Server) : Prop where
  | same (h : s'.world.figures? id = some f)
  | told {f' : Figures} (h : s'.world.figures? id = some f') (hp : s.Publishes id f' s')
  | gone (h : s'.world.find? id = none) (hp : .removed id ∈ s'.published s.world.journal.length)

open Session in
theorem known_of_informs {cs : List Command} (hcs : Comes cs)
    (h : s.session.Informs (cs.map (.command none)) id f s'.session)
    (hcourse : s.session.Follows (cs.map (.command none)) s'.session []) : s.Known id f s' := by
  obtain hstill | ⟨f',n,htells⟩ := h
  · exact .same (hstill _ _ hcourse)
  · obtain ⟨hfigures,hle,now,v,hnote,rfl,rfl⟩ := htells.noted
    refine .told hfigures ⟨cs,n,hcs,htells,now,v,hnote,fun hpresentable => ?_⟩
    obtain ⟨status,hstatus⟩ := statusAt_isOk.mpr hpresentable
    have hmessage : s'.messageOf? (.observed .state v.id now (some v)) = some (.ok (.state status)) := by
      simp [messageOf?, hstatus, Except.map]
    obtain ⟨earlier,hpublished⟩ := published_of_note hnote hmessage hle
    exact ⟨status,earlier,states_statusAt hstatus,hpublished⟩

/-- The service alone is told of what happens to its timers; whoever else listens to one only looks. -/
structure Watched (s : Server) : Prop where
  reached : Session.Reached s.session []
  callbacks : s.world.callbacks = [.observer]
  listeners : ∀ p ∈ s.session.listeners, p.2.Looks

section Watched
open Session

variable {c : Command} {cs : List Command} {session : Session} {r : Except Failure Reply} {a : Action} {k : Nat}

theorem Watched.attended (h : s.Watched) (hs : c.Sound) (hc : c.isFrank = true) :
    Attended s.session [.command none c] := attended_one h.reached h.callbacks h.listeners hs hc

theorem Watched.known_frank (h : s.Watched) (hcs : Comes [c]) (hs : c.Sound) (hc : c.isFrank = true)
    (hrun : s.session.run fuel c = some (session,r)) (hf : s.world.figures? id = some f) :
    s.Known id f { s with session := session } := by
  have hsettle := settle_of_run hrun
  exact known_of_informs hcs ((h.attended hs hc).informs hsettle hf).1 (follows_settle hsettle)

theorem Watched.known_requested (h : s.Watched) (hc : Requested c) (hrun : s.session.run fuel c = some (session,r))
    (hf : s.world.figures? id = some f) : s.Known id f { s with session := session } := by
  cases hc with
  | create text =>
    refine .same ?_
    simp only [Session.run, perform] at hrun
    cases hcreate : s.session.world.create text none with
    | error e =>
      rw [hcreate] at hrun
      cases hrun
      exact hf
    | ok p =>
      obtain ⟨w,k⟩ := p
      simp only [hcreate, ok, settle_nil, Option.map_some] at hrun
      cases hrun
      exact World.retains_create hcreate id f hf
  | exportAll => exact h.known_frank (.requested .exportAll) Command.sound_exportAll rfl hrun hf
  | importAll text =>
    rw [run_import] at hrun
    cases hrun
    exact .same (World.retains_importText h.reached.guarded h.reached.wired text id f hf)
  | remove removed =>
    obtain hsame | ⟨hgone,now,view,hjournal⟩ := informs_remove h.reached h.callbacks hrun hf
    · exact .same hsame
    · have hnote : session.world.journal[s.world.journal.length]? = some (.observed .removed id now view) := by
        rw [hjournal]
        exact List.getElem?_concat_length
      obtain ⟨earlier,hpublished⟩ := published_of_note (s := { s with session := session }) hnote rfl (Nat.le_refl _)
      refine .gone hgone ?_
      rw [hpublished]
      exact List.mem_append_right _ List.mem_cons_self
  | setInput about text => exact h.known_frank (.requested (.setInput about text)) (Command.sound_setInput _ _) rfl hrun hf

theorem fault_of_asked (ha : Asked a) (t : Timer) (n : Nat) (line : Timeline) : (applyAction t n a line).2 = none := by
  cases ha with
  | named ha => exact fault_of_isSafe (action?_eq_some ha).2 t n line
  | drift ms =>
    simp only [applyAction, Timer.add]
    split <;> rfl

theorem sound_of_asked (ha : Asked a) : a.Sound := by
  cases ha with
  | named ha =>
    have hsafe := (action?_eq_some ha).2
    cases a <;> trivial
  | drift ms => trivial

theorem Watched.known_operated {about : String} (h : s.Watched) (hcs : Operates about cs)
    (hk : s.world.find? about = some k) (hrun : s.runAll fuel cs = some s') (hf : s.world.figures? id = some f) :
    s.Known id f s' := by
  obtain ⟨session,hsettle,rfl⟩ := Option.map_eq_some_iff.mp hrun
  refine known_of_informs (.operated hcs) ?_ (follows_settle hsettle)
  cases hcs with
  | next =>
    have hattended : Attended s.session [.command none (.next (.id about))] :=
      h.attended (Command.sound_next _) rfl
    exact (hattended.informs hsettle hf).1
  | control ha =>
    cases fuel with
    | zero => contradiction
    | succ fuel =>
      obtain ⟨hattended,hheralds⟩ := attended_act h.reached h.callbacks h.listeners (sound_of_asked ha)
        (fault_of_asked ha) hk
      obtain ⟨hstill,-⟩ | htells := informs_cons hheralds hf fun f₁ hf₁ => hattended.informs hsettle hf₁
      · exact .inl hstill
      · exact .inr htells

theorem Watched.known_handled {x : Answer} (h : s.Watched) (hh : s.Handles fuel s' x) (hf : s.world.figures? id = some f) :
    s.Known id f s' := by
  cases hh with
  | still x => exact .same hf
  | operated hk hcs hrun => exact h.known_operated hcs hk hrun hf
  | performed hc hrun _ => exact h.known_requested hc hrun hf
  | failed hc hrun => exact h.known_requested hc hrun hf

/-- Whatever befalls the timers of a service that is watched by clients alone, each of them is to clients what it
was, or they were told of it after the last change, or they were told that it is gone. -/
theorem change_published (hs : s.Watched) (h : s.Befalls fuel s') (hf : s.world.figures? id = some f) :
    s.Known id f s' := by
  cases h with
  | request h =>
    obtain ⟨y,hhandles,-⟩ := handle_cases h
    exact hs.known_handled hhandles hf
  | @message m s' h =>
    cases hi : s.interpret m with
    | error l =>
      rw [receive, hi] at h
      cases h
      exact .same hf
    | ok cs =>
      obtain ⟨about,name,hasks,hasked⟩ := asks_of_interpret hi
      obtain ⟨k,hk⟩ := Option.isSome_iff_exists.mp hasks.listed
      have hoperates : Operates about cs := by
        obtain ⟨-,rfl⟩ | ⟨-,a,ha,rfl⟩ := asked?_cases hasked
        · exact .next
        · exact .control (.named ha)
      rw [receive, hi] at h
      exact hs.known_operated hoperates hk h hf
  | time hc h =>
    cases hc with
    | advance ms => exact hs.known_frank (.passed (.advance ms)) (Command.sound_advance ms) rfl h hf
    | tick ms => exact hs.known_frank (.passed (.tick ms)) (Command.sound_tick ms) rfl h hf
    | fire i => exact hs.known_frank (.passed (.fire i)) (Command.sound_fire i) rfl h hf

/-- A running timer loses more time than it has left, so it goes on to the next duration. Clients are told of
both, and of its state once more. -/
theorem change_published_drift :
    let fresh : Session := { world := { line := { now := 1000 }, callbacks := [.observer] } }
    let server (session : Session) : Server :=
      { session := session, settings := .defaults, wall := ⟨0,by decide⟩, start := 1000 }
    let request : Request :=
      { method := "POST", path := "/api/timers/t1/drift".toList
        content := some ("\x7b\"ms\": -5000\x7d".toList.map fun c => c.toNat.toUInt8) }
    let before : Figures := ⟨"1s + 2s",1,some 2000,.running,1000⟩
    let after : Figures := ⟨"1s + 2s",2,none,.running,2000⟩
    ∃ session s' x, fresh.runAll 9 [.create "1s + 2s" none,.act (.id "t1") .start] = some session ∧
      (server session).Watched ∧ (server session).handle 20 request = some (s',x) ∧
      (server session).world.figures? "t1" = some before ∧ s'.world.figures? "t1" = some after ∧
      (server session).Publishes "t1" after s' ∧
      (s'.published (server session).world.journal.length).length = 3 := by
  intro fresh server request before after
  have hfresh : Reached fresh [] := .fresh ⟨by simp [fresh],rfl,rfl,rfl,rfl,rfl⟩
  have hsound : ∀ c ∈ [Command.create "1s + 2s" none,.act (.id "t1") .start], c.Sound := by simp [Action.Sound]
  have hstate : ((fresh.runAll 9 [.create "1s + 2s" none,.act (.id "t1") .start]).bind fun session =>
      ((server session).handle 20 request).map fun p => (session.world.callbacks,session.listeners.length,
        (session.world.figures? "t1",p.1.world.figures? "t1"),(p.1.published session.world.journal.length).length)) =
      some ([.observer],0,(some before,some after),3) := by decide +kernel
  obtain ⟨session,hsession,hstate⟩ := Option.bind_eq_some_iff.mp hstate
  obtain ⟨⟨s',x⟩,hhandle,hstate⟩ := Option.map_eq_some_iff.mp hstate
  obtain ⟨hcallbacks,hstate⟩ := Prod.mk.inj hstate
  obtain ⟨hlisteners,hstate⟩ := Prod.mk.inj hstate
  obtain ⟨hfigures,hcount⟩ := Prod.mk.inj hstate
  obtain ⟨hbefore,hafter⟩ := Prod.mk.inj hfigures
  have hwatched : (server session).Watched :=
    ⟨hfresh.runAll hsound hsession,hcallbacks,by simp [server, List.length_eq_zero_iff.mp hlisteners]⟩
  refine ⟨session,s',x,hsession,hwatched,hhandle,hbefore,hafter,?_,hcount⟩
  obtain hsame | ⟨htold,hpublishes⟩ | ⟨hgone,-⟩ := change_published hwatched (.request hhandle) hbefore
  · rw [hafter] at hsame
    exact absurd hsame (by decide)
  · rw [hafter] at htold
    cases htold
    exact hpublishes
  · rw [World.figures?, hgone] at hafter
    contradiction

/-- At the end of the calendar no status can be made up for a timer that is paused, so nothing is published. -/
theorem pause_unpublished :
    let fresh : Session := { world := { line := { now := 1000 }, callbacks := [.observer] } }
    let server (session : Session) : Server :=
      { session := session, settings := .defaults, start := 1000
        wall := ⟨Calendar.dayCount * Calendar.microsPerDay - Calendar.microsPerSecond,by decide⟩ }
    let request : Request := { method := "POST", path := controlPath "t1" "pause" }
    ∃ session s' x, fresh.runAll 9 [.create "5m" none,.act (.id "t1") .start,.tick 2000] = some session ∧
      (server session).Watched ∧ (server session).handle 9 request = some (s',x) ∧
      ((server session).world.figures? "t1").map Figures.phase = some .running ∧
      (s'.world.figures? "t1").map Figures.phase = some .paused ∧
      s'.published (server session).world.journal.length = [] := by
  intro fresh server request
  have hfresh : Reached fresh [] := .fresh ⟨by simp [fresh],rfl,rfl,rfl,rfl,rfl⟩
  have hsound : ∀ c ∈ [Command.create "5m" none,.act (.id "t1") .start,.tick 2000], c.Sound := by simp [Action.Sound]
  have hstate : ((fresh.runAll 9 [.create "5m" none,.act (.id "t1") .start,.tick 2000]).bind fun session =>
      ((server session).handle 9 request).map fun p => (session.world.callbacks,session.listeners.length,
        ((session.world.figures? "t1").map Figures.phase,(p.1.world.figures? "t1").map Figures.phase),
        (p.1.published session.world.journal.length).length)) =
      some ([.observer],0,(some .running,some .paused),0) := by decide +kernel
  obtain ⟨session,hsession,hstate⟩ := Option.bind_eq_some_iff.mp hstate
  obtain ⟨⟨s',x⟩,hhandle,hstate⟩ := Option.map_eq_some_iff.mp hstate
  obtain ⟨hcallbacks,hstate⟩ := Prod.mk.inj hstate
  obtain ⟨hlisteners,hstate⟩ := Prod.mk.inj hstate
  obtain ⟨hphases,hcount⟩ := Prod.mk.inj hstate
  obtain ⟨hbefore,hafter⟩ := Prod.mk.inj hphases
  have hwatched : (server session).Watched :=
    ⟨hfresh.runAll hsound hsession,hcallbacks,by simp [server, List.length_eq_zero_iff.mp hlisteners]⟩
  exact ⟨session,s',x,hsession,hwatched,hhandle,hbefore,hafter,List.length_eq_zero_iff.mp hcount⟩

end Watched

end Server
end Countdown.Web
