import Countdown.Proofs.Result
import Countdown.Proofs.Session.Salvage
import Countdown.Web.Server
set_option autoImplicit false

namespace Countdown

namespace World

variable {w w' : World} {ss : List Snapshot} {e : SequenceError} {text : String}

theorem restoreAll_eq_error (h : (w.restoreAll ss).2 = .error (.sequence e)) : e.isInputFault = false := by
  induction ss generalizing w with
  | nil => contradiction
  | cons s ss ih =>
    simp only [restoreAll] at h
    split at h
    · rename_i e' hqueue
      cases h
      exact SequenceError.isInputFault_eq_false.mpr (restoreQueue_eq_error hqueue).2
    · rename_i queue logs hqueue
      cases hrest : ((logs.foldl log (w.addRestored s.fields).1).addEntry w.timers.length s.input queue).1.restoreAll ss with
      | mk w' r =>
        rw [hrest] at h
        cases r with
        | ok ks => contradiction
        | error f =>
          cases h
          exact ih (congrArg Prod.snd hrest)

theorem importText_eq_error (h : (w.importText text).2 = .error (.sequence e)) : e.isInputFault = false := by
  unfold importText at h
  split at h
  · cases h
  · cases h
  · exact restoreAll_eq_error h

end World

namespace Web

variable {s s' : Server} {fuel : Nat} {r : Request} {x : Answer}

inductive Asked : Action → Prop where
  | named {name : String} {a : Action} (h : action? name = some a) : Asked a
  | drift (ms : Int) : Asked (.add (.int ms))

inductive Operates (id : String) : List Command → Prop where
  | control {a : Action} (h : Asked a) : Operates id (Server.control id a)
  | next : Operates id [.next (.id id)]

inductive Requested : Command → Prop where
  | create (text : String) : Requested (.create text none)
  | exportAll : Requested .exportAll
  | importAll (text : String) : Requested (.importAll (some text))
  | remove (id : String) : Requested (.remove (.id id))
  | setInput (id text : String) : Requested (.setInput (.id id) text)

def Response.Rejects (x : Response) : Prop := 400 ≤ x.status ∧ x.status < 500

def Answer.Rejects (x : Answer) : Prop := ∃ y, x = .ok y ∧ y.Rejects

theorem Answer.not_rejects {y : Response} (h : y.status < 400) : ¬ Answer.Rejects (.ok y) := by
  rintro ⟨z,hz,hrejects⟩
  cases hz
  exact absurd hrejects.1 (by omega)

theorem Answer.not_rejects_ok (v : Json) : ¬ Answer.Rejects (.ok (.ok v)) :=
  not_rejects (y := .ok v) (show 200 < 400 by decide)

theorem Answer.not_rejects_error (f : Fault) : ¬ Answer.Rejects (.error f) := by
  rintro ⟨_,h,-⟩
  contradiction

namespace Server

/-- How a server comes to be after a request, with its answer. -/
inductive Handles (fuel : Nat) (s : Server) : Server → Answer → Prop where
  | still (x : Answer) : Handles fuel s s x
  | operated {id : String} {k : Nat} {cs : List Command} {s' : Server} (hk : s.world.find? id = some k)
      (hcs : Operates id cs) (h : s.runAll fuel cs = some s') : Handles fuel s s' (s'.answer 200 k)
  | performed {c : Command} {session : Session} {reply : Reply} {x : Answer} (hc : Requested c)
      (h : s.session.run fuel c = some (session,.ok reply)) (hx : ¬ x.Rejects) :
      Handles fuel s { s with session := session } x
  | failed {c : Command} {session : Session} {f : Failure} (hc : Requested c)
      (h : s.session.run fuel c = some (session,.error f)) :
      Handles fuel s { s with session := session } (refuse { s with session := session } f).2

theorem not_rejects_answer (s : Server) {code : Nat} (h : code < 400) (k : Nat) : ¬ (s.answer code k).Rejects := by
  unfold answer
  split
  · exact Answer.not_rejects h
  · split
    · exact Answer.not_rejects h
    · exact Answer.not_rejects_error _

theorem not_rejects_answerAll (s : Server) (ks : List Nat) (f : List Json → Json) : ¬ (s.answerAll ks f).Rejects := by
  unfold answerAll
  split
  · exact Answer.not_rejects_ok _
  · exact Answer.not_rejects_error _

theorem not_rejects_entryReply {code : Nat} (h : code < 400) (s : Server) (reply : Reply) :
    ¬ (entryReply code s reply).Rejects := by
  cases reply with
  | entry k => exact s.not_rejects_answer h k
  | _ => exact Answer.not_rejects h

theorem not_rejects_textReply (s : Server) (reply : Reply) : ¬ (textReply s reply).Rejects := by
  cases reply <;> exact Answer.not_rejects_ok _

theorem not_rejects_importReply (s : Server) (reply : Reply) : ¬ (importReply s reply).Rejects := by
  cases reply with
  | entries ks => exact s.not_rejects_answerAll ks _
  | _ => exact Answer.not_rejects_ok _

theorem refuse_fst (s : Server) (f : Failure) : (s.refuse f).1 = s := by
  cases f with
  | sequence e =>
    simp only [refuse]
    split <;> rfl
  | _ => rfl

theorem parsed_fst (s : Server) (input : String) : (s.parsed input).1 = s := by
  unfold parsed
  split
  · exact refuse_fst s _
  · split <;> rfl

theorem of_rejects_refuse {f : Failure} (h : (s.refuse f).2.Rejects) :
    ∃ e : SequenceError, f = .sequence e ∧ e.isInputFault = true := by
  cases f with
  | sequence e =>
    refine ⟨e,rfl,?_⟩
    simp only [refuse] at h
    split at h
    · assumption
    · exact absurd h (Answer.not_rejects_error _)
  | _ => exact absurd h (Answer.not_rejects_error _)

theorem handles_answered {y : Response} (h : s.answered y = some (s',x)) : s.Handles fuel s' x := by
  cases h
  exact .still _

theorem handles_validated {α : Type} {given : Except Rejected α} {f : α → Result}
    (h : s.validated given f = some (s',x)) (hf : ∀ a, f a = some (s',x) → s.Handles fuel s' x) :
    s.Handles fuel s' x := by
  cases given with
  | error e => exact handles_answered h
  | ok a => exact hf a h

theorem handles_change {id : String} {cs : List Command} (hcs : Operates id cs)
    (h : s.change fuel id cs = some (s',x)) : s.Handles fuel s' x := by
  unfold change at h
  split at h
  · exact handles_answered h
  · rename_i k hk
    obtain ⟨s₁,hrun,heq⟩ := Option.map_eq_some_iff.mp h
    cases heq
    exact .operated hk hcs hrun

theorem handles_command {c : Command} {reply : Server → Reply → Answer} (hc : Requested c)
    (hreply : ∀ s r, ¬ (reply s r).Rejects) (h : s.command fuel c reply = some (s',x)) : s.Handles fuel s' x := by
  obtain ⟨⟨session,r⟩,hrun,heq⟩ := Option.map_eq_some_iff.mp h
  cases r with
  | error f =>
    have hfst := refuse_fst { s with session := session } f
    obtain rfl : s' = { s with session := session } := (congrArg Prod.fst heq).symm.trans hfst
    obtain rfl : x = (refuse { s with session := session } f).2 := (congrArg Prod.snd heq).symm
    exact .failed hc hrun
  | ok r =>
    cases heq
    exact .performed hc hrun (hreply _ _)

theorem handles_act {resource : Resource} (h : s.act fuel r resource = some (s',x)) : s.Handles fuel s' x := by
  cases resource with
  | timers =>
    simp only [act] at h
    split at h
    · cases h
      exact .still _
    · exact handles_validated h fun text h => handles_command (.create text) (not_rejects_entryReply (by decide)) h
  | exporting => exact handles_command .exportAll not_rejects_textReply h
  | importing =>
    exact handles_validated h fun text h => handles_command (.importAll text) not_rejects_importReply h
  | timer id =>
    simp only [act] at h
    split at h
    · exact handles_answered h
    · split at h
      · cases h
        exact .still _
      · exact handles_command (.remove id) (fun _ _ => Answer.not_rejects_ok _) h
  | input id =>
    refine handles_validated h fun text h => ?_
    split at h
    · exact handles_answered h
    · exact handles_command (.setInput id text) (not_rejects_entryReply (by decide)) h
  | drift id => exact handles_validated h fun ms h => handles_change (.control (.drift ms)) h
  | next id => exact handles_change .next h
  | control id name =>
    simp only [act] at h
    split at h
    · exact handles_answered h
    · rename_i a ha
      exact handles_change (.control (.named ha)) h
  | parse =>
    refine handles_validated h fun text h => ?_
    obtain rfl : s' = s := (congrArg Prod.fst (Option.some.inj h)).symm.trans (parsed_fst s text)
    exact .still _
  | format =>
    refine handles_validated h fun q h => ?_
    cases h
    exact .still _
  | ending =>
    refine handles_validated h fun ms h => ?_
    cases h
    exact .still _
  | «until» =>
    refine handles_validated h fun text h => ?_
    cases h
    exact .still _
  | manual => exact handles_answered h

/-- A request does nothing, carries out one operation on a timer, or one command. -/
theorem handles_serve (h : s.serve fuel r = some (s',x)) : s.Handles fuel s' x := by
  unfold serve at h
  split at h
  · exact handles_answered h
  · exact handles_answered h
  · exact handles_answered h
  · exact handles_act h

theorem handle_cases (h : s.handle fuel r = some (s',x)) :
    ∃ y, s.Handles fuel s' y ∧ (x.Rejects → y.Rejects) := by
  obtain ⟨⟨s₁,y⟩,hserve,heq⟩ := Option.map_eq_some_iff.mp h
  cases heq
  refine ⟨y,handles_serve hserve,?_⟩
  rintro ⟨z,hz,hrejects⟩
  obtain ⟨u,hu,rfl⟩ := map_eq_ok.mp hz
  obtain ⟨v,rfl,hv⟩ := bind_eq_ok.mp hu
  have hstatus : (u.sentFor r.method).status = u.status := by
    unfold Response.sentFor
    split <;> rfl
  have hwritten : v = u := by
    unfold written at hv
    split at hv
    · split at hv
      · exact Except.ok.inj hv
      · contradiction
    · exact Except.ok.inj hv
  refine ⟨v,rfl,?_⟩
  rw [Response.Rejects, hstatus] at hrejects
  rwa [hwritten]

/-- A command that fails for a fault of its text has done nothing. -/
theorem run_eq_error {s session : Session} {c : Command} {e : SequenceError} (hc : Requested c)
    (h : s.run fuel c = some (session,.error (.sequence e))) (he : e.isInputFault = true) : session = s := by
  have hperform : s.perform none c = ⟨session,.error (.sequence e)⟩ := by
    unfold Session.run at h
    split at h
    · rename_i hp
      cases h
      exact hp
    · obtain ⟨_,-,heq⟩ := Option.map_eq_some_iff.mp h
      cases heq
  cases hc with
  | create text =>
    simp only [Session.perform] at hperform
    split at hperform
    · cases hperform
      rfl
    · cases hperform
  | exportAll =>
    simp only [Session.perform] at hperform
    split at hperform
    · cases hperform
      rfl
    · cases hperform
  | importAll text =>
    simp only [Session.perform, Option.getD_some] at hperform
    split at hperform
    · rename_i f hf
      cases hperform
      rw [World.importText_eq_error hf] at he
      contradiction
    · cases hperform
  | remove id =>
    simp only [Session.perform] at hperform
    split at hperform
    · cases hperform
    · cases hperform
  | setInput id text =>
    simp only [Session.perform] at hperform
    split at hperform
    · cases hperform
    · simp only [Session.onEntry] at hperform
      split at hperform
      · cases hperform
        rfl
      · cases hperform

theorem deliver_nothing (s : Server) : s.deliver s.world.journal.length = (s,[]) := by
  simp [deliver, broadcastAll]

/-- A request that is turned down leaves the whole server as it is, its timers with their queues and wakes
and the ids that are still to be given, and nobody is told of anything. -/
theorem handle_rejected {y : Response} (h : s.handle fuel r = some (s',.ok y)) (hy : 400 ≤ y.status)
    (hy' : y.status < 500) : s' = s ∧ s'.deliver s.world.journal.length = (s,[]) := by
  obtain ⟨x,hhandles,hrejects⟩ := handle_cases h
  have hx : x.Rejects := hrejects ⟨y,rfl,hy,hy'⟩
  have hsame : s' = s := by
    cases hhandles with
    | still x => rfl
    | operated hk hcs hrun => exact absurd hx (not_rejects_answer _ (by decide) _)
    | performed hc hrun haccepts => exact absurd hx haccepts
    | failed hc hrun =>
      obtain ⟨e,rfl,he⟩ := of_rejects_refuse hx
      rw [run_eq_error hc hrun he]
  rw [hsame]
  exact ⟨rfl,s.deliver_nothing⟩

/-- A running timer is given an input that cannot be read. -/
theorem handle_rejected_input :
    let timer : Timer := (Timer.start { duration := 1000, listeners := [.entry 0] } 0 { now := 1000 }).timer
    let world : World :=
      { line := (Timer.start { duration := 1000 } 0 { now := 1000 }).line, timers := [timer]
        entries := [⟨0,"1s + 2s",some ⟨1,some 2000,[]⟩,true⟩], callbacks := [.observer] }
    let s : Server := { session := { world := world }, settings := .defaults, wall := ⟨0,by decide⟩, start := 0 }
    let request : Request :=
      { method := "PUT", path := "/api/timers/t1/input".toList
        content := some ("\x7b\"input\": \"5 parsecs\"\x7d".toList.map fun c => c.toNat.toUInt8) }
    timer.phase = .running ∧ ∃ s' y, s.handle 0 request = some (s',.ok y) ∧ y.status = 422 ∧ s' = s ∧
      s'.deliver s.world.journal.length = (s,[]) := by
  intro timer world s request
  have hstatus : (s.handle 0 request).map (fun p => p.2.toOption.map (·.status)) = some (some 422) := by
    decide +kernel
  obtain ⟨⟨s',x⟩,hhandle,hx⟩ := Option.map_eq_some_iff.mp hstatus
  obtain ⟨y,hy,hcode⟩ := Option.map_eq_some_iff.mp hx
  obtain rfl : x = .ok y := toOption_eq_some.mp hy
  obtain ⟨hsame,hsilent⟩ := handle_rejected hhandle (by rw [hcode]; decide) (by rw [hcode]; decide)
  exact ⟨by decide +kernel,s',y,hhandle,hcode,hsame,hsilent⟩

end Server
end Web
end Countdown
