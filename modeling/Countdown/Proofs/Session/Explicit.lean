import Countdown.Proofs.Session.Exportable
import Countdown.Proofs.Session.Moves
import Countdown.Proofs.Session.Salvage
set_option autoImplicit false

/-!
Timers that were given a duration along with their input. Such a timer has no queue, and what is saved of it
does not say so: an import reads the input after all and takes its first duration to be used.
-/

namespace Countdown

open Sequence

/-- The second duration of an input, if the input can be read and has one. -/
def secondDuration (separator input : String) : Option Int :=
  match Run.read separator input.toList with
  | .ok r => Cursor.nth? [r] 1
  | .error _ => none

namespace World

variable {heard replaced : Option Nat} {w w' : World} {k : Nat} {e : Entry} {s : Snapshot} {ss : List Snapshot}

/-- An entry that has no further duration stays as it is, but for its being listed, until its input is set. -/
theorem Moves.spares (h : Moves heard replaced w w') (he : w.entries[k]? = some e) (hu : e.upcoming = none)
    (hk : replaced ≠ some k) : ∃ l, w'.entries[k]? = some { e with listed := l } := by
  -- the induction is on the moves; what an entry is listed as may change with each of them
  induction h generalizing e with
  | refl w => exact ⟨e.listed,he⟩
  | trans _ _ ih ih' =>
    obtain ⟨l,hl⟩ := ih he hu
    exact ih' (e := { e with listed := l }) hl hu
  | take _ _ => exact ⟨e.listed,by rw [entries_take, he]⟩
  | enter n input queue | spend n input =>
    exact ⟨e.listed,(List.getElem?_append_left (List.getElem?_eq_some_iff.mp he).1).trans he⟩
  | @list w m x listed hx =>
    by_cases hm : m = k
    · subst hm
      rw [hx] at he
      cases he
      exact ⟨listed,List.getElem?_set_self (List.getElem?_eq_some_iff.mp hx).1⟩
    · exact ⟨e.listed,(List.getElem?_set_ne hm).trans he⟩
  | @goOn w m x d queue hx hd =>
    have hm : m ≠ k := by
      rintro rfl
      rw [hx] at he
      cases he
      rw [hu] at hd
      contradiction
    exact ⟨e.listed,(List.getElem?_set_ne hm).trans he⟩
  | @replace w m x input queue hx hm =>
    have hne : m ≠ k := by
      rintro rfl
      exact hk hm
    exact ⟨e.listed,(List.getElem?_set_ne hne).trans he⟩
  | aside _ hentries _ => exact ⟨e.listed,by rw [hentries, he]⟩
  | put _ | add _ | attend _ _ | note _ => exact ⟨e.listed,he⟩

theorem restoreQueue_unused {queue : Option Queue} {logs : List Log} {separator : String} (hc : s.consumed = 0)
    (h : restoreQueue separator s = .ok (queue,logs)) : queue.bind Queue.peek = secondDuration separator s.input := by
  have hused : usedBy s = 1 := by
    rw [usedBy, hc]
    rfl
  unfold restoreQueue at h
  unfold secondDuration
  split at h
  · rename_i hblank
    cases h
    rw [Run.read_blank hblank]
    rfl
  · cases hread : Run.read separator s.input.toList with
    | error x =>
      rw [Queue.read, hread] at h
      simp only [Except.map] at h
      split at h
      · cases h
        rfl
      · contradiction
    | ok r =>
      have hskip : Queue.skip 1 (Queue.past [r] 0) = (0 + 1,Queue.past [r] (0 + 1)) :=
        Queue.skipFrom_past (Or.inr rfl) 0
      have hpast : Queue.ofCursor 0 [r] = Queue.past [r] 0 := rfl
      rw [Queue.read, hread] at h
      simp only [Except.map, hused, hpast, Int.toNat_one, hskip, Except.ok.injEq, Prod.mk.injEq] at h
      obtain ⟨rfl,-⟩ := h
      exact Queue.upcoming_past [r] 1

theorem create_some {text : String} {d : Number.Amount} (h : w.create text (some d) = .ok (w',k)) :
    w'.entries[k]? = some ⟨w.timers.length,text,none,true⟩ := by
  unfold create at h
  simp only [bind, Except.bind, pure, Except.pure] at h
  split at h
  · contradiction
  · rename_i t _
    obtain ⟨rfl,rfl⟩ := Prod.mk.inj (Except.ok.inj h)
    exact List.getElem?_concat_length

theorem isSome_next? {t : Timer} (he : w.entries[k]? = some e) (ht : w.timers[e.timer]? = some t) :
    (w.next? k).isSome = e.upcoming.isSome := by
  have htimer : w.timerOf? k = some (e.timer,t) := by simp [timerOf?, he, ht]
  simp only [next?, he, htimer, Entry.upcoming]
  cases e.queue with
  | none => rfl
  | some q => cases hpeek : q.peek with
    | none => simp [Queue.pop_of_none hpeek, hpeek]
    | some d =>
      rw [Option.map_some, Queue.pop_of_peek hpeek]
      simp [hpeek]

theorem Adds.of_listed (h : w.Adds ss w') {j : Nat} (hj : w.entries.length + j ∈ w'.listed) : j < ss.length := by
  rw [h.listed, List.mem_append] at hj
  obtain hold | hnew := hj
  · obtain ⟨e,he,-⟩ := mem_listed.mp hold
    have hlt := (List.getElem?_eq_some_iff.mp he).1
    omega
  · obtain ⟨i,hi,heq⟩ := List.mem_range'.mp hnew
    omega

theorem Adds.unused {ss : List Snapshot} {p : Snapshot → Bool} (h : w.Adds (ss.takeWhile p) w') {j : Nat}
    (hs : ss[j]? = some s) (hc : s.consumed = 0) (hj : w.entries.length + j ∈ w'.listed) : ∃ n t queue,
      w'.entries[w.entries.length + j]? = some ⟨n,s.input,queue,true⟩ ∧ w'.timers[n]? = some t ∧
      queue.bind Queue.peek = secondDuration w.separator s.input := by
  have hlt := h.of_listed hj
  have htaken : (ss.takeWhile p)[j]? = some s := by
    obtain ⟨-,rfl⟩ := List.getElem?_eq_some_iff.mp hs
    exact List.getElem?_eq_some_iff.mpr ⟨hlt,List.IsPrefix.getElem (List.takeWhile_prefix p) hlt⟩
  obtain ⟨t,queue,logs,hqueue,-,he,ht,-⟩ := h.added j s htaken
  exact ⟨_,t,queue,he,ht,restoreQueue_unused hc hqueue⟩

theorem getElem?_saved {ks : List Nat} (h : ks.map w.saved? = ss.map some) {j : Nat} (hk : ks[j]? = some k) :
    ss[j]? = w.saved? k := by
  have hboth := congrArg (fun xs => xs[j]?) h
  simp only [List.getElem?_map, hk, Option.map_some] at hboth
  cases hs : ss[j]? with
  | none => simp [hs] at hboth
  | some s => simpa [hs, eq_comm] using hboth

/-- The export of a world is imported into any other one, unless that stops at too great a number. An
entry without a queue that was exported then awaits the second duration of its input. -/
theorem import_unqueued {out : String} {w₀ : World} {n j : Nat} {text : String} {l : Bool} (hw : w.Wired)
    (he : w.entries[k]? = some ⟨n,text,none,l⟩) (hj : w.listed[j]? = some k) (hout : w.exported = .ok out)
    (hg₀ : w₀.Guarded) (hw₀ : w₀.Wired) : ∃ w' r, w₀.importText out = (w',r) ∧
      (r = .ok (List.range' w₀.entries.length w.listed.length) ∧ w₀.entries.length + j ∈ w'.listed ∨
        ∃ m ∈ w.listed, ∃ x e, w.saved? m = some x ∧ Queue.read w₀.separator x.input = .error e ∧ e.TooGreat ∧
          r = .error (.sequence e)) ∧
      (w₀.entries.length + j ∈ w'.listed → ∃ n t queue,
        w'.entries[w₀.entries.length + j]? = some ⟨n,text,queue,true⟩ ∧ w'.timers[n]? = some t ∧
        queue.bind Queue.peek = secondDuration w₀.separator text) := by
  obtain ⟨ss,hmap,hchecked,himport⟩ := importText_exported hw hout
  obtain ⟨s,hs,hinput,hconsumed⟩ : ∃ s, ss[j]? = some s ∧ s.input = text ∧ s.consumed = 0 := by
    rw [getElem?_saved hmap hj]
    obtain ⟨s,hs⟩ := Option.isSome_iff_exists.mp (hw.saved? (List.getElem?_eq_some_iff.mp he).1)
    obtain ⟨e,t,he',-,rfl⟩ := saved?_eq_some.mp hs
    rw [he] at he'
    cases he'
    exact ⟨_,hs,rfl,rfl⟩
  have hlength : ss.length = w.listed.length := by simpa using (congrArg List.length hmap).symm
  obtain ⟨w',r,hall,hadds,hresult⟩ := restoreAll_adds hg₀ hw₀ hchecked
  refine ⟨w',r,by rw [himport, hall],?_,fun hlisted => hinput ▸ hadds.unused hs hconsumed hlisted⟩
  obtain ⟨hrestorable,rfl⟩ | ⟨x,hx,e,hread,hgreat,rfl⟩ := hresult
  · have hlt := (List.getElem?_eq_some_iff.mp hs).1
    refine Or.inl ⟨by rw [hlength],?_⟩
    rw [hadds.listed, List.takeWhile_eq_self_iff.mpr hrestorable, List.mem_append, List.mem_range']
    exact Or.inr ⟨j,hlt,by rw [Nat.one_mul]⟩
  · have hmem : some x ∈ w.listed.map w.saved? := by
      rw [hmap]
      exact List.mem_map_of_mem hx
    obtain ⟨m,hm,hsaved⟩ := List.mem_map.mp hmem
    exact Or.inr ⟨m,hm,x,e,hsaved,hread,hgreat,rfl⟩

end World

namespace Session
open World

variable {s₀ s₁ s s₂ s₃ : Session} {tasks₁ tasks rest : List Task} {k : Nat} {e : Entry}

/-- What can be got to from a session, with what is to be done, as long as the input of entry `k` is not set. -/
inductive Unset (k : Nat) (s₀ : Session) (tasks₀ : List Task) : Session → List Task → Prop where
  | start : Unset k s₀ tasks₀ s₀ tasks₀
  | ask {s : Session} {tasks : List Task} (subject : Option String) {c : Command} : Unset k s₀ tasks₀ s tasks →
      (∀ t ∈ tasks.head?, t.inScript = true ∨ t.isEnd = true) → c.Sound →
      Unset k s₀ tasks₀ s (.command subject c :: tasks)
  | work {s : Session} {t : Task} {rest : List Task} : Unset k s₀ tasks₀ s (t :: rest) → t.replaces? s ≠ some k →
      Unset k s₀ tasks₀ (s.step t rest).1 (s.step t rest).2

theorem Unset.leads (h : Unset k s₁ tasks₁ s tasks) (h₁ : s₀.Leads s₁ tasks₁) : s₀.Leads s tasks := by
  induction h with
  | start => exact h₁
  | ask subject _ hopen hc ih => exact ih.ask subject hopen hc
  | work _ _ ih => exact ih.work

/-- All the while an entry without a further duration stays without one. -/
theorem Unset.spares (h : Unset k s₁ tasks₁ s tasks) (he : s₁.world.entries[k]? = some e) (hu : e.upcoming = none) :
    ∃ l, s.world.entries[k]? = some { e with listed := l } := by
  induction h with
  | start => exact ⟨e.listed,he⟩
  | ask _ _ _ _ ih => exact ih
  | @work s t rest _ hk ih =>
    obtain ⟨l,hl⟩ := ih
    exact (moves_step s t rest).spares (e := { e with listed := l }) hl hu hk

theorem Unset.proceed (h : Unset k s₁ tasks₁ s tasks) (he : s₁.world.entries[k]? = some e) (hu : e.upcoming = none) :
    s.proceed k = (s,[]) := by
  obtain ⟨l,hl⟩ := h.spares he hu
  have hnone : ({ e with listed := l } : Entry).upcoming = none := hu
  simp [Session.proceed, hl, hnone]

/-- An entry has an input and a next duration, or none: then no finish of its timer ever starts one, unless the
input is set before. -/
structure Awaits (s : Session) (tasks : List Task) (k : Nat) (text : String) (next : Option Int) : Prop where
  view : ∃ v, s.world.view? k = some v ∧ v.input = text ∧ v.upcoming = next
  goesOn : (s.world.next? k).isSome = next.isSome
  rests : next = none → ∀ s' tasks', Unset k s tasks s' tasks' → s'.proceed k = (s',[])

theorem awaits {t : Timer} (he : s.world.entries[k]? = some e) (ht : s.world.timers[e.timer]? = some t) :
    s.Awaits tasks k e.input e.upcoming where
  view := ⟨_,view?_eq he ht,rfl,rfl⟩
  goesOn := isSome_next? he ht
  rests hu _ _ h := h.proceed he hu

/-- A timer that is created with a duration of its own has no next one, whatever is done until its input is set.
The export is imported into any deck, unless that stops at too great a number; and then the restored timer
awaits the second duration of the input, whatever duration was given. It is as before if and only if the input
has no second duration or cannot be read. -/
theorem explicit_reimported {subject : Option String} {text : String} {d : Number.Amount} {w : World}
    (h₀ : s₀.Fresh) (hnone : s₀.world.timers = [])
    (h : s₀.Leads s (.command subject (.create text (some d)) :: rest))
    (hcreate : s.world.create text (some d) = .ok (w,k)) (hlater : Unset k (s.withWorld w) rest s₂ tasks) :
    s₂.Awaits tasks k text none ∧
    ((∃ out, s₂.world.exported = .ok out) ↔ ∀ m ∈ s₂.world.listed, ∀ x, s₂.world.saved? m = some x →
      0 ≤ x.fields.accumulated ∧ x.Short) ∧
    ∀ (j : Nat) (out : String) (s₃ : Session) (tasks₃ : List Task) (fuel : Nat), s₂.world.listed[j]? = some k →
      s₂.world.exported = .ok out → Reached s₃ tasks₃ → ∃ w' r,
        s₃.run fuel (.importAll (some out)) = some (s₃.withWorld w',r) ∧
        (r = .ok (.entries (List.range' s₃.world.entries.length s₂.world.listed.length)) ∧
            s₃.world.entries.length + j ∈ w'.listed ∨
          ∃ m ∈ s₂.world.listed, ∃ x e, s₂.world.saved? m = some x ∧
            Queue.read s₃.world.separator x.input = .error e ∧ e.TooGreat ∧ r = .error (.sequence e)) ∧
        (s₃.world.entries.length + j ∈ w'.listed → (s₃.withWorld w').Awaits tasks₃ (s₃.world.entries.length + j)
          text (secondDuration s₃.world.separator text)) := by
  have hcreated := create_some hcreate
  have hstep : s.step (.command subject (.create text (some d))) rest = (s.withWorld w,rest) := by
    simp [step, task, perform, hcreate, ok]
  have hleads : s₀.Leads s₂ tasks := by
    refine hlater.leads ?_
    have hwork := h.work
    rwa [hstep] at hwork
  have hreached := hleads.reached (.fresh h₀)
  obtain ⟨l,he⟩ := hlater.spares hcreated rfl
  obtain ⟨t,ht⟩ : ∃ t, s₂.world.timers[s.world.timers.length]? = some t := by
    have hlt := hreached.wired.timers k _ (by rw [owner?, he]; rfl)
    exact ⟨_,List.getElem?_eq_getElem hlt⟩
  refine ⟨awaits he ht,(exported_any_time h₀ hnone hleads).1,fun j out s₃ tasks₃ fuel hj hout h₃ => ?_⟩
  obtain ⟨w',r,himport,hresult,hrestored⟩ := import_unqueued hreached.wired he hj hout h₃.guarded h₃.wired
  refine ⟨w',r.map .entries,by rw [run_import, himport],?_,fun hlisted => ?_⟩
  · obtain ⟨rfl,hin⟩ | ⟨m,hm,x,e,hsaved,hread,hgreat,rfl⟩ := hresult
    · exact Or.inl ⟨rfl,hin⟩
    · exact Or.inr ⟨m,hm,x,e,hsaved,hread,hgreat,rfl⟩
  · obtain ⟨n,u,queue,hentry,hu,hupcoming⟩ := hrestored hlisted
    have hawaits : (s₃.withWorld w').Awaits tasks₃ _ text (queue.bind Queue.peek) :=
      awaits (e := ⟨n,text,queue,true⟩) hentry hu
    rwa [hupcoming] at hawaits

/-- Five seconds are given for an input of five minutes, and the timer runs when it is exported. -/
theorem explicit_reimported_single :
    let s₀ : Session := { world := { line := { now := 1000 } } }
    let s₃ : Session := { world := { line := { now := 41000 } } }
    ∃ (s₂ : Session) (out : String) (w' : World) (v : View), s₂.world.listed = [0] ∧ s₀.Leads s₂ [] ∧
      s₂.world.exported = .ok out ∧ s₂.proceed 0 = (s₂,[]) ∧
      s₃.run 0 (.importAll (some out)) = some (s₃.withWorld w',.ok (.entries [0])) ∧
      w'.view? 0 = some v ∧ v.input = "5m" ∧ v.upcoming = none ∧ (s₃.withWorld w').proceed 0 = (s₃.withWorld w',[]) := by
  intro s₀ s₃
  have hfresh₀ : s₀.Fresh := ⟨by simp [s₀],rfl,rfl,rfl,rfl,rfl⟩
  have hfresh₃ : s₃.Fresh := ⟨by simp [s₃],rfl,rfl,rfl,rfl,rfl⟩
  let c := Command.create "5m" (some (.int 5000))
  let w : World := { s₀.world with
    timers := [{ duration := 5000, listeners := [.entry 0] }], entries := [⟨0,"5m",none,true⟩] }
  let start := Task.command none (.act (.id "t1") .start)
  let s₂ := ((s₀.withWorld w).step start []).1
  have hasked : s₀.Leads s₀ [.command none c] := Leads.start.ask none (by simp) (by simp [c])
  have hcreated : s₀.Leads (s₀.withWorld w) [] := hasked.work
  have hstarted : Unset 0 (s₀.withWorld w) [] s₂ [] :=
    .work (.ask none .start (by simp) (by simp [Action.Sound])) nofun
  have hstate : s₂.world.listed = [0] ∧
      s₂.world.saved? 0 = some ⟨⟨5000,some 1000,some 1000,none,0,false⟩,"5m",0⟩ := by decide +kernel
  obtain ⟨hlisted,hsaved⟩ := hstate
  have hsecond : secondDuration ":" "5m" = none := by decide +kernel
  obtain ⟨hbefore,hexports,himports⟩ := explicit_reimported (w := w) (k := 0) hfresh₀ rfl hasked rfl hstarted
  have honly : ∀ m ∈ s₂.world.listed, ∀ x, s₂.world.saved? m = some x →
      x = ⟨⟨5000,some 1000,some 1000,none,0,false⟩,"5m",0⟩ := by
    intro m hm x hx
    rw [hlisted, List.mem_singleton] at hm
    rw [hm, hsaved] at hx
    exact (Option.some.inj hx).symm
  obtain ⟨out,hout⟩ := hexports.mpr fun m hm x hx => by
    rw [honly m hm x hx]
    exact ⟨by decide,Snapshot.short_of_lt (by decide)⟩
  obtain ⟨w',r,hrun,hresult,hrestored⟩ :=
    himports 0 out s₃ [] 0 (by rw [hlisted]; rfl) hout (.fresh hfresh₃)
  obtain ⟨rfl,hin⟩ | ⟨m,hm,x,e,hx,hread,-,-⟩ := hresult
  · obtain ⟨⟨v,hv,hinput,hnext⟩,-,hrests⟩ := hrestored hin
    rw [hlisted] at hrun
    exact ⟨s₂,out,w',v,hlisted,hstarted.leads hcreated,hout,hbefore.rests rfl _ _ .start,hrun,hv,hinput,
      hnext.trans hsecond,hrests hsecond _ _ .start⟩
  · rw [honly m hm x hx] at hread
    have hfine : (Queue.read s₃.world.separator "5m").isOk = true := by decide +kernel
    rw [hread] at hfine
    exact absurd hfine Bool.false_ne_true

/-- Five seconds are given for an input of one second and then two. After an import the finish starts the two
seconds, which were not to come. -/
theorem explicit_forgotten :
    let s₀ : Session := { world := { line := { now := 1000 } } }
    let cs := [Command.create "1s + 2s" (some (.int 5000)),.exportAll,.importAll none]
    let later := [Command.act (.id "t1") .start,.act (.id "t2") .start,.advance 5000]
    (∃ s, s₀.runAll 9 cs = some s ∧ s.world.listed = [0,1] ∧
      (s.world.view? 0).map (fun v => (v.input,v.upcoming)) = some ("1s + 2s",none) ∧
      (s.world.view? 1).map (fun v => (v.input,v.upcoming)) = some ("1s + 2s",some 2000)) ∧
    ∃ s, s₀.runAll 20 (cs ++ later) = some s ∧
      (s.world.view? 0).map (fun v => (v.duration,v.finished)) = some (5000,true) ∧
      (s.world.view? 1).map (fun v => (v.duration,v.finished)) = some (2000,false) := by
  intro s₀ cs later
  have himported : (s₀.runAll 9 cs).map (fun s => (s.world.listed,
      (s.world.view? 0).map (fun v => (v.input,v.upcoming)),(s.world.view? 1).map (fun v => (v.input,v.upcoming)))) =
      some ([0,1],some ("1s + 2s",none),some ("1s + 2s",some 2000)) := by decide +kernel
  have hfinished : (s₀.runAll 20 (cs ++ later)).map (fun s => (
      (s.world.view? 0).map (fun v => (v.duration,v.finished)),(s.world.view? 1).map (fun v => (v.duration,v.finished)))) =
      some (some (5000,true),some (2000,false)) := by decide +kernel
  obtain ⟨s,hrun,hs⟩ := Option.map_eq_some_iff.mp himported
  obtain ⟨s',hrun',hs'⟩ := Option.map_eq_some_iff.mp hfinished
  simp only [Prod.mk.injEq] at hs hs'
  exact ⟨⟨s,hrun,hs⟩,s',hrun',hs'⟩

end Session
end Countdown
