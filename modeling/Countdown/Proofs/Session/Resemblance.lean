import Countdown.Proofs.Session.Settling
set_option autoImplicit false

namespace Countdown

/-- What a note says apart from the failures of scripts, which it may say nothing else about. The numbers
of announcements, which count those failures, do not matter. -/
def Note.calm? : Note → Option Note
  | .logged .listenerFailed | .logged .callbackFailed => none
  | .called c now => some (.called ⟨0,c.listener⟩ now)
  | n => some n

def Journal.calm (j : List Note) : List Note := j.filterMap Note.calm?

namespace World

/-- Two worlds that differ at most in the failures of scripts that were logged. -/
def Resembles (w v : World) : Prop :=
  ∃ j, Journal.calm j = Journal.calm w.journal ∧ v = { w with journal := j }

variable {w v : World}

theorem Resembles.refl (w : World) : w.Resembles w := ⟨w.journal,rfl,rfl⟩

theorem Resembles.note {x y : Note} (h : w.Resembles v) (hxy : y.calm? = x.calm?) :
    (w.note x).Resembles (v.note y) := by
  obtain ⟨j,hj,rfl⟩ := h
  refine ⟨j ++ [y],?_,rfl⟩
  simp only [Journal.calm] at hj
  simp [Journal.calm, World.note, hj, List.filterMap_cons, hxy]

theorem Resembles.fault (h : w.Resembles v) (site : Site) : w.Resembles (v.log site.log) := by
  obtain ⟨j,hj,rfl⟩ := h
  refine ⟨j ++ [.logged site.log],?_,rfl⟩
  have hnone : Note.calm? (.logged site.log) = none := by cases site <;> rfl
  rw [← hj]
  simp [Journal.calm, hnone]

theorem Resembles.logs (h : w.Resembles v) (ls : List Log) : (ls.foldl log w).Resembles (ls.foldl log v) := by
  induction ls generalizing w v with
  | nil => exact h
  | cons l ls ih => exact ih (h.note rfl)

theorem Resembles.map {f : World → World} (h : w.Resembles v)
    (hf : ∀ (w : World) j, f { w with journal := j } = { f w with journal := j }) : (f w).Resembles (f v) := by
  obtain ⟨j,hj,rfl⟩ := h
  have hsame : f w = { f w with journal := w.journal } := hf w w.journal
  have hkept : (f w).journal = w.journal := by rw [hsame]
  exact ⟨j,by rw [hkept, hj],hf w j⟩

theorem Resembles.take (h : w.Resembles v) (n : Nat) (e : Timer.Effect) : (w.take n e).1.Resembles (v.take n e).1 ∧
    (w.take n e).2.map Call.listener = (v.take n e).2.map Call.listener := by
  have hset : ({ w.setTimer n e.timer with line := e.line } : World).Resembles
      { v.setTimer n e.timer with line := e.line } :=
    h.map (f := fun w => { w.setTimer n e.timer with line := e.line }) fun _ _ => rfl
  have hnoted := hset.note (x := .cleared n) (y := .cleared n) rfl
  unfold World.take
  cases e.cleared <;> cases e.announced
  case false.none => exact ⟨hset,rfl⟩
  case true.none => exact ⟨hnoted,rfl⟩
  case false.some ls => exact ⟨hset.note rfl,by simp⟩
  case true.some ls => exact ⟨hnoted.note rfl,by simp⟩

theorem Resembles.unlist (h : w.Resembles v) (k : Nat) : (w.unlist k).Resembles (v.unlist k) := by
  refine h.map (f := fun w => w.unlist k) fun w j => ?_
  have htimer : ({ w with journal := j } : World).timerOf? k = w.timerOf? k := rfl
  unfold World.unlist
  rw [htimer]
  cases w.entries[k]? with
  | none => rfl
  | some e => cases w.timerOf? k <;> rfl

theorem Resembles.unlistAll (h : w.Resembles v) : w.unlistAll.Resembles v.unlistAll := by
  have hlisted : v.listed = w.listed := by
    obtain ⟨j,-,rfl⟩ := h
    rfl
  unfold World.unlistAll
  rw [hlisted]
  clear hlisted
  generalize w.listed = ks
  induction ks generalizing w v with
  | nil => exact h
  | cons k ks ih => exact ih (h.unlist k)

/-- An operation that may fail does so in both worlds, or in neither and with like results. -/
inductive BothOk {α : Type} (R : α → α → Prop) : Except Failure α → Except Failure α → Prop where
  | error (f : Failure) : BothOk R (.error f) (.error f)
  | ok {a b : α} (h : R a b) : BothOk R (.ok a) (.ok b)

theorem Resembles.addEntry (h : w.Resembles v) (n : Nat) (input : String) (queue : Option Queue) :
    (w.addEntry n input queue).1.Resembles (v.addEntry n input queue).1 ∧
      (w.addEntry n input queue).2 = (v.addEntry n input queue).2 := by
  refine ⟨h.map (f := fun w => (w.addEntry n input queue).1) fun _ _ => rfl,?_⟩
  obtain ⟨j,-,rfl⟩ := h
  rfl

theorem Resembles.create (h : w.Resembles v) (input : String) (a : Option Number.Amount) :
    BothOk (fun p q => p.1.Resembles q.1 ∧ p.2 = q.2) (w.create input a) (v.create input a) := by
  have hread : v.readInput input = w.readInput input := by
    obtain ⟨j,-,rfl⟩ := h
    rfl
  have hlength : v.timers.length = w.timers.length := by
    obtain ⟨j,-,rfl⟩ := h
    rfl
  have hentry : ∀ (t : Timer) (queue : Option Queue),
      let w' := ({ w with timers := w.timers ++ [t] } : World).addEntry w.timers.length input queue
      let v' := ({ v with timers := v.timers ++ [t] } : World).addEntry v.timers.length input queue
      w'.1.Resembles v'.1 ∧ w'.2 = v'.2 := by
    intro t queue
    have hadd : ({ w with timers := w.timers ++ [t] } : World).Resembles { v with timers := v.timers ++ [t] } :=
      h.map (f := fun w => { w with timers := w.timers ++ [t] }) fun _ _ => rfl
    rw [hlength]
    exact hadd.addEntry w.timers.length input queue
  unfold World.create
  rw [hread]
  cases a with
  | some x =>
    simp only [bind, Except.bind, pure, Except.pure]
    cases Timer.ofDuration x with
    | error e => exact .error _
    | ok t => exact .ok (hentry t none)
  | none =>
    cases w.readInput input with
    | error f => exact .error f
    | ok r =>
      simp only [Except.map, bind, Except.bind]
      cases Timer.ofDuration (.int r.2) with
      | error e => exact .error _
      | ok t => exact .ok (hentry t r.1)

theorem Resembles.setEntry (h : w.Resembles v) (k : Nat) (e : Entry) : (w.setEntry k e).Resembles (v.setEntry k e) :=
  h.map (f := fun w => w.setEntry k e) fun _ _ => rfl

theorem Resembles.looks (h : w.Resembles v) : v.line = w.line ∧ v.timers = w.timers ∧ v.entries = w.entries ∧
    v.separator = w.separator ∧ v.callbacks = w.callbacks ∧ v.timerOf? = w.timerOf? ∧ v.find? = w.find? ∧
    v.view? = w.view? := by
  obtain ⟨j,-,rfl⟩ := h
  exact ⟨rfl,rfl,rfl,rfl,rfl,rfl,rfl,rfl⟩

theorem Resembles.setInput (h : w.Resembles v) (k : Nat) (text : String) :
    BothOk Resembles (w.setInput k text) (v.setInput k text) := by
  obtain ⟨hline,-,hentries,hseparator,-,htimer,-⟩ := h.looks
  unfold World.setInput
  rw [hseparator, hentries, htimer]
  cases Queue.read w.separator text with
  | error e => exact .error _
  | ok q =>
    cases w.entries[k]? with
    | none => exact .ok h
    | some e =>
      cases w.timerOf? k with
      | none => exact .ok h
      | some p =>
        have hset := h.setEntry k { e with input := text, queue := some q.pop.2 }
        have htake := (hset.take p.1 (p.2.reset (q.pop.1.map .int) w.line).1).1
        refine .ok ?_
        simp only [World.setEntry] at htake ⊢
        rw [hline]
        exact htake

theorem Resembles.next? (h : w.Resembles v) (k : Nat) :
    Option.Rel (fun p q => p.1.Resembles q.1 ∧ p.2.map Call.listener = q.2.map Call.listener)
      (w.next? k) (v.next? k) := by
  obtain ⟨hline,-,hentries,-,-,htimer,-⟩ := h.looks
  unfold World.next?
  rw [hentries, htimer]
  cases w.entries[k]? with
  | none => exact .none
  | some e =>
    cases w.timerOf? k with
    | none => exact .none
    | some p =>
      dsimp only
      split
      · rename_i x q _
        have hset := h.setEntry k { e with queue := some q }
        have hreset := (hset.take p.1 (p.2.reset (some (.int x)) w.line).1).1
        have hstart := hreset.take p.1
          ((p.2.reset (some (.int x)) w.line).1.timer.start p.1 (p.2.reset (some (.int x)) w.line).1.line)
        refine .some ?_
        simp only [World.setEntry] at hstart ⊢
        rw [hline]
        exact hstart
      · exact .none

theorem Resembles.addRestored (h : w.Resembles v) (f : TimerFields) :
    (w.addRestored f).1.Resembles (v.addRestored f).1 ∧
      (w.addRestored f).2.map Call.listener = (v.addRestored f).2.map Call.listener := by
  obtain ⟨hline,htimers,-⟩ := h.looks
  have hadd : ({ w with timers := w.timers ++ [({} : Timer)] } : World).Resembles
      { v with timers := v.timers ++ [({} : Timer)] } :=
    h.map (f := fun w => { w with timers := w.timers ++ [({} : Timer)] }) fun _ _ => rfl
  unfold World.addRestored
  rw [hline]
  have htake := hadd.take w.timers.length (Timer.restore f w.timers.length w.line)
  rw [htimers] at htake ⊢
  exact htake

theorem Resembles.restoreAll (h : w.Resembles v) (ss : List Snapshot) :
    (w.restoreAll ss).1.Resembles (v.restoreAll ss).1 ∧ (w.restoreAll ss).2 = (v.restoreAll ss).2 := by
  induction ss generalizing w v with
  | nil => exact ⟨h,rfl⟩
  | cons s ss ih =>
    obtain ⟨-,htimers,-⟩ := h.looks
    have hadded := (h.addRestored s.fields).1
    obtain ⟨-,-,-,hseparator,-⟩ := hadded.looks
    simp only [World.restoreAll]
    rw [hseparator, htimers]
    cases restoreQueue (w.addRestored s.fields).1.separator s with
    | error e =>
      exact ⟨hadded.map (f := fun x => x.spendId w.timers.length s.input) fun _ _ => rfl,rfl⟩
    | ok r =>
      obtain ⟨hentry,hnumber⟩ := (hadded.logs r.2).addEntry w.timers.length s.input r.1
      obtain ⟨hrest,hresult⟩ := ih hentry
      refine ⟨hrest,?_⟩
      dsimp only
      rw [hnumber, hresult]

theorem Resembles.importText (h : w.Resembles v) (text : String) :
    (w.importText text).1.Resembles (v.importText text).1 ∧ (w.importText text).2 = (v.importText text).2 := by
  unfold World.importText
  cases Snapshot.readAll text with
  | error e => cases e <;> exact ⟨h,rfl⟩
  | ok r => exact (h.logs r.2).restoreAll r.1

theorem Resembles.exported (h : w.Resembles v) : v.exported = w.exported := by
  obtain ⟨hline,htimers,hentries,-,-,htimer,-⟩ := h.looks
  have hsnapshots : ∀ ks, v.snapshots ks = w.snapshots ks := by
    intro ks
    induction ks with
    | nil => rfl
    | cons k ks ih => simp only [World.snapshots, hentries, htimer, ih]
  have hlisted : v.listed = w.listed := by simp only [World.listed, hentries]
  simp only [World.exported, hlisted, hsnapshots]

end World

end Countdown
