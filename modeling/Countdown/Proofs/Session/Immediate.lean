import Countdown.Proofs.Sequence.Sign
import Countdown.Proofs.Session.Progress
set_option autoImplicit false

namespace Countdown.Session
open World Sequence

variable {s : Session} {n k : Nat} {t : Timer} {e : Entry}

/-- A timer with time left is started without that anybody is called. -/
theorem start_quiet {w : World} (hg : w.Guarded) (ht : w.timers[n]? = some t) (hd : 0 < t.duration) :
    (t.start n w.line).announced = none ∧ (t.start n w.line).line.now = w.now ∧
      (t.isStarted = false → t.closed = false →
        (t.start n w.line).timer.isRunning = true ∧
        (t.start n w.line).timer.remaining w.now = t.duration) := by
  have hsound := (hg.timers n t ht).start
  by_cases hidle : t.isStarted = false ∧ t.closed = false
  · obtain ⟨a,f,hf,hnone,htimer,-,-⟩ := start_startedOn hg ht hidle.1 hidle.2 hd
    have hremaining : (t.startedOn t.duration w.now a).remaining w.now = t.duration := by
      simp [Timer.startedOn, Timer.remaining, Timer.elapsed]
    refine ⟨?_,hsound.now,fun _ _ => ?_⟩
    · rw [hf]
      exact hnone
    · rw [hf, htimer]
      exact ⟨rfl,hremaining⟩
  · have hbusy : (t.isStarted || t.closed) = true := by
      cases hs : t.isStarted <;> cases hc : t.closed <;> simp_all
    refine ⟨?_,hsound.now,fun hs hc => absurd ⟨hs,hc⟩ hidle⟩
    rw [Timer.start, if_pos hbusy]
    rfl

theorem perform_start (he : s.world.entries[k]? = some e) (hl : e.listed = true)
    (ht : s.world.timers[e.timer]? = some t) (hnone : (t.start e.timer s.world.line).announced = none) :
    s.perform none (.act (.id (Entry.idOf k)) .start) =
      (s.withWorld (s.world.take e.timer (t.start e.timer s.world.line)).1).ok [] .done := by
  have htimer? : s.timer? none (.id (Entry.idOf k)) = some e.timer := by
    simp [timer?, entry?, find?_idOf he hl, he]
  simp [perform, htimer?, act, ht, applyAction, take_of_not_announced _ _ hnone, Session.calls]

theorem start_takes_nothing (h : s.world.Guarded) (he : s.world.entries[k]? = some e) (hl : e.listed = true)
    (ht : s.world.timers[e.timer]? = some t) (hd : 0 < t.duration) :
    ∃ s', s.Runs (.act (.id (Entry.idOf k)) .start) s' ∧ s'.now = s.now ∧
      s'.world.entries = s.world.entries ∧
      (∀ id, Journal.deliveries id s'.world.journal = Journal.deliveries id s.world.journal) ∧
      (t.isStarted = false → t.closed = false → ∃ t', s'.world.timers[e.timer]? = some t' ∧
        t'.isRunning = true ∧ t'.remaining s.now = t.duration) := by
  obtain ⟨hnone,hnow,hruns⟩ := start_quiet h ht hd
  refine ⟨_,Settles.runs (perform_start he hl ht hnone) (.nil _),?_,entries_take _ _ _,
    fun id => deliveries_take _ _ _ _,fun hs hc => ⟨_,getElem?_take ht _,hruns hs hc⟩⟩
  change (s.world.take e.timer _).1.line.now = _
  rw [line_take]
  exact hnow

/-- The durations that a text with operators yields are positive, but for negative ones that are
written in it. If there are none of these, starting any timer of the deck that is on one of the
durations takes no further one: it runs, and all entries stay as they are. -/
theorem sequence_start (settings : Settings) {text : List Char} {r : Run} (hseq : isSequence text = true)
    (hread : Run.read settings.separator text = .ok r) :
    (∀ i d, Cursor.nth? [r] i = some d → Signed settings.separator (writtenDurations text) d) ∧
    ((∀ t ∈ writtenDurations text, ∀ d, Duration.read settings.separator t = .ok d → 0 ≤ d) →
      (∀ i d, Cursor.nth? [r] i = some d → 0 < d) ∧
      ∀ s : Session, Reached s [] → ∀ k e t i, s.world.entries[k]? = some e → e.listed = true →
        s.world.timers[e.timer]? = some t → Cursor.nth? [r] i = some t.duration →
        ∃ s', s.Runs (.act (.id (Entry.idOf k)) .start) s' ∧ s'.now = s.now ∧
          s'.world.entries = s.world.entries ∧
          (∀ id, Journal.deliveries id s'.world.journal = Journal.deliveries id s.world.journal) ∧
          (t.isStarted = false → t.closed = false → ∃ t', s'.world.timers[e.timer]? = some t' ∧
            t'.isRunning = true ∧ t'.remaining s.now = t.duration)) := by
  have hsigned : ∀ i d, Cursor.nth? [r] i = some d → Signed settings.separator (writtenDurations text) d :=
    fun i d hd => nth?_signed hseq hread hd
  refine ⟨hsigned,fun hneg => ?_⟩
  have hpos : ∀ i d, Cursor.nth? [r] i = some d → 0 < d := by
    intro i d hd
    obtain hlt | ⟨hlt,v,hv,hvalue⟩ := hsigned i d hd
    · exact hlt
    · have hge := hneg v hv d hvalue
      omega
  refine ⟨hpos,fun s h k e t i he hl ht hd => ?_⟩
  exact start_takes_nothing h.guarded he hl ht (hpos i _ hd)

/-- Half a minute, twice. -/
theorem sequence_start_half_minutes :
    let s₀ : Session := { world := { line := { now := 1000 } } }
    ∃ s s' t, s₀.Runs (.create "30s * 2" none) s ∧ s.Runs (.act (.id "t1") .start) s' ∧
      s'.world.entries = [⟨0,"30s * 2",some (Queue.past [.again (.one 30000) (some 1)] 1),true⟩] ∧
      s'.world.timers[0]? = some t ∧ t.isRunning = true ∧ t.remaining 1000 = 30000 := by
  intro s₀
  have hfresh : Reached s₀ [] := .fresh ⟨by simp [s₀],rfl,rfl,rfl,rfl,rfl⟩
  have hread : Run.read Settings.defaults.separator "30s * 2".toList = .ok (.again (.one 30000) (some 1)) := rfl
  obtain ⟨-,hrest⟩ := sequence_start Settings.defaults (by decide) hread
  have hwritten : ∀ t ∈ writtenDurations "30s * 2".toList, ∀ d,
      Duration.read Settings.defaults.separator t = .ok d → 0 ≤ d := by
    intro t ht d hd
    have hmem : t ∈ ["30s".toList] := ht
    rw [List.mem_singleton.mp hmem] at hd
    have hthirty : Duration.read Settings.defaults.separator "30s".toList = .ok 30000 := rfl
    rw [hthirty] at hd
    cases hd
    decide
  obtain ⟨-,hstart⟩ := hrest hwritten
  have hcreate : s₀.world.create "30s * 2" none = .ok (created s₀.world 30000 "30s * 2" _,0) :=
    create_eq (by decide) hread rfl (by decide)
  have hruns : s₀.Runs (.create "30s * 2" none) _ :=
    Settles.runs (r := .entry 0) (by simp only [perform, hcreate]; rfl) (.nil _)
  have hreached := hfresh.runs (Command.sound_create _ _) hruns
  obtain ⟨s',hruns',-,hentries,-,htimer⟩ := hstart _ hreached 0 _ _ 0 (created_entry s₀.world) rfl
    (created_timer s₀.world) rfl
  obtain ⟨t,ht,hrunning,hremaining⟩ := htimer rfl rfl
  exact ⟨_,s',t,hruns,hruns',hentries,ht,hrunning,hremaining⟩

/-- A negative duration is accepted, and is over as soon as it is started. -/
theorem sequence_start_negative :
    let s₀ : Session := { world := { line := { now := 1000 } } }
    isSequence "-1s + 5m".toList = true ∧
    Run.read Settings.defaults.separator "-1s + 5m".toList = .ok (.append (.one (-1000)) (.one 300000)) ∧
    ((s₀.runAll 20 [.create "-1s + 5m" none,.act (.id "t1") .start]).bind fun s => s.world.view? 0).map
      (fun v => (v.consumed,v.duration)) = some (2,300000) :=
  ⟨by decide,rfl,by decide +kernel⟩

end Countdown.Session
