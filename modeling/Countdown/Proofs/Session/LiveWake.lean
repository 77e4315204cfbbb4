import Countdown.Proofs.Session.Reached
set_option autoImplicit false

namespace Countdown

namespace World
open Timeline

/-- Every timer fits its wakes, and every wake belongs to a timer. -/
structure Guarded (w : World) : Prop where
  timers : ∀ (n : Nat) (t : Timer), w.timers[n]? = some t → t.Guarded n w.line
  owned : ∀ v ∈ w.line.wakes, v.owner < w.timers.length

/-- An operation on one timer leaves the wakes of all others alone. -/
theorem Guarded.effect {w w' : World} {n : Nat} {t : Timer} {e : Timer.Effect} (h : w.Guarded)
    (ht : w.timers[n]? = some t) (he : e.Sound n w.line) (htimers : w'.timers = w.timers.set n e.timer)
    (hline : w'.line = e.line) : w'.Guarded := by
  have hn : n < w.timers.length := (List.getElem?_eq_some_iff.mp ht).1
  constructor
  · intro m u hu
    rw [htimers, List.getElem?_set] at hu
    rw [hline]
    by_cases hm : n = m
    · subst hm
      simp only [hn, if_true] at hu
      cases hu
      exact he.guarded
    · rw [if_neg hm] at hu
      exact (h.timers m u hu).agrees (Ne.symm hm) he.agrees
  · intro v hv
    rw [htimers, List.length_set]
    rw [hline] at hv
    by_cases hm : v.owner = n
    · rw [hm]
      exact hn
    · obtain ⟨i,hi⟩ := List.getElem?_of_mem hv
      have hold := (he.agrees i v hm).mp hi
      exact h.owned v (List.mem_of_getElem? hold)

theorem Guarded.take {w : World} {n : Nat} {t : Timer} {e : Timer.Effect} (h : w.Guarded)
    (ht : w.timers[n]? = some t) (he : e.Sound n w.line) : (w.take n e).1.Guarded :=
  h.effect ht he (timers_take w n e) (line_take w n e)

theorem Guarded.congr {w w' : World} (h : w.Guarded) (ht : w'.timers = w.timers)
    (hl : w'.line = w.line) : w'.Guarded := by
  refine ⟨?_,?_⟩
  · rw [ht, hl]
    exact h.timers
  · rw [ht, hl]
    exact h.owned

theorem Guarded.add {w : World} (h : w.Guarded) (d : Int) :
    Guarded { w with timers := w.timers ++ [{ duration := d }] } := by
  constructor
  · intro n t ht
    obtain hlt | hge := Nat.lt_or_ge n w.timers.length
    · rw [List.getElem?_append_left hlt] at ht
      exact h.timers n t ht
    · have hkeeps : ({} : Alarm).Keeps n w.line := by
        apply Alarm.Keeps.of_empty
        intro v hv
        have := h.owned v hv
        omega
      rw [List.getElem?_append_right hge] at ht
      have hmem := List.mem_of_getElem? ht
      simp only [List.mem_singleton] at hmem
      subst hmem
      exact .of_not_running ⟨fun hr => absurd rfl hr,fun hs => absurd rfl hs⟩ rfl hkeeps rfl rfl
  · intro v hv
    have := h.owned v hv
    simp only [List.length_append, List.length_singleton]
    omega

theorem applyAction_sound {t : Timer} {n : Nat} {line : Timeline} (k : t.Guarded n line)
    {a : Action} (ha : a.Sound) : (Session.applyAction t n a line).1.Sound n line := by
  cases a with
  | start => exact k.start
  | resume => exact k.resume
  | pause => exact k.pause
  | stop => exact k.stop
  | close => exact k.close
  | reset d => exact k.reset d
  | add ms => exact k.add ms
  | setFields f => exact k.setFields ha

theorem Guarded.change {w w' : World} {made due : List Call} (h : w.Guarded)
    (hc : w.Change made due w') : w'.Guarded := by
  cases hc with
  | act ht ha => exact h.take ht (applyAction_sound (h.timers _ _ ht) ha)
  | ring hv ht => exact h.take ht ((h.timers _ _ ht).wake hv rfl)
  | orphan hv hnone =>
    have hlt := h.owned _ (List.mem_of_getElem? hv)
    have hge := List.getElem?_eq_none_iff.mp hnone
    omega
  | clock now => exact ⟨fun n t ht => (h.timers n t ht).setClock now,h.owned⟩
  | add d => exact h.add d
  | @listeners n t ls ht _ =>
    have k := h.timers n t ht
    have hs : Timer.Guarded { t with listeners := ls } n w.line :=
      ⟨⟨k.shaped.resumed,k.shaped.stopped⟩,k.closed,k.keeps,k.armed,k.watched⟩
    exact h.effect ht hs.silent rfl rfl
  | note hx => exact h.congr rfl rfl
  | call c => exact h.congr rfl rfl
  | aside ht hl hj _ => exact h.congr ht hl

theorem guarded_of_fresh {s : Session} (h : s.Fresh) : s.world.Guarded := by
  constructor
  · intro n t ht
    obtain ⟨d,rfl⟩ := h.timers t (List.mem_of_getElem? ht)
    have hkeeps : ({} : Alarm).Keeps n s.world.line :=
      Alarm.Keeps.of_empty n (by simp [h.wakes])
    exact .of_not_running ⟨fun hr => absurd rfl hr,fun hs => absurd rfl hs⟩ rfl hkeeps rfl rfl
  · simp [h.wakes]

end World

namespace Session

theorem Reached.guarded {s : Session} {tasks : List Task} (h : Reached s tasks) :
    s.world.Guarded :=
  h.holds (fun _ hs => World.guarded_of_fresh hs) (fun _ _ _ _ hw hc => hw.change hc)

/-- At any time, every timer has at most one live wake; it has one only if it is running and not
closed, and it has one, of at most a day, if besides it has not finished. -/
theorem Reached.live_wakes {s : Session} {tasks : List Task} (h : Reached s tasks) {n : Nat}
    {t : Timer} (ht : s.world.timers[n]? = some t) :
    (s.world.line.live n).length ≤ 1 ∧
      (s.world.line.live n ≠ [] → t.isRunning = true ∧ t.closed = false) ∧
      (t.isRunning = true → t.closed = false → t.finished = false →
        ∃ v, s.world.line.live n = [v] ∧ 0 < v.wait ∧ v.wait ≤ maxWait) := by
  have k := h.guarded.timers n t ht
  cases hp : t.alarm.pending with
  | none =>
    have hlive := k.keeps.live_eq_nil hp
    refine ⟨by simp [hlive],fun hne => absurd hlive hne,?_⟩
    intro hr hc hf
    exact absurd hp (k.watched hr hc hf)
  | some i =>
    obtain ⟨v,-,hlive,hwait⟩ := k.keeps.live_eq hp
    have hopen := (k.keeps.held i hp).1
    refine ⟨by simp [hlive],fun _ => ⟨k.armed (by simp [hp]),?_⟩,fun _ _ _ => ⟨v,hlive,hwait⟩⟩
    rw [← k.closed]
    exact hopen

/-- A listener that starts its timer again leaves it with a wake. -/
theorem live_wakes_restarted :
    let s₀ : Session := { world := { line := { now := 1000 }, timers := [{ duration := 5 }] } }
    let again := [Command.act .focus (.reset none), .act .focus .start]
    let cs := [Command.listen "again" again false, .act .focus .start, .tick 9, .fire 0]
    let t : Timer := {
      duration := 5, startedAt := some 1009, resumedAt := some 1009
      listeners := [.named "again"], alarm := { pending := some 1, generation := 6 } }
    ∃ s, s₀.runAll 9 cs = some s ∧ s.world.timers[0]? = some t ∧
      ∃ v, s.world.line.live 0 = [v] ∧ 0 < v.wait ∧ v.wait ≤ maxWait := by
  intro s₀ again cs t
  have hfresh : Reached s₀ [] := .fresh ⟨by simp [s₀],rfl,rfl,rfl,rfl,rfl⟩
  have hsound : ∀ c ∈ cs, c.Sound := by simp [cs, again, Action.Sound]
  have hget : (s₀.runAll 9 cs).bind (fun s => s.world.timers[0]?) = some t := by decide
  obtain ⟨s,hrun,ht⟩ := Option.bind_eq_some_iff.mp hget
  have hlive := (Reached.live_wakes (hfresh.runAll hsound hrun) ht).2.2
  exact ⟨s,hrun,ht,hlive rfl rfl rfl⟩

end Session
end Countdown
