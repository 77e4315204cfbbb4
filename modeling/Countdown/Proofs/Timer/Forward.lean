import Countdown.Proofs.Timer.Evolution
set_option autoImplicit false

namespace Countdown

namespace Timer

/-- Times that could have come about under a clock that has only gone forward up to `now`. -/
structure Forward (t : Timer) (now : Int) : Prop where
  duration : 0 ≤ t.duration
  accumulated : 0 ≤ t.accumulated
  resumed : ∀ r, t.resumedAt = some r → r ≤ now

variable {t u : Timer} {n : Nat} {line : Timeline} {now now' : Int}

theorem Forward.mono (h : t.Forward now) (hle : now ≤ now') : t.Forward now' :=
  ⟨h.duration,h.accumulated,fun r hr => Int.le_trans (h.resumed r hr) hle⟩

theorem Forward.congr (h : t.Forward now) (hd : u.duration = t.duration) (ha : u.accumulated = t.accumulated)
    (hr : u.resumedAt = t.resumedAt) : u.Forward now := by
  refine ⟨?_,?_,?_⟩
  · rw [hd]
    exact h.duration
  · rw [ha]
    exact h.accumulated
  · rw [hr]
    exact h.resumed

theorem Forward.elapsed (h : t.Forward now) : 0 ≤ t.elapsed now := by
  unfold Timer.elapsed
  split
  · exact h.accumulated
  · rename_i r hr
    have hle := h.resumed r hr
    have hspent := h.accumulated
    omega

theorem forward_idle (hd : 0 ≤ t.duration) (ha : t.accumulated = 0) (hr : t.resumedAt = none) : t.Forward now := by
  refine ⟨hd,Int.le_of_eq ha.symm,fun r h => ?_⟩
  rw [hr] at h
  contradiction

/-- A run that goes on adds no more than the time up to now. -/
theorem Forward.evolves (h : t.Forward now) (he : t.fields.Evolves now u.fields) : u.Forward now := by
  suffices hfields : ∀ f, t.fields.Evolves now f → 0 ≤ f.accumulated ∧ ∀ r, f.resumedAt = some r → r ≤ now by
    obtain ⟨ha,hr⟩ := hfields u.fields he
    exact ⟨he.duration h.duration,ha,hr⟩
  intro f hf
  cases hf with
  | adjusted _ _ => exact ⟨h.accumulated,h.resumed⟩
  | started b _ =>
    refine ⟨Int.le_refl _,?_⟩
    rintro r ⟨⟩
    exact Int.le_refl _
  | resumed b _ _ _ =>
    refine ⟨h.accumulated,?_⟩
    rintro r ⟨⟩
    exact Int.le_refl _
  | paused _ => exact ⟨h.elapsed,nofun⟩
  | stopped _ => exact ⟨h.elapsed,nofun⟩

theorem Forward.wake (h : t.Forward now) (n g : Nat) (line : Timeline) : (t.wake n g line).timer.Forward now :=
  h.evolves ((marked_wake t n g line).evolves now)

theorem Forward.reset (h : t.Forward now) (d : Option Number.Amount) (line : Timeline) :
    (t.reset d line).1.timer.Forward now := by
  obtain ⟨d',hfields,hd⟩ := reset_fields t d line
  refine forward_idle ?_ (congrArg TimerFields.accumulated hfields) (congrArg TimerFields.resumedAt hfields)
  have hduration : (t.reset d line).1.timer.duration = d' := congrArg TimerFields.duration hfields
  rw [hduration]
  exact hd h.duration

theorem Forward.applyAction (h : t.Forward line.now) (n : Nat) {a : Action} (ha : a.isPlain = true) :
    (Session.applyAction t n a line).1.timer.Forward line.now := by
  cases a with
  | reset d => exact h.reset d line
  | setFields f => contradiction
  | _ => exact h.evolves (applyAction_evolves t n rfl line)

end Timer
end Countdown
