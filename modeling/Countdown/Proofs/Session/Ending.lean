import Countdown.Proofs.Session.Caught
import Countdown.Proofs.Session.Immediate
set_option autoImplicit false

namespace Countdown.Session
open World

variable {s s' : Session} {n k : Nat} {t : Timer} {e : Entry} {a : Action} {id : String}

theorem sound_of_isSafe (h : a.isSafe = true) : a.Sound := by
  cases a <;> trivial

theorem Deck.act (h : s.Deck) (ht : s.world.timers[n]? = some t) (hs : s.world.Steady n) (ha : a.Sound) :
    (s.withWorld (s.world.take n (applyAction t n a s.world.line).1).1).Deck := by
  have hchange : s.world.Change [] _ _ := .act ht ha
  have hsound := applyAction_sound (h.guarded.timers n t ht) ha
  refine ⟨h.guarded.take ht hsound,h.wired.change hchange,h.listeners,h.callbacks,fun v hv hp => ?_⟩
  have hentries : (s.world.take n (applyAction t n a s.world.line).1).1.entries = s.world.entries :=
    entries_take _ _ _
  by_cases hn : v.owner = n
  · rw [hn]
    exact hs.congr hentries
  · have hold : v ∈ s.world.line.wakes := by
      obtain ⟨i,hi⟩ := List.getElem?_of_mem hv
      change (World.take _ _ _).1.line.wakes[i]? = _ at hi
      rw [line_take] at hi
      exact List.mem_of_getElem? ((hsound.agrees i v hn).mp hi)
    exact (h.steady v hold hp).congr hentries

theorem Deck.settles_act (h : s.Deck) (he : s.world.entries[k]? = some e) (hl : e.listed = true)
    (hs : s.world.Steady e.timer) (ha : a.isSafe = true) : ∃ s', s'.Deck ∧ ∀ rest s'', Settles s' rest s'' →
      Settles s (.command none (.act (.id (Entry.idOf k)) a) :: rest) s'' := by
  have howner : s.world.owner? k = some e.timer := by
    rw [owner?, he]
    rfl
  obtain ⟨t,ht⟩ : ∃ t, s.world.timers[e.timer]? = some t :=
    ⟨_,List.getElem?_eq_getElem (h.wired.timers k e.timer howner)⟩
  let f := (applyAction t e.timer a s.world.line).1
  have htask : s.task (.command none (.act (.id (Entry.idOf k)) a)) =
      (s.withWorld (s.world.take e.timer f).1).ok (Session.calls (s.world.take e.timer f).2) .done := by
    simp [task, perform, timer?, entry?, find?_idOf he hl, he, Session.act, ht, fault_of_isSafe ha, f]
  have h₁ := h.act ht hs (sound_of_isSafe ha)
  cases hann : f.announced with
  | none =>
    rw [take_of_not_announced _ _ hann] at htask
    exact ⟨_,h₁,fun rest s'' hset => Settles.ok htask hset⟩
  | some ls =>
    have hlatches := applyAction_latches t e.timer a s.world.line
    have ht₁ : (s.world.take e.timer f).1.timers[e.timer]? = some f.timer := getElem?_take ht f
    have hmine : ∀ c ∈ (s.world.take e.timer f).2, ∀ l, c.listener = .entry l →
        (s.world.take e.timer f).1.owner? l = some e.timer := by
      intro c hc l hlistens
      refine h₁.wired.listeners _ _ l ht₁ ?_
      rw [← hlistens]
      exact listener_of_take hlatches hc
    obtain ⟨s₂,h₂,-,hrest⟩ :=
      h₁.calls ht₁ (hlatches.told ls hann).2.2.1 (hs.congr (entries_take _ _ _)) hmine
    exact ⟨s₂,h₂,fun rest s'' hset => Settles.ok htask (hrest rest s'' hset)⟩

theorem next?_quiet {w w' : World} (hg : w.Guarded) (he : w.entries[k]? = some e) (hs : w.Steady e.timer)
    {cs : List Call} (hn : w.next? k = some (w',cs)) : cs = [] := by
  unfold next? at hn
  split at hn
  · rename_i e' n t he' htimer
    obtain rfl : e' = e := Option.some.inj (he'.symm.trans he)
    obtain ⟨ht,howner⟩ := timerOf?_eq htimer
    obtain rfl : e'.timer = n := by simpa [he'] using howner
    split at hn
    · rename_i d q hpop
      obtain ⟨q₀,hq,hpop⟩ := Option.map_eq_some_iff.mp hpop
      obtain ⟨hd,-⟩ := (hs k e' q₀ he rfl hq).pop hpop
      let w₁ := w.setEntry k { e' with queue := some q }
      let r := (t.reset (some (.int d)) w.line).1
      have hw₁ : w₁.Guarded := hg.congr rfl rfl
      have hsound : r.Sound e'.timer w₁.line := (hw₁.timers _ t ht).reset _
      have hr : (w₁.take e'.timer r).1.timers[e'.timer]? = some r.timer := getElem?_take ht r
      have hdur : 0 < r.timer.duration := by
        change 0 < max 0 d
        omega
      have hquiet := (start_quiet (hw₁.take ht hsound) hr hdur).1
      rw [line_take] at hquiet
      exact (Prod.mk.inj (Option.some.inj hn)).2.symm.trans (take_of_not_announced _ _ hquiet)
    · contradiction
  · contradiction

theorem settles_notify (hs : ∀ p ∈ s.callbacks, p.2.Looks) (id : String) : ∃ s', ∀ rest s'', Settles s' rest s'' →
    Settles s (.notify .state id :: rest) s'' := by
  obtain ⟨ns,text,-,hrest⟩ := leaves_notify (e := .state) (fun p hp _ => hs p hp) id
  exact ⟨_,hrest⟩

theorem Deck.settles_next (h : s.Deck) (he : s.world.entries[k]? = some e) (hl : e.listed = true)
    (hs : s.world.Steady e.timer) : ∃ s', Settles s [.command none (.next (.id (Entry.idOf k)))] s' := by
  have hperform : s.task (.command none (.next (.id (Entry.idOf k)))) = (s.next k).1.ok (s.next k).2 (.entry k) := by
    simp [task, perform, entry?, find?_idOf he hl, onEntry]
  cases hn : s.world.next? k with
  | none =>
    simp only [Session.next, hn] at hperform
    exact ⟨s,Settles.ok hperform (.nil _)⟩
  | some p =>
    obtain ⟨w,cs⟩ := p
    obtain rfl : cs = [] := next?_quiet h.guarded he hs hn
    simp only [Session.next, hn] at hperform
    obtain ⟨s',hrest⟩ := settles_notify (s := s.withWorld w) h.callbacks (Entry.idOf k)
    exact ⟨s',Settles.ok hperform (hrest _ _ (.nil _))⟩

end Countdown.Session
