import Countdown.Timer.Alarm
set_option autoImplicit false

/-!
Which wakes an alarm has on the timeline. At most one of them is live, and it is the one that the
alarm waits for; all others were cancelled, have fired or are of an older generation. An alarm
never touches the wakes of another.
-/

namespace Countdown

theorem filter_eq_singleton {α : Type} {p : α → Bool} {l : List α} {i : Nat} {a : α}
    (ha : l[i]? = some a) (hp : p a = true)
    (only : ∀ j b, l[j]? = some b → p b = true → j = i) : l.filter p = [a] := by
  induction l generalizing i with
  | nil => simp at ha
  | cons c l ih =>
    cases i with
    | zero =>
      obtain rfl : c = a := by simpa using ha
      have hnone : l.filter p = [] := by
        rw [List.filter_eq_nil_iff]
        intro b hb hpb
        obtain ⟨j,hj⟩ := List.getElem?_of_mem hb
        have h := only (j + 1) b (by simpa using hj) hpb
        omega
      simp [hp, hnone]
    | succ i =>
      have hc : p c = false := by
        by_cases h : p c = true
        · have := only 0 c (by simp) h
          omega
        · simpa using h
      have htail := ih (i := i) (by simpa using ha) (fun j b hj hb => by
        have h := only (j + 1) b (by simpa using hj) hb
        omega)
      simp [hc, htail]

namespace Timeline

def live (t : Timeline) (owner : Nat) : List Wake := t.pending.filter fun w => w.owner = owner

/-- The wakes that others than alarm `n` asked for are the same. -/
def Agrees (n : Nat) (t t' : Timeline) : Prop :=
  ∀ (i : Nat) (w : Wake), w.owner ≠ n → (t'.wakes[i]? = some w ↔ t.wakes[i]? = some w)

def Spent (t : Timeline) (n g : Nat) : Prop :=
  ∀ (i : Nat) (w : Wake), t.wakes[i]? = some w → w.owner = n → w.status ≠ .pending ∧ w.generation ≤ g

theorem Agrees.refl (n : Nat) (t : Timeline) : Agrees n t t := fun _ _ _ => Iff.rfl

theorem Agrees.trans {n : Nat} {a b c : Timeline} (h₁ : Agrees n a b) (h₂ : Agrees n b c) :
    Agrees n a c := fun i w h => (h₂ i w h).trans (h₁ i w h)

theorem agrees_modify {n i : Nat} {t : Timeline} {f : Wake → Wake}
    (hf : ∀ w, (f w).owner = w.owner)
    (hi : ∀ w, t.wakes[i]? = some w → w.owner = n) :
    Agrees n t { t with wakes := t.wakes.modify i f } := by
  intro j w hw
  simp only [List.getElem?_modify]
  by_cases hij : i = j
  · subst hij
    cases hv : t.wakes[i]? with
    | none => simp
    | some v =>
      have hvn := hi v hv
      constructor
      · intro h
        have : f v = w := by simpa using h
        rw [← this, hf] at hw
        contradiction
      · intro h
        obtain rfl : v = w := by simpa using h
        contradiction
  · simp [hij]

theorem agrees_schedule (t : Timeline) (n g : Nat) (wait : Int) :
    Agrees n t (t.schedule n g wait) := by
  intro i w hw
  simp only [schedule, List.getElem?_append]
  split
  · rfl
  · rename_i hi
    have hnone : t.wakes[i]? = none := List.getElem?_eq_none (by omega)
    rw [hnone]
    constructor
    · intro h
      have h := List.mem_of_getElem? h
      simp only [List.mem_singleton] at h
      subst h
      simp at hw
    · simp

theorem agrees_markFired {n i : Nat} {t : Timeline}
    (hi : ∀ w, t.wakes[i]? = some w → w.owner = n) : Agrees n t (t.markFired i) :=
  agrees_modify (by intro w; split <;> rfl) hi

theorem markFired_of_not_pending {t : Timeline} {i : Nat} {w : Wake} (hw : t.wakes[i]? = some w)
    (h : w.status ≠ .pending) : t.markFired i = t := by
  have hsame : t.wakes.modify i (fun v => if v.status = .pending then { v with status := .fired } else v) =
      t.wakes := by
    apply List.ext_getElem?
    intro j
    simp only [List.getElem?_modify]
    by_cases hij : i = j
    · subst hij
      simp [hw, h]
    · simp [hij]
  rw [markFired, hsame]

@[simp] theorem now_cancel (t : Timeline) (i : Nat) : (t.cancel i).now = t.now := rfl

@[simp] theorem now_markFired (t : Timeline) (i : Nat) : (t.markFired i).now = t.now := rfl

@[simp] theorem now_schedule (t : Timeline) (n g : Nat) (wait : Int) :
    (t.schedule n g wait).now = t.now := rfl

end Timeline

namespace Alarm
open Timeline

/-- What the timeline holds for alarm `n`. -/
structure Keeps (a : Alarm) (n : Nat) (t : Timeline) : Prop where
  bound : ∀ (i : Nat) (w : Wake), t.wakes[i]? = some w → w.owner = n → w.generation ≤ a.generation
  current : ∀ (i : Nat) (w : Wake), t.wakes[i]? = some w → w.owner = n →
    w.status = .pending ∨ w.generation = a.generation → a.pending = some i
  held : ∀ i, a.pending = some i → a.closed = false ∧ ∃ w : Wake, t.wakes[i]? = some w ∧ w.owner = n ∧
    w.status = .pending ∧ w.generation = a.generation ∧ 0 < w.wait ∧ w.wait ≤ maxWait

theorem Keeps.of_empty (n : Nat) {t : Timeline} (h : ∀ w ∈ t.wakes, w.owner ≠ n) :
    ({} : Alarm).Keeps n t where
  bound i w hi hn := absurd hn (h w (List.mem_of_getElem? hi))
  current i w hi hn := absurd hn (h w (List.mem_of_getElem? hi))
  held i hi := by simp at hi

theorem Keeps.agrees {a : Alarm} {n m : Nat} {t t' : Timeline} (k : a.Keeps m t) (hm : m ≠ n)
    (h : Agrees n t t') : a.Keeps m t' where
  bound i w hi hw := k.bound i w ((h i w (hw ▸ hm)).mp hi) hw
  current i w hi hw hg := k.current i w ((h i w (hw ▸ hm)).mp hi) hw hg
  held i hi := by
    obtain ⟨hc,w,hw,ho,rest⟩ := k.held i hi
    exact ⟨hc,w,(h i w (ho ▸ hm)).mpr hw,ho,rest⟩

theorem Keeps.live_eq_nil {a : Alarm} {n : Nat} {t : Timeline} (k : a.Keeps n t)
    (h : a.pending = none) : t.live n = [] := by
  simp only [live, Timeline.pending, List.filter_filter, List.filter_eq_nil_iff]
  intro w hw hp
  obtain ⟨i,hi⟩ := List.getElem?_of_mem hw
  simp only [Bool.and_eq_true, decide_eq_true_eq] at hp
  have := k.current i w hi hp.1 (Or.inl hp.2)
  simp [h] at this

theorem Keeps.live_eq {a : Alarm} {n i : Nat} {t : Timeline} (k : a.Keeps n t)
    (h : a.pending = some i) :
    ∃ w : Wake, t.wakes[i]? = some w ∧ t.live n = [w] ∧ 0 < w.wait ∧ w.wait ≤ maxWait := by
  obtain ⟨-,w,hw,ho,hs,hg,hwait⟩ := k.held i h
  refine ⟨w,hw,?_,hwait⟩
  simp only [live, Timeline.pending, List.filter_filter]
  apply filter_eq_singleton hw
  · simp [ho, hs]
  · intro j v hv hp
    simp only [Bool.and_eq_true, decide_eq_true_eq] at hp
    have := k.current j v hv hp.1 (Or.inl hp.2)
    rw [h] at this
    exact (Option.some.inj this).symm

@[simp] theorem now_cancelled (a : Alarm) (t : Timeline) : (a.cancelled t).now = t.now := by
  unfold cancelled; split <;> rfl

@[simp] theorem length_cancelled (a : Alarm) (t : Timeline) :
    (a.cancelled t).wakes.length = t.wakes.length := by
  unfold cancelled; split <;> simp [cancel]

theorem Keeps.agrees_cancelled {a : Alarm} {n : Nat} {t : Timeline} (k : a.Keeps n t) :
    Agrees n t (a.cancelled t) := by
  unfold cancelled
  split
  · rename_i i hi
    apply agrees_modify
    · intro w; split <;> rfl
    · intro w hw
      obtain ⟨-,v,hv,ho,-⟩ := k.held i hi
      rw [hw] at hv
      cases hv
      exact ho
  · exact Agrees.refl n t

theorem Keeps.spent_modify {a : Alarm} {n i : Nat} {t : Timeline} {s : WakeStatus}
    (k : a.Keeps n t) (hs : s ≠ .pending) (hi : a.pending = none ∨ a.pending = some i) :
    Spent { t with wakes := t.wakes.modify i fun w =>
      if w.status = .pending then { w with status := s } else w } n a.generation := by
  intro j w hw ho
  simp only [List.getElem?_modify] at hw
  cases hv : t.wakes[j]? with
  | none => simp [hv] at hw
  | some v =>
    simp only [hv, Option.map_eq_map, Option.map_some, Option.some.injEq] at hw
    by_cases hp : v.status = .pending
    · have hvo : v.owner = n := by
        rw [← ho, ← hw]
        split <;> simp
      have hcur := k.current j v hv hvo (Or.inl hp)
      obtain h | h := hi
      · rw [h] at hcur; contradiction
      · rw [h] at hcur
        obtain rfl : i = j := Option.some.inj hcur
        have hb := k.bound i v hv hvo
        subst hw
        simpa [hp, hs] using hb
    · have hvw : v = w := by
        rw [← hw]
        split <;> simp
      subst hvw
      exact ⟨hp, k.bound j v hv ho⟩

theorem Keeps.spent_cancelled {a : Alarm} {n : Nat} {t : Timeline} (k : a.Keeps n t) :
    (a.cancelled t).Spent n a.generation := by
  unfold cancelled
  cases h : a.pending with
  | none =>
    intro i w hi ho
    refine ⟨fun hp => ?_, k.bound i w hi ho⟩
    have := k.current i w hi ho (Or.inl hp)
    rw [h] at this
    contradiction
  | some i => exact k.spent_modify (by simp) (Or.inr h)

theorem keeps_renewed {a : Alarm} {n : Nat} {t : Timeline} (h : t.Spent n a.generation) :
    a.renewed.Keeps n t where
  bound i w hi ho := Nat.le_succ_of_le (h i w hi ho).2
  current i w hi ho hw := by
    have hs := h i w hi ho
    obtain hp | hg := hw
    · exact absurd hp hs.1
    · simp only [renewed] at hg; omega
  held i hi := by simp [renewed] at hi

theorem Keeps.disarm {a : Alarm} {n : Nat} {t : Timeline} (k : a.Keeps n t) :
    (a.disarm t).1.Keeps n (a.disarm t).2 := keeps_renewed k.spent_cancelled

theorem Keeps.close {a : Alarm} {n : Nat} {t : Timeline} (k : a.Keeps n t) :
    (a.close t).1.Keeps n (a.close t).2 where
  bound := k.disarm.bound
  current := k.disarm.current
  held i hi := by simp [Alarm.close, renewed] at hi

theorem keeps_schedule {a : Alarm} {n : Nat} {t : Timeline} {wait : Int}
    (h : t.Spent n a.generation) (hc : a.closed = false) (hpos : 0 < wait)
    (hmax : wait ≤ maxWait) :
    Keeps { a.renewed with pending := some t.wakes.length } n
      (t.schedule n a.renewed.generation wait) where
  bound i w hi ho := by
    simp only [schedule, List.getElem?_append] at hi
    split at hi
    · exact Nat.le_succ_of_le (h i w hi ho).2
    · have := List.mem_of_getElem? hi
      simp only [List.mem_singleton] at this
      subst this
      exact Nat.le_refl _
  current i w hi ho hw := by
    simp only [schedule, List.getElem?_append] at hi
    split at hi
    · have hs := h i w hi ho
      obtain hp | hg := hw
      · exact absurd hp hs.1
      · simp only [renewed] at hg; omega
    · rename_i hlt
      have hlen := (List.getElem?_eq_some_iff.mp hi).1
      simp only [List.length_singleton] at hlen
      have : t.wakes.length = i := by omega
      rw [this]
  held i hi := by
    simp only [Option.some.injEq] at hi
    subst hi
    refine ⟨hc, ⟨t.now + wait, wait, n, a.renewed.generation, .pending⟩, ?_, rfl, rfl, rfl, hpos,
      hmax⟩
    simp [schedule]

end Alarm
end Countdown
