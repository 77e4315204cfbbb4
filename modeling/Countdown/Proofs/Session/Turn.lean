import Countdown.Proofs.Sequence.Durations
import Countdown.Proofs.Session.Announcement
import Countdown.Proofs.Session.Listing
import Countdown.Proofs.Session.LiveWake
import Countdown.Proofs.Session.Settling
import Countdown.Proofs.Timer.Punctual
set_option autoImplicit false

namespace Countdown

def Journal.deliveries (id : String) (j : List Note) : List (Callback × Event × String) :=
  (j.filterMap Note.delivery?).filter fun d => d.2.2 == id

theorem Journal.deliveries_append (id : String) (j ns : List Note) :
    deliveries id (j ++ ns) = deliveries id j ++ deliveries id ns := by
  simp [deliveries]

def Callback.deliveries (cs : List Callback) (id : String) (events : List Event) :
    List (Callback × Event × String) :=
  events.flatMap fun e => cs.map fun c => (c,e,id)

theorem Callback.deliveries_append (cs : List Callback) (id : String) (es ds : List Event) :
    deliveries cs id (es ++ ds) = deliveries cs id es ++ deliveries cs id ds := List.flatMap_append

namespace World
open Timeline

/-- All durations that the entries of a timer are still to go through are positive. -/
def Steady (w : World) (n : Nat) : Prop :=
  ∀ (k : Nat) (e : Entry) (q : Queue),
    w.entries[k]? = some e → e.timer = n → e.queue = some q → q.Positive

def isLate (w : World) (n : Nat) : Bool :=
  w.line.wakes.any fun v => v.owner = n ∧ v.status = .pending ∧ v.due ≤ w.now

def late (w : World) : Nat := ((List.range w.timers.length).filter w.isLate).length

/-- At one time nothing has changed but timer `n` and its entries, and they are no later than they
were. -/
structure Turns (w : World) (n : Nat) (w' : World) : Prop where
  now : w'.now = w.now
  length : w'.timers.length = w.timers.length
  timers : ∀ m, m ≠ n → w'.timers[m]? = w.timers[m]?
  agrees : Agrees n w.line w'.line
  later : w'.isLate n = true → w.isLate n = true
  owners : ∀ k, w'.owner? k = w.owner? k
  entries : ∀ k, w.owner? k ≠ some n → w'.entries[k]? = w.entries[k]?
  callbacks : w'.callbacks = w.callbacks
  told : ∀ k, w.owner? k ≠ some n → Journal.deliveries (Entry.idOf k) w'.journal =
    Journal.deliveries (Entry.idOf k) w.journal

variable {w w' w'' : World} {n m k : Nat} {t : Timer} {e e' : Entry} {f : Timer.Effect}

theorem isLate_iff : w.isLate n = true ↔
    ∃ v ∈ w.line.wakes, v.owner = n ∧ v.status = .pending ∧ v.due ≤ w.now := by
  simp [isLate]

theorem Turns.refl (w : World) (n : Nat) : w.Turns n w where
  now := rfl
  length := rfl
  timers _ _ := rfl
  agrees := Agrees.refl n _
  later h := h
  owners _ := rfl
  entries _ _ := rfl
  callbacks := rfl
  told _ _ := rfl

theorem Turns.trans (h : w.Turns n w') (h' : w'.Turns n w'') : w.Turns n w'' where
  now := h'.now.trans h.now
  length := h'.length.trans h.length
  timers m hm := (h'.timers m hm).trans (h.timers m hm)
  agrees := h.agrees.trans h'.agrees
  later hl := h.later (h'.later hl)
  owners k := (h'.owners k).trans (h.owners k)
  entries k hk := (h'.entries k (by rw [h.owners]; exact hk)).trans (h.entries k hk)
  callbacks := h'.callbacks.trans h.callbacks
  told k hk := (h'.told k (by rw [h.owners]; exact hk)).trans (h.told k hk)

theorem Turns.mem_wakes (h : w.Turns n w') {v : Wake} (hv : v.owner ≠ n) :
    v ∈ w'.line.wakes ↔ v ∈ w.line.wakes := by
  simp only [List.mem_iff_getElem?]
  exact exists_congr fun i => h.agrees i v hv

theorem Turns.isLate (h : w.Turns n w') (hm : m ≠ n) : w'.isLate m = w.isLate m := by
  rw [Bool.eq_iff_iff, isLate_iff, isLate_iff, h.now]
  apply exists_congr
  intro v
  constructor
  · rintro ⟨hv,rfl,hdue⟩
    exact ⟨(h.mem_wakes hm).mp hv,rfl,hdue⟩
  · rintro ⟨hv,rfl,hdue⟩
    exact ⟨(h.mem_wakes hm).mpr hv,rfl,hdue⟩

theorem Turns.prompt (h : w.Turns n w') (hp : w.isLate n = false) : w'.isLate n = false := by
  rw [Bool.eq_false_iff]
  intro hlate
  rw [h.later hlate] at hp
  contradiction

/-- Once a late timer has had its turn, fewer are late. -/
theorem Turns.late_lt (h : w.Turns n w') (hn : n < w.timers.length) (hbefore : w.isLate n = true)
    (hafter : w'.isLate n = false) : w'.late < w.late := by
  have hfilter : (List.range w'.timers.length).filter w'.isLate =
      ((List.range w.timers.length).filter w.isLate).filter w'.isLate := by
    rw [List.filter_filter, h.length]
    apply List.filter_congr
    intro m _
    by_cases hm : m = n
    · subst hm
      simp [hafter]
    · simp [h.isLate hm]
  unfold late
  rw [hfilter, List.length_filter_lt_length_iff_exists]
  refine ⟨n,?_,by simp [hafter]⟩
  rw [List.mem_filter, List.mem_range]
  exact ⟨hn,hbefore⟩

theorem Steady.turns (h : w.Turns n w') (hm : m ≠ n) (hs : w.Steady m) : w'.Steady m := by
  intro k e q he ht hq
  have howner : w.owner? k = some m := by
    rw [← h.owners, owner?, he, ← ht]
    rfl
  rw [h.entries k (by rw [howner]; simpa using hm)] at he
  exact hs k e q he ht hq

theorem Steady.congr (h : w.Steady n) (he : w'.entries = w.entries) : w'.Steady n := by
  intro k e q hk
  rw [he] at hk
  exact h k e q hk

theorem Guarded.isLate (h : w.Guarded) (ht : w.timers[n]? = some t) (hp : t.Punctual w.line) :
    w.isLate n = false := by
  rw [Bool.eq_false_iff]
  intro hlate
  obtain ⟨v,hv,ho,hpend,hdue⟩ := isLate_iff.mp hlate
  obtain ⟨i,hi⟩ := List.getElem?_of_mem hv
  have hcurrent := (h.timers n t ht).keeps.current i v hi ho (Or.inl hpend)
  have hlater := (hp.wakes i v hcurrent hi).1
  change v.due ≤ w.line.now at hdue
  omega

theorem Turns.wake (h : w.Turns n w') (hg : w.Guarded) (ht : w.timers[m]? = some t) (hm : m ≠ n) {i : Nat}
    {v : Wake} (hi : t.alarm.pending = some i) (hv : w'.line.wakes[i]? = some v) :
    w.line.wakes[i]? = some v :=
  (hg.timers m t ht).wake_of_agrees h.agrees hm hi hv

theorem Turns.waits (h : w.Turns n w') (hg : w.Guarded) (ht : w.timers[m]? = some t) (hm : m ≠ n)
    (hw : t.Waits w.line) : t.Waits w'.line :=
  Timer.Waits.agrees (hg.timers m t ht) hw h.agrees hm h.now

theorem Turns.punctual (h : w.Turns n w') (hg : w.Guarded) (ht : w.timers[m]? = some t) (hm : m ≠ n)
    (hp : t.Punctual w.line) : t.Punctual w'.line :=
  Timer.Punctual.agrees (hg.timers m t ht) hp h.agrees hm h.now

/-- An operation notes only that its timer forgot a run and that the end of one is announced. -/
theorem filterMap_take {β : Type} {seen : Note → Option β} (hcleared : ∀ n, seen (.cleared n) = none)
    (hannounced : ∀ n t now, seen (.announced n t now) = none) (w : World) (n : Nat) (f : Timer.Effect) :
    (w.take n f).1.journal.filterMap seen = w.journal.filterMap seen := by
  have hclear : (w.cleared n f).journal.filterMap seen = w.journal.filterMap seen := by
    unfold cleared
    dsimp only
    split
    · simp [note, setTimer, hcleared]
    · rfl
  rw [take_eq, ← hclear]
  cases f.announced with
  | none => rfl
  | some ls => simp [note, hannounced]

theorem deliveries_take (id : String) (w : World) (n : Nat) (f : Timer.Effect) :
    Journal.deliveries id (w.take n f).1.journal = Journal.deliveries id w.journal := by
  unfold Journal.deliveries
  rw [filterMap_take (fun _ => rfl) (fun _ _ _ => rfl)]

theorem callbacks_take (w : World) (n : Nat) (f : Timer.Effect) :
    (w.take n f).1.callbacks = w.callbacks := by
  unfold take
  split <;> dsimp only <;> split <;> rfl

theorem separator_take (w : World) (n : Nat) (e : Timer.Effect) : (w.take n e).1.separator = w.separator := by
  unfold take
  split <;> dsimp only <;> split <;> rfl

theorem Guarded.turns_take (h : w.Guarded) (ht : w.timers[n]? = some t) (hs : f.Sound n w.line)
    (ho : f.OnTime t) : w.Turns n (w.take n f).1 ∧ (w.take n f).1.isLate n = false := by
  have hnot : (w.take n f).1.isLate n = false := by
    refine (h.take ht hs).isLate (getElem?_take ht f) ?_
    rw [line_take]
    exact ho.punctual
  refine ⟨?_,hnot⟩
  constructor
  · change (w.take n f).1.line.now = w.line.now
    rw [line_take]
    exact hs.now
  · rw [timers_take, List.length_set]
  · intro m hm
    rw [timers_take]
    exact List.getElem?_set_ne (Ne.symm hm)
  · rw [line_take]
    exact hs.agrees
  · rw [hnot]
    intro hno
    contradiction
  · exact owner?_of_entries (entries_take w n f)
  · intro k _
    rw [entries_take]
  · exact callbacks_take w n f
  · intro k _
    exact deliveries_take _ w n f

theorem turns_setEntry (he : w.entries[k]? = some e) (ht : e'.timer = e.timer) :
    w.Turns e.timer (w.setEntry k e') where
  now := rfl
  length := rfl
  timers _ _ := rfl
  agrees := Agrees.refl _ _
  later h := h
  owners := owner?_setEntry he ht
  entries l hl := by
    refine List.getElem?_set_ne fun hk => hl ?_
    rw [← hk, owner?, he]
    rfl
  callbacks := rfl
  told _ _ := rfl

end World

end Countdown
