import Countdown.Proofs.Session.Reached
set_option autoImplicit false

namespace Countdown

namespace Note

def announces (n : Nat) : Note → Bool
  | .announced m _ _ => m == n
  | _ => false

def call? : Note → Option Call
  | .called c _ => some c
  | _ => none

end Note

def Call.listenersFor (a : Nat) (cs : List Call) : List Listener :=
  (cs.filter fun c => c.announcement == a).map (·.listener)

namespace Journal

def made (j : List Note) : List Call := j.filterMap Note.call?

def present (j : List Note) (a : Nat) : List Listener :=
  match j[a]? with
  | some (.announced _ t _) => t.listeners
  | _ => []

/-- The end of timer `n`'s run was announced, and the timer has not forgotten that run. -/
def Ended (n : Nat) (j : List Note) : Prop :=
  ∃ (i : Nat) (x : Note), j[i]? = some x ∧ x.announces n = true ∧ ∀ k, i < k → j[k]? ≠ some (.cleared n)

/-- Between two announcements for a timer it forgot its run. -/
def Once (j : List Note) : Prop :=
  ∀ (n i i' : Nat) (x x' : Note), i < i' → j[i]? = some x → j[i']? = some x' →
    x.announces n = true → x'.announces n = true →
    ∃ k, i < k ∧ k < i' ∧ j[k]? = some (.cleared n)

variable {j : List Note} {x y : Note} {n i : Nat}

theorem getElem?_concat : (j ++ [x])[i]? = some y ↔ j[i]? = some y ∨ i = j.length ∧ x = y := by
  obtain hlt | heq | hgt := Nat.lt_trichotomy i j.length
  · rw [List.getElem?_append_left hlt]
    constructor
    · exact Or.inl
    · rintro (h | ⟨h,-⟩)
      · exact h
      · omega
  · subst heq
    simp
  · have hnone : j[i]? = none := List.getElem?_eq_none (by omega)
    have hnone' : (j ++ [x])[i]? = none :=
      List.getElem?_eq_none (by simp only [List.length_append, List.length_singleton]; omega)
    constructor
    · intro h
      rw [hnone'] at h
      contradiction
    · rintro (h | ⟨h,-⟩)
      · rw [hnone] at h
        contradiction
      · omega

theorem not_ended_cleared (n : Nat) (j : List Note) : ¬ Ended n (j ++ [.cleared n]) := by
  rintro ⟨i,x,hi,hx,hno⟩
  obtain hi | ⟨-,rfl⟩ := getElem?_concat.mp hi
  · have hlt := (List.getElem?_eq_some_iff.mp hi).1
    exact hno j.length hlt (by simp)
  · simp [Note.announces] at hx

theorem Ended.of_concat (h : Ended n (j ++ [x])) (hx : x.announces n = false) : Ended n j := by
  obtain ⟨i,y,hi,hy,hno⟩ := h
  obtain hi | ⟨-,rfl⟩ := getElem?_concat.mp hi
  · exact ⟨i,y,hi,hy,fun k hk hc => hno k hk (getElem?_concat.mpr (Or.inl hc))⟩
  · rw [hx] at hy
    contradiction

theorem Once.concat (h : Once j) (hx : ∀ n, x.announces n = true → ¬ Ended n j) :
    Once (j ++ [x]) := by
  intro n i i' y y' hlt hi hi' hy hy'
  have hleft : ∀ k z, j[k]? = some z → (j ++ [x])[k]? = some z :=
    fun k z hz => getElem?_concat.mpr (Or.inl hz)
  obtain hi | ⟨rfl,-⟩ := getElem?_concat.mp hi
  · obtain hi' | ⟨rfl,rfl⟩ := getElem?_concat.mp hi'
    · obtain ⟨k,hk,hk',hc⟩ := h n i i' y y' hlt hi hi' hy hy'
      exact ⟨k,hk,hk',hleft k _ hc⟩
    · -- the new note announces, so the run of the earlier announcement was forgotten
      refine Classical.byContradiction fun hnone => hx n hy' ⟨i,y,hi,hy,?_⟩
      intro k hk hc
      exact hnone ⟨k,hk,(List.getElem?_eq_some_iff.mp hc).1,hleft k _ hc⟩
  · have hlen := (List.getElem?_eq_some_iff.mp hi').1
    simp only [List.length_append, List.length_singleton] at hlen
    omega

theorem once_nil : Once [] := by
  intro n i i' x x' hlt hi
  simp at hi

theorem not_ended_nil (n : Nat) : ¬ Ended n [] := by
  rintro ⟨i,x,hi,-⟩
  simp at hi

end Journal

namespace World
open Journal

/-- Each run's end was announced at most once, for a timer that was over then; a timer whose end was
announced is marked until it forgets the run. -/
structure Latched (w : World) : Prop where
  once : Once w.journal
  rightly : ∀ n t now, .announced n t now ∈ w.journal → t.closed = false ∧ t.isOver now = true
  marked : ∀ n, Ended n w.journal → ∃ t : Timer, w.timers[n]? = some t ∧ t.finished = true

theorem Latched.note {w : World} {x : Note} (h : w.Latched) (hx : ∀ n, x.announces n = false) :
    (w.note x).Latched where
  once := h.once.concat fun n hn => by simp [hx] at hn
  rightly n t now hm := by
    obtain hm | hm := List.mem_append.mp hm
    · exact h.rightly n t now hm
    · simp only [List.mem_singleton] at hm
      have := hx n
      simp [← hm, Note.announces] at this
  marked n he := h.marked n (he.of_concat (hx n))

theorem Latched.congr {w w' : World} (h : w.Latched)
    (hm : ∀ (n : Nat) (t : Timer), w.timers[n]? = some t → t.finished = true →
      ∃ t' : Timer, w'.timers[n]? = some t' ∧ t'.finished = true)
    (hj : w'.journal = w.journal) : w'.Latched where
  once := by rw [hj]; exact h.once
  rightly := by rw [hj]; exact h.rightly
  marked n he := by
    rw [hj] at he
    obtain ⟨t,ht,hf⟩ := h.marked n he
    exact hm n t ht hf

def cleared (w : World) (n : Nat) (e : Timer.Effect) : World :=
  let w' := { w.setTimer n e.timer with line := e.line }
  if e.cleared then w'.note (.cleared n) else w'

theorem take_eq (w : World) (n : Nat) (e : Timer.Effect) : w.take n e =
    match e.announced with
    | none => (w.cleared n e,[])
    | some ls => ((w.cleared n e).note (.announced n e.timer e.line.now),
        ls.map fun l => ⟨(w.cleared n e).journal.length,l⟩) := by
  have hnow : (w.cleared n e).now = e.line.now := by
    unfold cleared
    dsimp only
    split <;> rfl
  rw [← hnow]
  rfl

theorem timers_cleared (w : World) (n : Nat) (e : Timer.Effect) :
    (w.cleared n e).timers = w.timers.set n e.timer := by
  unfold cleared
  dsimp only
  split <;> rfl

theorem not_ended_of_cleared {w : World} {n : Nat} {e : Timer.Effect} (h : e.cleared = true) :
    ¬ Ended n (w.cleared n e).journal := by
  unfold cleared
  rw [if_pos h]
  exact not_ended_cleared n w.journal

theorem ended_cleared {w : World} {n m : Nat} {e : Timer.Effect}
    (h : Ended m (w.cleared n e).journal) : Ended m w.journal := by
  unfold cleared at h
  dsimp only at h
  split at h
  · exact h.of_concat rfl
  · exact h

theorem Latched.take {w : World} {n : Nat} {t : Timer} {e : Timer.Effect} (h : w.Latched)
    (ht : w.timers[n]? = some t) (he : e.Latches t) : (w.take n e).1.Latched := by
  have hn := (List.getElem?_eq_some_iff.mp ht).1
  have hself : (w.cleared n e).timers[n]? = some e.timer := by
    rw [timers_cleared, List.getElem?_set_self hn]
  have hnotEnded : e.cleared = true ∨ t.finished = false → ¬ Ended n (w.cleared n e).journal := by
    rintro (hc | hf)
    · exact not_ended_of_cleared hc
    · intro hend
      obtain ⟨u,hu,huf⟩ := h.marked n (ended_cleared hend)
      rw [ht] at hu
      cases hu
      rw [hf] at huf
      contradiction
  have hone : Once (w.cleared n e).journal := by
    unfold cleared
    dsimp only
    split
    · exact h.once.concat fun _ hx => by simp [Note.announces] at hx
    · exact h.once
  have hover : ∀ m u now, .announced m u now ∈ (w.cleared n e).journal →
      u.closed = false ∧ u.isOver now = true := by
    intro m u now hm
    apply h.rightly m u now
    unfold cleared at hm
    dsimp only at hm
    split at hm
    · simpa [World.note, setTimer] using hm
    · exact hm
  have hother : ∀ m, m ≠ n → Ended m (w.cleared n e).journal →
      ∃ u : Timer, (w.cleared n e).timers[m]? = some u ∧ u.finished = true := by
    intro m hm hend
    rw [timers_cleared, List.getElem?_set_ne (Ne.symm hm)]
    exact h.marked m (ended_cleared hend)
  rw [take_eq]
  cases ha : e.announced with
  | none =>
    refine ⟨hone,hover,fun m hend => ?_⟩
    by_cases hm : m = n
    · subst hm
      refine ⟨e.timer,hself,he.kept ?_ ?_⟩
      · cases hf : t.finished with
        | true => rfl
        | false => exact absurd hend (hnotEnded (Or.inr hf))
      · cases hc : e.cleared with
        | false => rfl
        | true => exact absurd hend (hnotEnded (Or.inl hc))
    · exact hother m hm hend
  | some ls =>
    obtain ⟨-,hfin,hclosed,hisOver⟩ := he.told ls ha
    refine ⟨?_,?_,fun m hend => ?_⟩
    · apply hone.concat
      intro m hm
      simp only [Note.announces, beq_iff_eq] at hm
      subst hm
      exact hnotEnded (he.once (by simp [ha]))
    · intro m u now hm
      obtain hm | hm := List.mem_append.mp hm
      · exact hover m u now hm
      · simp only [List.mem_singleton] at hm
        cases hm
        exact ⟨hclosed,hisOver⟩
    · by_cases hm : m = n
      · subst hm
        exact ⟨e.timer,hself,hfin⟩
      · exact hother m hm (hend.of_concat (by simp [Note.announces, Ne.symm hm]))

theorem applyAction_latches (t : Timer) (n : Nat) (a : Action) (line : Timeline) :
    (Session.applyAction t n a line).1.Latches t := by
  cases a with
  | start => exact Timer.start_latches t n line
  | resume => exact Timer.resume_latches t n line
  | pause => exact Timer.silent_latches (fun h => by simpa using h)
  | stop => exact Timer.silent_latches (fun h => by simpa using h)
  | close => exact Timer.silent_latches id
  | reset d => exact Timer.reset_latches t d line
  | add ms => exact Timer.add_latches t n ms line
  | setFields f => exact Timer.setFields_latches t n f line

theorem Latched.change {w w' : World} {made due : List Call} (h : w.Latched)
    (hc : w.Change made due w') : w'.Latched := by
  cases hc with
  | act ht _ => exact h.take ht (applyAction_latches _ _ _ _)
  | ring _ ht => exact h.take ht (Timer.wake_latches _ _ _ _)
  | orphan _ _ => exact h.congr (fun _ t ht hf => ⟨t,ht,hf⟩) rfl
  | clock now => exact h.congr (fun _ t ht hf => ⟨t,ht,hf⟩) rfl
  | add d =>
    refine h.congr (fun n t ht hf => ⟨t,?_,hf⟩) rfl
    exact List.getElem?_append_left (List.getElem?_eq_some_iff.mp ht).1 ▸ ht
  | @listeners m u ls hu _ =>
    refine h.congr (fun n t ht hf => ?_) rfl
    by_cases hn : m = n
    · subst hn
      rw [hu] at ht
      cases ht
      exact ⟨{ u with listeners := ls },List.getElem?_set_self (List.getElem?_eq_some_iff.mp hu).1,hf⟩
    · exact ⟨t,by rw [← ht]; exact List.getElem?_set_ne hn,hf⟩
  | @note x hx =>
    refine h.note fun n => ?_
    cases x <;> first | rfl | cases hx
  | call c => exact h.note fun _ => rfl
  | aside ht _ hj _ =>
    refine h.congr (fun n t hn hf => ⟨t,?_,hf⟩) hj
    rw [ht]
    exact hn

theorem latched_of_fresh {s : Session} (h : s.Fresh) : s.world.Latched := by
  refine ⟨?_,?_,?_⟩
  · rw [h.journal]
    exact once_nil
  · simp [h.journal]
  · intro n hend
    rw [h.journal] at hend
    exact absurd hend (not_ended_nil n)

/-- The journal grew by the calls that were made, and by announcements to the listeners that are now
due to be called. -/
structure Accounts (w : World) (made due : List Call) (w' : World) : Prop where
  grown : w.journal.length ≤ w'.journal.length
  calls : Journal.made w'.journal = Journal.made w.journal ++ made
  awaits : ∀ a, present w'.journal a = present w.journal a ++ Call.listenersFor a due
  later : ∀ c ∈ due, w.journal.length ≤ c.announcement

variable {w w' w'' : World} {made due made' due' : List Call}

theorem listenersFor_append (a : Nat) (cs ds : List Call) :
    Call.listenersFor a (cs ++ ds) = Call.listenersFor a cs ++ Call.listenersFor a ds := by
  simp [Call.listenersFor]

theorem listenersFor_nil (a : Nat) : Call.listenersFor a [] = [] := rfl

theorem Accounts.trans (h : w.Accounts made due w') (h' : w'.Accounts made' due' w'') :
    w.Accounts (made ++ made') (due ++ due') w'' where
  grown := Nat.le_trans h.grown h'.grown
  calls := by rw [h'.calls, h.calls, List.append_assoc]
  awaits a := by rw [h'.awaits, h.awaits, listenersFor_append, List.append_assoc]
  later c hc := by
    obtain hc | hc := List.mem_append.mp hc
    · exact h.later c hc
    · exact Nat.le_trans h.grown (h'.later c hc)

theorem accounts_aside (hj : w'.journal = w.journal) : w.Accounts [] [] w' where
  grown := by simp [hj]
  calls := by simp [hj]
  awaits a := by simp [hj, listenersFor_nil]
  later c hc := by simp at hc

theorem present_concat (j : List Note) (x : Note) (a : Nat) : present (j ++ [x]) a =
    present j a ++ if a = j.length then present [x] 0 else [] := by
  unfold present
  obtain hlt | heq | hgt := Nat.lt_trichotomy a j.length
  · rw [List.getElem?_append_left hlt, if_neg (Nat.ne_of_lt hlt), List.append_nil]
  · subst heq
    simp
  · have hnone : j[a]? = none := List.getElem?_eq_none (by omega)
    have hnone' : (j ++ [x])[a]? = none :=
      List.getElem?_eq_none (by simp only [List.length_append, List.length_singleton]; omega)
    rw [hnone, hnone', if_neg (by omega)]
    rfl

theorem accounts_note {x : Note} (hx : ∀ n, x.announces n = false) :
    w.Accounts x.call?.toList [] (w.note x) where
  grown := by simp [World.note]
  calls := by
    cases h : x.call? <;> simp [World.note, Journal.made, h]
  awaits a := by
    have hnone : present [x] 0 = [] := by
      cases x with
      | announced m t now =>
        have := hx m
        simp [Note.announces] at this
      | _ => rfl
    simp [World.note, present_concat, hnone, listenersFor_nil]
  later c hc := by simp at hc

theorem accounts_announce (w : World) (n : Nat) (t : Timer) (now : Int) :
    w.Accounts [] (t.listeners.map fun l => ⟨w.journal.length,l⟩) (w.note (.announced n t now)) where
  grown := by simp [World.note]
  calls := by simp [World.note, Journal.made, Note.call?]
  awaits a := by
    simp only [World.note, present_concat, Call.listenersFor, List.filter_map, List.map_map]
    congr 1
    by_cases ha : a = w.journal.length
    · subst ha
      simp [Function.comp_def, present, List.filter_eq_self.mpr]
    · simp [Function.comp_def, ha, Ne.symm ha]
  later c hc := by
    obtain ⟨l,-,rfl⟩ := List.mem_map.mp hc
    exact Nat.le_refl _

theorem accounts_take (w : World) (n : Nat) {t : Timer} {e : Timer.Effect} (he : e.Latches t) :
    w.Accounts [] (w.take n e).2 (w.take n e).1 := by
  have hclear : w.Accounts [] [] (w.cleared n e) := by
    have hset : w.Accounts [] [] { w.setTimer n e.timer with line := e.line } := accounts_aside rfl
    unfold cleared
    dsimp only
    split
    · exact hset.trans (accounts_note (x := .cleared n) fun _ => rfl)
    · exact hset
  rw [take_eq]
  cases ha : e.announced with
  | none => exact hclear
  | some ls =>
    obtain ⟨rfl,-⟩ := he.told ls ha
    exact hclear.trans (accounts_announce _ _ _ _)

theorem Change.accounts (h : w.Change made due w') : w.Accounts made due w' := by
  cases h with
  | act _ _ => exact accounts_take _ _ (applyAction_latches _ _ _ _)
  | ring _ _ => exact accounts_take _ _ (Timer.wake_latches _ _ _ _)
  | orphan _ _ => exact accounts_aside rfl
  | clock now => exact accounts_aside rfl
  | add d => exact accounts_aside rfl
  | listeners ls _ _ => exact accounts_aside rfl
  | @note x hx =>
    have hplain : x.call? = none ∧ ∀ n, x.announces n = false := by
      cases x <;> first | exact ⟨rfl,fun _ => rfl⟩ | cases hx
    have hnote := accounts_note (w := w) hplain.2
    rw [hplain.1] at hnote
    exact hnote
  | call c => exact accounts_note (x := .called c w.now) fun _ => rfl
  | aside _ _ hj _ => exact accounts_aside hj

theorem Changes.accounts (h : w.Changes made due w') : w.Accounts made due w' := by
  induction h with
  | refl => exact accounts_aside rfl
  | head c _ ih => exact c.accounts.trans ih

/-- The calls that were made and those still to be made are the calls of the listeners that there
were at each announcement. -/
def Balanced (w : World) (tasks : List Task) : Prop :=
  ∀ a, present w.journal a = Call.listenersFor a (Journal.made w.journal ++ Task.awaited tasks)

/-- Calls that are due go in front of those to be made. Both are never for one announcement. -/
theorem Balanced.step {c : Option Call} {before after : List Task} {rest : List Call}
    (h : w.Balanced before) (hb : Task.awaited before = c.toList ++ rest)
    (ha : Task.awaited after = due ++ rest) (hc : w.Accounts c.toList due w') :
    w'.Balanced after := by
  intro a
  have hold := h a
  rw [hb] at hold
  rw [hc.awaits, hc.calls, ha]
  simp only [listenersFor_append] at hold ⊢
  obtain hlt | hge := Nat.lt_or_ge a w.journal.length
  · have hnone : Call.listenersFor a due = [] := by
      simp only [Call.listenersFor, List.map_eq_nil_iff, List.filter_eq_nil_iff, beq_iff_eq]
      intro d hd
      have := hc.later d hd
      omega
    simp [hold, hnone]
  · have hnone : present w.journal a = [] := by
      simp [present, List.getElem?_eq_none hge]
    rw [hnone] at hold ⊢
    simp only [List.nil_eq, List.append_eq_nil_iff] at hold
    simp [hold.1, hold.2.1, hold.2.2]

end World

namespace Session

theorem Reached.latched {s : Session} {tasks : List Task} (h : Reached s tasks) :
    s.world.Latched :=
  h.holds (fun _ hs => World.latched_of_fresh hs) (fun _ _ _ _ hw hc => hw.change hc)

theorem Reached.balanced {s : Session} {tasks : List Task} (h : Reached s tasks) :
    s.world.Balanced tasks := by
  induction h with
  | fresh h =>
    intro a
    simp [h.journal, Journal.present, Journal.made, Task.awaited, Call.listenersFor]
  | ask subject _ _ _ ih => exact ih
  | @work s t rest h ih =>
    obtain ⟨due,hc,hafter⟩ := h.orderly.step.2
    refine ih.step ?_ hafter hc.accounts
    cases ht : t.call? <;> simp [Task.awaited, ht]

/-- In every course of a session: between two announcements for a timer it forgot its run; a timer
is started, not stopped, not closed and has no time left when it is announced; and the listeners
that it has then are called for it once each, in the order of their registration. -/
theorem Reached.announcements {s : Session} {tasks : List Task} (h : Reached s tasks) :
    (∀ (n i j : Nat) (t u : Timer) (now later : Int), i < j →
      s.world.journal[i]? = some (.announced n t now) →
      s.world.journal[j]? = some (.announced n u later) →
      ∃ k, i < k ∧ k < j ∧ s.world.journal[k]? = some (.cleared n)) ∧
    (∀ (n : Nat) (t : Timer) (now : Int), .announced n t now ∈ s.world.journal →
      t.isStarted = true ∧ t.isStopped = false ∧ t.closed = false ∧ t.remaining now ≤ 0) ∧
    ∀ a, Call.listenersFor a (Journal.made s.world.journal ++ Task.awaited tasks) =
      Journal.present s.world.journal a := by
  refine ⟨?_,?_,fun a => (h.balanced a).symm⟩
  · intro n i j t u now later hij hi hj
    exact h.latched.once n i j _ _ hij hi hj (by simp [Note.announces]) (by simp [Note.announces])
  · intro n t now hm
    obtain ⟨hclosed,hover⟩ := h.latched.rightly n t now hm
    simp only [Timer.isOver, Timer.isFinished, Bool.and_eq_true, Bool.not_eq_true',
      decide_eq_true_eq] at hover
    exact ⟨hover.1.1,hover.1.2,hclosed,hover.2⟩

/-- A listener that starts its timer again and fails, and one that fires the first wake again. -/
theorem announcements_restarted :
    let s₀ : Session := { world := { line := { now := 1000 }, timers := [{ duration := 5 }] } }
    let again := [Command.act .focus (.reset none), .act .focus .start]
    let cs := [Command.listen "again" again true, .listen "bell" [.fire 0] false,
      .act .focus .start, .tick 9, .fire 0, .advance 5]
    let ended (start : Int) (generation : Nat) : Timer := {
      duration := 5, startedAt := some start, resumedAt := some start, finished := true
      listeners := [.named "again", .named "bell"], alarm := { generation := generation } }
    ∃ s, s₀.runAll 20 cs = some s ∧
      s.world.journal[1]? = some (.announced 0 (ended 1000 3) 1009) ∧
      s.world.journal[9]? = some (.announced 0 (ended 1009 7) 1014) ∧
      (∃ k, 1 < k ∧ k < 9 ∧ s.world.journal[k]? = some (.cleared 0)) ∧
      (ended 1009 7).remaining 1014 ≤ 0 ∧
      Call.listenersFor 9 (Journal.made s.world.journal) = [.named "again", .named "bell"] := by
  intro s₀ again cs ended
  have hfresh : Reached s₀ [] := .fresh ⟨by simp [s₀],rfl,rfl,rfl,rfl,rfl⟩
  have hsound : ∀ c ∈ cs, c.Sound := by simp [cs, again, Action.Sound]
  have hget : (s₀.runAll 20 cs).map (fun s => (s.world.journal[1]?,s.world.journal[9]?)) =
      some (some (.announced 0 (ended 1000 3) 1009),some (.announced 0 (ended 1009 7) 1014)) := by
    decide
  obtain ⟨s,hrun,hnotes⟩ := Option.map_eq_some_iff.mp hget
  obtain ⟨h₁,h₉⟩ := Prod.mk.inj hnotes
  obtain ⟨honce,hover,hcalls⟩ := Reached.announcements (hfresh.runAll hsound hrun)
  refine ⟨s,hrun,h₁,h₉,honce 0 1 9 _ _ _ _ (by decide) h₁ h₉,?_,?_⟩
  · exact (hover 0 _ _ (List.mem_of_getElem? h₉)).2.2.2
  · have hcalls := hcalls 9
    simp only [Task.awaited, List.filterMap_nil, List.append_nil] at hcalls
    rw [hcalls, Journal.present, h₉]

end Session
end Countdown
