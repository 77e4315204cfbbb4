import Countdown.Proofs.Result
import Countdown.Proofs.Session.Turn
import Countdown.Proofs.Timer.Restore
set_option autoImplicit false

namespace Countdown

namespace World
open Timeline

variable {w w' w'' : World} {n : Nat} {t : Timer} {s : Snapshot} {ss : List Snapshot} {f : TimerFields}

theorem journal_take (w : World) (n : Nat) (e : Timer.Effect) :
    ∃ ns, (w.take n e).1.journal = w.journal ++ ns ∧ ∀ x ∈ ns, x.isPlain = false := by
  have hcleared : ∃ ns, (w.cleared n e).journal = w.journal ++ ns ∧ ∀ x ∈ ns, x.isPlain = false := by
    unfold cleared
    dsimp only
    split
    · exact ⟨[.cleared n],rfl,by simp [Note.isPlain]⟩
    · exact ⟨[],(List.append_nil _).symm,by simp⟩
  obtain ⟨ns,hjournal,hplain⟩ := hcleared
  rw [take_eq]
  cases e.announced with
  | none => exact ⟨ns,hjournal,hplain⟩
  | some ls =>
    refine ⟨ns ++ [.announced n e.timer e.line.now],?_,?_⟩
    · change (w.cleared n e).journal ++ _ = _
      rw [hjournal, List.append_assoc]
    · intro x hx
      obtain hx | hx := List.mem_append.mp hx
      · exact hplain x hx
      · rw [List.mem_singleton.mp hx]
        rfl

theorem deliveries_of_not_plain {ns : List Note} (h : ∀ x ∈ ns, x.isPlain = false) (id : String) :
    Journal.deliveries id ns = [] := by
  have hnone : ns.filterMap Note.delivery? = [] := by
    refine List.filterMap_eq_nil_iff.mpr fun x hx => ?_
    have hplain := h x hx
    cases x <;> first
      | rfl
      | contradiction
  rw [Journal.deliveries, hnone]
  rfl

theorem logs_eq (ls : List Log) (w : World) :
    ls.foldl log w = { w with journal := w.journal ++ ls.map .logged } := by
  induction ls generalizing w with
  | nil => simp
  | cons l ls ih =>
    rw [List.foldl_cons, ih]
    simp [log, note]

/-- A world with one more timer, which nobody listens to; all others and their wakes are the same. -/
structure Gains (w : World) (t : Timer) (w' : World) : Prop where
  now : w'.now = w.now
  separator : w'.separator = w.separator
  callbacks : w'.callbacks = w.callbacks
  timers : w'.timers = w.timers ++ [t]
  entries : w'.entries = w.entries
  agrees : Agrees w.timers.length w.line w'.line
  notes : ∃ ns, w'.journal = w.journal ++ ns ∧ ∀ x ∈ ns, x.isPlain = false

theorem take_gains (w : World) (u : Timer) {e : Timer.Effect} (hs : e.Sound w.timers.length w.line) :
    w.Gains e.timer (take { w with timers := w.timers ++ [u] } w.timers.length e).1 where
  now := by
    change (take _ _ e).1.line.now = w.line.now
    rw [line_take]
    exact hs.now
  separator := separator_take _ _ _
  callbacks := callbacks_take _ _ _
  timers := by
    rw [timers_take]
    simp [List.set_append_right]
  entries := entries_take _ _ _
  agrees := by
    rw [line_take]
    exact hs.agrees
  notes := journal_take _ _ _

theorem line_addRestored (w : World) (f : TimerFields) :
    (w.addRestored f).1.line = (Timer.restore f w.timers.length w.line).line := by
  rw [addRestored_eq, line_take]

theorem gains_addRestored (hg : w.Guarded) (hc : Snapshot.contradiction? f = none) :
    w.Gains (Timer.restore f w.timers.length w.line).timer (w.addRestored f).1 := by
  have hget : (w.timers ++ [({ duration := max 0 f.duration } : Timer)])[w.timers.length]? =
      some { duration := max 0 f.duration } := by simp
  have hsound : (Timer.restore f w.timers.length w.line).Sound w.timers.length w.line :=
    ((hg.add (max 0 f.duration)).timers _ _ hget).setFields (Snapshot.consistent_ofFields hc)
  rw [addRestored_eq]
  exact w.take_gains _ hsound

theorem addRestored_gains (hg : w.Guarded) (hd : 0 ≤ f.duration) (hc : Snapshot.contradiction? f = none) :
    ∃ t, w.Gains t (w.addRestored f).1 ∧ t.Restores f w.now ∧ t.listeners = [] ∧
      (t.isRunning = true → t.Punctual (w.addRestored f).1.line) := by
  obtain ⟨hrestores,hlisteners,-⟩ := Timer.restore_restores hd hc w.timers.length w.line
  refine ⟨_,gains_addRestored hg hc,hrestores,hlisteners,fun hr => ?_⟩
  rw [hrestores.isRunning] at hr
  rw [line_addRestored, Timer.restore_eq hd, if_pos hr]
  exact (Timer.check_onTime (t := Timer.ofFields f) rfl).punctual

/-- What restoring some snapshots makes of a world. -/
structure Restoring (w : World) (ss : List Snapshot) (w' : World) : Prop where
  guarded : w'.Guarded
  now : w'.now = w.now
  separator : w'.separator = w.separator
  callbacks : w'.callbacks = w.callbacks
  timersLength : w'.timers.length = w.timers.length + ss.length
  entriesLength : w'.entries.length = w.entries.length + ss.length
  timers : ∀ n, n < w.timers.length → w'.timers[n]? = w.timers[n]?
  entries : ∀ k, k < w.entries.length → w'.entries[k]? = w.entries[k]?
  wakes : ∀ (i : Nat) (v : Wake), v.owner < w.timers.length →
    (w'.line.wakes[i]? = some v ↔ w.line.wakes[i]? = some v)
  added : ∀ (j : Nat) (s : Snapshot), ss[j]? = some s → ∃ t queue logs,
    restoreQueue w.separator s = .ok (queue,logs) ∧
    w'.entries[w.entries.length + j]? = some ⟨w.timers.length + j,s.input,queue,true⟩ ∧
    w'.timers[w.timers.length + j]? = some t ∧ t.Restores s.fields w.now ∧
    t.listeners = [.entry (w.entries.length + j)] ∧ (t.isRunning = true → t.Punctual w'.line)
  notes : ∃ ns, w'.journal = w.journal ++ ns ∧ (∀ id, Journal.deliveries id ns = []) ∧
    ∀ l, .logged l ∈ ns →
      ∃ s ∈ ss, ∃ queue logs, restoreQueue w.separator s = .ok (queue,logs) ∧ l ∈ logs

theorem modify_last {α : Type} (xs : List α) (x : α) (g : α → α) :
    (xs ++ [x]).modify xs.length g = xs ++ [g x] := by
  induction xs with
  | nil => rfl
  | cons y ys ih => simp [ih]

def withRestored (w : World) (s : Snapshot) (queue : Option Queue) (logs : List Log) : World :=
  (addEntry (logs.foldl log (w.addRestored s.fields).1) w.timers.length s.input queue).1

theorem restoring_one {queue : Option Queue} {logs : List Log} (hg : w.Guarded) (hs : s.check = .ok s)
    (hq : restoreQueue w.separator s = .ok (queue,logs)) : w.Restoring [s] (w.withRestored s queue logs) := by
  obtain ⟨-,hneg,hc⟩ := Snapshot.check_eq hs
  obtain ⟨-,-,hd⟩ := Snapshot.nonneg_of_negativeFields hneg
  obtain ⟨t,hgains,hrestores,hlisteners,hpunctual⟩ := addRestored_gains hg hd hc
  have hquiet : Quiet w (w.withRestored s queue logs) := by
    have hnew : w.timers.length < (logs.foldl log (w.addRestored s.fields).1).timers.length := by
      rw [timers_logs, hgains.timers]
      simp
    exact ((quiet_addRestored w hc).trans (quiet_logs logs _)).trans (quiet_addEntry hnew s.input queue)
  have heq : w.withRestored s queue logs =
      { (w.addRestored s.fields).1 with
        timers := w.timers ++ [t.listen (.entry w.entries.length)]
        entries := w.entries ++ [⟨w.timers.length,s.input,queue,true⟩]
        journal := (w.addRestored s.fields).1.journal ++ logs.map .logged } := by
    unfold withRestored
    rw [logs_eq]
    simp only [addEntry, hgains.timers, hgains.entries]
    rw [modify_last]
  obtain ⟨ns,hjournal,hplain⟩ := hgains.notes
  refine
    { guarded := hquiet.keeps (fun _ _ _ _ hg hc => hg.change hc) hg
      now := by rw [heq]; exact hgains.now
      separator := by rw [heq]; exact hgains.separator
      callbacks := by rw [heq]; exact hgains.callbacks
      timersLength := by simp [heq]
      entriesLength := by simp [heq]
      timers := fun n hn => by rw [heq]; exact List.getElem?_append_left hn
      entries := fun k hk => by rw [heq]; exact List.getElem?_append_left hk
      wakes := fun i v hv => by rw [heq]; exact hgains.agrees i v (Nat.ne_of_lt hv)
      added := fun j s' hj => ?_
      notes := ⟨ns ++ logs.map .logged,?_,fun id => ?_,fun l hl => ?_⟩ }
  · cases j with
    | zero =>
      cases hj
      refine ⟨t.listen (.entry w.entries.length),queue,logs,hq,?_,?_,?_,?_,fun hr => ?_⟩
      · simp [heq]
      · simp [heq]
      · exact ⟨hrestores.duration,hrestores.startedAt,hrestores.resumedAt,hrestores.stoppedAt,
          hrestores.accumulated,hrestores.unclosed,hrestores.finished,hrestores.armed⟩
      · simp [Timer.listen, hlisteners]
      · have hpunctual := hpunctual hr
        rw [heq]
        exact ⟨hpunctual.due,hpunctual.wakes⟩
    | succ j => contradiction
  · rw [heq, ← List.append_assoc, ← hjournal]
  · rw [Journal.deliveries_append, deliveries_of_not_plain hplain, List.nil_append, Journal.deliveries]
    have hnone : (logs.map Note.logged).filterMap Note.delivery? = [] := by simp [Note.delivery?]
    rw [hnone]
    rfl
  · obtain hl | hl := List.mem_append.mp hl
    · exact absurd (hplain _ hl) (by simp [Note.isPlain])
    · obtain ⟨l',hl',heq'⟩ := List.mem_map.mp hl
      cases heq'
      exact ⟨s,List.mem_singleton_self s,queue,logs,hq,hl'⟩

theorem Restoring.nil (hg : w.Guarded) : w.Restoring [] w where
  guarded := hg
  now := rfl
  separator := rfl
  callbacks := rfl
  timersLength := rfl
  entriesLength := rfl
  timers _ _ := rfl
  entries _ _ := rfl
  wakes _ _ _ := Iff.rfl
  added _ _ h := by simp at h
  notes := ⟨[],(List.append_nil _).symm,fun _ => rfl,by simp⟩

theorem Restoring.cons (h : w.Restoring [s] w') (h' : w'.Restoring ss w'') : w.Restoring (s :: ss) w'' := by
  have htimers : w'.timers.length = w.timers.length + 1 := h.timersLength
  have hentries : w'.entries.length = w.entries.length + 1 := h.entriesLength
  obtain ⟨ns,hjournal,htold,hlogs⟩ := h.notes
  obtain ⟨ns',hjournal',htold',hlogs'⟩ := h'.notes
  refine
    { guarded := h'.guarded
      now := h'.now.trans h.now
      separator := h'.separator.trans h.separator
      callbacks := h'.callbacks.trans h.callbacks
      timersLength := by rw [h'.timersLength, htimers, List.length_cons]; omega
      entriesLength := by rw [h'.entriesLength, hentries, List.length_cons]; omega
      timers := fun n hn => (h'.timers n (by omega)).trans (h.timers n hn)
      entries := fun k hk => (h'.entries k (by omega)).trans (h.entries k hk)
      wakes := fun i v hv => (h'.wakes i v (by omega)).trans (h.wakes i v hv)
      added := fun j s' hj => ?_
      notes := ⟨ns ++ ns',?_,fun id => ?_,fun l hl => ?_⟩ }
  · cases j with
    | zero =>
      cases hj
      obtain ⟨t,queue,logs,hq,he,ht,hrestores,hl,hpunctual⟩ := h.added 0 s rfl
      have ht' : w''.timers[w.timers.length + 0]? = some t := (h'.timers _ (by omega)).trans ht
      refine ⟨t,queue,logs,hq,(h'.entries _ (by omega)).trans he,ht',hrestores,hl,fun hr => ?_⟩
      -- its wake is still the same, since it belongs to none of the later timers
      have hpunctual := hpunctual hr
      have k := h'.guarded.timers _ t ht'
      refine ⟨?_,fun i v hi hv => ?_⟩
      · have hdue := hpunctual.due
        rwa [← show w''.line.now = w'.line.now from h'.now] at hdue
      · obtain ⟨-,u,hu,howner,-⟩ := k.keeps.held i hi
        rw [hv] at hu
        cases hu
        have hwake := hpunctual.wakes i v hi ((h'.wakes i v (by omega)).mp hv)
        rwa [← show w''.line.now = w'.line.now from h'.now] at hwake
    | succ j =>
      obtain ⟨t,queue,logs,hq,he,ht,hrestores,hl,hpunctual⟩ := h'.added j s' hj
      have hn : w'.timers.length + j = w.timers.length + (j + 1) := by omega
      have hk : w'.entries.length + j = w.entries.length + (j + 1) := by omega
      rw [h.separator] at hq
      rw [h.now] at hrestores
      rw [hk] at he hl
      rw [hn] at he ht
      exact ⟨t,queue,logs,hq,he,ht,hrestores,hl,hpunctual⟩
  · rw [hjournal', hjournal, List.append_assoc]
  · rw [Journal.deliveries_append, htold, htold']
    rfl
  · obtain hl | hl := List.mem_append.mp hl
    · obtain ⟨s',hs',hlog⟩ := hlogs l hl
      exact ⟨s',List.mem_cons.mpr (Or.inl (List.mem_singleton.mp hs')),hlog⟩
    · obtain ⟨s',hs',queue,logs,hq,hmem⟩ := hlogs' l hl
      rw [h.separator] at hq
      exact ⟨s',List.mem_cons_of_mem _ hs',queue,logs,hq,hmem⟩

/-- Snapshots whose inputs can all be read are restored before those that follow. -/
theorem restoreAll_append (hg : w.Guarded) (hs : ∀ s ∈ ss, s.check = .ok s)
    (hq : ∀ s ∈ ss, ∃ queue logs, restoreQueue w.separator s = .ok (queue,logs)) (rest : List Snapshot) :
    ∃ w', w.Restoring ss w' ∧ w.restoreAll (ss ++ rest) =
      ((w'.restoreAll rest).1,(w'.restoreAll rest).2.map (List.range' w.entries.length ss.length ++ ·)) := by
  induction ss generalizing w with
  | nil =>
    refine ⟨w,.nil hg,?_⟩
    simp only [List.nil_append, List.length_nil, List.range'_zero]
    cases h : w.restoreAll rest with
    | mk w₁ r => cases r <;> rfl
  | cons s ss ih =>
    obtain ⟨queue,logs,hqueue⟩ := hq s List.mem_cons_self
    have hone := restoring_one hg (hs s List.mem_cons_self) hqueue
    have hrest : ∀ s' ∈ ss, ∃ queue' logs',
        restoreQueue (w.withRestored s queue logs).separator s' = .ok (queue',logs') := by
      intro s' hs'
      rw [hone.separator]
      exact hq s' (List.mem_cons_of_mem _ hs')
    obtain ⟨w',hrestoring,hw'⟩ := ih hone.guarded (fun s' hs' => hs s' (List.mem_cons_of_mem _ hs')) hrest
    have hsep : (w.addRestored s.fields).1.separator = w.separator := separator_take _ _ _
    have hnumber : (addEntry (logs.foldl log (w.addRestored s.fields).1) w.timers.length s.input queue).2 =
        w.entries.length := by
      obtain ⟨-,hneg,hc⟩ := Snapshot.check_eq (hs s List.mem_cons_self)
      obtain ⟨t,hgains,-⟩ := addRestored_gains hg (Snapshot.nonneg_of_negativeFields hneg).2.2 hc
      simp [addEntry, logs_eq, hgains.entries]
    refine ⟨w',hone.cons hrestoring,?_⟩
    have hlength : (w.withRestored s queue logs).entries.length = w.entries.length + 1 := hone.entriesLength
    rw [hlength] at hw'
    rw [List.cons_append, restoreAll, hsep, hqueue]
    dsimp only
    rw [hnumber]
    change (((w.withRestored s queue logs).restoreAll (ss ++ rest)).1,
      (((w.withRestored s queue logs).restoreAll (ss ++ rest)).2).map _) = _
    rw [hw', List.length_cons, List.range'_succ]
    cases (w'.restoreAll rest).2 <;> rfl

theorem restoreAll_restoring (hg : w.Guarded) (hs : ∀ s ∈ ss, s.check = .ok s)
    (hq : ∀ s ∈ ss, ∃ queue logs, restoreQueue w.separator s = .ok (queue,logs)) :
    ∃ w', w.restoreAll ss = (w',.ok (List.range' w.entries.length ss.length)) ∧ w.Restoring ss w' := by
  obtain ⟨w',hrestoring,hall⟩ := restoreAll_append hg hs hq []
  refine ⟨w',?_,hrestoring⟩
  simpa [restoreAll, Except.map] using hall

theorem restoreQueue_of_restoreAll {ks : List Nat} (h : (w.restoreAll ss).2 = .ok ks) :
    ∀ s ∈ ss, ∃ queue logs, restoreQueue w.separator s = .ok (queue,logs) := by
  induction ss generalizing w ks with
  | nil => simp
  | cons s ss ih =>
    have hsep : (w.addRestored s.fields).1.separator = w.separator := separator_take _ _ _
    rw [restoreAll, hsep] at h
    cases hqueue : restoreQueue w.separator s with
    | error e =>
      rw [hqueue] at h
      contradiction
    | ok p =>
      obtain ⟨queue,logs⟩ := p
      rw [hqueue] at h
      obtain ⟨ks',hrest,-⟩ := map_eq_ok.mp h
      have hall := ih hrest
      rw [show (addEntry (logs.foldl log (w.addRestored s.fields).1) w.timers.length s.input queue).1.separator =
        w.separator by rw [logs_eq]; exact hsep] at hall
      intro s' hs'
      obtain rfl | hs' := List.mem_cons.mp hs'
      · exact ⟨queue,logs,hqueue⟩
      · exact hall s' hs'

end World
end Countdown
