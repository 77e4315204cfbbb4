import Countdown.Proofs.Sequence.Meaning
import Countdown.Proofs.Session.RoundTrip
set_option autoImplicit false

namespace Countdown

namespace Snapshot

variable {s : Snapshot} {vs : List Json} {text : String}

/-- The valid snapshots among the items of the list that a text holds, if it holds one. -/
def validIn (text : String) : List Snapshot :=
  match Json.read text with
  | .ok (.arr items) => items.filterMap fun v => (ofJson v).toOption
  | _ => []

theorem readItems_valid (vs : List Json) (i : Nat) :
    (readItems i vs).1 = vs.filterMap fun v => (ofJson v).toOption := by
  induction vs generalizing i with
  | nil => rfl
  | cons v vs ih =>
    simp only [readItems]
    cases hv : ofJson v with
    | error e => simp [hv, Except.toOption, ih]
    | ok s => simp [hv, Except.toOption, ih]

theorem readAll_valid (h : ∀ n, Json.read text ≠ .error (.integerTooLong n)) :
    ∃ logs, readAll text = .ok (validIn text,logs) := by
  unfold readAll validIn
  cases hread : Json.read text with
  | error e =>
    cases e with
    | malformed => exact ⟨_,rfl⟩
    | integerTooLong n => exact absurd hread (h n)
  | ok v =>
    cases v with
    | arr items =>
      refine ⟨(readItems 0 items).2,?_⟩
      dsimp only
      rw [← readItems_valid items 0]
    | _ => exact ⟨_,rfl⟩

theorem check_validIn (h : s ∈ validIn text) : s.check = .ok s := by
  unfold validIn at h
  split at h
  · obtain ⟨v,-,hv⟩ := List.mem_filterMap.mp h
    obtain ⟨hneg,hnone⟩ := ofJson_checked (toOption_eq_some.mp hv)
    simp [check, hneg, hnone]
  · simp at h

end Snapshot

namespace World
open Sequence

variable {w w' w₀ : World} {separator input : String} {s : Snapshot} {ss : List Snapshot} {e : SequenceError}

/-- Whether the input of a saved timer can be read, or is at fault in a way that may be put up with. -/
def isRestorable (separator : String) (s : Snapshot) : Bool :=
  match Queue.read separator s.input with
  | .ok _ => true
  | .error e => e.isInputFault

theorem isRestorable_iff :
    isRestorable separator s = true ↔ ∃ queue logs, restoreQueue separator s = .ok (queue,logs) := by
  unfold isRestorable restoreQueue
  cases hread : Queue.read separator s.input with
  | ok q =>
    dsimp only
    split <;> simp
  | error e =>
    dsimp only
    split
    · rename_i hblank
      -- a blank input stands for no duration, which is a fault of the input
      rw [Queue.read, Run.read_blank hblank] at hread
      cases hread
      simp [SequenceError.isInputFault, DurationError.isInputFault]
    · cases e.isInputFault <;> simp

theorem restoreQueue_eq_error (h : restoreQueue separator s = .error e) :
    Queue.read separator s.input = .error e ∧ e.TooGreat := by
  unfold restoreQueue at h
  split at h
  · contradiction
  · split at h
    · rename_i e' hread
      split at h
      · contradiction
      · rename_i hfault
        cases h
        exact ⟨hread,SequenceError.isInputFault_eq_false.mp (Bool.not_eq_true _ ▸ hfault)⟩
    · contradiction

theorem restoreQueue_unread {queue : Option Queue} {logs : List Log}
    (h : restoreQueue separator s = .ok (queue,logs)) (hread : Queue.read separator s.input = .error e) :
    queue = none := by
  unfold restoreQueue at h
  split at h
  · cases h
    rfl
  · rw [hread] at h
    dsimp only at h
    split at h
    · cases h
      rfl
    · contradiction

/-- A world to which timers were added in the state of some snapshots, each with an entry at the end of the
list. All that was there before is as it was and to be seen as it was, and nobody is told of anything. -/
structure Adds (w : World) (ss : List Snapshot) (w' : World) : Prop where
  now : w'.now = w.now
  listed : w'.listed = w.listed ++ List.range' w.entries.length ss.length
  timers : ∀ n, n < w.timers.length → w'.timers[n]? = w.timers[n]?
  entries : ∀ k, k < w.entries.length → w'.entries[k]? = w.entries[k]?
  views : ∀ k, k < w.entries.length → w'.view? k = w.view? k
  wakes : ∀ (i : Nat) (v : Wake), v.owner < w.timers.length →
    (w'.line.wakes[i]? = some v ↔ w.line.wakes[i]? = some v)
  added : ∀ (j : Nat) (s : Snapshot), ss[j]? = some s → ∃ t queue logs,
    restoreQueue w.separator s = .ok (queue,logs) ∧
    (∀ e, Queue.read w.separator s.input = .error e → queue = none) ∧
    w'.entries[w.entries.length + j]? = some ⟨w.timers.length + j,s.input,queue,true⟩ ∧
    w'.timers[w.timers.length + j]? = some t ∧ t.Restores s.fields w.now
  told : ∀ id, Journal.deliveries id w'.journal = Journal.deliveries id w.journal

theorem Restoring.adds (h : w.Restoring ss w') (hw : w.Wired) : w.Adds ss w' where
  now := h.now
  listed := h.listed
  timers := h.timers
  entries := h.entries
  views _ hk := h.view?_old hw hk
  wakes := h.wakes
  added j s hj := by
    obtain ⟨t,queue,logs,hqueue,he,ht,hrestores,-⟩ := h.added j s hj
    exact ⟨t,queue,logs,hqueue,fun e hread => restoreQueue_unread hqueue hread,he,ht,hrestores⟩
  told id := by
    obtain ⟨ns,hjournal,htold,-⟩ := h.notes
    rw [hjournal, Journal.deliveries_append, htold, List.append_nil]

theorem Adds.of_logs {logs : List Log} (h : (logs.foldl log w).Adds ss w') : w.Adds ss w' := by
  rw [logs_eq] at h
  refine { h with told := fun id => ?_ }
  have hnone : (logs.map Note.logged).filterMap Note.delivery? = [] := by simp [Note.delivery?]
  rw [h.told]
  simp [Journal.deliveries, hnone]

theorem Adds.spend (h : w.Adds ss w') (hw : w.Wired) (hg : w'.Guarded) (hs : s.check = .ok s)
    (htimers : w'.timers.length = w.timers.length + ss.length)
    (hentries : w'.entries.length = w.entries.length + ss.length) :
    w.Adds ss ((w'.addRestored s.fields).1.spendId w'.timers.length s.input) := by
  obtain ⟨-,hneg,hc⟩ := Snapshot.check_eq hs
  obtain ⟨t,hgains,-⟩ := addRestored_gains hg (Snapshot.nonneg_of_negativeFields hneg).2.2 hc
  generalize (w'.addRestored s.fields).1 = w₁ at hgains
  have hold : ∀ n, n < w.timers.length + ss.length → w₁.timers[n]? = w'.timers[n]? := by
    intro n hn
    rw [hgains.timers]
    exact List.getElem?_append_left (by omega)
  have hentry : ∀ k, k < w.entries.length + ss.length →
      (w₁.spendId w'.timers.length s.input).entries[k]? = w'.entries[k]? := by
    intro k hk
    simp only [spendId, hgains.entries]
    exact List.getElem?_append_left (by omega)
  obtain ⟨ns,hjournal,hplain⟩ := hgains.notes
  refine
    { now := hgains.now.trans h.now
      listed := ?_
      timers := fun n hn => (hold n (by omega)).trans (h.timers n hn)
      entries := fun k hk => (hentry k (by omega)).trans (h.entries k hk)
      views := fun k hk => view?_of_same hw hk (hgains.now.trans h.now)
        ((hentry k (by omega)).trans (h.entries k hk)) fun n hn => (hold n (by omega)).trans (h.timers n hn)
      wakes := fun i v hv => (hgains.agrees i v (by omega)).trans (h.wakes i v hv)
      added := fun j x hj => ?_
      told := fun id => ?_ }
  · rw [← h.listed]
    simp only [World.listed, spendId, hgains.entries, List.length_append, List.length_singleton,
      List.range_succ, List.filter_append]
    have hlast : [w'.entries.length].filter (fun k => (w'.entries ++ [⟨w'.timers.length,s.input,none,false⟩])[k]?.any
        fun e => e.listed) = [] := by simp
    rw [hlast, List.append_nil]
    refine List.filter_congr fun k hk => ?_
    rw [List.getElem?_append_left (List.mem_range.mp hk)]
  · have hlt := (List.getElem?_eq_some_iff.mp hj).1
    obtain ⟨u,queue,logs,hqueue,hunread,he,ht,hrestores⟩ := h.added j x hj
    exact ⟨u,queue,logs,hqueue,hunread,(hentry _ (by omega)).trans he,(hold _ (by omega)).trans ht,hrestores⟩
  · change Journal.deliveries id w₁.journal = _
    rw [hjournal, Journal.deliveries_append, deliveries_of_not_plain hplain, List.append_nil, h.told]

/-- Snapshots are restored in their order, up to the first whose input has too great a number in it. -/
theorem restoreAll_adds (hg : w.Guarded) (hw : w.Wired) (hs : ∀ s ∈ ss, s.check = .ok s) :
    ∃ w' r, w.restoreAll ss = (w',r) ∧ w.Adds (ss.takeWhile (isRestorable w.separator)) w' ∧
      (((∀ s ∈ ss, isRestorable w.separator s = true) ∧ r = .ok (List.range' w.entries.length ss.length)) ∨
        ∃ s ∈ ss, ∃ e, Queue.read w.separator s.input = .error e ∧ e.TooGreat ∧ r = .error (.sequence e)) := by
  have hsplit : ss = ss.takeWhile (isRestorable w.separator) ++ ss.dropWhile (isRestorable w.separator) :=
    List.takeWhile_append_dropWhile.symm
  have htaken : ∀ s ∈ ss.takeWhile (isRestorable w.separator), s.check = .ok s ∧
      ∃ queue logs, restoreQueue w.separator s = .ok (queue,logs) := fun s hmem =>
    ⟨hs s (List.takeWhile_prefix _ |>.subset hmem),isRestorable_iff.mp (List.all_eq_true.mp List.all_takeWhile s hmem)⟩
  obtain ⟨w₁,hrestoring,hall⟩ := restoreAll_append hg (fun s hmem => (htaken s hmem).1)
    (fun s hmem => (htaken s hmem).2) (ss.dropWhile (isRestorable w.separator))
  rw [← hsplit] at hall
  cases hrest : ss.dropWhile (isRestorable w.separator) with
  | nil =>
    rw [hrest, List.append_nil] at hsplit
    rw [hrest] at hall
    refine ⟨w₁,.ok (List.range' w.entries.length ss.length),?_,hrestoring.adds hw,Or.inl ⟨fun s hmem => ?_,rfl⟩⟩
    · rw [hall, ← hsplit]
      simp [restoreAll, Except.map]
    · rw [hsplit] at hmem
      exact List.all_eq_true.mp List.all_takeWhile s hmem
  | cons x rest =>
    have hmem : x ∈ ss := by
      rw [hsplit, hrest]
      simp
    have hnot : isRestorable w.separator x = false := by
      have hhead := List.head?_dropWhile_not (isRestorable w.separator) ss
      rw [hrest] at hhead
      simpa using hhead
    cases hqueue : restoreQueue w.separator x with
    | ok p =>
      rw [isRestorable_iff.mpr ⟨p.1,p.2,hqueue⟩] at hnot
      contradiction
    | error e =>
      obtain ⟨hread,hgreat⟩ := restoreQueue_eq_error hqueue
      have hsep : (w₁.addRestored x.fields).1.separator = w.separator :=
        (separator_take _ _ _).trans hrestoring.separator
      refine ⟨(w₁.addRestored x.fields).1.spendId w₁.timers.length x.input,_,?_,
        (hrestoring.adds hw).spend hw hrestoring.guarded (hs x hmem) hrestoring.timersLength
          hrestoring.entriesLength,Or.inr ⟨x,hmem,e,hread,hgreat,rfl⟩⟩
      rw [hall, hrest]
      simp only [restoreAll, hsep, hqueue, Except.map]

theorem importText_adds (hg : w.Guarded) (hw : w.Wired) {text : String}
    (hread : ∀ n, Json.read text ≠ .error (.integerTooLong n)) : ∃ w' r, w.importText text = (w',r) ∧
      w.Adds ((Snapshot.validIn text).takeWhile (isRestorable w.separator)) w' ∧
      (((∀ s ∈ Snapshot.validIn text, isRestorable w.separator s = true) ∧
          r = .ok (List.range' w.entries.length (Snapshot.validIn text).length)) ∨
        ∃ s ∈ Snapshot.validIn text, ∃ e, Queue.read w.separator s.input = .error e ∧ e.TooGreat ∧
          r = .error (.sequence e)) := by
  obtain ⟨logs,hvalid⟩ := Snapshot.readAll_valid hread
  have hquiet := quiet_logs logs w
  have hg₁ : (logs.foldl log w).Guarded := hquiet.keeps (fun _ _ _ _ hg hc => hg.change hc) hg
  have hw₁ : (logs.foldl log w).Wired := hquiet.keeps (fun _ _ _ _ hw hc => hw.change hc) hw
  obtain ⟨w',r,hall,hadds,hresult⟩ := restoreAll_adds hg₁ hw₁ fun s (hs : s ∈ Snapshot.validIn text) =>
    Snapshot.check_validIn hs
  have hseparator : (logs.foldl log w).separator = w.separator := by rw [logs_eq]
  have hentries : (logs.foldl log w).entries = w.entries := by rw [logs_eq]
  rw [hseparator] at hadds hresult
  rw [hentries] at hresult
  refine ⟨w',r,?_,hadds.of_logs,hresult⟩
  rw [importText, hvalid]
  exact hall

end World

namespace Session

variable {s : Session} {tasks : List Task}

theorem run_import (s : Session) (fuel : Nat) (text : String) : s.run fuel (.importAll (some text)) =
    some (s.withWorld (s.world.importText text).1,(s.world.importText text).2.map .entries) := by
  cases himport : s.world.importText text with
  | mk w r => cases r <;> simp [run, perform, himport, failed, ok, settle_nil, Except.map]

end Session
end Countdown
