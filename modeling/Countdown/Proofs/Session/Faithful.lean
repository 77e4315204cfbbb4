import Countdown.Proofs.Session.Export
import Countdown.Proofs.Timer.Forward
import Mathlib.Data.List.TakeWhile
set_option autoImplicit false

namespace Countdown

namespace Sequence

theorem isBlank_of_trim {text : List Char} (h : (Text.trim text).isEmpty = true) :
    ∀ c ∈ text, Text.isBlank c = true := by
  have hdrop : (text.dropWhile Text.isBlank).reverse.dropWhile Text.isBlank = [] := by simpa [Text.trim] using h
  have hrest := List.dropWhile_eq_nil_iff.mp hdrop
  intro c hc
  rw [← List.takeWhile_append_dropWhile (p := Text.isBlank) (l := text)] at hc
  obtain hc | hc := List.mem_append.mp hc
  · exact List.all_eq_true.mp List.all_takeWhile c hc
  · exact hrest c (List.mem_reverse.mpr hc)

theorem Run.read_blank {text : List Char} (h : (Text.trim text).isEmpty = true) (separator : String) :
    Run.read separator text = .error (.duration .empty) := by
  have hblank := isBlank_of_trim h
  have hplain : isSequence text = false := by
    rw [isSequence, List.any_eq_false]
    intro c hc hop
    have hb := hblank c hc
    have hfour : c = '+' ∨ c = '*' ∨ c = '(' ∨ c = ')' := by
      unfold Token.operator? at hop
      split at hop <;> simp_all
    obtain rfl | rfl | rfl | rfl := hfour <;> exact absurd hb (by decide)
  have hnone : Text.squeeze text = [] := by
    rw [Text.squeeze, List.filter_eq_nil_iff]
    intro c hc
    rw [hblank c hc]
    decide
  have hread : Duration.read separator text = .error .empty := by
    rw [Duration.read, Duration.tokens, hnone]
    rfl
  rw [Run.read, hplain, hread]
  rfl

end Sequence

theorem QueueOf.read {separator text : String} {q : Queue} (h : Queue.read separator text = .ok q) :
    ∃ d, q.pop = (some d,q.pop.2) ∧ QueueOf separator text (some q.pop.2) := by
  obtain ⟨r,hr,rfl⟩ := map_eq_ok.mp h
  obtain ⟨d,hd⟩ : ∃ d, Sequence.Cursor.nth? [r] 0 = some d := ⟨_,rfl⟩
  have hpop : (Queue.ofCursor 0 [r]).pop = (some d,Queue.past [r] 1) := Queue.pop_past hd
  have hblank : (Text.trim text.toList).isEmpty = false := by
    rw [Bool.eq_false_iff]
    intro hblank
    rw [Sequence.Run.read_blank hblank] at hr
    contradiction
  rw [hpop]
  exact ⟨d,rfl,Or.inr ⟨hblank,r,0,hr,rfl,by rw [hd]; rfl⟩⟩

namespace World

/-- The timers and queues of a world in which time has only gone forward up to `now`. -/
structure Faithful (w : World) (separator : String) (now : Int) : Prop where
  timers : ∀ t ∈ w.timers, t.Forward now
  entries : ∀ e ∈ w.entries, QueueOf separator e.input e.queue
  separator : w.separator = separator
  now : w.now = now

variable {w w' w₀ : World} {separator text : String} {now now₀ : Int} {n k : Nat} {t : Timer} {e : Entry}
  {s : Snapshot} {ss : List Snapshot}

theorem Faithful.congr (h : w.Faithful separator now) (hs : w'.separator = w.separator) (hn : w'.now = w.now)
    (ht : w'.timers = w.timers) (he : w'.entries = w.entries) : w'.Faithful separator now where
  separator := hs.trans h.separator
  now := hn.trans h.now
  timers := by
    rw [ht]
    exact h.timers
  entries := by
    rw [he]
    exact h.entries

theorem Faithful.setClock (h : w.Faithful separator now) {later : Int} (hle : now ≤ later) :
    Faithful { w with line := { w.line with now := later } } separator later where
  separator := h.separator
  now := rfl
  timers t ht := (h.timers t ht).mono hle
  entries := h.entries

theorem Faithful.setTimer (h : w.Faithful separator now) (ht : t.Forward now) :
    (w.setTimer n t).Faithful separator now where
  separator := h.separator
  now := h.now
  timers u hu := by
    obtain hu | rfl := List.mem_or_eq_of_mem_set hu
    · exact h.timers u hu
    · exact ht
  entries := h.entries

theorem Faithful.setEntry (h : w.Faithful separator now) (he : QueueOf separator e.input e.queue) :
    (w.setEntry k e).Faithful separator now where
  separator := h.separator
  now := h.now
  timers := h.timers
  entries x hx := by
    obtain hx | rfl := List.mem_or_eq_of_mem_set hx
    · exact h.entries x hx
    · exact he

theorem Faithful.timer (h : w.Faithful separator now) (ht : w.timers[n]? = some t) : t.Forward w.line.now := by
  have hnow : w.line.now = now := h.now
  rw [hnow]
  exact h.timers t (List.mem_of_getElem? ht)

theorem Faithful.take (h : w.Faithful separator now) {f : Timer.Effect} (hn : f.line.now = w.line.now)
    (ht : f.timer.Forward w.line.now) : (w.take n f).1.Faithful separator now := by
  have hnow : w.line.now = now := h.now
  rw [hnow] at ht
  refine (h.setTimer (n := n) ht).congr (separator_take w n f) ?_ (timers_take w n f) (entries_take w n f)
  change (w.take n f).1.line.now = w.line.now
  rw [line_take, hn]

theorem Faithful.addTimer (h : w.Faithful separator now) (ht : t.Forward now) :
    Faithful { w with timers := w.timers ++ [t] } separator now where
  separator := h.separator
  now := h.now
  timers u hu := by
    obtain hu | hu := List.mem_append.mp hu
    · exact h.timers u hu
    · rw [List.mem_singleton.mp hu]
      exact ht
  entries := h.entries

theorem Faithful.addEntry (h : w.Faithful separator now) {input : String} {queue : Option Queue}
    (hq : QueueOf separator input queue) : (w.addEntry n input queue).1.Faithful separator now where
  separator := h.separator
  now := h.now
  timers u hu := by
    obtain ⟨i,hi⟩ := List.getElem?_of_mem hu
    change (w.timers.modify n fun t => t.listen (.entry w.entries.length))[i]? = some u at hi
    rw [List.getElem?_modify] at hi
    obtain ⟨t,ht,rfl⟩ := Option.map_eq_some_iff.mp hi
    have hforward := h.timers t (List.mem_of_getElem? ht)
    split
    · exact hforward.congr rfl rfl rfl
    · exact hforward
  entries x hx := by
    obtain hx | hx := List.mem_append.mp hx
    · exact h.entries x hx
    · rw [List.mem_singleton.mp hx]
      exact hq

theorem Faithful.create (h : w.Faithful separator now) {input : String}
    (hc : w.create input none = .ok (w',k)) : w'.Faithful separator now := by
  obtain ⟨⟨queue,duration⟩,hread,hc⟩ := bind_eq_ok.mp hc
  obtain ⟨⟨queue,d⟩,hinput,heq⟩ := map_eq_ok.mp hread
  cases heq
  have hqueue : QueueOf separator input queue := by
    unfold readInput at hinput
    split at hinput
    · rename_i hblank
      cases hinput
      exact Or.inl ⟨hblank,rfl⟩
    · split at hinput
      · contradiction
      · rename_i q hq
        cases hinput
        rw [h.separator] at hq
        obtain ⟨-,-,hqueue⟩ := QueueOf.read hq
        exact hqueue
  have hidle : Timer.Forward { duration := max 0 d } now := Timer.forward_idle (Int.le_max_left _ _) rfl rfl
  have hadded := ((h.addTimer hidle).addEntry (n := w.timers.length) hqueue)
  change Except.ok (World.addEntry { w with timers := w.timers ++ [{ duration := max 0 d }] } _ _ _) = _ at hc
  cases hc
  exact hadded

section Guarded

variable (hg : w.Guarded)
include hg

theorem Faithful.unlist (h : w.Faithful separator now) (k : Nat) : (w.unlist k).Faithful separator now := by
  unfold World.unlist
  split
  · rename_i e n t he ht
    have htimer := h.timers t (List.mem_of_getElem? (timerOf?_eq ht).1)
    have hentry : (w.setEntry k { e with listed := false }).Faithful separator now :=
      h.setEntry (h.entries e (List.mem_of_getElem? he))
    have hclosed : (t.close w.line).1.Forward now := htimer.congr rfl rfl rfl
    have hnow : (t.close w.line).2.now = w.line.now := (hg.timers n t (timerOf?_eq ht).1).close.now
    exact (hentry.setTimer (n := n) hclosed).congr rfl hnow rfl rfl
  · exact h

theorem Faithful.unlistAll (h : w.Faithful separator now) : w.unlistAll.Faithful separator now := by
  unfold World.unlistAll
  generalize w.listed = ks
  induction ks generalizing w with
  | nil => exact h
  | cons k ks ih =>
    have hg' : (w.unlist k).Guarded := (quiet_unlist w k).keeps (fun _ _ _ _ hg hc => hg.change hc) hg
    exact ih hg' (h.unlist hg k)

theorem Faithful.reset (h : w.Faithful separator now) (ht : w.timers[n]? = some t) (d : Option Number.Amount) :
    (w.take n (t.reset d w.line).1).1.Faithful separator now :=
  h.take ((hg.timers n t ht).reset d).now ((h.timer ht).reset d w.line)

theorem Faithful.setInput (h : w.Faithful separator now) (hc : w.setInput k text = .ok w') :
    w'.Faithful separator now := by
  unfold World.setInput at hc
  split at hc
  · contradiction
  · rename_i q e n t hq he ht
    cases hc
    rw [h.separator] at hq
    obtain ⟨-,-,hqueue⟩ := QueueOf.read hq
    let w₁ := w.setEntry k { e with input := text, queue := some q.pop.2 }
    have hg₁ : w₁.Guarded := hg.congr rfl rfl
    have h₁ : w₁.Faithful separator now := h.setEntry hqueue
    exact h₁.reset hg₁ (timerOf?_eq ht).1 _
  · cases hc
    exact h

theorem Faithful.next? (h : w.Faithful separator now) {cs : List Call} (hn : w.next? k = some (w',cs)) :
    w'.Faithful separator now := by
  unfold World.next? at hn
  split at hn
  · rename_i e n t he ht
    split at hn
    · rename_i d q hq
      obtain ⟨q₀,hq₀,hpop⟩ := Option.map_eq_some_iff.mp hq
      have hold := h.entries e (List.mem_of_getElem? he)
      rw [hq₀] at hold
      let w₁ := w.setEntry k { e with queue := some q }
      let r := (t.reset (some (.int d)) w₁.line).1
      have ht₁ : w₁.timers[n]? = some t := (timerOf?_eq ht).1
      have hg₁ : w₁.Guarded := hg.congr rfl rfl
      have h₁ : w₁.Faithful separator now := h.setEntry (hold.pop hpop)
      have h₂ : (w₁.take n r).1.Faithful separator now := h₁.reset hg₁ ht₁ _
      have hg₂ : (w₁.take n r).1.Guarded := hg₁.take ht₁ ((hg₁.timers n t ht₁).reset _)
      have ht₂ : (w₁.take n r).1.timers[n]? = some r.timer := getElem?_take ht₁ r
      have h₃ : ((w₁.take n r).1.take n (r.timer.start n (w₁.take n r).1.line)).1.Faithful separator now :=
        h₂.take (hg₂.timers n _ ht₂).start.now ((h₂.timer ht₂).evolves (Timer.start_evolves _ n _))
      rw [line_take] at h₃
      have hw' : ((w₁.take n r).1.take n (r.timer.start n r.line)).1 = w' := congrArg (·.1) (Option.some.inj hn)
      rwa [← hw']
    · contradiction
  · contradiction

end Guarded

/-- What can have been saved up to a time: the queue can be built anew, and the timer never ran for less
than no time. -/
structure Savable (separator : String) (now : Int) (s : Snapshot) : Prop where
  queue : ∃ queue, restoreQueue separator s = .ok (queue,[]) ∧ QueueOf separator s.input queue
  timer : (Timer.ofFields s.fields).Forward now

theorem Faithful.savable (h : w.Faithful separator now) (hs : w.saved? k = some s) : Savable separator now s := by
  obtain ⟨e,t,he,ht,rfl⟩ := saved?_eq_some.mp hs
  have hqueue := h.entries e (List.mem_of_getElem? he)
  have htimer := h.timers t (List.mem_of_getElem? ht)
  exact ⟨⟨e.queue,restoreQueue_queueOf hqueue rfl,hqueue⟩,htimer.congr rfl rfl rfl⟩

/-- What was saved at an earlier time is restored. -/
theorem Restoring.faithful (h : w.Restoring ss w') (hw : w.Faithful separator now)
    (hss : ∀ s ∈ ss, Savable separator now₀ s) (hle : now₀ ≤ now) : w'.Faithful separator now where
  separator := h.separator.trans hw.separator
  now := h.now.trans hw.now
  timers u hu := by
    obtain ⟨n,hn⟩ := List.getElem?_of_mem hu
    obtain hlt | hge := Nat.lt_or_ge n w.timers.length
    · rw [h.timers n hlt] at hn
      exact hw.timers u (List.mem_of_getElem? hn)
    · have hbound := (List.getElem?_eq_some_iff.mp hn).1
      have hlength := h.timersLength
      have hj : n - w.timers.length < ss.length := by omega
      obtain ⟨t,-,-,-,-,ht,hrestores,-,-⟩ := h.added _ _ (List.getElem?_eq_getElem hj)
      have hindex : w.timers.length + (n - w.timers.length) = n := by omega
      rw [hindex, hn] at ht
      cases ht
      have hforward := ((hss _ (List.getElem_mem hj)).timer).mono hle
      exact hforward.congr hrestores.duration hrestores.accumulated hrestores.resumedAt
  entries x hx := by
    obtain ⟨k,hk⟩ := List.getElem?_of_mem hx
    obtain hlt | hge := Nat.lt_or_ge k w.entries.length
    · rw [h.entries k hlt] at hk
      exact hw.entries x (List.mem_of_getElem? hk)
    · have hbound := (List.getElem?_eq_some_iff.mp hk).1
      have hlength := h.entriesLength
      have hj : k - w.entries.length < ss.length := by omega
      obtain ⟨-,queue,logs,hqueue,he,-⟩ := h.added _ _ (List.getElem?_eq_getElem hj)
      have hindex : w.entries.length + (k - w.entries.length) = k := by omega
      rw [hindex, hk] at he
      cases he
      obtain ⟨queue',hqueue',hof⟩ := (hss _ (List.getElem_mem hj)).queue
      rw [hw.separator, hqueue'] at hqueue
      cases hqueue
      exact hof

theorem Faithful.imports (h : w.Faithful separator now) (hw : w.Wired) (htext : w.exported = .ok text)
    (hg : w₀.Guarded) (hs : w₀.separator = separator) : ∃ w' ss,
      w₀.importText text = (w',.ok (List.range' w₀.entries.length ss.length)) ∧
      w.listed.map w.saved? = ss.map some ∧ (∀ s ∈ ss, Savable separator now s) ∧ w₀.Restoring ss w' := by
  obtain ⟨ss,hmap,hchecked,himport⟩ := importText_exported hw htext
  have hsavable : ∀ s ∈ ss, Savable separator now s := by
    intro s hs
    have hmem : some s ∈ w.listed.map w.saved? := by
      rw [hmap]
      exact List.mem_map_of_mem hs
    obtain ⟨k,-,hk⟩ := List.mem_map.mp hmem
    exact h.savable hk
  obtain ⟨w',hrestore,hrestoring⟩ := restoreAll_restoring hg hchecked fun s hmem => by
    obtain ⟨queue,hqueue,-⟩ := (hsavable s hmem).queue
    rw [hs]
    exact ⟨queue,[],hqueue⟩
  exact ⟨w',ss,by rw [himport, hrestore],hmap,hsavable,hrestoring⟩

theorem Restoring.unlogged (h : w.Restoring ss w') (hss : ∀ s ∈ ss, Savable w.separator now s) :
    ∃ ns, w'.journal = w.journal ++ ns ∧ ∀ l, .logged l ∉ ns := by
  obtain ⟨ns,hjournal,-,hlogs⟩ := h.notes
  refine ⟨ns,hjournal,fun l hl => ?_⟩
  obtain ⟨s,hs,queue,logs,hqueue,hmem⟩ := hlogs l hl
  obtain ⟨queue',hqueue',-⟩ := (hss s hs).queue
  rw [hqueue'] at hqueue
  cases hqueue
  simp at hmem

end World
end Countdown
