import Countdown.Proofs.Session.Import
set_option autoImplicit false

namespace Countdown

namespace World

/-- What all that happens to a world has in common. -/
structure Grows (w w' : World) : Prop where
  length : w.timers.length ≤ w'.timers.length
  kept : ∀ k n, w.owner? k = some n → w'.owner? k = some n
  added : ∀ k n, w'.owner? k = some n → w.owner? k = some n ∨ w.timers.length ≤ n ∧ n < w'.timers.length
  alone : ∀ k l n, w.owner? k = none → w.owner? l = none → w'.owner? k = some n → w'.owner? l = some n → k = l
  unlisted : ∀ (k : Nat) (e : Entry), w.entries[k]? = some e → e.listed = false → w'.entries[k]? = some e
  notes : ∃ ns, w'.journal = w.journal ++ ns ∧ ∀ x ∈ ns, x.delivery? = none

variable {w w' w'' : World} {n k : Nat} {e : Entry} {t : Timer}

theorem Grows.trans (h : w.Grows w') (h' : w'.Grows w'') : w.Grows w'' where
  length := Nat.le_trans h.length h'.length
  kept k n hk := h'.kept k n (h.kept k n hk)
  added k n hk := by
    obtain hk | ⟨hle,hlt⟩ := h'.added k n hk
    · obtain hk | ⟨hle,hlt⟩ := h.added k n hk
      · exact .inl hk
      · exact .inr ⟨hle,Nat.lt_of_lt_of_le hlt h'.length⟩
    · exact .inr ⟨Nat.le_trans h.length hle,hlt⟩
  alone k l n hk hl hk' hl' := by
    -- an entry that came in the first half has an older timer than one that came in the second
    have hlater : ∀ j, w.owner? j = none → w''.owner? j = some n → w'.timers.length ≤ n → w'.owner? j = none := by
      intro j hj hj' hle
      cases hm : w'.owner? j with
      | none => rfl
      | some m =>
        have hsame := h'.kept j m hm
        rw [hj'] at hsame
        cases hsame
        obtain hold | ⟨-,hlt⟩ := h.added j n hm
        · rw [hj] at hold
          contradiction
        · omega
    obtain hk₁ | ⟨hle,-⟩ := h'.added k n hk'
    · obtain hl₁ | ⟨hle,-⟩ := h'.added l n hl'
      · exact h.alone k l n hk hl hk₁ hl₁
      · rw [hlater k hk hk' hle] at hk₁
        contradiction
    · obtain hl₁ | ⟨hle',-⟩ := h'.added l n hl'
      · rw [hlater l hl hl' hle] at hl₁
        contradiction
      · exact h'.alone k l n (hlater k hk hk' hle) (hlater l hl hl' hle) hk' hl'
  unlisted k e he hl := h'.unlisted k e (h.unlisted k e he hl) hl
  notes := by
    obtain ⟨ns,hns,hnone⟩ := h.notes
    obtain ⟨ms,hms,hnone'⟩ := h'.notes
    refine ⟨ns ++ ms,by rw [hms, hns, List.append_assoc],fun x hx => ?_⟩
    obtain hx | hx := List.mem_append.mp hx
    · exact hnone x hx
    · exact hnone' x hx

theorem grows_of_owners (hlength : w.timers.length ≤ w'.timers.length) (howner : ∀ k, w'.owner? k = w.owner? k)
    (hunlisted : ∀ (k : Nat) (e : Entry), w.entries[k]? = some e → e.listed = false → w'.entries[k]? = some e)
    (hnotes : ∃ ns, w'.journal = w.journal ++ ns ∧ ∀ x ∈ ns, x.delivery? = none) : w.Grows w' where
  length := hlength
  kept k n hk := (howner k).trans hk
  added k n hk := .inl ((howner k).symm.trans hk)
  alone k l n hk _ hk' _ := by
    rw [howner, hk] at hk'
    contradiction
  unlisted := hunlisted
  notes := hnotes

theorem grows_of_entries (hlength : w.timers.length ≤ w'.timers.length) (hentries : w'.entries = w.entries)
    (hnotes : ∃ ns, w'.journal = w.journal ++ ns ∧ ∀ x ∈ ns, x.delivery? = none) : w.Grows w' :=
  grows_of_owners hlength (owner?_of_entries hentries) (fun k e he _ => by rw [hentries, he]) hnotes

theorem grows_aside (hlength : w.timers.length ≤ w'.timers.length) (hentries : w'.entries = w.entries)
    (hjournal : w'.journal = w.journal) : w.Grows w' :=
  grows_of_entries hlength hentries ⟨[],by rw [hjournal, List.append_nil],by simp⟩

theorem Grows.refl (w : World) : w.Grows w := grows_aside (Nat.le_refl _) rfl rfl

theorem grows_note {x : Note} (h : x.delivery? = none) : w.Grows (w.note x) :=
  grows_of_entries (Nat.le_refl _) rfl ⟨[x],rfl,by simpa using h⟩

theorem grows_logs (ls : List Log) (w : World) : w.Grows (ls.foldl log w) := by
  rw [logs_eq]
  exact grows_of_entries (Nat.le_refl _) rfl ⟨ls.map .logged,rfl,by simp [Note.delivery?]⟩

theorem grows_setTimer (w : World) (n : Nat) (t : Timer) : w.Grows (w.setTimer n t) :=
  grows_aside (Nat.le_of_eq List.length_set.symm) rfl rfl

theorem grows_put (w : World) (n : Nat) (p : Timer × Timeline) : w.Grows (w.put n p) :=
  grows_aside (Nat.le_of_eq List.length_set.symm) rfl rfl

theorem grows_take (w : World) (n : Nat) (e : Timer.Effect) : w.Grows (w.take n e).1 := by
  obtain ⟨ns,hjournal,hplain⟩ := journal_take w n e
  refine grows_of_entries (by simp [timers_take]) (entries_take w n e) ⟨ns,hjournal,fun x hx => ?_⟩
  have hx := hplain x hx
  cases x <;> first
    | rfl
    | contradiction

theorem grows_setEntry {e' : Entry} (he : w.entries[k]? = some e) (hl : e.listed = true) (ht : e'.timer = e.timer) :
    w.Grows (w.setEntry k e') := by
  refine grows_of_owners (Nat.le_refl _) (owner?_setEntry he ht) (fun l x hx hunlisted => ?_)
    ⟨[],(List.append_nil _).symm,by simp⟩
  have hne : k ≠ l := by
    rintro rfl
    rw [he] at hx
    cases hx
    rw [hl] at hunlisted
    contradiction
  exact (List.getElem?_set_ne hne).trans hx

theorem Grows.enter (h : w.Grows w') (hsame : w'.entries = w.entries) (hnew : w.timers.length ≤ e.timer)
    (hlt : e.timer < w''.timers.length) (hentries : w''.entries = w'.entries ++ [e])
    (hlength : w''.timers.length = w'.timers.length) (hjournal : w''.journal = w'.journal) : w.Grows w'' := by
  have howner : ∀ k, w''.owner? k = if k = w.entries.length then some e.timer else w.owner? k := by
    intro k
    have happend := owner?_append (w := w') e k
    rw [owner?_of_entries hsame, hsame] at happend
    rw [← happend, hsame] at *
    exact owner?_of_entries (hentries.trans (by rw [hsame])) k
  have hfree : w.owner? w.entries.length = none := by simp [owner?]
  have hlast : ∀ k m, w.owner? k = none → w''.owner? k = some m → k = w.entries.length := by
    intro k m hk hk'
    rw [howner] at hk'
    split at hk'
    · assumption
    · rw [hk] at hk'
      contradiction
  constructor
  · rw [hlength]
    exact h.length
  · intro k m hk
    rw [howner, if_neg ?_]
    · exact hk
    · rintro rfl
      rw [hfree] at hk
      contradiction
  · intro k m hk
    rw [howner] at hk
    split at hk
    · cases hk
      exact .inr ⟨hnew,hlt⟩
    · exact .inl hk
  · intro k l m hk hl hk' hl'
    rw [hlast k m hk hk', hlast l m hl hl']
  · intro k x hx _
    rw [hentries, hsame]
    exact List.getElem?_append_left (List.getElem?_eq_some_iff.mp hx).1 ▸ hx
  · rw [hjournal]
    exact h.notes

theorem Grows.addEntry (h : w.Grows w') (hsame : w'.entries = w.entries) (hnew : w.timers.length ≤ n)
    (hlt : n < w'.timers.length) (input : String) (queue : Option Queue) :
    w.Grows (w'.addEntry n input queue).1 := by
  have hlength : (w'.addEntry n input queue).1.timers.length = w'.timers.length := List.length_modify _ _ _
  exact h.enter (e := ⟨n,input,queue,true⟩) hsame hnew (hlength ▸ hlt) rfl hlength rfl

theorem of_create {input : String} {d : Option Number.Amount} (h : w.create input d = .ok (w',k)) :
    ∃ (t : Timer) (queue : Option Queue), t.listeners = [] ∧
      addEntry { w with timers := w.timers ++ [t] } w.timers.length input queue = (w',k) := by
  have hidle : ∀ {x : Number.Amount} {t : Timer}, Timer.ofDuration x = .ok t → t.listeners = [] := by
    intro x t ht
    obtain ⟨i,-,ht⟩ := bind_eq_ok.mp ht
    cases ht
    rfl
  unfold create at h
  cases d with
  | some x =>
    simp only [bind, Except.bind, pure, Except.pure] at h
    cases ht : Timer.ofDuration x with
    | error e => simp [ht] at h
    | ok t =>
      simp only [ht, Except.ok.injEq] at h
      exact ⟨t,none,hidle ht,h⟩
  | none =>
    cases hr : w.readInput input with
    | error f => simp [hr, Except.map, bind, Except.bind] at h
    | ok r =>
      simp only [hr, Except.map, bind, Except.bind, pure, Except.pure] at h
      cases ht : Timer.ofDuration (.int r.2) with
      | error e => simp [ht] at h
      | ok t =>
        simp only [ht, Except.ok.injEq] at h
        exact ⟨t,r.1,hidle ht,h⟩

theorem grows_create {input : String} {d : Option Number.Amount} (h : w.create input d = .ok (w',k)) : w.Grows w' := by
  obtain ⟨t,queue,-,heq⟩ := of_create h
  obtain rfl := congrArg Prod.fst heq
  have htimer : w.Grows { w with timers := w.timers ++ [t] } := grows_aside (by simp) rfl rfl
  exact htimer.addEntry rfl (Nat.le_refl _) (by simp) input queue

theorem grows_unlist (w : World) (k : Nat) : w.Grows (w.unlist k) := by
  unfold unlist
  split
  · rename_i e n t he ht
    have hset : w.Grows (w.setEntry k { e with listed := false }) := by
      refine grows_of_owners (Nat.le_refl _) (owner?_setEntry he rfl) (fun l x hx hunlisted => ?_)
        ⟨[],(List.append_nil _).symm,by simp⟩
      by_cases hkl : k = l
      · subst hkl
        rw [he] at hx
        cases hx
        rw [← hunlisted]
        exact List.getElem?_set_self (List.getElem?_eq_some_iff.mp he).1
      · exact (List.getElem?_set_ne hkl).trans hx
    exact hset.trans (grows_put _ _ _)
  · exact .refl w

theorem grows_unlists (ks : List Nat) (w : World) : w.Grows (ks.foldl unlist w) := by
  induction ks generalizing w with
  | nil => exact .refl w
  | cons k ks ih => exact (grows_unlist w k).trans (ih (w.unlist k))

theorem grows_setInput {text : String} (hl : ∀ e, w.entries[k]? = some e → e.listed = true)
    (h : w.setInput k text = .ok w') : w.Grows w' := by
  unfold setInput at h
  split at h
  · contradiction
  · rename_i q e n t _ he ht
    cases h
    have hset : w.Grows (w.setEntry k { e with input := text, queue := some q.pop.2 }) :=
      grows_setEntry he (hl e he) rfl
    exact hset.trans (grows_take _ _ _)
  · cases h
    exact .refl w

theorem grows_next? {cs : List Call} (hl : ∀ e, w.entries[k]? = some e → e.listed = true)
    (h : w.next? k = some (w',cs)) : w.Grows w' := by
  unfold next? at h
  split at h
  · rename_i e n t he ht
    split at h
    · rename_i d q _
      have hset : w.Grows (w.setEntry k { e with queue := some q }) := grows_setEntry he (hl e he) rfl
      have hstart := (grows_take (w.setEntry k { e with queue := some q }) n (t.reset (some (.int d)) w.line).1).trans
        (grows_take _ n ((t.reset (some (.int d)) w.line).1.timer.start n (t.reset (some (.int d)) w.line).1.line))
      obtain rfl := congrArg Prod.fst (Option.some.inj h)
      exact hset.trans hstart
    · contradiction
  · contradiction

theorem grows_addRestored (w : World) (f : TimerFields) : w.Grows (w.addRestored f).1 := by
  have hadd : w.Grows { w with timers := w.timers ++ [({} : Timer)] } := grows_aside (by simp) rfl rfl
  exact hadd.trans (grows_take _ _ _)

theorem entries_addRestored (w : World) (f : TimerFields) : (w.addRestored f).1.entries = w.entries :=
  entries_take _ _ _

theorem grows_restoreAll (w : World) (ss : List Snapshot) : w.Grows (w.restoreAll ss).1 := by
  induction ss generalizing w with
  | nil => exact .refl w
  | cons s ss ih =>
    have hadded := grows_addRestored w s.fields
    have hentries := entries_addRestored w s.fields
    have hlength : w.timers.length < (w.addRestored s.fields).1.timers.length := by
      rw [length_addRestored]
      omega
    simp only [restoreAll]
    split
    · exact hadded.enter (e := ⟨w.timers.length,s.input,none,false⟩) hentries (Nat.le_refl _) hlength rfl rfl rfl
    · rename_i queue logs _
      have hlogged := hadded.trans (grows_logs logs _)
      have hsame : (logs.foldl log (w.addRestored s.fields).1).entries = w.entries := by rw [logs_eq, hentries]
      have hlt : w.timers.length < (logs.foldl log (w.addRestored s.fields).1).timers.length := by
        rw [timers_logs]
        exact hlength
      exact (hlogged.addEntry hsame (Nat.le_refl _) hlt s.input queue).trans (ih _)

theorem grows_importText (w : World) (text : String) : w.Grows (w.importText text).1 := by
  unfold importText
  split
  · exact .refl w
  · exact .refl w
  · exact (grows_logs _ w).trans (grows_restoreAll _ _)

/-- No two entries have the same timer. -/
def Apart (w : World) : Prop := ∀ k l n, w.owner? k = some n → w.owner? l = some n → k = l

theorem Apart.grows (h : w.Apart) (hw : w.Wired) (hg : w.Grows w') : w'.Apart := by
  have hnew : ∀ k n, w'.owner? k = some n → w.owner? k = none → w.timers.length ≤ n := by
    intro k n hk hnone
    obtain hold | ⟨hle,-⟩ := hg.added k n hk
    · rw [hnone] at hold
      contradiction
    · exact hle
  have hold : ∀ k m n, w.owner? k = some m → w'.owner? k = some n → w.owner? k = some n := by
    intro k m n hm hn
    have hkept := hg.kept k m hm
    rw [hn] at hkept
    rw [hm, hkept]
  intro k l n hk hl
  cases hk₀ : w.owner? k with
  | none =>
    cases hl₀ : w.owner? l with
    | none => exact hg.alone k l n hk₀ hl₀ hk hl
    | some m =>
      have hlt := hw.timers l n (hold l m n hl₀ hl)
      have hle := hnew k n hk hk₀
      omega
  | some m =>
    cases hl₀ : w.owner? l with
    | none =>
      have hlt := hw.timers k n (hold k m n hk₀ hk)
      have hle := hnew l n hl hl₀
      omega
    | some m' => exact h k l n (hold k m n hk₀ hk) (hold l m' n hl₀ hl)

end World

namespace Session
open World

variable {s : Session} {k : Nat}

theorem listed_of_find? {id : String} (h : s.world.find? id = some k) :
    ∀ e, s.world.entries[k]? = some e → e.listed = true := by
  obtain ⟨-,e,he,hl⟩ := of_find? h
  intro e' he'
  rw [he] at he'
  cases he'
  exact hl

theorem listed_of_meant {subject : Option String} {r : Ref} (h : s.entry? subject r = some k) :
    ∀ e, s.world.entries[k]? = some e → e.listed = true := by
  cases r with
  | focus => contradiction
  | subject =>
    obtain ⟨id,-,hid⟩ := Option.bind_eq_some_iff.mp h
    exact listed_of_find? hid
  | id name => exact listed_of_find? h

theorem grows_act (s : Session) (n : Nat) (a : Action) : s.world.Grows (s.act n a).session.world := by
  unfold act
  split
  · exact .refl _
  · dsimp only
    split <;> exact grows_take _ _ _

theorem grows_fire (s : Session) (i : Nat) : s.world.Grows (s.fire i).1.world := by
  unfold fire
  split
  · exact .refl _
  · dsimp only
    split
    · exact grows_aside (Nat.le_refl _) rfl rfl
    · exact grows_take _ _ _

theorem grows_setClock (s : Session) (now : Int) : s.world.Grows (s.setClock now).world :=
  grows_aside (Nat.le_refl _) rfl rfl

theorem grows_advanceTo (s : Session) (target : Int) : s.world.Grows (s.advanceTo target).1.world := by
  unfold advanceTo
  split
  · exact grows_setClock s target
  · exact (grows_setClock s _).trans (grows_fire _ _)

theorem grows_next (hl : ∀ e, s.world.entries[k]? = some e → e.listed = true) :
    s.world.Grows (s.next k).1.world := by
  unfold next
  split
  · exact .refl _
  · rename_i w cs h
    exact grows_next? hl h

theorem grows_proceed (s : Session) (k : Nat) : s.world.Grows (s.proceed k).1.world := by
  unfold proceed
  split
  · rename_i e he
    split
    · rename_i h
      refine grows_next fun e' he' => ?_
      rw [he] at he'
      cases he'
      exact h.2
    · exact .refl _
  · exact .refl _

theorem grows_onFocus (s : Session) (c : Command) : s.world.Grows (s.onFocus c).session.world := by
  unfold onFocus
  split
  case h_1 => exact grows_setTimer _ _ _
  case h_2 =>
    split
    · exact .refl _
    · split
      · exact .refl _
      · exact grows_setTimer _ _ _
  case h_3 => exact .refl _
  case h_4 => split <;> exact .refl _
  case h_5 =>
    split
    · exact .refl _
    · exact grows_addRestored _ _
  case h_6 =>
    split
    · exact .refl _
    · exact (grows_put _ _ _).trans (grows_addRestored _ _)
  case h_7 => exact .refl _

theorem grows_onEntry (hl : ∀ e, s.world.entries[k]? = some e → e.listed = true) (c : Command) :
    s.world.Grows (s.onEntry k c).session.world := by
  unfold onEntry
  split
  · exact grows_unlist _ _
  · split
    · exact .refl _
    · rename_i h
      exact grows_setInput hl h
  · exact grows_next hl
  · exact .refl _

theorem grows_perform (s : Session) (subject : Option String) (c : Command) :
    s.world.Grows (s.perform subject c).session.world := by
  cases c with
  | tick ms => exact grows_setClock s _
  | fire i =>
    simp only [perform]
    split
    · exact .refl _
    · exact grows_fire s _
  | act r a =>
    simp only [perform]
    split
    · exact .refl _
    · exact grows_act s _ a
  | create input d =>
    simp only [perform]
    split
    · exact .refl _
    · rename_i h
      exact grows_create h
  | get r | setInput r text | next r | remove r =>
    simp only [perform]
    split
    · exact .refl _
    · rename_i h
      exact grows_onEntry (listed_of_meant h) _
  | stopAll => exact grows_unlists _ _
  | exportAll =>
    simp only [perform]
    split <;> exact .refl _
  | importAll text =>
    simp only [perform]
    split <;> exact grows_importText _ _
  | configure separator | register name trigger steps fails | unregister name | observe =>
    exact grows_aside (Nat.le_refl _) rfl rfl
  | listen name steps fails | unlisten name | describe | save input consumed | restore saved | copy =>
    exact grows_onFocus s _
  | advance ms | notify r => exact .refl _

theorem grows_task (s : Session) {t : Task} (ht : ∀ c e id, t ≠ .tell c e id) :
    s.world.Grows (s.task t).session.world := by
  cases t with
  | command subject c => exact grows_perform s subject c
  | call c =>
    have hcall : s.world.Grows (s.world.note (.called c s.now)) := grows_note rfl
    unfold task call
    dsimp only
    split
    · exact hcall.trans (grows_note rfl)
    · exact hcall
  | tell c e id => exact absurd rfl (ht c e id)
  | proceed k => exact grows_proceed s k
  | advanceTo target => exact grows_advanceTo s target
  | notify e id | fail | caught site => exact .refl _

theorem tell_eq (s : Session) (c : Callback) (e : Event) (id : String) : ∃ x, x.delivery? = some (c,e,id) ∧
    (s.tell c e id).1 = s.withWorld (s.world.note x) := by
  cases c with
  | named name => exact ⟨_,rfl,rfl⟩
  | observer => exact ⟨_,rfl,rfl⟩

theorem step_tell (s : Session) (c : Callback) (e : Event) (id : String) (rest : List Task) :
    ∃ x, x.delivery? = some (c,e,id) ∧ (s.step (.tell c e id) rest).1 = s.withWorld (s.world.note x) :=
  tell_eq s c e id

theorem grows_step (s : Session) {t : Task} (ht : ∀ c e id, t ≠ .tell c e id) (rest : List Task) :
    s.world.Grows (s.step t rest).1.world := by
  have htask := grows_task s ht
  unfold step
  split
  · rename_i h
    rwa [h] at htask
  · rename_i h
    rw [h] at htask
    split
    · exact htask
    · exact htask.trans (grows_note rfl)

theorem Reached.apart {s : Session} {tasks : List Task} (h : Reached s tasks) : s.world.Apart := by
  induction h with
  | fresh h =>
    intro k l n hk
    simp [World.owner?, h.entries] at hk
  | ask _ _ _ _ ih => exact ih
  | @work s t rest h ih =>
    by_cases ht : ∃ c e id, t = .tell c e id
    · obtain ⟨c,e,id,rfl⟩ := ht
      obtain ⟨x,-,heq⟩ := s.step_tell c e id rest
      rw [heq]
      exact ih
    · exact ih.grows h.wired (grows_step s (fun c e id htell => ht ⟨c,e,id,htell⟩) rest)

end Session
end Countdown
