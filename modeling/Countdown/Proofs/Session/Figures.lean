import Countdown.Proofs.Session.Growth
import Countdown.Proofs.Session.Salvage
set_option autoImplicit false

namespace Countdown

/-- What clients keep in view of a timer. -/
structure Figures where
  input : String
  consumed : Nat
  upcoming : Option Int
  phase : Phase
  duration : Int
  deriving DecidableEq, Repr

def View.figures (v : View) : Figures := ⟨v.input,v.consumed,v.upcoming,v.phase,v.duration⟩

def Entry.figures (e : Entry) (t : Timer) : Figures := ⟨e.input,e.consumed,e.upcoming,t.phase,t.duration⟩

namespace World

def figures? (w : World) (id : String) : Option Figures := ((w.find? id).bind w.view?).map View.figures

structure Lists (w : World) (k : Nat) (e : Entry) (t : Timer) : Prop where
  entry : w.entries[k]? = some e
  listed : e.listed = true
  timer : w.timers[e.timer]? = some t

variable {w w' : World} {k l n : Nat} {e e' : Entry} {t : Timer} {u : Timer.Effect} {id : String} {f : Figures}

theorem Lists.figures (h : w.Lists k e t) : w.figures? (Entry.idOf k) = some (e.figures t) := by
  rw [figures?, find?_idOf h.entry h.listed, Option.bind_some, view?_eq h.entry h.timer]
  rfl

theorem lists_of_figures (h : w.figures? id = some f) : ∃ k e t, id = Entry.idOf k ∧ w.Lists k e t ∧ e.figures t = f := by
  obtain ⟨v,hv,rfl⟩ := Option.map_eq_some_iff.mp h
  obtain ⟨k,hk,hview⟩ := Option.bind_eq_some_iff.mp hv
  obtain ⟨rfl,e,he,hl⟩ := of_find? hk
  cases ht : w.timers[e.timer]? with
  | none => simp [view?, he, ht] at hview
  | some t =>
    rw [view?_eq he ht] at hview
    cases hview
    exact ⟨k,e,t,rfl,⟨he,hl,ht⟩,rfl⟩

theorem Lists.entry_eq (h : w.Lists k e t) (he : w.entries[k]? = some e') : e' = e :=
  Option.some.inj (he.symm.trans h.entry)

theorem Lists.congr (h : w.Lists k e t) (hentries : w'.entries = w.entries) (htimers : w'.timers = w.timers) :
    w'.Lists k e t :=
  ⟨hentries ▸ h.entry,h.listed,htimers ▸ h.timer⟩

theorem Lists.setEntry {x : Entry} (h : w.Lists k e t) (hl : x.listed = true) (ht : x.timer = e.timer) :
    (w.setEntry k x).Lists k x t :=
  ⟨List.getElem?_set_self (List.getElem?_eq_some_iff.mp h.entry).1,hl,ht ▸ h.timer⟩

theorem Lists.setEntry_ne {x : Entry} (h : w.Lists l e t) (hne : l ≠ k) : (w.setEntry k x).Lists l e t :=
  ⟨(List.getElem?_set_ne (Ne.symm hne)).trans h.entry,h.listed,h.timer⟩

theorem Lists.take (h : w.Lists k e t) (u : Timer.Effect) : (w.take e.timer u).1.Lists k e u.timer :=
  ⟨(entries_take w _ u).symm ▸ h.entry,h.listed,getElem?_take h.timer u⟩

theorem Lists.take_ne (h : w.Lists l e t) (hne : e.timer ≠ n) : (w.take n u).1.Lists l e t := by
  refine ⟨(entries_take w n u).symm ▸ h.entry,h.listed,?_⟩
  rw [timers_take, List.getElem?_set_ne (Ne.symm hne)]
  exact h.timer

theorem Apart.timer_ne (hw : w.Apart) (he : w.entries[k]? = some e) (he' : w.entries[l]? = some e') (hne : l ≠ k) :
    e'.timer ≠ e.timer := by
  intro hsame
  have hk : w.owner? k = some e.timer := by simp [owner?, he]
  have hl : w.owner? l = some e.timer := by simp [owner?, he', hsame]
  exact hne (hw l k e.timer hl hk)

theorem timer_of_timerOf? (he : w.entries[k]? = some e) (ht : w.timerOf? k = some (n,t)) : e.timer = n := by
  simpa [he] using (timerOf?_eq ht).2

/-- No entry of the list changes but `k`, and none leaves it. -/
def Alters (w : World) (k : Nat) (w' : World) : Prop :=
  ∀ l e t, w.Lists l e t → (l ≠ k → w'.Lists l e t) ∧ ∃ e' t', w'.Lists l e' t'

theorem alters_of {k : Nat} (hne : ∀ l e t, l ≠ k → w.Lists l e t → w'.Lists l e t)
    (hk : ∀ e t, w.Lists k e t → ∃ e' t', w'.Lists k e' t') : w.Alters k w' := by
  intro l e t h
  refine ⟨fun hl => hne l e t hl h,?_⟩
  by_cases hl : l = k
  · subst hl
    exact hk e t h
  · exact ⟨e,t,hne l e t hl h⟩

theorem Alters.figures (h : w.Alters k w') (hf : w.figures? id = some f) :
    (id ≠ Entry.idOf k → w'.figures? id = some f) ∧ ∃ f', w'.figures? id = some f' := by
  obtain ⟨l,e,t,rfl,hlists,rfl⟩ := lists_of_figures hf
  obtain ⟨hsame,e',t',hlists'⟩ := h l e t hlists
  refine ⟨fun hid => (hsame ?_).figures,_,hlists'.figures⟩
  rintro rfl
  exact hid rfl

theorem alters_take (hw : w.Apart) (he : w.entries[k]? = some e) (u : Timer.Effect) :
    w.Alters k (w.take e.timer u).1 := by
  refine alters_of (fun l e' t hl h => h.take_ne (hw.timer_ne he h.entry hl)) fun e' t h => ?_
  obtain rfl := h.entry_eq he
  exact ⟨e,u.timer,h.take u⟩

theorem alters_setInput {text : String} (hw : w.Apart) (h : w.setInput k text = .ok w') : w.Alters k w' := by
  unfold setInput at h
  split at h
  · contradiction
  · rename_i q e n t _ he ht
    cases h
    obtain rfl := timer_of_timerOf? he ht
    refine alters_of (fun l e' t' hl h => ?_) fun e' t' h => ?_
    · exact (h.setEntry_ne hl).take_ne (hw.timer_ne he h.entry hl)
    · obtain rfl := h.entry_eq he
      exact ⟨_,_,(h.setEntry (x := { e with input := text, queue := some q.pop.2 }) h.listed rfl).take _⟩
  · cases h
    exact fun l e t h => ⟨fun _ => h,e,t,h⟩

theorem alters_next? {cs : List Call} (hw : w.Apart) (h : w.next? k = some (w',cs)) : w.Alters k w' := by
  unfold next? at h
  split at h
  · rename_i e n t he ht
    split at h
    · rename_i d q _
      obtain rfl := congrArg Prod.fst (Option.some.inj h)
      obtain rfl := timer_of_timerOf? he ht
      refine alters_of (fun l e' t' hl h => ?_) fun e' t' h => ?_
      · have hne := hw.timer_ne he h.entry hl
        exact ((h.setEntry_ne hl).take_ne hne).take_ne hne
      · obtain rfl := h.entry_eq he
        exact ⟨_,_,((h.setEntry (x := { e with queue := some q }) h.listed rfl).take _).take _⟩
    · contradiction
  · contradiction

theorem figures_unlist (hw : w.Apart) (hf : w.figures? id = some f) (hid : id ≠ Entry.idOf k) :
    (w.unlist k).figures? id = some f := by
  obtain ⟨l,e,t,rfl,h,rfl⟩ := lists_of_figures hf
  have hl : l ≠ k := by
    rintro rfl
    exact hid rfl
  refine Lists.figures ?_
  unfold unlist
  split
  · rename_i e' n t' he' ht'
    obtain rfl := timer_of_timerOf? he' ht'
    have hset := h.setEntry_ne (x := { e' with listed := false }) hl
    exact ⟨hset.entry,h.listed,(List.getElem?_set_ne (Ne.symm (hw.timer_ne he' h.entry hl))).trans h.timer⟩
  · exact h

/-- All that clients have in view stays as it is. -/
def Retains (w w' : World) : Prop := ∀ id f, w.figures? id = some f → w'.figures? id = some f

theorem Retains.refl (w : World) : w.Retains w := fun _ _ h => h

theorem Retains.trans {w'' : World} (h : w.Retains w') (h' : w'.Retains w'') : w.Retains w'' :=
  fun id f hf => h' id f (h id f hf)

theorem retains_of_same (hentries : w'.entries = w.entries) (htimers : w'.timers = w.timers) : w.Retains w' := by
  intro id f hf
  obtain ⟨k,e,t,rfl,h,rfl⟩ := lists_of_figures hf
  exact (h.congr hentries htimers).figures

theorem retains_of_prefix (hentries : ∀ k, k < w.entries.length → w'.entries[k]? = w.entries[k]?)
    (htimers : ∀ n, n < w.timers.length → w'.timers[n]? = w.timers[n]?) : w.Retains w' := by
  intro id f hf
  obtain ⟨k,e,t,rfl,h,rfl⟩ := lists_of_figures hf
  have hk := (List.getElem?_eq_some_iff.mp h.entry).1
  have hn := (List.getElem?_eq_some_iff.mp h.timer).1
  have hlists : w'.Lists k e t := ⟨(hentries k hk).trans h.entry,h.listed,(htimers _ hn).trans h.timer⟩
  exact hlists.figures

theorem retains_take (ht : w.timers[n]? = some t) (hphase : u.timer.phase = t.phase)
    (hduration : u.timer.duration = t.duration) : w.Retains (w.take n u).1 := by
  intro id f hf
  obtain ⟨k,e,t',rfl,h,rfl⟩ := lists_of_figures hf
  by_cases hn : e.timer = n
  · subst hn
    have hsame := ht.symm.trans h.timer
    cases hsame
    rw [(h.take u).figures]
    simp only [Entry.figures, hphase, hduration]
  · exact (h.take_ne hn).figures

theorem retains_wake (ht : w.timers[n]? = some t) (g : Nat) (line : Timeline) :
    w.Retains (w.take n (t.wake n g line)).1 := by
  obtain ⟨f,a,htimer⟩ := Timer.wake_timer t n g line
  refine retains_take ht ?_ ?_
  · rw [htimer]
    rfl
  · rw [htimer]

theorem retains_create {input : String} {d : Option Number.Amount} (h : w.create input d = .ok (w',k)) :
    w.Retains w' := by
  obtain ⟨t,queue,-,heq⟩ := of_create h
  obtain rfl := congrArg Prod.fst heq
  refine retains_of_prefix (fun k hk => List.getElem?_append_left hk) fun n hn => ?_
  have hne : w.timers.length ≠ n := Nat.ne_of_gt hn
  simp [addEntry, hne, List.getElem?_append_left hn]

theorem Adds.retains {ss : List Snapshot} (h : w.Adds ss w') : w.Retains w' := retains_of_prefix h.entries h.timers

theorem retains_importText (hg : w.Guarded) (hw : w.Wired) (text : String) : w.Retains (w.importText text).1 := by
  by_cases hread : ∀ n, Json.read text ≠ .error (.integerTooLong n)
  · obtain ⟨w',r,himport,hadds,-⟩ := importText_adds hg hw hread
    rw [himport]
    exact hadds.retains
  · simp only [not_forall, not_not] at hread
    obtain ⟨n,hn⟩ := hread
    have hall : Snapshot.readAll text = .error (.integerTooLong n) := by simp [Snapshot.readAll, hn]
    rw [importText, hall]
    exact .refl w

end World
end Countdown
