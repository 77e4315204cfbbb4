import Countdown.Proofs.Session.Deck
set_option autoImplicit false

namespace Countdown.Session
open Timeline World

variable {s s' : Session} {k i : Nat} {t : Timer} {e : Entry} {v : Wake} {target : Int}

theorem Deck.late_lt (h : s.Deck) (hn : s.world.line.next? target = some (i,v))
    (hturn : (s.setClock (max s.now v.due)).world.Turns v.owner s'.world)
    (hprompt : s'.world.isLate v.owner = false) (hdue : v.due ≤ s.now) : s'.world.late < s.world.late := by
  obtain ⟨hv,hp,-⟩ := of_next? hn
  have hclock : max s.now v.due = s.now := by omega
  rw [hclock] at hturn
  have hmem := List.mem_of_getElem? hv
  exact hturn.late_lt (h.guarded.owned v hmem) (isLate_iff.mpr ⟨v,hmem,rfl,hp,hdue⟩) hprompt

/-- Wake by wake the clock comes to where it is to go, and what each wake keeps holds all the way: at
each wake the clock goes on, or fewer timers are late. -/
theorem settles_advance {P : Session → Prop} (hdeck : ∀ s, P s → s.Deck)
    (hop : ∀ s i v, P s → s.world.line.next? target = some (i,v) → ∃ s', P s' ∧
      (s.setClock (max s.now v.due)).world.Turns v.owner s'.world ∧ s'.world.isLate v.owner = false ∧
      ∀ s'', Settles s' [.advanceTo target] s'' → Settles s [.advanceTo target] s'')
    (h : P s) (hlater : s.now ≤ target) : ∃ s₁, P s₁ ∧ s₁.now ≤ target ∧
      s₁.world.line.next? target = none ∧ Settles s [.advanceTo target] (s₁.setClock target) := by
  -- on the time that is left and, while that stays the same, on how many timers are late
  induction hk : (target - s.now).toNat using Nat.strongRecOn generalizing s with
  | ind k ihTime =>
    induction hl : s.world.late using Nat.strongRecOn generalizing s with
    | ind l ihLate =>
      cases hn : s.world.line.next? target with
      | none =>
        have htask : s.task (.advanceTo target) = (s.setClock target).ok [] .done := by
          simp [task, advanceTo, hn]
        exact ⟨s,h,hlater,hn,Settles.ok htask (.nil _)⟩
      | some q =>
        obtain ⟨j,v⟩ := q
        have hdue := (of_next? hn).2.2
        obtain ⟨s₁,h₁,hturn,hprompt,hset⟩ := hop s j v h hn
        have hnow : s₁.now = max s.now v.due := hturn.now
        obtain ⟨s₂,h₂,hle,hnone,hend⟩ : ∃ s₂, P s₂ ∧ s₂.now ≤ target ∧
            s₂.world.line.next? target = none ∧ Settles s₁ [.advanceTo target] (s₂.setClock target) := by
          by_cases hlt : s.now < v.due
          · exact ihTime (target - s₁.now).toNat (by omega) h₁ (by omega) rfl
          · have hsame : s₁.now = s.now := by omega
            have hfewer := (hdeck s h).late_lt hn hturn hprompt (by omega)
            exact ihLate s₁.world.late (by rw [← hl]; exact hfewer) h₁ (by omega) (by rw [hsame]; exact hk) rfl
        exact ⟨s₂,h₂,hle,hnone,hset _ hend⟩

theorem foldl_add (xs : List Int) (a : Int) : xs.foldl (· + ·) a = a + xs.foldl (· + ·) 0 := by
  induction xs generalizing a with
  | nil => simp
  | cons x xs ih =>
    simp only [List.foldl_cons]
    rw [ih (a + x), ih (0 + x)]
    omega

theorem runsAll_advances {Q : Session → Prop} (hstep : ∀ s target, Q s → s.now ≤ target →
      ∃ s', Settles s [.advanceTo target] s' ∧ s'.now = target ∧ Q s')
    (h : Q s) {steps : List Int} (hsteps : ∀ ms ∈ steps, 0 ≤ ms) : ∃ s',
      s.RunsAll (steps.map .advance) s' ∧ s'.now = s.now + steps.foldl (· + ·) 0 ∧ Q s' := by
  induction steps generalizing s with
  | nil => exact ⟨s,runsAll_nil s,by simp,h⟩
  | cons ms steps ih =>
    have hms := hsteps ms List.mem_cons_self
    obtain ⟨s₁,hset,hnow₁,h₁⟩ := hstep s (s.now + ms) h (by omega)
    have hrun : s.Runs (.advance ms) s₁ := Settles.runs (r := .done) rfl hset
    obtain ⟨s',hruns,hnow,h'⟩ := ih h₁ fun ms hm => hsteps ms (List.mem_cons_of_mem _ hm)
    refine ⟨s',hrun.cons hruns,?_,h'⟩
    rw [hnow, hnow₁, List.foldl_cons, foldl_add steps (0 + ms)]
    omega

/-- A timer after its wake has fired at a time, with its entry and what callbacks are told: it waits on,
or it is at its end and goes on from there. -/
inductive Rings (now : Int) (line : Timeline) (t : Timer) (e : Entry) :
    Timer → Entry → List Event → Prop where
  | waits (a : Alarm) : ({ t with alarm := a } : Timer).Punctual line →
      Rings now line t e { t with alarm := a } e []
  | ends {a : Alarm} {t' : Timer} {e' : Entry} {events : List Event} : t.finished = false →
      t.isOver now = true → a.pending = none →
      Goes now line { t with finished := true, alarm := a } e t' e' events →
      Rings now line t e t' e' (.finished :: events)

theorem Deck.ring (h : s.Deck) (hn : s.world.line.next? target = some (i,v))
    (ht : s.world.timers[e.timer]? = some t) (he : s.world.entries[k]? = some e) (ho : v.owner = e.timer)
    (hl : t.listeners = [.entry k]) : ∃ s' t' e' events,
      (s.setClock (max s.now v.due)).Moved k e events s' t' e' ∧ s'.world.isLate v.owner = false ∧
      Rings (max s.now v.due) s'.world.line t e t' e' events ∧
      ∀ s'', Settles s' [.advanceTo target] s'' → Settles s [.advanceTo target] s'' := by
  obtain ⟨hv,hp,-⟩ := of_next? hn
  rw [← ho] at ht
  obtain ⟨t₀,ht₀,hi⟩ := h.waits hv hp
  obtain rfl : t₀ = t := Option.some.inj (ht₀.symm.trans ht)
  let s₀ := s.setClock (max s.now v.due)
  let f := t₀.wake v.owner v.generation (s₀.world.line.markFired i)
  let s₁ := s₀.withWorld (s₀.world.take v.owner f).1
  have hfired : s₀.Fired v t₀ f s₁ := (h.setClock _).fire hv hp ht hi
  have htask : s.task (.advanceTo target) =
      s₁.ok (Session.calls (s₀.world.take v.owner f).2 ++ [.advanceTo target]) .done := task_advanceTo hn ht
  have he₁ : s₁.world.entries[k]? = some e := by
    change (s₀.world.take v.owner f).1.entries[k]? = some e
    rw [entries_take]
    exact he
  have hpunctual : f.timer.Punctual s₁.world.line := by
    rw [hfired.line]
    exact hfired.onTime.punctual
  have htold : Journal.deliveries (Entry.idOf k) s₁.world.journal =
      Journal.deliveries (Entry.idOf k) s₀.world.journal := deliveries_take _ _ _ _
  have ht₁ := hfired.timer
  have hturn₁ := hfired.turns
  have hsteady₁ := hfired.steady
  rw [ho] at ht₁ hturn₁ hsteady₁
  obtain ⟨a,hnone,hf⟩ | ⟨a,hann,hfin,hopen,hover,hf⟩ := Timer.wake_cases hfired.onTime
  · have hcs : (s₀.world.take v.owner f).2 = [] := take_of_not_announced _ _ hnone
    rw [hcs] at htask
    rw [hf] at ht₁ hpunctual
    refine ⟨s₁,_,e,[],⟨hfired.deck,hturn₁,hsteady₁,ht₁,he₁,?_⟩,hfired.prompt,.waits a hpunctual,
      fun s'' hset => Settles.ok htask hset⟩
    rw [htold]
    exact (List.append_nil _).symm
  · have hnow : f.line.now = max s.now v.due := by
      rw [← hfired.line]
      exact hfired.turns.now
    rw [hnow] at hover
    have hcs : (s₀.world.take v.owner f).2 = [⟨(s₀.world.cleared v.owner f).journal.length,.entry k⟩] := by
      rw [take_eq, hann, hl]
      rfl
    rw [hcs] at htask
    rw [hf] at ht₁ hpunctual
    -- at its end the timer waits for no further wake
    have hpend : a.pending = none := by
      cases ha : a.pending with
      | none => rfl
      | some j =>
        obtain ⟨-,u,hu,-⟩ := ((hfired.deck.guarded).timers _ _ ht₁).keeps.held j ha
        have hdue := hpunctual.wakes j u ha hu
        have hleft : t₀.remaining (max s.now v.due) ≤ 0 := (Timer.isOver_iff.mp hover).2.2
        have hclock : s₁.world.line.now = max s.now v.due := hfired.turns.now
        rw [hclock] at hdue
        change _ ∧ _ ≤ _ + t₀.remaining (max s.now v.due) at hdue
        omega
    obtain ⟨s',u,e',events,hmoved,hgoes,hset⟩ := hfired.deck.call he₁ ht₁ hopen hsteady₁
      (s₀.world.cleared v.owner f).journal.length
    have hturns := hmoved.turns
    rw [← ho] at hturns
    have hnow₁ : s₁.now = max s.now v.due := hfired.turns.now
    have hcallbacks : s₁.world.callbacks = s₀.world.callbacks := hfired.turns.callbacks
    rw [hnow₁] at hgoes
    refine ⟨s',u,e',.finished :: events,⟨hmoved.deck,hturn₁.trans hmoved.turns,hmoved.steady,hmoved.timer,
      hmoved.entry,?_⟩,hturns.prompt hfired.prompt,.ends hfin hover hpend hgoes,
      fun s'' hlast => Settles.ok htask (hset _ s'' hlast)⟩
    rw [hmoved.told, hcallbacks, htold]

/-- An entry of a deck with its timer, those who are told of it, and what they have been told. -/
structure Stands (s : Session) (k : Nat) (t : Timer) (e : Entry) (cs : List Callback)
    (told : List (Callback × Event × String)) : Prop where
  deck : s.Deck
  timer : s.world.timers[e.timer]? = some t
  entry : s.world.entries[k]? = some e
  callbacks : s.world.callbacks = cs
  told : Journal.deliveries (Entry.idOf k) s.world.journal = told

variable {t' : Timer} {e' : Entry} {cs : List Callback} {events : List Event} {n j : Nat} {u : Wake}
  {told : List (Callback × Event × String)}

theorem Stands.setClock (h : s.Stands k t e cs told) (now : Int) : (s.setClock now).Stands k t e cs told :=
  { h with deck := h.deck.setClock now }

theorem Stands.turns (h : s.Stands k t e cs told) (hn : n ≠ e.timer) (ht : s.world.Turns n s'.world)
    (hd : s'.Deck) : s'.Stands k t e cs told := by
  have howner : s.world.owner? k ≠ some n := by
    rw [owner?, h.entry]
    simpa using Ne.symm hn
  exact
    { deck := hd
      timer := (ht.timers e.timer (Ne.symm hn)).trans h.timer
      entry := (ht.entries k howner).trans h.entry
      callbacks := ht.callbacks.trans h.callbacks
      told := (ht.told k howner).trans h.told }

theorem Stands.wake (h : s.Stands k t e cs told) (hn : n ≠ e.timer) (ht : s.world.Turns n s'.world)
    (hj : t.alarm.pending = some j) (hu : s'.world.line.wakes[j]? = some u) : s.world.line.wakes[j]? = some u :=
  ht.wake h.deck.guarded h.timer (Ne.symm hn) hj hu

theorem Stands.due_le (h : s.Stands k t e cs told) (hn : s.world.line.next? target = some (i,v))
    (hj : t.alarm.pending = some j) (hu : s.world.line.wakes[j]? = some u) : v.due ≤ u.due := by
  have k := h.deck.guarded.timers e.timer t h.timer
  exact next?_le hn hu (k.pending hj hu)

theorem Stands.told_moved {now : Int} (h : s.Stands k t e cs told)
    (hm : (s.setClock now).Moved k e events s' t' e') : Journal.deliveries (Entry.idOf k) s'.world.journal =
      told ++ Callback.deliveries cs (Entry.idOf k) events := by
  have hbefore : Journal.deliveries (Entry.idOf k) (s.setClock now).world.journal = told := h.told
  have hcallbacks : (s.setClock now).world.callbacks = cs := h.callbacks
  rw [hm.told, hbefore, hcallbacks]

theorem Stands.moved {now : Int} (h : s.Stands k t e cs told)
    (hm : (s.setClock now).Moved k e events s' t' e') (ho : e'.timer = e.timer) :
    s'.Stands k t' e' cs (told ++ Callback.deliveries cs (Entry.idOf k) events) where
  deck := hm.deck
  timer := by
    rw [ho]
    exact hm.timer
  entry := hm.entry
  callbacks := hm.turns.callbacks.trans h.callbacks
  told := h.told_moved hm

end Countdown.Session
