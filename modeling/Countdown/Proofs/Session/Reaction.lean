import Countdown.Proofs.Result
import Countdown.Proofs.Session.Progress
set_option autoImplicit false

/-!
Callbacks that are told of the end of a run and give the timer a new input, or make it go on, before
the deck itself goes on to the next duration. That does not ask whether the run is still the one that
has finished: it takes one more duration from whatever queue the callbacks have left.
-/

namespace Countdown
open Session

theorem Queue.read_pop {separator text : String} {q : Queue} (h : Queue.read separator text = .ok q) :
    ∃ d, q.pop.1 = some d := by
  obtain ⟨r,-,rfl⟩ := map_eq_ok.mp h
  exact ⟨_,rfl⟩

theorem Entry.pop_of_none {e : Entry} (h : e.upcoming = none) (d : Int) (q : Queue) :
    e.queue.map Queue.pop ≠ some (some d,q) := by
  intro hpop
  obtain ⟨q₀,hq₀,hpop⟩ := Option.map_eq_some_iff.mp hpop
  have hpeek := Queue.peek_of_pop hpop
  simp [Entry.upcoming, hq₀, hpeek] at h

structure Standing where
  fields : TimerFields
  entry : Entry
  deriving DecidableEq, Repr

namespace Standing

def withInput (p : Standing) (text : String) (q : Queue) : Standing where
  fields := { duration := max 0 (q.pop.1.getD 0) }
  entry := { p.entry with input := text, queue := some q.pop.2 }

def next (p : Standing) (now : Int) : Standing :=
  match p.entry.queue.map Queue.pop with
  | some (some d,q) =>
    ⟨{ duration := d, startedAt := some now, resumedAt := some now },{ p.entry with queue := some q }⟩
  | _ => p

/-- What a command makes of the timer that it is about. -/
def react (separator : String) (now : Int) (p : Standing) : Command → Standing
  | .setInput _ text => match Queue.read separator text with
    | .ok q => p.withInput text q
    | .error _ => p
  | .next _ => p.next now
  | _ => p

variable {p : Standing} {now d : Int} {separator : String}

theorem next_of_none (h : p.entry.upcoming = none) : p.next now = p := by
  unfold next
  split
  · rename_i d q hq
    exact absurd hq (Entry.pop_of_none h d q)
  · rfl

theorem next_of_some (now : Int) (h : p.entry.upcoming = some d) : ∃ q, p.entry.queue = some q ∧ q.peek = some d ∧
    p.next now = ⟨{ duration := d, startedAt := some now, resumedAt := some now },
      { p.entry with queue := some q.pop.2 }⟩ := by
  obtain ⟨q,hq,hpeek⟩ := Option.bind_eq_some_iff.mp h
  have hpop : q.pop = (some d,q.pop.2) := Queue.pop_of_peek hpeek
  refine ⟨q,hq,hpeek,?_⟩
  unfold next
  rw [hq, Option.map_some, hpop]

theorem consumed_next (h : p.entry.upcoming = some d) :
    (p.next now).entry.consumed = p.entry.consumed + 1 := by
  obtain ⟨q,hq,hpeek,hnext⟩ := next_of_some now h
  rw [hnext]
  simp [Entry.consumed, hq, Queue.consumed_pop hpeek]

theorem foldl_react_looks {cs : List Command} (h : ∀ c ∈ cs, c.looks = true) (p : Standing) :
    cs.foldl (react separator now) p = p := by
  induction cs with
  | nil => rfl
  | cons c cs ih =>
    have hc : react separator now p c = p := by
      have hlooks := h c List.mem_cons_self
      cases c <;> first | rfl | contradiction
    rw [List.foldl_cons, hc]
    exact ih fun d hd => h d (List.mem_cons_of_mem _ hd)

end Standing

def Command.Reacts (separator : String) (k : Nat) : Command → Prop
  | .setInput r text => (r = .subject ∨ r = .id (Entry.idOf k)) ∧
      ∃ q, Queue.read separator text = .ok q ∧ q.pop.2.Positive
  | .next r => r = .subject ∨ r = .id (Entry.idOf k)
  | _ => False

namespace Session
open World

def reaction (s : Session) : Callback → List Command
  | .named name => (s.toldScript name .finished).steps
  | .observer => []

def reactions (s : Session) : List Command := s.world.callbacks.flatMap s.reaction

/-- Callbacks only look, but for some that give the timer of an entry a new input or make it go on when
they are told that it has finished. -/
def Reacting (s : Session) (k : Nat) : Prop :=
  ∀ p ∈ s.callbacks, p.2.Looks ∨ p.2.trigger = some Event.finished.name ∧
    ∀ c ∈ p.2.steps, c.Reacts s.world.separator k

/-- A session in the midst of the calls that began at an earlier one. -/
structure Amid (s₀ : Session) (k : Nat) (p : Standing) (s : Session) : Prop where
  guarded : s.world.Guarded
  now : s.now = s₀.now
  separator : s.world.separator = s₀.world.separator
  callbacks : s.callbacks = s₀.callbacks
  entry : s.world.entries[k]? = some p.entry
  listed : p.entry.listed = true
  timer : ∃ t, s.world.timers[p.entry.timer]? = some t ∧ t.closed = false ∧ t.fields = p.fields
  positive : ∀ q, p.entry.queue = some q → q.Positive

variable {s₀ s : Session} {k : Nat} {p : Standing}

theorem Amid.beside (h : s₀.Amid k p s) (ns : List Note) (text : String) : s₀.Amid k p (s.beside ns text) where
  guarded := h.guarded.congr rfl rfl
  now := h.now
  separator := h.separator
  callbacks := h.callbacks
  entry := h.entry
  listed := h.listed
  timer := h.timer
  positive := h.positive

theorem Amid.find? (h : s₀.Amid k p s) {r : Ref} (hr : r = .subject ∨ r = .id (Entry.idOf k)) :
    s.entry? (some (Entry.idOf k)) r = some k := by
  have hfound := find?_idOf h.entry h.listed
  obtain rfl | rfl := hr
  · exact hfound
  · exact hfound

theorem Reacting.looks (h : s₀.Reacting k) (hs : s.callbacks = s₀.callbacks) :
    ∀ p ∈ s.callbacks, Script.actsOn p.2 .state = true → p.2.Looks := by
  intro p hp hacts
  rw [hs] at hp
  obtain hlooks | ⟨htrigger,-⟩ := h p hp
  · exact hlooks
  · have hstate : p.2.trigger = some Event.state.name := by
      simpa [Script.actsOn] using hacts
    rw [hstate] at htrigger
    exact absurd htrigger (by decide)

theorem Amid.notify (h : s₀.Amid k p s) (hs : s₀.Reacting k) : ∃ s', s₀.Amid k p s' ∧
    ∀ rest s'', Settles s' rest s'' → Settles s (.notify .state (Entry.idOf k) :: rest) s'' := by
  obtain ⟨ns,text,-,hrest⟩ := leaves_notify (hs.looks h.callbacks) (Entry.idOf k)
  exact ⟨_,h.beside ns text,hrest⟩

theorem Amid.setInput (h : s₀.Amid k p s) {text : String} {q : Queue}
    (hq : Queue.read s.world.separator text = .ok q) (hpos : q.pop.2.Positive) : ∃ w,
      s.world.setInput k text = .ok w ∧ s₀.Amid k (p.withInput text q) (s.withWorld w) := by
  obtain ⟨t,ht,hopen,-⟩ := h.timer
  obtain ⟨d,hd⟩ := Queue.read_pop hq
  let e := (p.withInput text q).entry
  let w := s.world.setEntry k e
  let r := (t.reset (some (.int d)) w.line).1
  have hguarded : w.Guarded := h.guarded.congr rfl rfl
  have hsound : r.Sound p.entry.timer w.line := (hguarded.timers _ t ht).reset _
  have hset : s.world.setInput k text = .ok (w.take p.entry.timer r).1 := by
    have htimerOf : s.world.timerOf? k = some (p.entry.timer,t) := by
      simp [timerOf?, h.entry, ht]
    simp only [World.setInput, hq, h.entry, htimerOf, hd]
    rfl
  refine ⟨_,hset,?_⟩
  constructor
  · exact hguarded.take ht hsound
  · change (w.take p.entry.timer r).1.line.now = _
    rw [line_take]
    exact hsound.now.trans h.now
  · exact (separator_take w _ r).trans h.separator
  · exact h.callbacks
  · change (w.take p.entry.timer r).1.entries[k]? = some e
    rw [entries_take]
    exact List.getElem?_set_self (List.getElem?_eq_some_iff.mp h.entry).1
  · exact h.listed
  · refine ⟨r.timer,getElem?_take ht r,hopen,?_⟩
    simp only [Standing.withInput, hd, Option.getD_some]
    rfl
  · intro q' hq'
    cases hq'
    exact hpos

/-- The timer goes on to the next duration, if there is one, and all are told. -/
theorem Amid.next (h : s₀.Amid k p s) (hs : s₀.Reacting k) : ∃ s', s₀.Amid k (p.next s₀.now) s' ∧
    ∀ rest s'', Settles s' rest s'' → Settles (s.next k).1 ((s.next k).2 ++ rest) s'' := by
  obtain ⟨t,ht,hopen,-⟩ := h.timer
  cases hup : p.entry.upcoming with
  | none =>
    have hnone : s.world.next? k = none := by
      unfold World.next?
      split
      · rename_i e n t he _
        rw [h.entry] at he
        cases he
        split
        · rename_i d q hq
          exact absurd hq (Entry.pop_of_none hup d q)
        · rfl
      · rfl
    have hnext : s.next k = (s,[]) := by
      simp only [Session.next, hnone]
    rw [Standing.next_of_none hup, hnext]
    exact ⟨s,h,fun rest s'' hset => hset⟩
  | some d =>
    obtain ⟨q,hq,hpeek,hnext⟩ := Standing.next_of_some s₀.now hup
    have hpop := Queue.pop_of_peek hpeek
    obtain ⟨hd,hpos⟩ := (h.positive q hq).pop hpop
    obtain ⟨w,a,hw,hturn,ht',-,hentries,hseparator,-⟩ := h.guarded.next h.entry ht hopen hq hpop hd
    have hchanges := changes_next? hw
    have hamid : s₀.Amid k (p.next s₀.now) (s.withWorld w) := by
      rw [hnext]
      constructor
      · exact hchanges.keeps (fun _ _ _ _ hg hc => hg.change hc) h.guarded
      · exact hturn.now.trans h.now
      · exact hseparator.trans h.separator
      · exact h.callbacks
      · change w.entries[k]? = _
        rw [hentries]
        exact List.getElem?_set_self (List.getElem?_eq_some_iff.mp h.entry).1
      · exact h.listed
      · refine ⟨_,ht',hopen,?_⟩
        have hnow : s.world.now = s₀.now := h.now
        rw [hnow]
        rfl
      · intro q' hq'
        cases hq'
        exact hpos
    obtain ⟨s',h',hrest⟩ := hamid.notify hs
    refine ⟨s',h',fun rest s'' hset => ?_⟩
    simp only [Session.next, hw]
    exact hrest rest s'' hset

theorem Amid.react (h : s₀.Amid k p s) (hs : s₀.Reacting k) {c : Command}
    (hc : c.Reacts s₀.world.separator k) : ∃ s', s₀.Amid k (p.react s₀.world.separator s₀.now c) s' ∧
    ∀ rest s'', Settles s' rest s'' → Settles s (.command (some (Entry.idOf k)) c :: rest) s'' := by
  cases c with
  | setInput r text =>
    obtain ⟨hr,q,hq,hpos⟩ := hc
    rw [← h.separator] at hq
    obtain ⟨w,hw,hamid⟩ := h.setInput hq hpos
    obtain ⟨s',h',hrest⟩ := hamid.notify hs
    refine ⟨s',?_,fun rest s'' hset => ?_⟩
    · rw [h.separator] at hq
      simpa only [Standing.react, hq] using h'
    · have hperform : s.perform (some (Entry.idOf k)) (.setInput r text) =
          (s.withWorld w).ok [.notify .state (Entry.idOf k)] (.entry k) := by
        simp only [perform, h.find? hr, onEntry, hw]
      exact Settles.ok (t := .command _ _) hperform (hrest rest s'' hset)
  | next r =>
    obtain ⟨s',h',hrest⟩ := h.next hs
    refine ⟨s',h',fun rest s'' hset => ?_⟩
    have hperform : s.perform (some (Entry.idOf k)) (.next r) = (s.next k).1.ok (s.next k).2 (.entry k) := by
      simp only [perform, h.find? hc, onEntry]
    exact Settles.ok (t := .command _ _) hperform (hrest rest s'' hset)
  | _ => contradiction

theorem Amid.script (h : s₀.Amid k p s) (hs : s₀.Reacting k) (trigger : Option String) {cs : List Command}
    (fails : Bool) (hcs : ∀ c ∈ cs, c.Reacts s₀.world.separator k) : ∃ s',
      s₀.Amid k (cs.foldl (Standing.react s₀.world.separator s₀.now) p) s' ∧
      ∀ rest s'', Settles s' rest s'' →
        Settles s (scripted ⟨trigger,cs,fails⟩ (some (Entry.idOf k)) .callback ++ rest) s'' := by
  induction cs generalizing s p with
  | nil =>
    cases fails with
    | false => exact ⟨s,h,fun rest s'' hset => Settles.cons hset⟩
    | true =>
      exact ⟨_,h.beside [.logged Site.callback.log] s.exported,fun rest s'' hset =>
        Settles.failed rfl rfl hset⟩
  | cons c cs ih =>
    obtain ⟨s₁,h₁,hfirst⟩ := h.react hs (hcs c List.mem_cons_self)
    obtain ⟨s',h',hrest⟩ := ih h₁ fun d hd => hcs d (List.mem_cons_of_mem _ hd)
    exact ⟨s',h',fun rest s'' hset => hfirst _ s'' (hrest rest s'' hset)⟩

theorem Amid.tell (h : s₀.Amid k p s) (hs : s₀.Reacting k) (c : Callback) : ∃ s',
    s₀.Amid k ((s₀.reaction c).foldl (Standing.react s₀.world.separator s₀.now) p) s' ∧
    ∀ rest s'', Settles s' rest s'' → Settles s (.tell c .finished (Entry.idOf k) :: rest) s'' := by
  cases c with
  | observer => exact ⟨_,h.beside _ s.exported,fun rest s'' hset => Settles.cons hset⟩
  | named name =>
    let s₁ := s.beside [.told name .finished (Entry.idOf k)] s.exported
    have h₁ : s₀.Amid k p s₁ := h.beside _ _
    have hsame : s.toldScript name .finished = s₀.toldScript name .finished := by
      simp only [toldScript, h.callbacks]
    have htell : s.task (.tell (.named name) .finished (Entry.idOf k)) =
        s₁.ok (scripted (s₀.toldScript name .finished) (some (Entry.idOf k)) .callback) .done := by
      rw [← hsame]
      rfl
    -- a script that reacts, or one that only looks; one that is not told to act has no steps
    have hscript : (s₀.toldScript name .finished).Looks ∨
        ∀ c ∈ (s₀.toldScript name .finished).steps, c.Reacts s₀.world.separator k := by
      obtain ⟨p,hp,-,heq⟩ | hnone := s₀.toldScript_cases name .finished
      · rw [heq]
        exact (hs p hp).imp_right And.right
      · exact Or.inr (by simp [hnone])
    obtain hlooks | hreacts := hscript
    · obtain ⟨ls,text,hrest⟩ := settles_scripted hlooks s₁ (some (Entry.idOf k)) .callback
      refine ⟨_,?_,fun rest s'' hset => Settles.ok htell (hrest rest s'' hset)⟩
      rw [reaction, Standing.foldl_react_looks hlooks]
      exact h₁.beside _ text
    · obtain ⟨s',h',hrest⟩ := h₁.script hs _ _ hreacts
      exact ⟨s',h',fun rest s'' hset => Settles.ok htell (hrest rest s'' hset)⟩

theorem Amid.told (h : s₀.Amid k p s) (hs : s₀.Reacting k) (cs : List Callback) : ∃ s',
    s₀.Amid k ((cs.flatMap s₀.reaction).foldl (Standing.react s₀.world.separator s₀.now) p) s' ∧
    ∀ rest s'', Settles s' rest s'' →
      Settles s (cs.map (fun c => .tell c .finished (Entry.idOf k)) ++ rest) s'' := by
  induction cs generalizing s p with
  | nil => exact ⟨s,h,fun rest s'' hset => hset⟩
  | cons c cs ih =>
    obtain ⟨s₁,h₁,hfirst⟩ := h.tell hs c
    obtain ⟨s',h',hrest⟩ := ih h₁
    rw [List.flatMap_cons, List.foldl_append]
    exact ⟨s',h',fun rest s'' hset => hfirst _ s'' (hrest rest s'' hset)⟩

theorem Amid.proceed (h : s₀.Amid k p s) (hs : s₀.Reacting k) : ∃ s', s₀.Amid k (p.next s₀.now) s' ∧
    ∀ rest s'', Settles s' rest s'' → Settles s (.proceed k :: rest) s'' := by
  by_cases hup : p.entry.upcoming.isSome = true
  · obtain ⟨s',h',hrest⟩ := h.next hs
    have hproceed : s.task (.proceed k) = (s.next k).1.ok (s.next k).2 .done := by
      simp only [task, Session.proceed, h.entry, if_pos (And.intro hup h.listed)]
    exact ⟨s',h',fun rest s'' hset => Settles.ok hproceed (hrest rest s'' hset)⟩
  · have hproceed : s.task (.proceed k) = s.ok [] .done := by
      simp only [task, Session.proceed, h.entry, if_neg (fun hboth : _ ∧ _ => hup hboth.1)]
    rw [Standing.next_of_none (by simpa using hup)]
    exact ⟨s,h,fun rest s'' hset => Settles.ok hproceed hset⟩

/-- The end of a run of an entry's timer is handled, with callbacks that give the timer valid inputs or make
it go on. If their calls leave no further duration, the timer and the entry are exactly as the last of them
left these; if one is left, it is taken all the same, and the timer runs on it. -/
theorem goes_on_after_calls {a : Nat} {rest : List Task} {e : Entry} {t : Timer}
    (h : Reached s (.call ⟨a,.entry k⟩ :: rest)) (he : s.world.entries[k]? = some e) (hl : e.listed = true)
    (ht : s.world.timers[e.timer]? = some t) (hopen : t.closed = false)
    (hqueue : ∀ q, e.queue = some q → q.Positive) (hs : s.Reacting k) :
    let left := s.reactions.foldl (Standing.react s.world.separator s.now) ⟨t.fields,e⟩
    ∃ s' t' e', (∀ s'', Settles s' rest s'' → Settles s (.call ⟨a,.entry k⟩ :: rest) s'') ∧ s'.now = s.now ∧
      s'.world.entries[k]? = some e' ∧ s'.world.timers[e'.timer]? = some t' ∧
      (left.entry.upcoming = none → t'.fields = left.fields ∧ e' = left.entry) ∧
      ∀ d, left.entry.upcoming = some d →
        t'.fields = { duration := d, startedAt := some s.now, resumedAt := some s.now } ∧
        e'.input = left.entry.input ∧ e'.consumed = left.entry.consumed + 1 := by
  intro left
  have hstart : s.Amid k ⟨t.fields,e⟩ s :=
    { guarded := h.guarded
      now := rfl
      separator := rfl
      callbacks := rfl
      entry := he
      listed := hl
      timer := ⟨t,ht,hopen,rfl⟩
      positive := hqueue }
  obtain ⟨s₂,h₂,htold⟩ := (hstart.beside [.called ⟨a,.entry k⟩ s.now] s.exported).told hs s.world.callbacks
  obtain ⟨s',h',hproceed⟩ := h₂.proceed hs
  obtain ⟨t',ht',-,hfields⟩ := h'.timer
  refine ⟨s',t',_,fun s'' hset => ?_,h'.now,h'.entry,ht',fun hnone => ?_,fun d hd => ?_⟩
  · refine Settles.ok (r := .done) (t := .call ⟨a,.entry k⟩) rfl (Settles.ok (r := .done) rfl ?_)
    exact htold _ s'' (hproceed _ s'' (Settles.cons hset))
  · have hsame : left.next s.now = left := Standing.next_of_none hnone
    exact ⟨hfields.trans (congrArg Standing.fields hsame),congrArg Standing.entry hsame⟩
  · obtain ⟨q,-,-,hnext⟩ := Standing.next_of_some s.now hd
    refine ⟨?_,?_,Standing.consumed_next hd⟩
    · exact hfields.trans (congrArg Standing.fields hnext)
    · exact congrArg (fun p => p.entry.input) hnext

/-- The callback gives the timer a single duration: that is where it stays. -/
theorem goes_on_after_calls_single :
    let script : Script := ⟨some "finished",[.setInput .subject "3s"],false⟩
    let entry : Entry := ⟨0,"1s + 2s",some ⟨1,some 2000,[]⟩,true⟩
    let timer : Timer := { duration := 1000, startedAt := some 1000, resumedAt := some 1000, finished := true
                           listeners := [.entry 0], alarm := { generation := 3 } }
    let world : World := { line := { now := 2000, wakes := [⟨2000,1000,0,2,.fired⟩] }, timers := [timer]
                           entries := [entry], callbacks := [.named "c"]
                           journal := [.cleared 0,.announced 0 timer 2000] }
    let s : Session := { world := world, callbacks := [("c",script)] }
    Reached s [.call ⟨1,.entry 0⟩] ∧ ∃ s' t', Settles s [.call ⟨1,.entry 0⟩] s' ∧
      s'.world.timers[0]? = some t' ∧ t'.fields = { duration := 3000 } ∧
      s'.world.entries[0]? = some { entry with input := "3s", queue := some ⟨1,none,[]⟩ } := by
  intro script entry timer world s
  let s₀ : Session := { world := { line := { now := 1000 } } }
  let cs := [Command.register "c" (some "finished") script.steps false,.act .focus .start,.tick 1000]
  have hfresh : Reached s₀ [] := .fresh ⟨by simp [s₀],rfl,rfl,rfl,rfl,rfl⟩
  have hread : Sequence.Run.read ":" "1s + 2s".toList = .ok (.append (.one 1000) (.one 2000)) := rfl
  let q := Queue.past [.append (.one 1000) (.one 2000)] 1
  have hcreate : s₀.world.create "1s + 2s" none = .ok (created s₀.world 1000 "1s + 2s" q,0) :=
    create_eq (by decide) hread rfl (by decide)
  have hruns : s₀.Runs (.create "1s + 2s" none) _ :=
    Settles.runs (r := .entry 0) (by simp only [perform, hcreate]; rfl) (.nil _)
  have hsound : ∀ c ∈ cs, c.Sound := by simp [cs, script, Action.Sound]
  have hreached := (hfresh.runs (Command.sound_create _ _) hruns).runAll hsound (rfl : runAll 9 _ cs = some _)
  have hcalled : Reached s [.call ⟨1,.entry 0⟩] :=
    .work (hreached.ask none (c := .fire 0) (by simp) (Command.sound_fire 0))
  have hqueue : Queue.Positive ⟨1,some 2000,[]⟩ := ⟨by simp,by simp [Sequence.Cursor.nth?]⟩
  have hsingle : Queue.read ":" "3s" = .ok ⟨0,some 3000,[]⟩ := rfl
  have hreacting : s.Reacting 0 := by
    intro p hp
    rw [List.mem_singleton.mp hp]
    refine Or.inr ⟨rfl,fun c hc => ?_⟩
    rw [List.mem_singleton.mp hc]
    exact ⟨Or.inl rfl,_,hsingle,⟨by simp [Queue.pop, Queue.ofCursor],
      by simp [Queue.pop, Queue.ofCursor, Sequence.Cursor.nth?]⟩⟩
  obtain ⟨s',t',e',hset,-,he',ht',hstays,-⟩ := goes_on_after_calls hcalled (e := entry) (t := timer) rfl rfl rfl rfl
    (fun q hq => by cases hq; exact hqueue) hreacting
  have hleft : s.reactions.foldl (Standing.react s.world.separator s.now) ⟨timer.fields,entry⟩ =
      ⟨{ duration := 3000 },{ entry with input := "3s", queue := some ⟨1,none,[]⟩ }⟩ := by decide +kernel
  rw [hleft] at hstays
  obtain ⟨hfields,rfl⟩ := hstays rfl
  exact ⟨hcalled,s',t',hset s' (.nil s'),ht',hfields,he'⟩

/-- The callback gives the timer a new input: it does not stay on the first duration of that. -/
theorem goes_on_after_calls_replaced :
    let s₀ : Session := { world := { line := { now := 1000 } } }
    let cs := [Command.create "1s + 2s" none,
      .register "c" (some "finished") [.setInput (.id "t1") "3s + 4s"] false,.act (.id "t1") .start,.advance 1000]
    ((s₀.runAll 30 cs).bind fun s => s.world.view? 0).map
      (fun v => (v.input,v.consumed,v.phase,v.duration)) = some ("3s + 4s",2,.running,4000) := by
  decide +kernel

end Session
end Countdown
