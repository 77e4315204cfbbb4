import Countdown.Proofs.Session.Reached
set_option autoImplicit false

namespace Countdown

/-- Whether a command changes no timer, no entry and not the clock, and asks for nothing further. -/
def Command.looks : Command → Bool
  | .describe | .save _ _ | .get _ | .exportAll => true
  | _ => false

def Note.delivery? : Note → Option (Callback × Event × String)
  | .told name e id => some (.named name,e,id)
  | .observed e id _ _ => some (.observer,e,id)
  | _ => none

def Script.Looks (p : Script) : Prop := ∀ c ∈ p.steps, c.looks = true

namespace Session

/-- All tasks come to be done. -/
inductive Settles : Session → List Task → Session → Prop where
  | nil (s : Session) : Settles s [] s
  | cons {s s' : Session} {t : Task} {rest : List Task} :
      Settles (s.step t rest).1 (s.step t rest).2 s' → Settles s (t :: rest) s'

theorem settle_nil (fuel : Nat) (s : Session) : settle fuel s [] = some s := by
  cases fuel <;> rfl

theorem Settles.settle {s s' : Session} {tasks : List Task} (h : Settles s tasks s') :
    ∃ k, ∀ fuel, k ≤ fuel → settle fuel s tasks = some s' := by
  induction h with
  | nil s => exact ⟨0,fun fuel _ => settle_nil fuel s⟩
  | cons _ ih =>
    obtain ⟨k,hk⟩ := ih
    refine ⟨k + 1,fun fuel hf => ?_⟩
    cases fuel with
    | zero => omega
    | succ fuel => exact hk fuel (by omega)

def Runs (s : Session) (c : Command) (s' : Session) : Prop :=
  ∃ k, ∀ fuel, k ≤ fuel → ∃ r, s.run fuel c = some (s',r)

theorem Settles.runs {s s₁ s' : Session} {c : Command} {tasks : List Task} {r : Reply}
    (hp : s.perform none c = s₁.ok tasks r) (h : Settles s₁ tasks s') : s.Runs c s' := by
  obtain ⟨k,hk⟩ := h.settle
  refine ⟨k,fun fuel hf => ⟨.ok r,?_⟩⟩
  simp [run, hp, ok, hk fuel hf]

theorem runs_failed {s s' : Session} {c : Command} {f : Failure}
    (hp : s.perform none c = s'.failed f) : s.Runs c s' :=
  ⟨0,fun fuel _ => ⟨.error f,by simp [run, hp, failed]⟩⟩

theorem Reached.runs {s s' : Session} {c : Command} (h : Reached s []) (hc : c.Sound) (hr : s.Runs c s') :
    Reached s' [] := by
  obtain ⟨fuel,hfuel⟩ := hr
  obtain ⟨r,hr⟩ := hfuel fuel (Nat.le_refl _)
  exact h.run hc hr

def RunsAll (s : Session) (cs : List Command) (s' : Session) : Prop :=
  ∃ k, ∀ fuel, k ≤ fuel → s.runAll fuel cs = some s'

theorem runsAll_nil (s : Session) : s.RunsAll [] s := ⟨0,fun _ _ => rfl⟩

theorem Runs.cons {s s₁ s' : Session} {c : Command} {cs : List Command} (h : s.Runs c s₁)
    (h' : s₁.RunsAll cs s') : s.RunsAll (c :: cs) s' := by
  obtain ⟨k,hk⟩ := h
  obtain ⟨k',hk'⟩ := h'
  refine ⟨max k k',fun fuel hf => ?_⟩
  obtain ⟨r,hr⟩ := hk fuel (by omega)
  simp only [runAll, hr, Option.bind_some]
  exact hk' fuel (by omega)

theorem Settles.ok {s s₁ s' : Session} {t : Task} {tasks rest : List Task} {r : Reply}
    (ht : s.task t = s₁.ok tasks r) (h : Settles s₁ (tasks ++ rest) s') :
    Settles s (t :: rest) s' := by
  apply Settles.cons
  simp only [step, ht, Session.ok]
  exact h

def beside (s : Session) (notes : List Note) (text : String) : Session :=
  { s with
    world := { s.world with journal := s.world.journal ++ notes }
    exported := text }

theorem beside_nil (s : Session) : s.beside [] s.exported = s := by
  simp [beside]

@[simp] theorem beside_beside (s : Session) (ns ms : List Note) (text text' : String) :
    (s.beside ns text).beside ms text' = s.beside (ns ++ ms) text' := by
  simp [beside]

theorem beside_note (s : Session) (n : Note) :
    s.withWorld (s.world.note n) = s.beside [n] s.exported := rfl

theorem perform_looks (s : Session) (subject : Option String) {c : Command}
    (hc : c.looks = true) : ∃ text,
      (∃ r, s.perform subject c = (s.beside [] text).ok [] r) ∨
      ∃ f, s.perform subject c = (s.beside [] text).failed f := by
  cases c with
  | describe => exact ⟨s.exported,Or.inl ⟨_,by rw [beside_nil]; rfl⟩⟩
  | save input consumed =>
    refine ⟨s.exported,?_⟩
    rw [beside_nil]
    simp only [perform, onFocus]
    split
    · exact Or.inr ⟨_,rfl⟩
    · exact Or.inl ⟨_,rfl⟩
  | get r =>
    refine ⟨s.exported,Or.inl ?_⟩
    rw [beside_nil]
    simp only [perform]
    split
    · exact ⟨_,rfl⟩
    · exact ⟨_,rfl⟩
  | exportAll =>
    cases h : s.world.exported with
    | error f =>
      refine ⟨s.exported,Or.inr ⟨f,?_⟩⟩
      rw [beside_nil]
      simp [perform, h]
    | ok text =>
      refine ⟨text,Or.inl ⟨.text text,?_⟩⟩
      simp [perform, h, beside]
  | _ => contradiction

theorem unwind_script {site : Site} {rest : List Task} {xs : List Task}
    (hx : ∀ t ∈ xs, t.isEnd = false) : unwind (xs ++ .caught site :: rest) = some (site,rest) := by
  induction xs with
  | nil => rfl
  | cons t xs ih =>
    have ht := hx t (by simp)
    have hrest := ih fun u hu => hx u (by simp [hu])
    cases t <;> first | exact hrest | cases ht

theorem Settles.failed {s s₁ s' : Session} {t : Task} {rest after : List Task} {f : Failure}
    {site : Site} (ht : s.task t = s₁.failed f) (hu : unwind rest = some (site,after))
    (h : Settles (s₁.beside [.logged site.log] s₁.exported) after s') :
    Settles s (t :: rest) s' := by
  apply Settles.cons
  simp only [step, ht, Session.failed, hu]
  exact h

theorem settles_scripted {p : Script} (hp : p.Looks) (s : Session) (subject : Option String)
    (site : Site) : ∃ (ls : List Log) (text : String), ∀ rest s',
      Settles (s.beside (ls.map .logged) text) rest s' →
      Settles s (scripted p subject site ++ rest) s' := by
  obtain ⟨trigger,steps,fails⟩ := p
  induction steps generalizing s with
  | nil =>
    cases fails with
    | false =>
      refine ⟨[],s.exported,fun rest s' h => ?_⟩
      rw [List.map_nil, beside_nil] at h
      exact Settles.cons h
    | true => exact ⟨[site.log],s.exported,fun rest s' h => Settles.failed rfl rfl h⟩
  | cons c steps ih =>
    obtain ⟨text,⟨r,hr⟩ | ⟨f,hf⟩⟩ := perform_looks s subject (hp c (by simp))
    · obtain ⟨ls,text',hrest⟩ := ih (s.beside [] text) fun d hd => hp d (by simp [hd])
      refine ⟨ls,text',fun rest s' h => ?_⟩
      refine Settles.ok (t := .command subject c) hr (hrest rest s' ?_)
      rw [beside_beside]
      exact h
    · refine ⟨[site.log],text,fun rest s' h => ?_⟩
      have hun : unwind (steps.map (Task.command subject) ++
          (if fails then [Task.fail] else []) ++ .caught site :: rest) = some (site,rest) :=
        unwind_script fun t ht =>
          Task.not_isEnd (inScript_of_mem (p := ⟨trigger,steps,fails⟩) ht)
      have hcaught : unwind (scripted ⟨trigger,steps,fails⟩ subject site ++ rest) =
          some (site,rest) := by
        rw [← hun]
        simp [scripted]
      refine Settles.failed (t := .command subject c) hf hcaught ?_
      rw [beside_beside]
      exact h

theorem fire_eq {s : Session} {n j : Nat} {t : Timer} {v : Wake}
    (ht : s.world.timers[n]? = some t) (hv : s.world.line.wakes[j]? = some v) (ho : v.owner = n) :
    let f := t.wake n v.generation (s.world.line.markFired j)
    s.fire j = (s.withWorld (s.world.take n f).1,calls (s.world.take n f).2) := by
  simp [fire, hv, ho, ht]

/-- With the scripts only looking, the first task leaves nothing but some notes. -/
def Leaves (s : Session) (t : Task) (notes : List Note → Prop) : Prop :=
  ∃ (ns : List Note) (text : String), notes ns ∧ ∀ rest s',
    Settles (s.beside ns text) rest s' → Settles s (t :: rest) s'

/-- Tasks that leave nothing but notes, one after another; `seen` is what is of interest in these. -/
theorem settles_all {α β : Type} (task : α → Task) (as : List α) {sight : α → β}
    {seen : Note → Option β} {plain : Note → Prop} {P : Session → Prop}
    (hbeside : ∀ s ns text, P s → P (s.beside ns text))
    (heach : ∀ s, P s → ∀ a ∈ as, s.Leaves (task a) fun ns =>
      (∀ x ∈ ns, plain x) ∧ ns.filterMap seen = [sight a])
    {s : Session} (hs : P s) : ∃ (ns : List Note) (text : String),
      (∀ x ∈ ns, plain x) ∧ ns.filterMap seen = as.map sight ∧
      ∀ rest s', Settles (s.beside ns text) rest s' → Settles s (as.map task ++ rest) s' := by
  induction as generalizing s with
  | nil =>
    refine ⟨[],s.exported,by simp,rfl,fun rest s' h => ?_⟩
    rw [beside_nil] at h
    exact h
  | cons a as ih =>
    obtain ⟨ns,text,⟨hplain,hseen⟩,hfirst⟩ := heach s hs a (by simp)
    obtain ⟨ns',text',hplain',hseen',hrest⟩ :=
      ih (fun s hs b hb => heach s hs b (by simp [hb])) (hbeside s ns text hs)
    refine ⟨ns ++ ns',text',?_,by simp [hseen, hseen'],fun rest s' h => ?_⟩
    · intro x hx
      obtain hx | hx := List.mem_append.mp hx
      · exact hplain x hx
      · exact hplain' x hx
    · refine hfirst _ s' (hrest rest s' ?_)
      rw [beside_beside]
      exact h

theorem mem_logged {ls : List Log} {x : Note} (h : x ∈ ls.map Note.logged) :
    ∃ l, x = .logged l := by
  obtain ⟨l,-,rfl⟩ := List.mem_map.mp h
  exact ⟨l,rfl⟩

theorem leaves_call {s : Session} (hs : ∀ p ∈ s.listeners, p.2.Looks) {c : Call} {name : String}
    (hc : c.listener = .named name) : s.Leaves (.call c) fun ns => ∃ (ls : List Log),
      ns = .called c s.now :: .heard name (s.focused.remaining s.now) s.focused.phase ::
        ls.map .logged := by
  let s₁ := s.beside [.called c s.now,
    .heard name (s.focused.remaining s.now) s.focused.phase] s.exported
  obtain ⟨ls,text,hrest⟩ := settles_scripted (forall_script? hs name) s₁ none .listener
  refine ⟨_,text,⟨ls,rfl⟩,fun rest s' h => ?_⟩
  have hcall : s.task (.call c) =
      s₁.ok (scripted ((script? s.listeners name).getD {}) none .listener) .done := by
    simp only [task, call, hc, beside_note, beside_beside]
    rfl
  refine Settles.ok hcall (hrest rest s' ?_)
  simp only [s₁, beside_beside]
  exact h

def toldScript (s : Session) (name : String) (e : Event) : Script :=
  let p := (script? s.callbacks name).getD {}
  if Script.actsOn p e then p else { p with steps := [] }

theorem toldScript_cases (s : Session) (name : String) (e : Event) :
    (∃ p ∈ s.callbacks, Script.actsOn p.2 e = true ∧ s.toldScript name e = p.2) ∨
      (s.toldScript name e).steps = [] := by
  unfold toldScript
  dsimp only
  split
  · rename_i hacts
    obtain ⟨p,hp,heq⟩ | heq := script?_cases s.callbacks name
    · rw [heq] at hacts ⊢
      exact Or.inl ⟨p,hp,hacts,rfl⟩
    · rw [heq]
      exact Or.inr rfl
  · exact Or.inr rfl

theorem leaves_tell {s : Session} {e : Event}
    (hs : ∀ p ∈ s.callbacks, Script.actsOn p.2 e = true → p.2.Looks) (c : Callback) (id : String) :
    s.Leaves (.tell c e id) fun ns =>
      (∀ x ∈ ns, x.isPlain = true) ∧ ns.filterMap Note.delivery? = [(c,e,id)] := by
  cases c with
  | observer =>
    refine ⟨_,s.exported,⟨?_,?_⟩,fun rest s' h => Settles.cons h⟩
    · simp [Note.isPlain]
    · rfl
  | named name =>
    have hlooks : (s.toldScript name e).Looks := by
      obtain ⟨p,hp,hacts,heq⟩ | hnone := s.toldScript_cases name e
      · rw [heq]
        exact hs p hp hacts
      · intro c hc
        simp [hnone] at hc
    obtain ⟨ls,text,hrest⟩ :=
      settles_scripted hlooks (s.beside [.told name e id] s.exported) (some id) .callback
    refine ⟨.told name e id :: ls.map .logged,text,⟨?_,?_⟩,fun rest s' h => ?_⟩
    · intro x hx
      obtain rfl | hx := List.mem_cons.mp hx
      · rfl
      · obtain ⟨l,rfl⟩ := mem_logged hx
        rfl
    · simp [Note.delivery?]
    · refine Settles.ok (r := .done) (t := .tell (.named name) e id) rfl (hrest rest s' ?_)
      rw [beside_beside]
      exact h

theorem leaves_notify {s : Session} {e : Event}
    (hs : ∀ p ∈ s.callbacks, Script.actsOn p.2 e = true → p.2.Looks) (id : String) :
    s.Leaves (.notify e id) fun ns => (∀ x ∈ ns, x.isPlain = true) ∧
      ns.filterMap Note.delivery? = s.world.callbacks.map fun c => (c,e,id) := by
  obtain ⟨ns,text,hplain,hseen,hrest⟩ := settles_all (fun c => .tell c e id)
    s.world.callbacks (P := fun s => ∀ p ∈ s.callbacks, Script.actsOn p.2 e = true → p.2.Looks)
    (fun s ns text hs => hs) (fun s hs c _ => leaves_tell hs c id) hs
  exact ⟨ns,text,⟨hplain,hseen⟩,fun rest s' h => Settles.ok (r := .done) rfl (hrest rest s' h)⟩

end Session
end Countdown
