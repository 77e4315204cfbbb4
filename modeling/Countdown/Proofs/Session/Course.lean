import Countdown.Proofs.Session.Change
set_option autoImplicit false

/-!
The states that a session can get to. Commands are asked for at the top and from within scripts, at
any time and in any number; wakes are fired and the clock is moved at will. One lemma says what a
task does to the world and which tasks it leaves behind.
-/

namespace Countdown

def Command.steps : Command → List Command
  | .listen _ steps _ => steps
  | .register _ _ steps _ => steps
  | _ => []

/-- Neither the command nor any in a script of it sets fields that contradict each other. -/
inductive Command.Sound : Command → Prop where
  | intro {c : Command} : (∀ r a, c = .act r a → a.Sound) → (∀ d ∈ c.steps, Sound d) → Sound c

@[simp] theorem Command.sound_act {r : Ref} {a : Action} : (act r a).Sound ↔ a.Sound := by
  constructor
  · rintro ⟨h,-⟩
    exact h r a rfl
  · intro h
    refine ⟨?_,by simp [steps]⟩
    rintro _ _ ⟨⟩
    exact h

@[simp] theorem Command.sound_listen {name : String} {cs : List Command} {fails : Bool} :
    (listen name cs fails).Sound ↔ ∀ c ∈ cs, c.Sound := by
  constructor
  · rintro ⟨-,h⟩
    exact h
  · intro h
    exact ⟨by simp,h⟩

@[simp] theorem Command.sound_tick (ms : Int) : (tick ms).Sound := ⟨by simp,by simp [steps]⟩

@[simp] theorem Command.sound_fire (i : Int) : (fire i).Sound := ⟨by simp,by simp [steps]⟩

@[simp] theorem Command.sound_advance (ms : Int) : (advance ms).Sound :=
  ⟨by simp,by simp [steps]⟩

@[simp] theorem Command.sound_setInput (r : Ref) (text : String) : (setInput r text).Sound :=
  ⟨by simp,by simp [steps]⟩

@[simp] theorem Command.sound_register {name : String} {trigger : Option String} {cs : List Command}
    {fails : Bool} : (register name trigger cs fails).Sound ↔ ∀ c ∈ cs, c.Sound := by
  constructor
  · rintro ⟨-,h⟩
    exact h
  · exact fun h => ⟨by simp,h⟩

@[simp] theorem Command.sound_create (input : String) (d : Option Number.Amount) : (create input d).Sound :=
  ⟨by simp,by simp [steps]⟩

@[simp] theorem Command.sound_importAll (text : Option String) : (importAll text).Sound :=
  ⟨by simp,by simp [steps]⟩

@[simp] theorem Command.sound_exportAll : exportAll.Sound := ⟨by simp,by simp [steps]⟩

@[simp] theorem Command.sound_next (r : Ref) : (next r).Sound := ⟨by simp,by simp [steps]⟩

@[simp] theorem Command.sound_notify (r : Ref) : (notify r).Sound := ⟨by simp,by simp [steps]⟩

def Script.Sound (p : Script) : Prop := ∀ c ∈ p.steps, c.Sound

namespace Task

def Sound : Task → Prop
  | .command _ c => c.Sound
  | _ => True

def call? : Task → Option Call
  | .call c => some c
  | _ => none

def inScript : Task → Bool
  | .command _ _ | .fail => true
  | _ => false

def isEnd : Task → Bool
  | .caught _ => true
  | _ => false

def awaited (tasks : List Task) : List Call := tasks.filterMap call?

/-- Up to the end of a call, a command is followed by nothing but the rest of its script. -/
def Nested : List Task → Prop
  | [] => True
  | t :: rest =>
    (t.inScript = true → ∀ u ∈ rest.takeWhile (fun u => !u.isEnd), u.inScript = true) ∧ Nested rest

@[simp] theorem awaited_append (xs ys : List Task) :
    awaited (xs ++ ys) = awaited xs ++ awaited ys := List.filterMap_append

@[simp] theorem awaited_calls (cs : List Call) : awaited (Session.calls cs) = cs := by
  induction cs with
  | nil => rfl
  | cons c cs ih => simpa [awaited, Session.calls, call?] using ih

theorem nested_append {xs rest : List Task} (hx : ∀ t ∈ xs, t.inScript = false)
    (h : Nested rest) : Nested (xs ++ rest) := by
  induction xs with
  | nil => exact h
  | cons t xs ih =>
    refine ⟨fun ht => ?_, ih fun u hu => hx u (by simp [hu])⟩
    rw [hx t (by simp)] at ht
    contradiction

theorem nested_calls {cs : List Call} {t : Task} (h : t ∈ Session.calls cs) :
    t.inScript = false := by
  obtain ⟨c,-,rfl⟩ := List.mem_map.mp h
  rfl

theorem not_isEnd {t : Task} (h : t.inScript = true) : t.isEnd = false := by
  cases t <;> first | rfl | cases h

theorem nested_script {xs rest : List Task} {site : Site} (hx : ∀ t ∈ xs, t.inScript = true)
    (h : Nested rest) : Nested (xs ++ .caught site :: rest) := by
  induction xs with
  | nil => exact ⟨fun ht => by simp [inScript] at ht, h⟩
  | cons t xs ih =>
    have hxs : ∀ u ∈ xs, u.inScript = true := fun u hu => hx u (by simp [hu])
    refine ⟨fun _ u hu => ?_, ih hxs⟩
    have hopen : ∀ u ∈ xs, (!u.isEnd) = true := by
      intro v hv
      simp [not_isEnd (hxs v hv)]
    change u ∈ (xs ++ .caught site :: rest).takeWhile (fun u => !u.isEnd) at hu
    rw [List.takeWhile_append_of_pos hopen] at hu
    simp [isEnd] at hu
    exact hxs u hu

theorem nested_command {rest : List Task} {subject : Option String} {c : Command}
    (hopen : ∀ t ∈ rest.head?, t.inScript = true ∨ t.isEnd = true) (h : Nested rest) :
    Nested (.command subject c :: rest) := by
  refine ⟨fun _ u hu => ?_, h⟩
  cases rest with
  | nil => simp at hu
  | cons t rest =>
    obtain ht | ht := hopen t (by simp)
    · rw [List.takeWhile_cons_of_pos (by simp [not_isEnd ht])] at hu
      obtain rfl | hu := List.mem_cons.mp hu
      · exact ht
      · exact h.1 ht u hu
    · simp [ht] at hu

theorem nested_of_suffix {rest suffix : List Task} (hs : suffix <:+ rest) (h : Nested rest) :
    Nested suffix := by
  obtain ⟨pre,rfl⟩ := hs
  induction pre with
  | nil => exact h
  | cons t pre ih => exact ih h.2

end Task

namespace Session
open Countdown.Task

theorem unwind_suffix {rest after : List Task} {site : Site} (h : unwind rest = some (site,after)) :
    after <:+ rest := by
  fun_induction unwind rest with
  | case1 => contradiction
  | case2 site' rest =>
    cases h
    exact List.suffix_cons _ _
  | case3 t rest _ ih => exact (ih h).trans (List.suffix_cons _ _)

theorem awaited_unwind {rest : List Task}
    (hn : ∀ u ∈ rest.takeWhile (fun u => !u.isEnd), u.inScript = true) :
    awaited rest = ((unwind rest).elim [] fun p => awaited p.2) := by
  fun_induction unwind rest with
  | case1 => rfl
  | case2 site rest => rfl
  | case3 t rest hne ih =>
    have ht : t.isEnd = false := by
      cases t <;> first | rfl | exact (hne _ rfl).elim
    simp only [ht, Bool.not_false, List.takeWhile_cons_of_pos, List.mem_cons,
      forall_eq_or_imp] at hn
    have hcall : t.call? = none := by
      cases t <;> first | rfl | simp [inScript] at hn
    rw [← ih hn.2]
    simp [awaited, hcall]

/-- All scripts are sound. -/
structure Sound (s : Session) : Prop where
  listeners : ∀ p ∈ s.listeners, p.2.Sound
  callbacks : ∀ p ∈ s.callbacks, p.2.Sound

theorem Sound.withWorld {s : Session} (h : s.Sound) (w : World) : (s.withWorld w).Sound :=
  ⟨h.listeners,h.callbacks⟩

theorem script?_cases (scripts : List (String × Script)) (name : String) :
    (∃ p ∈ scripts, (script? scripts name).getD {} = p.2) ∨ (script? scripts name).getD {} = {} := by
  unfold script?
  cases hf : scripts.find? fun p => p.1 == name with
  | none => exact Or.inr rfl
  | some p => exact Or.inl ⟨p,List.mem_of_find?_eq_some hf,rfl⟩

theorem forall_script? {Q : Command → Prop} {scripts : List (String × Script)}
    (h : ∀ p ∈ scripts, ∀ c ∈ p.2.steps, Q c) (name : String) :
    ∀ c ∈ ((script? scripts name).getD {}).steps, Q c := by
  obtain ⟨p,hp,heq⟩ | heq := script?_cases scripts name
  · rw [heq]
    exact h p hp
  · rw [heq]
    simp

theorem forall_addScript {P : Script → Prop} {scripts : List (String × Script)}
    (h : ∀ p ∈ scripts, P p.2) {p : Script} (hp : P p) (name : String) :
    ∀ q ∈ addScript scripts name p, P q.2 := by
  unfold addScript
  split
  · exact h
  · intro q hq
    obtain hq | hq := List.mem_append.mp hq
    · exact h q hq
    · rw [List.mem_singleton.mp hq]
      exact hp

end Session

/-- What a command or a task does to a world, making some calls, and what it leaves behind. -/
structure Turn.Lawful (r : Turn) (w : World) (made : List Call) : Prop where
  sound : r.session.Sound
  changes : ∀ tasks reply, r.outcome = .ok (tasks,reply) →
    World.Changes w made (Task.awaited tasks) r.session.world
  tasks : ∀ tasks reply, r.outcome = .ok (tasks,reply) → ∀ t ∈ tasks, t.Sound
  nested : ∀ tasks reply, r.outcome = .ok (tasks,reply) →
    ∀ rest, Task.Nested rest → Task.Nested (tasks ++ rest)
  fails : ∀ f, r.outcome = .error f → World.Changes w made [] r.session.world

namespace Session
open Countdown.Task World

theorem lawful_ok {s : Session} {w : World} {made : List Call} {tasks : List Task} {reply : Reply}
    (hs : s.Sound) (hc : Changes w made (awaited tasks) s.world) (ht : ∀ t ∈ tasks, t.Sound)
    (hn : ∀ rest, Nested rest → Nested (tasks ++ rest)) : (s.ok tasks reply).Lawful w made where
  sound := hs
  changes _ _ h := by cases h; exact hc
  tasks _ _ h := by cases h; exact ht
  nested _ _ h := by cases h; exact hn
  fails _ h := by cases h

theorem lawful_failed {s : Session} {w : World} {f : Failure} (hs : s.Sound)
    (hc : Quiet w s.world) : (s.failed f).Lawful w [] where
  sound := hs
  changes _ _ h := by cases h
  tasks _ _ h := by cases h
  nested _ _ h := by cases h
  fails _ _ := hc

theorem lawful_tasks {s : Session} {w : World} {made : List Call} {tasks : List Task} {reply : Reply}
    (hs : s.Sound) (hc : Changes w made (awaited tasks) s.world)
    (ht : ∀ t ∈ tasks, t.inScript = false) : (s.ok tasks reply).Lawful w made := by
  apply lawful_ok hs hc _ fun rest => nested_append ht
  intro t hm
  have := ht t hm
  cases t <;> trivial

theorem lawful_quiet {s : Session} {w : World} {reply : Reply} (hs : s.Sound)
    (hc : Quiet w s.world) : (s.ok [] reply).Lawful w [] :=
  lawful_tasks hs hc (by simp)

theorem applyAction_fault {t : Timer} {n : Nat} {a : Action} {line : Timeline}
    {f : Number.NoInteger} (h : (applyAction t n a line).2 = some f) :
    (applyAction t n a line).1.announced = none := by
  unfold applyAction at h ⊢
  split at h
  case h_6 d =>
    obtain ⟨d',h⟩ := Timer.reset_eq t d line
    rw [h]
    rfl
  case h_7 ms =>
    unfold Timer.add at h ⊢
    by_cases hs : t.isStopped = true
    · rw [if_pos hs]
      rfl
    · rw [if_neg hs] at h ⊢
      cases hm : ms.toInt with
      | error e => rfl
      | ok i => simp [hm] at h
  case h_8 f =>
    unfold Timer.setFields at h ⊢
    dsimp only at h ⊢
    cases hd : f.duration.toInt with
    | error e => rfl
    | ok d =>
      cases ha : f.accumulated.toInt with
      | error e => rfl
      | ok a =>
        simp only [hd, ha] at h
        split at h <;> contradiction
  all_goals contradiction

theorem take_of_not_announced (w : World) (n : Nat) {e : Timer.Effect} (h : e.announced = none) :
    (w.take n e).2 = [] := by
  unfold take
  simp [h]

theorem act_lawful {s : Session} (hs : s.Sound) (n : Nat) {a : Action} (ha : a.Sound) :
    (s.act n a).Lawful s.world [] := by
  unfold act
  cases ht : s.world.timers[n]? with
  | none => exact lawful_quiet hs (Changes.refl _)
  | some t =>
    have hc := (Change.act ht ha).single
    cases hf : (applyAction t n a s.world.line).2 with
    | none =>
      simp only [hf]
      apply lawful_tasks (hs.withWorld _)
      · rw [awaited_calls]
        exact hc
      · exact fun _ => nested_calls
    | some f =>
      simp only [hf]
      rw [take_of_not_announced s.world n (applyAction_fault hf)] at hc
      exact lawful_failed (hs.withWorld _) hc

theorem lawful_after {r : Turn} {w w' : World} {made : List Call} (hq : Quiet w w')
    (h : r.Lawful w' made) : r.Lawful w made :=
  { h with
    changes := fun tasks reply ho => Changes.trans hq (h.changes tasks reply ho)
    fails := fun f ho => Changes.trans hq (h.fails f ho) }

theorem lawful_append {s : Session} {w : World} {made : List Call} {tasks more : List Task}
    {reply : Reply} (h : (s.ok tasks reply).Lawful w made) (hm : ∀ t ∈ more, t.inScript = false)
    (ha : awaited more = []) : (s.ok (tasks ++ more) reply).Lawful w made := by
  apply lawful_ok h.sound
  · rw [awaited_append, ha, List.append_nil]
    exact h.changes tasks reply rfl
  · intro t ht
    obtain ht | ht := List.mem_append.mp ht
    · exact h.tasks tasks reply rfl t ht
    · have := hm t ht
      cases t <;> trivial
  · intro rest hn
    rw [List.append_assoc]
    exact h.nested tasks reply rfl _ (nested_append hm hn)

theorem fire_lawful {s : Session} (hs : s.Sound) (i : Nat) (reply : Reply) :
    ((s.fire i).1.ok (s.fire i).2 reply).Lawful s.world [] := by
  unfold fire
  split
  · exact lawful_quiet hs (Changes.refl _)
  · rename_i v hv
    dsimp only
    split
    · rename_i hnone
      exact lawful_quiet (hs.withWorld _) (Change.orphan hv hnone).single
    · rename_i t ht
      apply lawful_tasks (hs.withWorld _)
      · rw [awaited_calls]
        exact (Change.ring hv ht).single
      · exact fun _ => nested_calls

theorem advanceTo_lawful {s : Session} (hs : s.Sound) (target : Int) (reply : Reply) :
    ((s.advanceTo target).1.ok (s.advanceTo target).2 reply).Lawful s.world [] := by
  unfold advanceTo
  split
  · exact lawful_quiet (hs.withWorld _) (quiet_clock _ _)
  · rename_i i v _
    have hfire := fire_lawful (s := s.setClock (max s.now v.due)) (hs.withWorld _) i reply
    have hclock : Quiet s.world (s.setClock (max s.now v.due)).world := quiet_clock _ _
    exact lawful_append (lawful_after hclock hfire) (by simp [inScript]) rfl

theorem next_lawful {s : Session} (hs : s.Sound) (k : Nat) (reply : Reply) :
    ((s.next k).1.ok (s.next k).2 reply).Lawful s.world [] := by
  unfold next
  split
  · exact lawful_quiet hs (Changes.refl _)
  · rename_i w cs h
    have hcalls : ((s.withWorld w).ok (calls cs) reply).Lawful s.world [] := by
      apply lawful_tasks (hs.withWorld _)
      · rw [awaited_calls]
        exact changes_next? h
      · exact fun _ => nested_calls
    exact lawful_append hcalls (by simp [inScript]) rfl

theorem proceed_lawful {s : Session} (hs : s.Sound) (k : Nat) (reply : Reply) :
    ((s.proceed k).1.ok (s.proceed k).2 reply).Lawful s.world [] := by
  unfold proceed
  split
  · split
    · exact next_lawful hs k reply
    · exact lawful_quiet hs (Changes.refl _)
  · exact lawful_quiet hs (Changes.refl _)

theorem refocus_lawful {s : Session} (hs : s.Sound) {f : TimerFields}
    (hf : Snapshot.contradiction? f = none) (reply : Reply) :
    ((s.refocus f).1.ok (s.refocus f).2 reply).Lawful s.world [] := by
  unfold refocus
  dsimp only
  rw [addRestored_calls]
  exact lawful_quiet ⟨hs.listeners,hs.callbacks⟩ (quiet_addRestored s.world hf)

theorem quiet_listen (s : Session) (name : String) :
    Quiet s.world (s.world.setTimer s.focus (s.focused.listen (.named name))) := by
  unfold focused
  rw [List.getD_eq_getElem?_getD]
  cases h : s.world.timers[s.focus]? with
  | none =>
    refine quiet_aside ?_ rfl rfl rfl
    exact List.set_eq_of_length_le (List.getElem?_eq_none_iff.mp h)
  | some t =>
    refine (Change.listeners (t.listeners ++ [.named name]) h ?_).single
    intro k hk
    obtain hk | hk := List.mem_append.mp hk
    · exact Or.inl hk
    · simp at hk

theorem quiet_closeFocused (s : Session) :
    Quiet s.world (s.world.put s.focus (s.focused.close s.world.line)) := by
  unfold focused
  rw [List.getD_eq_getElem?_getD]
  cases h : s.world.timers[s.focus]? with
  | none =>
    refine quiet_aside ?_ rfl rfl rfl
    exact List.set_eq_of_length_le (List.getElem?_eq_none_iff.mp h)
  | some t => exact quiet_close h

theorem Command.Sound.script {c : Command} (h : c.Sound) (trigger : Option String) (fails : Bool) :
    Script.Sound ⟨trigger,c.steps,fails⟩ := by
  obtain ⟨-,h⟩ := h
  exact h

theorem onFocus_lawful {s : Session} (hs : s.Sound) {c : Command} (hc : c.Sound) :
    (s.onFocus c).Lawful s.world [] := by
  have hsame : ∀ reply, (s.ok [] reply).Lawful s.world [] :=
    fun _ => lawful_quiet hs (Changes.refl _)
  unfold onFocus
  split
  case h_1 name steps fails =>
    have hscript := forall_addScript hs.listeners (Command.Sound.script hc none fails) name
    exact lawful_quiet ⟨hscript,hs.callbacks⟩ (quiet_listen s name)
  case h_2 name =>
    split
    · exact lawful_failed hs (Changes.refl _)
    · split
      · exact hsame _
      · rename_i t ht
        exact lawful_quiet (hs.withWorld _)
          (Change.listeners (t.listeners.erase (.named name)) ht
            fun k hk => Or.inl (List.mem_of_mem_erase hk)).single
  case h_3 => exact hsame _
  case h_4 =>
    split
    · exact lawful_failed hs (Changes.refl _)
    · exact hsame _
  case h_5 =>
    split
    · exact lawful_failed hs (Changes.refl _)
    · rename_i r hr
      exact refocus_lawful hs (Snapshot.ofJson_checked hr).2 _
  case h_6 =>
    split
    · exact lawful_failed hs (Changes.refl _)
    · rename_i r hr
      obtain ⟨rfl,-,hnone⟩ := Snapshot.check_eq hr
      exact lawful_after (quiet_closeFocused s) (refocus_lawful (hs.withWorld _) hnone _)
  case h_7 => exact hsame _

theorem onEntry_lawful {s : Session} (hs : s.Sound) (k : Nat) (c : Command) :
    (s.onEntry k c).Lawful s.world [] := by
  unfold onEntry
  split
  · apply lawful_tasks (hs.withWorld _)
    · exact quiet_unlist s.world k
    · simp [inScript]
  · split
    · exact lawful_failed hs (Changes.refl _)
    · rename_i w hw
      apply lawful_tasks (hs.withWorld _)
      · exact quiet_setInput hw
      · simp [inScript]
  · exact next_lawful hs k _
  · exact lawful_quiet hs (Changes.refl _)

theorem perform_lawful {s : Session} (hs : s.Sound) (subject : Option String) {c : Command}
    (hc : c.Sound) : (s.perform subject c).Lawful s.world [] := by
  have hsame : ∀ reply, (s.ok [] reply).Lawful s.world [] :=
    fun _ => lawful_quiet hs (Changes.refl _)
  cases c with
  | advance ms => exact lawful_tasks hs (Changes.refl _) (by simp [inScript])
  | tick ms => exact lawful_quiet (hs.withWorld _) (quiet_clock _ _)
  | fire i =>
    simp only [perform]
    split
    · exact hsame _
    · exact fire_lawful hs i.toNat _
  | act r a =>
    simp only [perform]
    split
    · exact hsame _
    · rename_i n _
      obtain ⟨ha,-⟩ := hc
      exact act_lawful hs n (ha r a rfl)
  | create input d =>
    simp only [perform]
    split
    · exact lawful_failed hs (Changes.refl _)
    · rename_i w k h
      exact lawful_quiet (hs.withWorld _) (quiet_create h)
  | get r | setInput r text | next r | remove r =>
    simp only [perform]
    split
    · exact hsame _
    · exact onEntry_lawful hs _ _
  | notify r => exact lawful_tasks hs (Changes.refl _) (by simp [inScript])
  | stopAll => exact lawful_quiet (hs.withWorld _) (quiet_unlistAll _)
  | exportAll =>
    simp only [perform]
    split
    · exact lawful_failed hs (Changes.refl _)
    · exact lawful_quiet ⟨hs.listeners,hs.callbacks⟩ (Changes.refl _)
  | importAll text =>
    have himport := quiet_importText s.world (text.getD s.exported)
    simp only [perform]
    split
    · exact lawful_failed (hs.withWorld _) himport
    · exact lawful_quiet (hs.withWorld _) himport
  | configure separator => exact lawful_quiet (hs.withWorld _) (quiet_aside rfl rfl rfl rfl)
  | register name trigger steps fails =>
    have hscript := forall_addScript hs.callbacks (Command.Sound.script hc trigger fails) name
    exact lawful_quiet ⟨hs.listeners,hscript⟩ (quiet_aside rfl rfl rfl rfl)
  | unregister name => exact lawful_quiet (hs.withWorld _) (quiet_aside rfl rfl rfl rfl)
  | observe => exact lawful_quiet (hs.withWorld _) (quiet_aside rfl rfl rfl rfl)
  | listen name steps fails => exact onFocus_lawful hs hc
  | unlisten name => exact onFocus_lawful hs hc
  | describe => exact onFocus_lawful hs hc
  | save input consumed => exact onFocus_lawful hs hc
  | restore saved => exact onFocus_lawful hs hc
  | copy => exact onFocus_lawful hs hc

theorem inScript_of_mem {p : Script} {subject : Option String} {t : Task}
    (h : t ∈ p.steps.map (Task.command subject) ++ (if p.fails then [Task.fail] else [])) :
    t.inScript = true := by
  obtain h | h := List.mem_append.mp h
  · obtain ⟨c,-,rfl⟩ := List.mem_map.mp h
    rfl
  · split at h
    · simp only [List.mem_singleton] at h
      rw [h]
      rfl
    · contradiction

theorem mem_scripted {p : Script} {subject : Option String} {site : Site} {t : Task}
    (h : t ∈ scripted p subject site) :
    (∃ c ∈ p.steps, t = .command subject c) ∨ t = .fail ∨ t = .caught site := by
  simp only [scripted, List.mem_append, List.mem_map, List.mem_singleton] at h
  obtain (⟨c,hm,rfl⟩ | h) | rfl := h
  · exact Or.inl ⟨c,hm,rfl⟩
  · split at h
    · exact Or.inr (Or.inl (List.mem_singleton.mp h))
    · contradiction
  · exact Or.inr (Or.inr rfl)

theorem scripted_lawful {s : Session} {w : World} {made : List Call} {p : Script} (hs : s.Sound)
    (hc : Changes w made [] s.world) (hp : p.Sound) (subject : Option String) (site : Site)
    (reply : Reply) : (s.ok (scripted p subject site) reply).Lawful w made := by
  have hnone : awaited (scripted p subject site) = [] := by
    apply List.filterMap_eq_nil_iff.mpr
    intro t ht
    obtain ⟨c,-,rfl⟩ | rfl | rfl := mem_scripted ht <;> rfl
  apply lawful_ok hs
  · rw [hnone]
    exact hc
  · intro t ht
    obtain ⟨c,hm,rfl⟩ | rfl | rfl := mem_scripted ht
    · exact hp c hm
    · trivial
    · trivial
  · intro rest hn
    have hnested : Nested (p.steps.map (Task.command subject) ++
        (if p.fails then [Task.fail] else []) ++ .caught site :: rest) :=
      nested_script (fun t ht => inScript_of_mem ht) hn
    simpa [scripted] using hnested

theorem call_lawful {s : Session} (hs : s.Sound) (c : Call) (reply : Reply) :
    ((s.call c).1.ok (s.call c).2 reply).Lawful s.world [c] := by
  have hcall : Changes s.world [c] [] (s.world.note (.called c s.now)) := (Change.call c).single
  unfold call
  dsimp only
  split
  · rename_i name _
    apply scripted_lawful ((hs.withWorld _).withWorld _)
    · exact Changes.trans hcall (Change.note rfl).single
    · exact forall_script? hs.listeners name
  · exact lawful_tasks (hs.withWorld _) hcall (by simp [inScript])

theorem tell_lawful {s : Session} (hs : s.Sound) (c : Callback) (e : Event) (id : String)
    (reply : Reply) : ((s.tell c e id).1.ok (s.tell c e id).2 reply).Lawful s.world [] := by
  cases c with
  | named name =>
    have hscript := forall_script? hs.callbacks name
    apply scripted_lawful (hs.withWorld _) (Change.note rfl).single
    split
    · exact hscript
    · intro d hd
      simp at hd
  | observer => exact lawful_quiet (hs.withWorld _) (Change.note rfl).single

theorem task_lawful {s : Session} (hs : s.Sound) {t : Task} (ht : t.Sound) :
    (s.task t).Lawful s.world t.call?.toList := by
  cases t with
  | command subject c => exact perform_lawful hs subject ht
  | call c => exact call_lawful hs c _
  | tell c e id => exact tell_lawful hs c e id _
  | notify e id =>
    apply lawful_tasks hs
    · have hnone : awaited (s.world.callbacks.map fun c => Task.tell c e id) = [] := by
        apply List.filterMap_eq_nil_iff.mpr
        simp [call?]
      rw [hnone]
      exact Changes.refl _
    · simp [inScript]
  | proceed k => exact proceed_lawful hs k _
  | advanceTo target => exact advanceTo_lawful hs target _
  | fail => exact lawful_failed hs (Changes.refl _)
  | caught site => exact lawful_quiet hs (Changes.refl _)

/-- Only what stands in a script fails. -/
theorem inScript_of_error {s : Session} {t : Task} {f : Failure}
    (h : (s.task t).outcome = .error f) : t.inScript = true := by
  cases t with
  | command subject c => rfl
  | fail => rfl
  | _ => simp [task, ok] at h

end Session
end Countdown
