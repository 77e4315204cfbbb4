import Countdown.Proofs.Session.Audience
import Countdown.Proofs.Timer.Registration
set_option autoImplicit false

namespace Countdown

/-- What matters to the listeners of a timer: a request, or an announcement by its number. -/
inductive Happening where
  | asked (r : Request)
  | ended (a : Nat)
  deriving DecidableEq, Repr

def Happening.requests (h : List Happening) : List Request :=
  h.filterMap fun x => match x with
    | asked r => some r
    | ended _ => none

namespace Journal

def endsFrom (n start : Nat) (j : List Note) : List Nat :=
  (List.range j.length).filter fun a => start ≤ a ∧ (j[a]?).any (Note.announces n) = true

end Journal

namespace Task
open Request

/-- What a task asks of timer `n`, of which some things have been asked before. A name stands for any
registration under it, and for none if there was none. -/
inductive Asks (s : Session) (n : Nat) (h : List Request) (t : Task) : List Request → Prop where
  | register {name : String} : t.registers? s n = some name → Asks s n h t [register (.named name)]
  | withdraw {name : String} {i : Nat} : t.withdraws? s n = some name → (made h)[i]? = some (.named name) →
      Asks s n h t [withdraw i]
  | unknown {name : String} : t.withdraws? s n = some name → .named name ∉ made h → Asks s n h t []
  | other : t.registers? s n = none → t.withdraws? s n = none → Asks s n h t []

end Task

namespace Session
open Countdown.Happening Countdown.Journal Countdown.Request Countdown.World

/-- The courses of a session, with what has happened to timer `n`. -/
inductive Recorded (n : Nat) : Session → List Task → List Happening → Prop where
  | fresh {s : Session} : s.Fresh → Recorded n s [] []
  | ask {s : Session} {tasks : List Task} {h : List Happening} (subject : Option String) {c : Command} :
      Recorded n s tasks h → (∀ t ∈ tasks.head?, t.inScript = true ∨ t.isEnd = true) → c.Sound →
      Recorded n s (.command subject c :: tasks) h
  | work {s : Session} {t : Task} {rest : List Task} {h : List Happening} {rs : List Request} :
      Recorded n s (t :: rest) h → t.Asks s n (requests h) rs →
      Recorded n (s.step t rest).1 (s.step t rest).2
        (h ++ ((endsFrom n s.world.journal.length (s.step t rest).1.world.journal).map ended ++ rs.map asked))

variable {s : Session} {tasks : List Task} {n : Nat} {h : List Happening}

theorem Recorded.reached (hr : Recorded n s tasks h) : Reached s tasks := by
  induction hr with
  | fresh hs => exact .fresh hs
  | ask subject _ hopen hc ih => exact .ask subject ih hopen hc
  | work _ _ ih => exact .work ih

theorem exists_asks (s : Session) (n : Nat) (h : List Request) (t : Task) : ∃ rs, t.Asks s n h rs := by
  cases hr : t.registers? s n with
  | some name => exact ⟨_,.register hr⟩
  | none =>
    cases hw : t.withdraws? s n with
    | none => exact ⟨_,.other hr hw⟩
    | some name =>
      by_cases hmade : .named name ∈ made h
      · obtain ⟨i,hi⟩ := List.mem_iff_getElem?.mp hmade
        exact ⟨_,.withdraw hw hi⟩
      · exact ⟨_,.unknown hw hmade⟩

theorem Reached.recorded (hr : Reached s tasks) (n : Nat) : ∃ h, Recorded n s tasks h := by
  induction hr with
  | fresh hs => exact ⟨[],.fresh hs⟩
  | ask subject _ hopen hc ih =>
    obtain ⟨h,ih⟩ := ih
    exact ⟨h,.ask subject ih hopen hc⟩
  | @work s t rest _ ih =>
    obtain ⟨h,ih⟩ := ih
    obtain ⟨rs,hrs⟩ := exists_asks s n (requests h) t
    exact ⟨_,.work ih hrs⟩

@[simp] theorem requests_append (h g : List Happening) : requests (h ++ g) = requests h ++ requests g :=
  List.filterMap_append

@[simp] theorem requests_ended (as : List Nat) : requests (as.map ended) = [] := by
  simp [requests, List.filterMap_map]

@[simp] theorem requests_asked (rs : List Request) : requests (rs.map asked) = rs := by
  simp [requests, List.filterMap_map]

/-- A record tells who is on the list, and to whom each end was announced. -/
structure Record (n : Nat) (w : World) (h : List Happening) : Prop where
  possible : Possible (requests h)
  audience : w.audience n = listed (requests h)
  told : ∀ i a, h[i]? = some (.ended a) → ∃ u now, w.journal[a]? = some (.announced n u now) ∧
    u.audience = listed (requests (h.take i))
  complete : ∀ a u now, w.journal[a]? = some (.announced n u now) → .ended a ∈ h

theorem Fresh.record (hs : s.Fresh) (n : Nat) : Record n s.world [] where
  possible := .nil
  audience := by
    unfold World.audience
    cases ht : s.world.timers[n]? with
    | none => rfl
    | some t =>
      obtain ⟨d,rfl⟩ := hs.timers t (List.mem_of_getElem? ht)
      rfl
  told i a hi := by simp at hi
  complete a u now ha := by simp [hs.journal] at ha

theorem withdraws?_of_registers {t : Task} {name : String} (ht : t.registers? s n = some name) :
    t.withdraws? s n = none := by
  unfold Task.registers? at ht
  split at ht
  · rfl
  · contradiction

theorem registers?_of_withdraws {t : Task} {name : String} (ht : t.withdraws? s n = some name) :
    t.registers? s n = none := by
  cases hreg : t.registers? s n with
  | none => rfl
  | some name =>
    rw [withdraws?_of_registers hreg] at ht
    contradiction

/-- The requests of a task are possible, and the list of the timer's listeners is as after them. -/
theorem Record.asks {w : World} {t : Task} {rs : List Request} (hr : Record n w h) (hrs : t.Asks s n (requests h) rs) :
    Possible (requests h ++ rs) ∧
      ((t.withdraws? s n).elim (w.audience n) fun name => (w.audience n).erase (.named name)) ++
        ((t.registers? s n).map .named).toList = listed (requests h ++ rs) := by
  rw [hr.audience]
  cases hrs with
  | register ht =>
    rw [withdraws?_of_registers ht, ht, listed_register]
    exact ⟨.register _ hr.possible,rfl⟩
  | @withdraw name i ht hi =>
    rw [registers?_of_withdraws ht, ht, listed_withdraw hi]
    exact ⟨.withdraw hr.possible hi,List.append_nil _⟩
  | @unknown name ht hname =>
    have hnot : .named name ∉ listed (requests h) :=
      fun hmem => hname (mem_made_of_standing (mem_standing_of_listed hr.possible hmem))
    rw [registers?_of_withdraws ht, ht, List.append_nil]
    refine ⟨hr.possible,?_⟩
    simp [List.erase_of_not_mem hnot]
  | other hreg hwith =>
    rw [hreg, hwith, List.append_nil]
    exact ⟨hr.possible,List.append_nil _⟩

theorem any_announces {x : Option Note} :
    x.any (Note.announces n) = true ↔ ∃ u now, x = some (.announced n u now) := by
  cases x with
  | none => simp
  | some x => cases x <;> simp [Note.announces]

theorem mem_endsFrom {start a : Nat} {j : List Note} :
    a ∈ endsFrom n start j ↔ start ≤ a ∧ ∃ u now, j[a]? = some (.announced n u now) := by
  simp only [endsFrom, List.mem_filter, List.mem_range, decide_eq_true_eq, any_announces]
  constructor
  · exact fun h => h.2
  · rintro ⟨hstart,u,now,hj⟩
    exact ⟨(List.getElem?_eq_some_iff.mp hj).1,hstart,u,now,hj⟩

theorem of_getElem?_happened {as : List Nat} {rs : List Request} {i a : Nat}
    (hi : (as.map ended ++ rs.map asked)[i]? = some (.ended a)) :
    a ∈ as ∧ requests ((as.map ended ++ rs.map asked).take i) = [] := by
  obtain hlt | hge := Nat.lt_or_ge i (as.map ended).length
  · rw [List.getElem?_append_left hlt, List.getElem?_map] at hi
    obtain ⟨b,hb,heq⟩ := Option.map_eq_some_iff.mp hi
    cases heq
    rw [List.take_append_of_le_length (Nat.le_of_lt hlt), ← List.map_take, requests_ended]
    exact ⟨List.mem_of_getElem? hb,rfl⟩
  · rw [List.getElem?_append_right hge, List.getElem?_map] at hi
    obtain ⟨r,-,heq⟩ := Option.map_eq_some_iff.mp hi
    cases heq

theorem Record.step {t : Task} {rs : List Request} (hr : Record n s.world h) (hrs : t.Asks s n (requests h) rs)
    (rest : List Task) : Record n (s.step t rest).1.world
      (h ++ ((endsFrom n s.world.journal.length (s.step t rest).1.world.journal).map ended ++ rs.map asked)) := by
  obtain ⟨haudience,ns,hjournal,htold⟩ := s.heeds_step t rest n
  obtain ⟨hpossible,hlisted⟩ := hr.asks hrs
  have hrequests : requests (h ++ ((endsFrom n s.world.journal.length (s.step t rest).1.world.journal).map ended ++
      rs.map asked)) = requests h ++ rs := by simp
  refine ⟨by rwa [hrequests],by rw [hrequests, haudience, hlisted],?_,?_⟩
  · intro i a hi
    obtain hlt | hge := Nat.lt_or_ge i h.length
    · rw [List.getElem?_append_left hlt] at hi
      obtain ⟨u,now,ha,hu⟩ := hr.told i a hi
      refine ⟨u,now,?_,?_⟩
      · rw [hjournal, List.getElem?_append_left (List.getElem?_eq_some_iff.mp ha).1, ha]
      · rw [List.take_append_of_le_length (Nat.le_of_lt hlt), hu]
    · rw [List.getElem?_append_right hge] at hi
      obtain ⟨hmem,hnone⟩ := of_getElem?_happened hi
      obtain ⟨hstart,u,now,ha⟩ := mem_endsFrom.mp hmem
      refine ⟨u,now,ha,?_⟩
      rw [hjournal, List.getElem?_append_right hstart] at ha
      rw [List.take_append, List.take_of_length_le hge, requests_append, hnone, List.append_nil,
        htold u now (List.mem_of_getElem? ha), hr.audience]
  · intro a u now ha
    obtain hlt | hge := Nat.lt_or_ge a s.world.journal.length
    · rw [hjournal, List.getElem?_append_left hlt] at ha
      exact List.mem_append_left _ (hr.complete a u now ha)
    · refine List.mem_append_right _ (List.mem_append_left _ (List.mem_map_of_mem ?_))
      exact mem_endsFrom.mpr ⟨hge,u,now,ha⟩

theorem Recorded.record (hr : Recorded n s tasks h) : Record n s.world h := by
  induction hr with
  | fresh hs => exact hs.record n
  | ask _ _ _ _ ih => exact ih
  | work _ hrs ih => exact ih.step hrs _

def told (s : Session) (tasks : List Task) (a : Nat) : List Listener :=
  (Call.listenersFor a (Journal.made s.world.journal ++ Task.awaited tasks)).filter Listener.isNamed

theorem Recorded.told_eq (hr : Recorded n s tasks h) {before after : List Happening} {a : Nat}
    (hsplit : h = before ++ .ended a :: after) : s.told tasks a = listed (requests before) := by
  obtain ⟨u,now,ha,hu⟩ := hr.record.told before.length a (by simp [hsplit])
  have hpresent : s.told tasks a = u.audience := by
    rw [told, ← hr.reached.balanced a, Journal.present, ha]
    rfl
  rw [hpresent, hu, hsplit, List.take_left]

/-- Whatever is done in a session: each end of a timer's run is told to the listeners that are on the timer's
list after the requests before it. Those are never more than the registrations in force; they are as many for
each listener of which no registration was withdrawn twice; and they are those registrations, in their order,
as long as registrations are withdrawn in turn, in particular if no listener is registered twice. -/
theorem Recorded.told_of_end (hr : Recorded n s tasks h) :
    (∀ a u now, s.world.journal[a]? = some (.announced n u now) → .ended a ∈ h) ∧
    ∀ before a after, h = before ++ .ended a :: after →
      s.told tasks a = listed (requests before) ∧
      (∀ l, (s.told tasks a).count l ≤ (standing (requests before)).count l) ∧
      (∀ l, (∀ i, (made (requests before))[i]? = some l → (requests before).count (withdraw i) ≤ 1) →
        (s.told tasks a).count l = (standing (requests before)).count l) ∧
      (∀ p, InTurn p (requests before) → (s.told tasks a).filter p = (standing (requests before)).filter p) ∧
      ((made (requests before)).Nodup → s.told tasks a = standing (requests before)) := by
  refine ⟨hr.record.complete,fun before a after hsplit => ?_⟩
  have hp : Possible (requests before) := by
    have hall := hr.record.possible
    rw [hsplit, requests_append] at hall
    exact hall.of_append
  rw [hr.told_eq hsplit]
  refine ⟨rfl,count_listed_le hp,count_listed_eq hp,fun p ht => listed_eq_standing hp ht,fun honce => ?_⟩
  have hall := listed_eq_standing hp (inTurn_of_once (p := fun _ => true) (honce.filter _))
  simpa using hall

theorem Recorded.perform {c : Command} {rs : List Request} (hr : Recorded n s [] h) (hc : c.Sound)
    (hrs : (Task.command none c).Asks s n (requests h) rs) :
    Recorded n (s.step (.command none c) []).1 (s.step (.command none c) []).2
      (h ++ ((endsFrom n s.world.journal.length (s.step (.command none c) []).1.world.journal).map ended ++
        rs.map asked)) :=
  .work (.ask none hr (by simp) hc) hrs

def instant : Session := { world := { line := { now := 0 }, timers := [{}] } }

theorem instant_recorded : Recorded 0 instant [] [] := .fresh ⟨by simp [instant],rfl,rfl,rfl,rfl,rfl⟩

theorem sound_listen (name : String) : (Command.listen name [] false).Sound := by simp

theorem sound_unlisten (name : String) : (Command.unlisten name).Sound := ⟨by simp,by simp [Command.steps]⟩

theorem sound_start : (Command.act .focus .start).Sound := by simp [Action.Sound]

/-- Two listeners are registered, and the first of them is withdrawn twice. -/
theorem told_of_end_once : ∃ s tasks, Recorded 0 s tasks
    [.asked (.register (.named "a")), .asked (.register (.named "b")), .asked (.withdraw 0), .asked (.withdraw 0),
      .ended 1] ∧ s.told tasks 1 = [.named "b"] := by
  have h := ((((instant_recorded.perform (sound_listen "a") (.register rfl)).perform (sound_listen "b")
    (.register rfl)).perform (sound_unlisten "a") (.withdraw (i := 0) rfl rfl)).perform (sound_unlisten "a")
    (.withdraw (i := 0) rfl rfl)).perform sound_start (.other rfl rfl)
  obtain ⟨-,hends⟩ := h.told_of_end
  obtain ⟨-,-,-,-,honce⟩ := hends [.asked (.register (.named "a")), .asked (.register (.named "b")), .asked (.withdraw 0),
    .asked (.withdraw 0)] 1 [] rfl
  exact ⟨_,_,h,honce (by decide)⟩

/-- A listener is registered twice, and one of its registrations is withdrawn twice: the other one is in
force, and nobody is told. -/
theorem told_of_end_again : ∃ s tasks, Recorded 0 s tasks
    [.asked (.register (.named "a")), .asked (.register (.named "a")), .asked (.withdraw 1), .asked (.withdraw 1),
      .ended 1] ∧ s.told tasks 1 = [] ∧
    standing [.register (.named "a"), .register (.named "a"), .withdraw 1, .withdraw 1] = [.named "a"] := by
  have h := ((((instant_recorded.perform (sound_listen "a") (.register rfl)).perform (sound_listen "a")
    (.register rfl)).perform (sound_unlisten "a") (.withdraw (i := 1) rfl rfl)).perform (sound_unlisten "a")
    (.withdraw (i := 1) rfl rfl)).perform sound_start (.other rfl rfl)
  exact ⟨_,_,h,rfl,by decide⟩

end Session
end Countdown
