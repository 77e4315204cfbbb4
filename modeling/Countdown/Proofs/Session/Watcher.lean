import Countdown.Proofs.Session.Settling
import Countdown.Proofs.Timer.Punctual
set_option autoImplicit false

namespace Countdown

/-- What is to be seen of a timer at one time: whether it is over, and who listens to it. -/
structure Moment where
  isOver : Bool
  listeners : List Listener
  now : Int
  deriving DecidableEq, Repr

namespace Moment

/-- Who is to be told, and when, by a watcher who saw the moments of a run. -/
def told (ms : List Moment) : List (Listener × Int) :=
  match ms.find? fun m => m.isOver with
  | none => []
  | some m => m.listeners.map fun l => (l,m.now)

variable {ms : List Moment}

theorem told_append (ms ns : List Moment) : told (ms ++ ns) =
    if ms.any fun m => m.isOver then told ms else told ns := by
  unfold told
  rw [List.find?_append]
  cases h : ms.find? fun m => m.isOver with
  | none =>
    have hnone : (ms.any fun m => m.isOver) = false := by
      rw [List.any_eq_false]
      exact List.find?_eq_none.mp h
    rw [hnone]
    rfl
  | some m =>
    have hsome : (ms.any fun m => m.isOver) = true :=
      List.any_eq_true.mpr ⟨m,List.mem_of_find?_eq_some h,List.find?_some h⟩
    rw [hsome]
    rfl

theorem told_of_not_any (h : (ms.any fun m => m.isOver) = false) : told ms = [] := by
  have hnone := told_append ms []
  rw [h, List.append_nil] at hnone
  exact hnone

end Moment

namespace Timer

variable {t t' : Timer}

def moment (t : Timer) (now : Int) : Moment := ⟨t.isOver now,t.listeners,now⟩

def moments (t : Timer) (now target : Int) : List Moment :=
  (List.range (target - now).toNat).map fun (i : Nat) => t.moment (now + 1 + i)

theorem mem_moments {now target : Int} {m : Moment} (h : m ∈ t.moments now target) :
    ∃ c, now < c ∧ c ≤ target ∧ m = t.moment c := by
  obtain ⟨i,hi,rfl⟩ := List.mem_map.mp h
  rw [List.mem_range] at hi
  exact ⟨now + 1 + i,by omega,by omega,rfl⟩

theorem moments_append {now between target : Int} (h : now ≤ between) (h' : between ≤ target) :
    t.moments now between ++ t.moments between target = t.moments now target := by
  have hlen : (target - now).toNat = (between - now).toNat + (target - between).toNat := by omega
  simp only [Timer.moments, hlen, List.range_add, List.map_append, List.map_map]
  congr 1
  apply List.map_congr_left
  intro i _
  have htime : between + 1 + (i : Int) = now + 1 + (((between - now).toNat + i : Nat) : Int) := by
    omega
  simp only [Function.comp_apply, htime]

theorem moments_through {now due target : Int} (h : now < due) (h' : due ≤ target)
    (hsame : ∀ c, t'.moment c = t.moment c) :
    t.moments now (due - 1) ++ [t'.moment due] ++ t'.moments due target = t.moments now target := by
  have hone : t.moments (due - 1) due = [t'.moment due] := by
    have hlen : (due - (due - 1)).toNat = 1 := by omega
    have htime : due - 1 + 1 + ((0 : Nat) : Int) = due := by omega
    simp only [Timer.moments, hlen, hsame]
    change [t.moment (due - 1 + 1 + ((0 : Nat) : Int))] = _
    rw [htime]
  have hrest : t'.moments due target = t.moments due target := by
    simp only [Timer.moments, hsame]
  rw [hrest, ← hone, moments_append (by omega) (by omega), moments_append (by omega) h']

theorem moment_wake (t : Timer) (n g : Nat) (line : Timeline) (now : Int) :
    (t.wake n g line).timer.moment now = t.moment now := by
  obtain ⟨f,a,ht⟩ := Timer.wake_timer t n g line
  rw [ht]
  rfl

end Timer

def Note.callAt? : Note → Option (Listener × Int)
  | .called c now => some (c.listener,now)
  | _ => none

namespace Journal

def callsSince (n : Nat) (j : List Note) : List (Listener × Int) :=
  j.foldl (fun cs x => match x with
    | .cleared m => if m = n then [] else cs
    | .called c now => cs ++ [(c.listener,now)]
    | _ => cs) []

theorem callsSince_append (n : Nat) (j : List Note) {ns : List Note}
    (hns : ∀ x ∈ ns, x ≠ .cleared n) :
    callsSince n (j ++ ns) = callsSince n j ++ ns.filterMap Note.callAt? := by
  induction ns generalizing j with
  | nil => simp
  | cons x ns ih =>
    have hrest := ih (j ++ [x]) fun y hy => hns y (by simp [hy])
    rw [List.append_assoc, List.singleton_append] at hrest
    rw [hrest]
    have hx := hns x (by simp)
    cases x with
    | cleared m =>
      have hm : m ≠ n := fun he => hx (by rw [he])
      simp [callsSince, List.foldl_append, List.filterMap_cons, Note.callAt?, hm]
    | _ => simp [callsSince, List.foldl_append, List.filterMap_cons, Note.callAt?]

theorem callsSince_cleared (n : Nat) (j : List Note) :
    callsSince n (j ++ [.cleared n]) = [] := by
  simp [callsSince, List.foldl_append]

end Journal

namespace Session

def forgets (s : Session) : Command → Bool
  | .act _ (.reset _) => true
  | .act _ .start => !s.focused.isStarted
  | _ => false

def passed (s : Session) : Command → List Moment
  | .advance ms => s.focused.moments s.now (s.now + ms)
  | _ => []

/-- Carries out commands under the eyes of a watcher, who has seen some moments of this run. -/
def watch (fuel : Nat) (s : Session) (ms : List Moment) : List Command → Option (Session × List Moment)
  | [] => some (s,ms)
  | c :: cs => (s.run fuel c).bind fun p =>
      let s' := p.1
      let before := if s.forgets c then [] else ms
      s'.watch fuel (before ++ s.passed c ++ [s'.focused.moment s'.now]) cs

end Session

def Action.steers : Action → Bool
  | .close | .setFields _ => false
  | _ => true

/-- The commands for one timer whose listeners only look. -/
def Command.steers : Command → Bool
  | .act .focus a => a.steers
  | .fire _ | .advance _ | .unlisten _ => true
  | .listen _ steps _ => steps.all Command.looks
  | c => c.looks

end Countdown
