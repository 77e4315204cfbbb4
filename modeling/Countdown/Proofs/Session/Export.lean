import Countdown.Proofs.Result
import Countdown.Proofs.Sequence.Durations
import Countdown.Proofs.Session.Import
import Countdown.Proofs.Session.Settling
set_option autoImplicit false

namespace Countdown

open Sequence

namespace Queue

theorem skipFrom_past {c : Cursor} {count n : Nat} (h : count = 0 ∨ (c.nth? (n + count - 1)).isSome = true)
    (taken : Nat) : skipFrom taken count (past c n) = (taken + count,past c (n + count)) := by
  induction count generalizing taken n with
  | zero => rfl
  | succ count ih =>
    have hlast : (c.nth? (n + count)).isSome = true := by simpa using h
    obtain ⟨d,hd⟩ := Cursor.nth?_before hlast (Nat.le_add_right n count)
    have hrest : count = 0 ∨ (c.nth? (n + 1 + count - 1)).isSome = true := by
      have hsame : n + 1 + count - 1 = n + count := by omega
      rw [hsame]
      exact Or.inr hlast
    simp only [skipFrom, pop_past hd]
    rw [ih hrest]
    have htaken : taken + 1 + count = taken + (count + 1) := by omega
    have hpast : n + 1 + count = n + (count + 1) := by omega
    rw [htaken, hpast]

end Queue

/-- A queue of an input: there is none for a blank input, and else it is at one of the durations. -/
def QueueOf (separator input : String) (queue : Option Queue) : Prop :=
  ((Text.trim input.toList).isEmpty = true ∧ queue = none) ∨
  ((Text.trim input.toList).isEmpty = false ∧ ∃ r c, Run.read separator input.toList = .ok r ∧
    queue = some (Queue.past [r] (c + 1)) ∧ (Cursor.nth? [r] c).isSome = true)

theorem QueueOf.pop {separator input : String} {q q' : Queue} {d : Int}
    (h : QueueOf separator input (some q)) (hp : q.pop = (some d,q')) : QueueOf separator input (some q') := by
  obtain ⟨-,hnone⟩ | ⟨hblank,r,c,hr,hq,-⟩ := h
  · contradiction
  · obtain rfl := Option.some.inj hq
    have hup : (Queue.past [r] (c + 1)).upcoming = some d := Queue.peek_of_pop hp
    rw [Queue.upcoming_past] at hup
    rw [Queue.pop_past hup] at hp
    cases hp
    exact Or.inr ⟨hblank,r,c + 1,hr,rfl,by rw [hup]; rfl⟩

namespace World

variable {w : World} {k : Nat} {ks : List Nat} {s : Snapshot} {ss : List Snapshot} {separator text : String}

/-- The queue that an entry had is restored, and nothing is logged. -/
theorem restoreQueue_queueOf {queue : Option Queue} (h : QueueOf separator s.input queue)
    (hc : s.consumed = (queue.map Queue.consumed).getD 0) : restoreQueue separator s = .ok (queue,[]) := by
  obtain ⟨hblank,rfl⟩ | ⟨hblank,r,c,hr,rfl,hsome⟩ := h
  · simp [restoreQueue, hblank]
  · have hused : usedBy s = (c + 1 : Nat) := by
      simp only [Option.map_some, Option.getD_some, Queue.consumed_past] at hc
      simp only [usedBy, hc]
      omega
    have hread : Queue.read separator s.input = .ok (Queue.past [r] 0) := by
      rw [Queue.read, hr]
      rfl
    have hskip : Queue.skip (c + 1) (Queue.past [r] 0) = (0 + (c + 1),Queue.past [r] (0 + (c + 1))) :=
      Queue.skipFrom_past (Or.inr (by simpa using hsome)) 0
    rw [Nat.zero_add] at hskip
    simp [restoreQueue, hblank, hread, hused, hskip]

def saved? (w : World) (k : Nat) : Option Snapshot := do
  let e ← w.entries[k]?
  let t ← w.timers[e.timer]?
  return ⟨t.fields,e.input,e.consumed⟩

theorem saved?_eq_some : w.saved? k = some s ↔ ∃ e t, w.entries[k]? = some e ∧
    w.timers[e.timer]? = some t ∧ s = ⟨t.fields,e.input,e.consumed⟩ := by
  simp only [saved?, Option.bind_eq_bind, Option.bind_eq_some_iff, Option.pure_def, Option.some.injEq]
  constructor
  · rintro ⟨e,he,t,ht,rfl⟩
    exact ⟨e,t,he,ht,rfl⟩
  · rintro ⟨e,t,he,ht,rfl⟩
    exact ⟨e,he,t,ht,rfl⟩

theorem snapshots_cons (h : w.saved? k = some s) (ks : List Nat) : w.snapshots (k :: ks) =
    s.check.mapError .invalid >>= fun s => (w.snapshots ks).map (s :: ·) := by
  obtain ⟨e,t,he,ht,rfl⟩ := saved?_eq_some.mp h
  have htimer : w.timerOf? k = some (e.timer,t) := by simp [timerOf?, he, ht]
  simp only [snapshots, he, htimer, Timer.snapshot]
  cases Snapshot.check ⟨t.fields,e.input,e.consumed⟩ <;> rfl

theorem snapshots_eq_ok (hall : ∀ k ∈ ks, (w.saved? k).isSome = true) : w.snapshots ks = .ok ss ↔
    ks.map w.saved? = ss.map some ∧ ∀ s ∈ ss, s.check = .ok s := by
  induction ks generalizing ss with
  | nil =>
    rw [snapshots]
    constructor
    · rintro ⟨⟩
      exact ⟨rfl,by simp⟩
    · rintro ⟨hmap,-⟩
      obtain rfl := List.map_eq_nil_iff.mp hmap.symm
      rfl
  | cons k ks ih =>
    obtain ⟨s,hs⟩ := Option.isSome_iff_exists.mp (hall k List.mem_cons_self)
    have hrest : ∀ k ∈ ks, (w.saved? k).isSome = true := fun k hk => hall k (List.mem_cons_of_mem _ hk)
    rw [snapshots_cons hs, List.map_cons, hs]
    constructor
    · intro h
      obtain ⟨s',hcheck,h⟩ := bind_eq_ok.mp h
      obtain ⟨ss',hss',rfl⟩ := map_eq_ok.mp h
      have hself : s.check = .ok s' := by
        cases hc : s.check with
        | error e =>
          rw [hc] at hcheck
          contradiction
        | ok x =>
          rw [hc] at hcheck
          exact congrArg Except.ok (Except.ok.inj hcheck)
      obtain ⟨rfl,-⟩ := Snapshot.check_eq hself
      obtain ⟨hmap,hchecked⟩ := (ih hrest).mp hss'
      refine ⟨by rw [hmap, List.map_cons],fun x hx => ?_⟩
      obtain rfl | hx := List.mem_cons.mp hx
      · exact hself
      · exact hchecked x hx
    · rintro ⟨hmap,hchecked⟩
      cases ss with
      | nil => simp at hmap
      | cons s' ss =>
        obtain ⟨hhead,htail⟩ := List.cons.inj hmap
        obtain rfl := Option.some.inj hhead
        rw [hchecked s List.mem_cons_self]
        have hss := (ih hrest).mpr ⟨htail,fun x hx => hchecked x (List.mem_cons_of_mem _ hx)⟩
        rw [hss]
        rfl

theorem exported_eq_ok : w.exported = .ok text ↔
    ∃ ss, w.snapshots w.listed = .ok ss ∧ (∀ s ∈ ss, s.toJson.isWritable = true) ∧
      text = Snapshot.writeAll ss := by
  unfold exported
  rw [bind_eq_ok]
  refine exists_congr fun ss => and_congr_right fun _ => ?_
  rw [← List.all_eq_true]
  cases ss.all fun s => s.toJson.isWritable with
  | true => simp [pure, Except.pure, eq_comm]
  | false => simp [throw, throwThe, MonadExceptOf.throw]

theorem Wired.saved? (h : w.Wired) {k : Nat} (hk : k < w.entries.length) : (w.saved? k).isSome = true := by
  have he := List.getElem?_eq_getElem hk
  have hn := h.timers k _ (by rw [owner?, he]; rfl)
  have ht := List.getElem?_eq_getElem hn
  rw [saved?_eq_some.mpr ⟨_,_,he,ht,rfl⟩]
  rfl

theorem mem_listed : k ∈ w.listed ↔ ∃ e, w.entries[k]? = some e ∧ e.listed = true := by
  simp only [listed, List.mem_filter, List.mem_range, Option.any_eq_true]
  constructor
  · exact fun h => h.2
  · rintro ⟨e,he,hl⟩
    exact ⟨(List.getElem?_eq_some_iff.mp he).1,e,he,hl⟩

theorem importText_exported (hw : w.Wired) (h : w.exported = .ok text) :
    ∃ ss, w.listed.map w.saved? = ss.map some ∧ (∀ s ∈ ss, s.check = .ok s) ∧
      ∀ w' : World, w'.importText text = w'.restoreAll ss := by
  obtain ⟨ss,hss,hwritable,rfl⟩ := exported_eq_ok.mp h
  have hall : ∀ k ∈ w.listed, (w.saved? k).isSome = true := by
    intro k hk
    obtain ⟨e,he,-⟩ := mem_listed.mp hk
    exact hw.saved? (List.getElem?_eq_some_iff.mp he).1
  obtain ⟨hmap,hchecked⟩ := (snapshots_eq_ok hall).mp hss
  refine ⟨ss,hmap,hchecked,fun w' => ?_⟩
  rw [importText, Snapshot.readAll_text hchecked hwritable]
  rfl

/-- An import that succeeds has restored all that was exported. -/
theorem importText_restoring {w' w'' : World} (hw : w.Wired) (h : w.exported = .ok text) (hg : w'.Guarded)
    (himport : w'.importText text = (w'',.ok ks)) : ∃ ss, w.listed.map w.saved? = ss.map some ∧
      ks = List.range' w'.entries.length ss.length ∧ w'.Restoring ss w'' := by
  obtain ⟨ss,hmap,hchecked,hrestore⟩ := importText_exported hw h
  rw [hrestore] at himport
  have hread := restoreQueue_of_restoreAll (by rw [himport])
  obtain ⟨w₀,hdone,hrestoring⟩ := restoreAll_restoring hg hchecked hread
  rw [hdone] at himport
  cases himport
  exact ⟨ss,hmap,rfl,hrestoring⟩

end World

theorem Session.run_importAll {s s' : Session} {text : String} {fuel : Nat} {ks : List Nat} :
    s.run fuel (.importAll (some text)) = some (s',.ok (.entries ks)) ↔
      ∃ w, s.world.importText text = (w,.ok ks) ∧ s' = s.withWorld w := by
  cases himport : s.world.importText text with
  | mk w r => cases r with
    | error f => simp [run, perform, himport, failed]
    | ok ks' =>
      simp only [run, perform, Option.getD_some, himport, ok, settle_nil, Option.map_some, Option.some.injEq,
        Prod.mk.injEq, Except.ok.injEq, Reply.entries.injEq]
      constructor
      · rintro ⟨rfl,rfl⟩
        exact ⟨w,⟨rfl,rfl⟩,rfl⟩
      · rintro ⟨_,⟨rfl,rfl⟩,rfl⟩
        exact ⟨rfl,rfl⟩

end Countdown
