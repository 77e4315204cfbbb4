import Mathlib.Data.List.Forall2
import Mathlib.Data.List.Induction
import Mathlib.Data.List.Nodup
import Mathlib.Data.List.TakeWhile
import Countdown.Web.Server
set_option autoImplicit false

namespace Countdown.Web.Hub

/-- What is asked of a hub. Each send of a broadcast succeeds or fails on its own. -/
inductive Operation (α : Type) where
  | connect (c : α)
  | disconnect (c : α)
  | broadcast (m : Message) (reaches : α → Bool)

/-- A hub, and the texts that its clients have received so far. -/
structure Feed (α : Type) where
  hub : Hub α := {}
  received : List (α × String) := []

variable {α : Type}

def Operation.connecting? : Operation α → Option α
  | .connect c => some c
  | _ => none

def Operation.text? : Operation α → Option String
  | .broadcast m _ => if m.isWritable then some m.text else none
  | _ => none

def newcomers (ops : List (Operation α)) : List α := ops.filterMap Operation.connecting?

theorem newcomers_concat (ops : List (Operation α)) (op : Operation α) :
    newcomers (ops ++ [op]) = newcomers ops ++ op.connecting?.toList := by
  rw [newcomers, List.filterMap_append]
  cases op <;> rfl

theorem nodup_before {ops later : List (Operation α)} (h : (newcomers (ops ++ later)).Nodup) :
    (newcomers ops).Nodup := by
  rw [newcomers, List.filterMap_append] at h
  exact (List.nodup_append.mp h).1

theorem mem_newcomers_cons {c : α} {first : Operation α} {ops : List (Operation α)} :
    c ∈ newcomers (first :: ops) ↔ first.connecting? = some c ∨ c ∈ newcomers ops := by
  simp [newcomers]

variable [DecidableEq α]

namespace Feed

/-- A message that cannot be written is sent to nobody, so no client is missed. -/
def step (f : Feed α) : Operation α → Feed α
  | .connect c => { f with hub := f.hub.connect c }
  | .disconnect c => { f with hub := f.hub.disconnect c }
  | .broadcast m reaches =>
    if m.isWritable then ⟨f.hub.broadcast reaches,f.received ++ (f.hub.reached reaches).map fun c => (c,m.text)⟩
    else f

def run (ops : List (Operation α)) : Feed α := ops.foldl step {}

def receivedBy (f : Feed α) (c : α) : List String := (f.received.filter fun x => x.1 = c).map Prod.snd

end Feed

/-- Whether a client is taken off the list: it is disconnected, or a message that is sent does not reach it. -/
def Operation.removes (c : α) : Operation α → Bool
  | .connect _ => false
  | .disconnect d => c = d
  | .broadcast m reaches => m.isWritable && !reaches c

variable {c d : α} {f f' : Feed α} {op op' : Operation α} {ops ops' : List (Operation α)}

def since (c : α) : List (Operation α) → List (Operation α)
  | [] => []
  | op :: ops => if op.connecting? = some c then ops else since c ops

def stays (c : α) (ops : List (Operation α)) : Bool := (since c ops).all fun op => !op.removes c

def during (c : α) (ops : List (Operation α)) : List (Operation α) := (since c ops).takeWhile fun op => !op.removes c

/-- Operations that differ at most in what comes of the sends to one client. -/
inductive Operation.AlikeBut (c : α) : Operation α → Operation α → Prop
  | connect (d : α) : AlikeBut c (.connect d) (.connect d)
  | disconnect (d : α) : AlikeBut c (.disconnect d) (.disconnect d)
  | broadcast (m : Message) {reaches reaches' : α → Bool} (h : ∀ d, d ≠ c → reaches d = reaches' d) :
      AlikeBut c (.broadcast m reaches) (.broadcast m reaches')

theorem clients_dropAll (h : Hub α) (missed : List α) : (h.dropAll missed).clients = missed.foldl List.erase h.clients := by
  unfold dropAll
  induction missed generalizing h with
  | nil => rfl
  | cons c missed ih => exact ih (h.disconnect c)

theorem foldl_erase_cons {missed : List α} (h : c ∉ missed) (cs : List α) :
    missed.foldl List.erase (c :: cs) = c :: missed.foldl List.erase cs := by
  induction missed generalizing cs with
  | nil => rfl
  | cons d missed ih =>
    obtain ⟨hne,hrest⟩ := List.ne_and_not_mem_of_not_mem_cons h
    rw [List.foldl_cons, List.erase_cons_tail (by simpa using hne), ih hrest, List.foldl_cons]

theorem clients_broadcast (h : Hub α) (reaches : α → Bool) : (h.broadcast reaches).clients = h.reached reaches := by
  obtain ⟨cs⟩ := h
  rw [broadcast, clients_dropAll, missed, reached]
  induction cs with
  | nil => rfl
  | cons c cs ih =>
    cases hc : reaches c with
    | true =>
      have hnot : c ∉ cs.filter fun d => !reaches d := by simp [hc]
      rw [List.filter_cons_of_neg (by simp [hc]), List.filter_cons_of_pos hc, foldl_erase_cons hnot, ih]
    | false =>
      rw [List.filter_cons_of_pos (by simp [hc]), List.filter_cons_of_neg (by simp [hc]), List.foldl_cons,
        List.erase_cons_head, ih]

/-- The service broadcasts to those who are connected as a hub does. -/
theorem broadcast_server (s : Server) (m : Message) :
    (s.broadcast s.hub m).1.hub = (Feed.step ⟨s.hub,[]⟩ (.broadcast m s.reaches)).hub ∧
      (s.broadcast s.hub m).2 =
        (Feed.step ⟨s.hub,[]⟩ (.broadcast m s.reaches)).received.map fun x => (s.nameOf x.1,x.2) := by
  cases hm : m.isWritable with
  | true => simp [Server.broadcast, Feed.step, hm, Hub.broadcast, Function.comp_def]
  | false =>
    -- A message that cannot be written is not even tried when nobody is there to receive it.
    cases hc : s.hub.clients with
    | nil => simp [Server.broadcast, Feed.step, hm, hc, reached, missed, dropAll]
    | cons c cs => simp [Server.broadcast, Feed.step, hm, hc, Server.log]

theorem clients_step (hn : f.hub.clients.Nodup) (op : Operation α) : (f.step op).hub.clients =
    f.hub.clients.filter (fun c => !op.removes c) ++ op.connecting?.toList := by
  cases op with
  | connect d => simp [Feed.step, Hub.connect, Operation.removes, Operation.connecting?]
  | disconnect d => exact (hn.erase_eq_filter d).trans (List.append_nil _).symm
  | broadcast m reaches =>
    cases hm : m.isWritable <;>
      simp [Feed.step, Operation.removes, Operation.connecting?, hm, clients_broadcast, reached]

theorem filter_eq_of_nodup {cs : List α} (hn : cs.Nodup) (c : α) : cs.filter (· = c) = if c ∈ cs then [c] else [] := by
  rw [List.filter_eq, hn.count]
  split <;> rfl

theorem receivedBy_step (hn : f.hub.clients.Nodup) (op : Operation α) (c : α) : (f.step op).receivedBy c =
    f.receivedBy c ++ if c ∈ f.hub.clients ∧ op.removes c = false then op.text?.toList else [] := by
  cases op with
  | connect d => simp [Feed.step, Feed.receivedBy, Operation.text?]
  | disconnect d => simp [Feed.step, Feed.receivedBy, Operation.text?]
  | broadcast m reaches =>
    cases hm : m.isWritable with
    | false => simp [Feed.step, Feed.receivedBy, Operation.text?, hm]
    | true =>
      have hreached : (f.hub.reached reaches).Nodup := hn.filter _
      have hsent : (((f.hub.reached reaches).map fun c => (c,m.text)).filter fun x => x.1 = c).map Prod.snd =
          if c ∈ f.hub.reached reaches then [m.text] else [] := by
        rw [List.filter_map, Function.comp_def, filter_eq_of_nodup hreached c]
        split <;> rfl
      have hmem : c ∈ f.hub.reached reaches ↔ c ∈ f.hub.clients ∧ (Operation.broadcast m reaches).removes c = false := by
        simp [reached, Operation.removes, hm]
      simp only [Feed.step, Feed.receivedBy, hm, if_true, List.filter_append, List.map_append, hsent, hmem,
        Operation.text?, Option.toList]

theorem run_concat (ops : List (Operation α)) (op : Operation α) : Feed.run (ops ++ [op]) = (Feed.run ops).step op := by
  simp [Feed.run]

theorem since_append (h : c ∈ newcomers ops) (later : List (Operation α)) :
    since c (ops ++ later) = since c ops ++ later := by
  induction ops with
  | nil => simp [newcomers] at h
  | cons first ops ih =>
    rw [List.cons_append, since, since]
    by_cases hfirst : first.connecting? = some c
    · rw [if_pos hfirst, if_pos hfirst]
    · rw [if_neg hfirst, if_neg hfirst, ih ((mem_newcomers_cons.mp h).resolve_left hfirst)]

theorem since_append_absent (h : c ∉ newcomers ops) (later : List (Operation α)) :
    since c (ops ++ later) = since c later := by
  induction ops with
  | nil => rfl
  | cons first ops ih =>
    obtain ⟨hfirst,hrest⟩ := not_or.mp (mem_newcomers_cons.not.mp h)
    rw [List.cons_append, since, if_neg hfirst, ih hrest]

theorem since_singleton (c : α) (op : Operation α) : since c [op] = [] := by
  rw [since]
  split <;> rfl

theorem stays_append (h : c ∈ newcomers ops) (later : List (Operation α)) :
    stays c (ops ++ later) = (stays c ops && later.all fun op => !op.removes c) := by
  rw [stays, since_append h, List.all_append, stays]

theorem stays_concat (h : c ∈ newcomers ops) (op : Operation α) :
    stays c (ops ++ [op]) = (stays c ops && !op.removes c) := by
  rw [stays_append h, List.all_cons, List.all_nil, Bool.and_true]

theorem during_append (h : c ∈ newcomers ops) (later : List (Operation α)) : during c (ops ++ later) =
    during c ops ++ if stays c ops then later.takeWhile fun op => !op.removes c else [] := by
  have hwhole : (during c ops).length = (since c ops).length ↔ stays c ops = true := by
    rw [during, (List.takeWhile_prefix _).sublist.length_eq, List.takeWhile_eq_self_iff, stays, List.all_eq_true]
  have hsplit : during c (ops ++ later) = if (during c ops).length = (since c ops).length then
      since c ops ++ later.takeWhile fun op => !op.removes c else during c ops := by
    rw [during, since_append h, List.takeWhile_append, during]
  rw [hsplit]
  by_cases hstays : stays c ops = true
  · have hall : during c ops = since c ops := (List.takeWhile_prefix _).eq_of_length (hwhole.mpr hstays)
    rw [if_pos (hwhole.mpr hstays), if_pos hstays, hall]
  · rw [if_neg fun hlength => hstays (hwhole.mp hlength), if_neg hstays, List.append_nil]

theorem clients_run (h : (newcomers ops).Nodup) :
    (Feed.run ops).hub.clients = (newcomers ops).filter fun c => stays c ops := by
  -- from the end, where the last operation tests those that the earlier ones have left on the list
  induction ops using List.reverseRecOn with
  | nil => rfl
  | append_singleton ops op ih =>
    rw [newcomers_concat, List.nodup_append] at h
    obtain ⟨hbefore,-,hnew⟩ := h
    have hclients := ih hbefore
    have hn : (Feed.run ops).hub.clients.Nodup := by
      rw [hclients]
      exact hbefore.filter _
    have hkept : ((newcomers ops).filter fun c => !op.removes c && stays c ops) =
        (newcomers ops).filter fun c => stays c (ops ++ [op]) :=
      List.filter_congr fun c hc => by rw [stays_concat hc, Bool.and_comm]
    have hstays : op.connecting?.toList.filter (fun c => stays c (ops ++ [op])) = op.connecting?.toList := by
      refine List.filter_eq_self.mpr fun c hc => ?_
      have habsent : c ∉ newcomers ops := fun hmem => hnew c hmem c hc rfl
      rw [stays, since_append_absent habsent, since_singleton, List.all_nil]
    rw [run_concat, clients_step hn, hclients, newcomers_concat, List.filter_append, List.filter_filter, hkept, hstays]

theorem nodup_clients (h : (newcomers ops).Nodup) : (Feed.run ops).hub.clients.Nodup := by
  rw [clients_run h]
  exact h.filter _

theorem mem_clients (h : (newcomers ops).Nodup) :
    c ∈ (Feed.run ops).hub.clients ↔ c ∈ newcomers ops ∧ stays c ops = true := by
  rw [clients_run h, List.mem_filter]

theorem receivedBy_run (h : (newcomers ops).Nodup) (c : α) :
    (Feed.run ops).receivedBy c = (during c ops).filterMap Operation.text? := by
  induction ops using List.reverseRecOn with
  | nil => rfl
  | append_singleton ops op ih =>
    have hbefore := nodup_before h
    rw [run_concat, receivedBy_step (nodup_clients hbefore), ih hbefore]
    simp only [mem_clients hbefore]
    by_cases hc : c ∈ newcomers ops
    · rw [during_append hc, List.filterMap_append]
      refine congrArg _ ?_
      cases hstays : stays c ops with
      | false => simp
      | true => cases hop : op.removes c <;> cases htext : op.text? <;> simp [hc, hop, htext]
    · have hnone : since c (ops ++ [op]) = [] := (since_append_absent hc _).trans (since_singleton c op)
      have hbeforeNone : since c ops = [] := by simpa [since] using since_append_absent hc []
      rw [if_neg fun h => hc h.1.1, List.append_nil, during, during, hnone, hbeforeNone]

def Feed.others (f : Feed α) (c : α) : List α × List (α × String) :=
  (f.hub.clients.filter (· ≠ c),f.received.filter fun x => x.1 ≠ c)

theorem filter_reached {h h' : Hub α} {reaches reaches' : α → Bool}
    (hclients : h.clients.filter (· ≠ c) = h'.clients.filter (· ≠ c))
    (hreaches : ∀ d, d ≠ c → reaches d = reaches' d) :
    (h.reached reaches).filter (· ≠ c) = (h'.reached reaches').filter (· ≠ c) := by
  have hsame : (h'.clients.filter (· ≠ c)).filter reaches = (h'.clients.filter (· ≠ c)).filter reaches' :=
    List.filter_congr fun d hd => hreaches d (by simpa using (List.mem_filter.mp hd).2)
  rw [reached, reached, List.filter_comm, hclients, hsame, List.filter_comm]

theorem others_step (hop : op.AlikeBut c op') (h : f.others c = f'.others c) :
    (f.step op).others c = (f'.step op').others c := by
  obtain ⟨hclients,hreceived⟩ := Prod.mk.inj h
  cases hop with
  | connect d =>
    refine Prod.ext ?_ hreceived
    simp only [Feed.others, Feed.step, Hub.connect, List.filter_append, hclients]
  | disconnect d =>
    refine Prod.ext ?_ hreceived
    simp only [Feed.others, Feed.step, Hub.disconnect, ← List.erase_filter, hclients]
  | @broadcast m reaches reaches' hreaches =>
    cases hm : m.isWritable with
    | false => simpa [Feed.step, hm] using h
    | true =>
      have hreached := filter_reached hclients hreaches
      have hsent (cs : List α) : ((cs.map fun d => (d,m.text)).filter fun x => x.1 ≠ c) =
          (cs.filter (· ≠ c)).map fun d => (d,m.text) := by
        rw [List.filter_map, Function.comp_def]
      refine Prod.ext ?_ ?_
      · simpa only [Feed.others, Feed.step, hm, if_true, clients_broadcast] using hreached
      · simp only [Feed.others, Feed.step, hm, if_true, List.filter_append, hsent, hreached, hreceived]

theorem others_foldl (hops : List.Forall₂ (Operation.AlikeBut c) ops ops') (h : f.others c = f'.others c) :
    (ops.foldl Feed.step f).others c = (ops'.foldl Feed.step f').others c := by
  induction hops generalizing f f' with
  | nil => exact h
  | cons hop _ ih => exact ih (others_step hop h)

/-- What comes of operations on a hub, for each client and for the list of them. -/
structure Delivered (ops : List (Operation α)) : Prop where
  /-- A client receives what is broadcast while it is on the list, each text once and in order. -/
  received : ∀ c, (Feed.run ops).receivedBy c = (during c ops).filterMap Operation.text?
  /-- Those on the list stand in the order in which they connected. -/
  listed : (Feed.run ops).hub.clients = (newcomers ops).filter fun c => stays c ops
  /-- One more operation takes a client off the list if it disconnects it or sends a message that misses it. -/
  removed : ∀ c ∈ (Feed.run ops).hub.clients, ∀ op : Operation α, c ∉ (Feed.run (ops ++ [op])).hub.clients ↔
    op = .disconnect c ∨ ∃ m reaches, op = .broadcast m reaches ∧ m.isWritable = true ∧ reaches c = false
  /-- One that has been taken off the list stays off it and receives nothing. -/
  silent : ∀ c earlier later, ops = earlier ++ later → c ∈ newcomers earlier → c ∉ (Feed.run earlier).hub.clients →
    c ∉ (Feed.run ops).hub.clients ∧ (Feed.run ops).receivedBy c = (Feed.run earlier).receivedBy c
  /-- Whatever comes of the sends to one client, the others receive the same and stand in the same order. -/
  apart : ∀ c ops', List.Forall₂ (Operation.AlikeBut c) ops ops' → (Feed.run ops).others c = (Feed.run ops').others c

theorem removes_eq_true : op.removes c = true ↔
    op = .disconnect c ∨ ∃ m reaches, op = .broadcast m reaches ∧ m.isWritable = true ∧ reaches c = false := by
  cases op with
  | connect d => simp [Operation.removes]
  | disconnect d => simp [Operation.removes, @eq_comm _ c d]
  | broadcast m reaches => simp [Operation.removes]

theorem removed_step (hn : f.hub.clients.Nodup) (hc : c ∈ f.hub.clients) (op : Operation α) :
    c ∉ (f.step op).hub.clients ↔ op.removes c = true := by
  rw [clients_step hn, List.mem_append, List.mem_filter]
  cases op <;> simp [hc, Operation.removes, Operation.connecting?]

theorem silent_run {earlier later : List (Operation α)} (h : (newcomers (earlier ++ later)).Nodup)
    (hc : c ∈ newcomers earlier) (hgone : c ∉ (Feed.run earlier).hub.clients) :
    c ∉ (Feed.run (earlier ++ later)).hub.clients ∧
      (Feed.run (earlier ++ later)).receivedBy c = (Feed.run earlier).receivedBy c := by
  have hbefore := nodup_before h
  have hstays : stays c earlier = false := by
    simpa [mem_clients hbefore, hc] using hgone
  constructor
  · rw [mem_clients h, stays_append hc, hstays]
    simp
  · rw [receivedBy_run h, receivedBy_run hbefore, during_append hc, hstays, if_neg Bool.false_ne_true, List.append_nil]

/-- A client receives what is broadcast from the time when it connects until it is taken off the list, if it connects
once. -/
theorem delivered (h : (newcomers ops).Nodup) : Delivered ops where
  received := receivedBy_run h
  listed := clients_run h
  removed c hc op := by
    rw [run_concat, removed_step (nodup_clients h) hc, removes_eq_true]
  silent := by
    rintro c earlier later rfl hc hgone
    exact silent_run h hc hgone
  apart _ _ hops := others_foldl hops rfl

def exchange : List (Operation Nat) :=
  [.connect 0, .connect 1, .broadcast (.removed "t1") fun _ => true, .connect 2,
    .broadcast (.removed "t2") fun c => c ≠ 1, .disconnect 0, .broadcast (.removed "t3") fun _ => true]

theorem delivered_exchange : (newcomers exchange).Nodup ∧ Delivered exchange ∧
    (Feed.run exchange).hub.clients = [2] ∧
      (Feed.run exchange).receivedBy 1 = [(Message.removed "t1").text] :=
  have h : (newcomers exchange).Nodup := by decide
  ⟨h,delivered h,(delivered h).listed.trans (by decide),((delivered h).received 1).trans (by decide)⟩

end Countdown.Web.Hub
