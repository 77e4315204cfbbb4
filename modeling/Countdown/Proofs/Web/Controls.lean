import Countdown.Proofs.Session.Ending
import Countdown.Proofs.Session.Progress
import Countdown.Proofs.Text.Character
import Countdown.Web.Request
import Countdown.Web.Server
set_option autoImplicit false

namespace Countdown

namespace Text

theorem utf8_ascii {c : Char} (h : c.toNat < 128) : c.toString.toUTF8.toList = [UInt8.ofNat c.toNat] := by
  have hsize : c.utf8Size = 1 := by
    rw [Char.utf8Size_eq_one_iff, UInt32.le_iff_toNat_le]
    exact Nat.le_of_lt_succ h
  have hbytes : c.toString.toUTF8 = [UInt8.ofNat c.toNat].toByteArray := by
    change (String.singleton c).toByteArray = _
    rw [String.toByteArray_singleton, List.utf8Encode_singleton, String.utf8EncodeChar_eq_singleton hsize]
    rfl
  have hlist : ∀ b : UInt8, [b].toByteArray.toList = [b] := by
    intro b
    simp [ByteArray.toList, ByteArray.toList.loop]
    rfl
  rw [hbytes, hlist]

theorem decodeUtf8_ascii {t : List Char} (h : ∀ c ∈ t, c.toNat < 128) :
    decodeUtf8 (t.map fun c => UInt8.ofNat c.toNat) = t := by
  unfold decodeUtf8
  induction t with
  | nil => rfl
  | cons c t ih =>
    have hc := h c List.mem_cons_self
    have hbyte : (UInt8.ofNat c.toNat).toNat = c.toNat := by
      rw [UInt8.toNat_ofNat']
      omega
    have hfirst : firstByte c.toNat = ([c],none) := by
      rw [firstByte, if_pos hc, Char.ofNat_toNat]
    simp only [List.map_cons, decodeFrom, hbyte, hfirst, ih fun d hd => h d (List.mem_cons_of_mem _ hd)]
    rfl

end Text

namespace Web

theorem unescapedBytes_ascii {t : List Char} (h : ∀ c ∈ t, c.toNat < 128 ∧ c ≠ '%') :
    unescapedBytes t = t.map fun c => UInt8.ofNat c.toNat := by
  induction t with
  | nil => rfl
  | cons c t ih =>
    obtain ⟨hc,hne⟩ := h c List.mem_cons_self
    have hbytes : unescapedBytes (c :: t) = c.toString.toUTF8.toList ++ unescapedBytes t := by
      rw [unescapedBytes]
      intro a b t' heq
      exact absurd heq hne
    rw [hbytes, Text.utf8_ascii hc, ih fun d hd => h d (List.mem_cons_of_mem _ hd)]
    rfl

theorem unescape_ascii {t : List Char} (h : ∀ c ∈ t, c.toNat < 128 ∧ c ≠ '%') : unescape t = t := by
  rw [unescape, unescapedBytes_ascii h, Text.decodeUtf8_ascii fun c hc => (h c hc).1]

theorem splitOn_ne_nil (mark : Char) (t : List Char) : splitOn mark t ≠ [] := by
  cases t with
  | nil => simp [splitOn]
  | cons c t =>
    unfold splitOn
    split
    · simp
    · split <;> simp

theorem splitOn_single {mark : Char} {part : List Char} (h : mark ∉ part) : splitOn mark part = [part] := by
  induction part with
  | nil => rfl
  | cons c part ih =>
    have hne : c ≠ mark := fun heq => h (by simp [heq])
    have hrest : mark ∉ part := fun hm => h (List.mem_cons_of_mem _ hm)
    simp [splitOn, ih hrest, hne]

theorem splitOn_append {mark : Char} {part : List Char} (h : mark ∉ part) (t : List Char) :
    splitOn mark (part ++ mark :: t) = part :: splitOn mark t := by
  induction part with
  | nil =>
    cases hs : splitOn mark t with
    | nil => exact absurd hs (splitOn_ne_nil mark t)
    | cons p ps => simp [splitOn, hs]
  | cons c part ih =>
    have hne : c ≠ mark := fun heq => h (by simp [heq])
    have hrest : mark ∉ part := fun hm => h (List.mem_cons_of_mem _ hm)
    simp [splitOn, ih hrest, hne]

variable {s : Server} {fuel k : Nat} {message : Json} {id name : String} {cs : List Command}

def controls : List String := ["start","pause","resume","stop","reset","next"]

def controlPath (id name : String) : List Char := ("/api/timers/" ++ id ++ "/" ++ name).toList

def asked? (id name : String) : Option (List Command) :=
  if name = "next" then some [.next (.id id)] else (action? name).map (Server.control id)

def messageWarnings : List Log := [.notAnObject,.unknownTimer,.unknownAction,.unknownMessage]

theorem text_of_messageWarnings {l : Log} (h : l ∈ messageWarnings) : ∃ t, l.text = "WARNING WebSocket: " ++ t := by
  simp only [messageWarnings, List.mem_cons, List.not_mem_nil, or_false] at h
  obtain rfl | rfl | rfl | rfl := h
  · exact ⟨"Ignoring non-object message",rfl⟩
  · exact ⟨"Unknown timer",rfl⟩
  · exact ⟨"Unknown timer action",rfl⟩
  · exact ⟨"Unknown message type",rfl⟩

theorem action?_eq_some {a : Action} (h : action? name = some a) : name ∈ controls ∧ a.isSafe = true := by
  unfold action? at h
  split at h <;> cases h <;> exact ⟨by simp [controls],rfl⟩

theorem asked?_isSome : (asked? id name).isSome = true ↔ name ∈ controls := by
  unfold asked?
  split
  · rename_i h
    simp [h, controls]
  · rename_i h
    rw [Option.isSome_map]
    constructor
    · intro hname
      obtain ⟨a,ha⟩ := Option.isSome_iff_exists.mp hname
      exact (action?_eq_some ha).1
    · intro hname
      simp only [controls, List.mem_cons, h, List.not_mem_nil, or_false] at hname
      obtain rfl | rfl | rfl | rfl | rfl := hname <;> rfl

theorem asked?_cases (h : asked? id name = some cs) : (name = "next" ∧ cs = [.next (.id id)]) ∨
    name ≠ "next" ∧ ∃ a, action? name = some a ∧ cs = Server.control id a := by
  unfold asked? at h
  split at h
  · rename_i hnext
    cases h
    exact .inl ⟨hnext,rfl⟩
  · rename_i hnext
    obtain ⟨a,ha,rfl⟩ := Option.map_eq_some_iff.mp h
    exact .inr ⟨hnext,a,ha,rfl⟩

theorem isSafe_asked (h : asked? id name = some cs) : ∀ c ∈ cs, c.isSafe = true := by
  obtain ⟨-,rfl⟩ | ⟨-,a,ha,rfl⟩ := asked?_cases h
  · simp [Command.isSafe]
  · simp [Server.control, Command.isSafe, (action?_eq_some ha).2]

theorem toList_idOf (k : Nat) : (Entry.idOf k).toList = 't' :: Text.digitsOf (k + 1) := by
  simp [Entry.idOf, Text.digitsOf, Nat.toString_eq_repr, Nat.toList_repr]

def isPlain (c : Char) : Bool := c.toNat < 128 && c != '%' && c != '/'

theorem isPlain_iff {c : Char} : isPlain c = true ↔ c.toNat < 128 ∧ c ≠ '%' ∧ c ≠ '/' := by
  simp [isPlain, and_assoc]

theorem isPlain_of_isAsciiDigit {c : Char} (h : Text.isAsciiDigit c = true) : isPlain c = true := by
  simp only [Text.isAsciiDigit, Bool.and_eq_true, decide_eq_true_eq, Char.le_def, UInt32.le_iff_toNat_le] at h
  refine isPlain_iff.mpr ⟨Nat.lt_of_le_of_lt h.2 (by decide),?_,?_⟩
  · rintro rfl
    exact absurd h.1 (by decide)
  · rintro rfl
    exact absurd h.1 (by decide)

theorem isPlain_idOf {c : Char} (h : c ∈ (Entry.idOf k).toList) : isPlain c = true := by
  rw [toList_idOf] at h
  obtain rfl | h := List.mem_cons.mp h
  · decide
  · exact isPlain_of_isAsciiDigit (Text.isAsciiDigit_of_mem_digitsOf h)

theorem isPlain_control (hname : name ∈ controls) {c : Char} (h : c ∈ name.toList) : isPlain c = true := by
  have hall : (controls.all fun n => n.toList.all isPlain) = true := by decide
  exact List.all_eq_true.mp (List.all_eq_true.mp hall name hname) c h

theorem controlPath_eq (id name : String) : controlPath id name =
    [] ++ '/' :: ("api".toList ++ '/' :: ("timers".toList ++ '/' :: (id.toList ++ '/' :: name.toList))) := by
  simp [controlPath]

/-- Nothing in the path of a request for an operation has to be escaped. -/
theorem unescape_controlPath (hname : name ∈ controls) :
    unescape (controlPath (Entry.idOf k) name) = controlPath (Entry.idOf k) name := by
  refine unescape_ascii fun c hc => ?_
  have hchar : c = '/' ∨ isPlain c = true := by
    have hfixed : ("/api/timers/".toList.all fun c => c == '/' || isPlain c) = true := by decide
    simp only [controlPath, String.toList_append, List.mem_append] at hc
    obtain ((hc | hc) | hc) | hc := hc
    · simpa using List.all_eq_true.mp hfixed c hc
    · exact .inr (isPlain_idOf hc)
    · exact .inl (by simpa using hc)
    · exact .inr (isPlain_control hname hc)
  obtain rfl | hplain := hchar
  · decide
  · exact ⟨(isPlain_iff.mp hplain).1,(isPlain_iff.mp hplain).2.1⟩

def controlled (id name : String) : Resource := if name = "next" then .next id else .control id name

theorem route_control {path : List Char} (hpath : unescape path = controlPath (Entry.idOf k) name)
    (hname : name ∈ controls) : route "POST" path = .found (controlled (Entry.idOf k) name) := by
  have hslash : isPlain '/' = false := by decide
  have hid : '/' ∉ (Entry.idOf k).toList := fun hm => by simp [isPlain_idOf hm] at hslash
  have hlast : '/' ∉ name.toList := fun hm => by simp [isPlain_control hname hm] at hslash
  have hparts : (splitOn '/' (controlPath (Entry.idOf k) name)).map String.ofList =
      ["","api","timers",Entry.idOf k,name] := by
    rw [controlPath_eq, splitOn_append (by decide), splitOn_append (by decide), splitOn_append (by decide),
      splitOn_append hid, splitOn_single hlast]
    simp
  have hne : Entry.idOf k ≠ "" := by
    intro h
    have hnil := congrArg String.toList h
    simp [toList_idOf] at hnil
  have hresources : resourcesAt (controlPath (Entry.idOf k) name) =
      if name = "next" then [("POST",.next (Entry.idOf k)),("POST",.control (Entry.idOf k) name)]
      else [("POST",.control (Entry.idOf k) name)] := by
    rw [resourcesAt, hparts]
    simp only [controls, List.mem_cons, List.not_mem_nil, or_false] at hname
    obtain rfl | rfl | rfl | rfl | rfl | rfl := hname <;> simp [resources, hne, offer, isNamed]
  simp only [route, hpath, hresources, controlled]
  by_cases hnext : name = "next"
  · simp [hnext]
  · simp [hnext]

namespace Server

/-- A request for an operation on a listed timer carries out the commands of the operation. -/
theorem handle_control {r : Request} (hmethod : r.method = "POST")
    (hpath : unescape r.path = controlPath (Entry.idOf k) name)
    (hlisted : s.world.find? (Entry.idOf k) = some k) (hasked : asked? (Entry.idOf k) name = some cs) :
    (s.handle fuel r).map Prod.fst = s.runAll fuel cs := by
  have hname : name ∈ controls := asked?_isSome.mp (Option.isSome_of_eq_some hasked)
  have hserve : s.serve fuel r = s.change fuel (Entry.idOf k) cs := by
    simp only [serve, hmethod, route_control hpath hname, controlled]
    obtain ⟨hnext,rfl⟩ | ⟨hnext,a,ha,rfl⟩ := asked?_cases hasked
    · simp [hnext, act]
    · simp [hnext, act, ha]
  rw [handle, hserve, change, hlisted]
  cases s.runAll fuel cs <;> rfl

/-- The message asks for an operation on a listed timer. -/
structure Asks (s : Server) (message : Json) (id name : String) : Prop where
  kind : message.get? "type" = some (.str "timer_action")
  timer : (message.get? "data").bind (·.get? "id") = some (.str id)
  operation : (message.get? "data").bind (·.get? "action") = some (.str name)
  listed : (s.world.find? id).isSome = true
  allowed : name ∈ controls

theorem interpret_of_asks (h : s.Asks message id name) :
    ∃ cs, asked? id name = some cs ∧ s.interpret message = .ok cs := by
  obtain ⟨cs,hcs⟩ := Option.isSome_iff_exists.mp (asked?_isSome.mpr h.allowed)
  refine ⟨cs,hcs,?_⟩
  obtain ⟨k,hk⟩ := Option.isSome_iff_exists.mp h.listed
  have hkind := h.kind
  have htimer := h.timer
  have hoperation := h.operation
  cases message with
  | obj fields =>
    obtain ⟨data,hdata,hid⟩ := Option.bind_eq_some_iff.mp htimer
    rw [hdata, Option.bind_some] at hoperation
    simp only [Json.get?] at hkind hdata
    obtain ⟨hnext,rfl⟩ | ⟨hnext,a,ha,rfl⟩ := asked?_cases hcs
    · simp [interpret, hkind, Validation.str?, hdata, hid, hk, hoperation, hnext]
    · simp [interpret, hkind, Validation.str?, hdata, hid, hk, hoperation, hnext, ha]
  | _ => contradiction

theorem of_str? {v : Option Json} {x : String} (h : v.bind Validation.str? = some x) : v = some (.str x) := by
  obtain ⟨v,rfl,hx⟩ := Option.bind_eq_some_iff.mp h
  cases v with
  | str y =>
    cases hx
    rfl
  | _ => contradiction

theorem asks_of_interpret (h : s.interpret message = .ok cs) :
    ∃ id name, s.Asks message id name ∧ asked? id name = some cs := by
  cases message with
  | obj fields =>
    simp only [interpret] at h
    split at h
    case isFalse => contradiction
    rename_i hkind
    split at h
    · contradiction
    rename_i id hid
    split at h
    · contradiction
    rename_i k hk
    split at h
    · contradiction
    rename_i name hname
    have hdata : ∀ {key x}, (((Json.field? fields "data").getD .null).get? key).bind Validation.str? = some x →
        ((Json.obj fields).get? "data").bind (·.get? key) = some (.str x) := by
      intro key x hx
      have hx := of_str? hx
      rw [Json.get?]
      cases hd : Json.field? fields "data" with
      | none =>
        rw [hd] at hx
        contradiction
      | some data =>
        rw [hd] at hx
        exact hx
    have hasked : asked? id name = some cs := by
      unfold asked?
      split at h
      · rename_i hnext
        cases h
        exact if_pos hnext
      · rename_i hnext
        rw [if_neg hnext]
        split at h
        · contradiction
        · rename_i a ha
          cases h
          rw [ha, Option.map_some]
    exact ⟨id,name,⟨of_str? hkind,hdata hid,hdata hname,Option.isSome_of_eq_some hk,
      asked?_isSome.mp (Option.isSome_of_eq_some hasked)⟩,hasked⟩
  | _ => contradiction

theorem warning_of_interpret {l : Log} (h : s.interpret message = .error l) : l ∈ messageWarnings := by
  cases message with
  | obj fields =>
    simp only [interpret] at h
    split at h
    case isFalse =>
      cases h
      decide
    split at h
    · cases h
      decide
    split at h
    · cases h
      decide
    split at h
    · cases h
      decide
    split at h
    · contradiction
    split at h
    · cases h
      decide
    · contradiction
  | _ =>
    cases h
    decide

theorem deliver_log (s : Server) (l : Log) : (s.log l).deliver s.world.journal.length = (s.log l,[]) := by
  have hnotes : (s.log l).world.journal.drop s.world.journal.length = [.logged l] := by
    change (s.world.journal ++ [Note.logged l]).drop s.world.journal.length = _
    simp
  have hmessage : (s.log l).messageOf? (.logged l) = none := rfl
  simp [deliver, hnotes, hmessage, broadcastAll]

open Session in
theorem settles_asked (h : s.session.Deck) {e : Entry} (he : s.world.entries[k]? = some e) (hl : e.listed = true)
    (hs : s.world.Steady e.timer) (hasked : asked? (Entry.idOf k) name = some cs) :
    ∃ s', Settles s.session (cs.map (.command none)) s' := by
  obtain ⟨-,rfl⟩ | ⟨-,a,ha,rfl⟩ := asked?_cases hasked
  · exact h.settles_next he hl hs
  · obtain ⟨s₁,h₁,hrest⟩ := h.settles_act he hl hs (action?_eq_some ha).2
    obtain ⟨s₂,hnotify⟩ := settles_notify h₁.callbacks (Entry.idOf k)
    have htask : s₁.task (.command none (.notify (.id (Entry.idOf k)))) =
        s₁.ok [.notify .state (Entry.idOf k)] .done := rfl
    exact ⟨s₂,hrest _ _ (.ok htask (hnotify _ _ (.nil _)))⟩

/-- Something that follows from a message fails, and no call ends with that. -/
def Raises (s : Server) (message : Json) : Prop :=
  ∃ cs, s.interpret message = .ok cs ∧ ∃ s' t rest,
    s.session.Follows (cs.map (.command none)) s' (t :: rest) ∧ s'.Escapes t rest

theorem not_raises (s : Server) (message : Json) : ¬ s.Raises message := by
  rintro ⟨cs,hcs,s',t,rest,hf,hescapes⟩
  obtain ⟨id,name,-,hasked⟩ := asks_of_interpret hcs
  exact Session.not_escapes (isSafe_asked hasked) hf hescapes

/-- A message comes to its end if scripts only look and no timer goes on to a duration that is over at once. -/
theorem receive_isSome (h : s.session.Deck)
    (hs : ∀ (k : Nat) (e : Entry), s.world.entries[k]? = some e → s.world.Steady e.timer) (message : Json) :
    ∃ n, ∀ fuel, n ≤ fuel → (s.receive fuel message).isSome = true := by
  cases hi : s.interpret message with
  | error l => exact ⟨0,fun fuel _ => by rw [receive, hi, Option.isSome_some]⟩
  | ok cs =>
    obtain ⟨id,name,hasks,hasked⟩ := asks_of_interpret hi
    obtain ⟨k,hk⟩ := Option.isSome_iff_exists.mp hasks.listed
    obtain ⟨rfl,e,he,hl⟩ := World.of_find? hk
    obtain ⟨s',hsettles⟩ := settles_asked h he hl (hs k e he) hasked
    obtain ⟨n,hn⟩ := hsettles.settle
    refine ⟨n,fun fuel hfuel => ?_⟩
    rw [receive, hi]
    simp [runAll, hn fuel hfuel]

/-- A message that asks for an operation does what the request for it does, step for step; any other message
is worth one warning and is told to nobody. None fails. -/
theorem receive_agrees (s : Server) (message : Json) :
    (∀ id name, s.Asks message id name → unescape (controlPath id name) = controlPath id name ∧
      ∀ (fuel : Nat) (r : Request), r.method = "POST" → unescape r.path = controlPath id name →
        (s.handle fuel r).map Prod.fst = s.receive fuel message) ∧
    ((∀ id name, ¬ s.Asks message id name) → ∃ l, (∃ t, l.text = "WARNING WebSocket: " ++ t) ∧
      (∀ fuel, s.receive fuel message = some (s.log l)) ∧
      (s.log l).deliver s.world.journal.length = (s.log l,[])) ∧
    ¬ s.Raises message ∧
    (s.session.Deck → (∀ (k : Nat) (e : Entry), s.world.entries[k]? = some e → s.world.Steady e.timer) →
      ∃ n, ∀ fuel, n ≤ fuel → (s.receive fuel message).isSome = true) := by
  refine ⟨fun id name hasks => ?_,fun hno => ?_,s.not_raises message,fun hdeck hs => receive_isSome hdeck hs message⟩
  · obtain ⟨cs,hasked,hinterpret⟩ := interpret_of_asks hasks
    obtain ⟨k,hk⟩ := Option.isSome_iff_exists.mp hasks.listed
    obtain ⟨rfl,-⟩ := World.of_find? hk
    refine ⟨unescape_controlPath hasks.allowed,fun fuel r hmethod hpath => ?_⟩
    rw [handle_control hmethod hpath hk hasked, receive, hinterpret]
  · cases hi : s.interpret message with
    | ok cs =>
      obtain ⟨id,name,hasks,-⟩ := asks_of_interpret hi
      exact absurd hasks (hno id name)
    | error l =>
      refine ⟨l,text_of_messageWarnings (warning_of_interpret hi),fun fuel => ?_,s.deliver_log l⟩
      rw [receive, hi]

open Sequence Session in
/-- A timer goes on to the next duration when it is asked to in either way. -/
theorem receive_agrees_next :
    let entry : Entry := ⟨0,"1s + 2s",some ⟨1,some 2000,[]⟩,true⟩
    let timer : Timer := { duration := 1000, listeners := [.entry 0] }
    let world : World := { line := { now := 1000 }, timers := [timer], entries := [entry], callbacks := [.observer] }
    let s : Server := { session := { world := world }, settings := .defaults, wall := ⟨0,by decide⟩, start := 0 }
    let message : Json := .obj [("type",.str "timer_action"),("data",.obj [("id",.str "t1"),("action",.str "next")])]
    let request : Request := { method := "POST", path := controlPath "t1" "next" }
    s.Asks message "t1" "next" ∧
    (∃ n, ∀ fuel, n ≤ fuel → ∃ s', s.receive fuel message = some s' ∧
      (s.handle fuel request).map Prod.fst = some s') ∧
    (s.receive 9 message).map (fun s => s.world.timers.map fun t => (t.duration,t.phase)) = some [(2000,.running)] ∧
    ∃ l, (∃ t, l.text = "WARNING WebSocket: " ++ t) ∧ s.receive 9 (.str "next") = some (s.log l) := by
  intro entry timer world s message request
  let s₀ : Session := { world := { line := { now := 1000 }, callbacks := [.observer] } }
  have hfresh : Reached s₀ [] := .fresh ⟨by simp [s₀],rfl,rfl,rfl,rfl,rfl⟩
  have hread : Run.read ":" "1s + 2s".toList = .ok (.append (.one 1000) (.one 2000)) := rfl
  have hcreate : s₀.world.create "1s + 2s" none =
      .ok (created s₀.world 1000 "1s + 2s" (Queue.past [.append (.one 1000) (.one 2000)] 1),0) :=
    create_eq (by decide) hread rfl (by decide)
  have hruns : s₀.Runs (.create "1s + 2s" none) s.session :=
    Settles.runs (r := .entry 0) (by simp only [perform, hcreate]; rfl) (.nil _)
  have hreached : Reached s.session [] := hfresh.runs (Command.sound_create _ _) hruns
  have hdeck : s.session.Deck := ⟨hreached.guarded,hreached.wired,by simp [s],by simp [s],by simp [s, world]⟩
  have hqueue : Queue.Positive ⟨1,some 2000,[]⟩ := ⟨by simp,by simp [Cursor.nth?]⟩
  have hsteady : ∀ (k : Nat) (e : Entry), s.world.entries[k]? = some e → s.world.Steady e.timer := by
    intro _ _ _ k e q he _ hq
    have hmem : e ∈ [entry] := List.mem_of_getElem? he
    obtain rfl := List.mem_singleton.mp hmem
    cases hq
    exact hqueue
  have hasks : s.Asks message "t1" "next" := ⟨rfl,rfl,rfl,rfl,by decide⟩
  obtain ⟨hagree,-,-,hends⟩ := receive_agrees s message
  obtain ⟨hpath,hsame⟩ := hagree "t1" "next" hasks
  obtain ⟨n,hn⟩ := hends hdeck hsteady
  obtain ⟨-,hother,-,-⟩ := receive_agrees s (.str "next")
  obtain ⟨l,hwarning,hlog,-⟩ := hother fun id name h => absurd h.kind (by simp [Json.get?])
  refine ⟨hasks,⟨n,fun fuel hfuel => ?_⟩,by decide +kernel,l,hwarning,hlog 9⟩
  obtain ⟨s',hs'⟩ := Option.isSome_iff_exists.mp (hn fuel hfuel)
  exact ⟨s',hs',(hsame fuel request rfl hpath).trans hs'⟩

end Server
end Web
end Countdown
