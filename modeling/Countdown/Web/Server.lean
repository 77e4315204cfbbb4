import Countdown.Json.Value
import Countdown.Web.Request
import Countdown.Web.Status
set_option autoImplicit false

namespace Countdown.Web

structure Hub (α : Type) where
  clients : List α := []
  deriving DecidableEq, Repr

namespace Hub
variable {α : Type} [BEq α]

def connect (h : Hub α) (c : α) : Hub α := ⟨h.clients ++ [c]⟩

def disconnect (h : Hub α) (c : α) : Hub α := ⟨h.clients.erase c⟩

def reached (h : Hub α) (reaches : α → Bool) : List α := h.clients.filter reaches

def missed (h : Hub α) (reaches : α → Bool) : List α := h.clients.filter fun c => !reaches c

def dropAll (h : Hub α) (missed : List α) : Hub α := missed.foldl disconnect h

def broadcast (h : Hub α) (reaches : α → Bool) : Hub α := h.dropAll (h.missed reaches)

end Hub

open Calendar

/-- How far the life of a connection has come. One whose send has failed still takes the message
that it was waiting for. -/
inductive ConnectionState where
  | live
  | failing
  | ended
  deriving DecidableEq, Repr

structure Connection where
  name : String
  sends : Option Nat := none
  state : ConnectionState := .live
  deriving DecidableEq, Repr

structure Server where
  session : Session
  settings : Settings
  wall : DateTime
  start : Int
  hub : Hub Nat := {}
  /-- All connections there ever were; the hub knows them by their numbers. -/
  connections : List Connection := []
  attached : Bool := true

abbrev Delivery := String × String

abbrev Served := Server × List Delivery

inductive Body where
  | value (v : Json)
  | invalid (places : List (List String))
  | empty

structure Response where
  status : Nat
  body : Body

namespace Response

def ok (v : Json) : Response := ⟨200, .value v⟩

def detail (status : Nat) (text : String) : Response := ⟨status, .value (.obj [("detail", .str text)])⟩

def rejected : Rejected → Response
  | .invalid places => ⟨422, .invalid places⟩
  | .unreadable => detail 400 "There was an error parsing the body"

def unknownTimer (id : String) : Response := detail 404 s!"Timer '{id}' not found"

def moved : Response := ⟨307, .empty⟩

/-- The answer as it is sent for a method; a request that asks for the head alone gets no body. -/
def sentFor (x : Response) (method : String) : Response :=
  if method = "HEAD" then { x with body := .empty } else x

end Response

inductive Fault where
  | failure (f : Failure)
  | endTime (e : EndTimeError)

def Fault.ofStatus : StatusError → Fault
  | .outOfRange e => .endTime (.outOfRange e)
  | .unwritable => .failure .unwritable

abbrev Answer := Except Fault Response

namespace Server

def world (s : Server) : World := s.session.world

def timeAt (s : Server) (now : Int) : Except OutOfRange DateTime := s.wall.after (now - s.start)

def statusAt (s : Server) (now : Int) (v : View) : Except StatusError Json :=
  status s.settings (s.timeAt now) v

def statuses (s : Server) (entries : List Nat) : Except StatusError (List Json) :=
  (entries.filterMap s.world.view?).mapM (s.statusAt s.world.now)

def log (s : Server) (l : Log) : Server :=
  { s with session := s.session.withWorld (s.world.log l) }

def messageOf? (s : Server) : Note → Option (Except StatusError Message)
  | .observed .removed id _ _ => some (.ok (.removed id))
  | .observed .finished id _ (some _) => some (.ok (.finished id))
  | .observed .state _ now (some v) => some ((s.statusAt now v).map .state)
  | _ => none

def reaches (s : Server) (c : Nat) : Bool :=
  s.connections[c]?.any fun x => x.state == .live && x.sends != some 0

def setState (s : Server) (c : Nat) (x : ConnectionState) : Server :=
  { s with connections := s.connections.modify c fun y => { y with state := x } }

def spend (s : Server) (c : Nat) : Server :=
  { s with connections := s.connections.modify c fun y => { y with sends := y.sends.map (· - 1) } }

def nameOf (s : Server) (c : Nat) : String := (s.connections[c]?.map (·.name)).getD ""

def drop (s : Server) (c : Nat) : Server := (s.setState c .failing).log .clientDropped

/-- Sends a message to those who were connected when the delivery began. -/
def broadcast (s : Server) (clients : Hub Nat) (m : Message) : Served :=
  if !clients.clients.isEmpty && !m.isWritable then (s.log .broadcastFailed, []) else
  let reached := clients.reached s.reaches
  let missed := clients.missed s.reaches
  let after := missed.foldl drop (reached.foldl spend s)
  ({ after with hub := s.hub.dropAll missed }, reached.map fun c => (s.nameOf c, m.text))

/-- Sends messages in their order. All of them are under way at the same time, so each tries all
clients, also one that an earlier message has missed. -/
def broadcastAll (s : Server) (clients : Hub Nat) : List Message → Served
  | [] => (s, [])
  | m :: ms =>
    let (s, sent) := s.broadcast clients m
    let (s, more) := s.broadcastAll clients ms
    (s, sent ++ more)

def logFailed (s : Server) : Except StatusError Message → Server
  | .ok _ => s
  | .error _ => s.log .callbackFailed

/-- Delivers the broadcasts of the notes after the first `seen`. -/
def deliver (s : Server) (seen : Nat) : Served :=
  let messages := (s.world.journal.drop seen).filterMap s.messageOf?
  let s := messages.foldl logFailed s
  if s.attached then s.broadcastAll s.hub (messages.filterMap (·.toOption)) else (s, [])

def runAll (fuel : Nat) (s : Server) (cs : List Command) : Option Server :=
  (s.session.settle fuel (cs.map (.command none))).map fun session => { s with session := session }

def control (id : String) (a : Action) : List Command := [.act (.id id) a, .notify (.id id)]

def answer (s : Server) (code entry : Nat) : Answer :=
  match s.world.view? entry with
  | none => .ok ⟨code, .value .null⟩
  | some v => match s.statusAt s.world.now v with
    | .ok status => .ok ⟨code, .value status⟩
    | .error e => .error (.ofStatus e)

def answerAll (s : Server) (entries : List Nat) (f : List Json → Json) : Answer :=
  match s.statuses entries with
  | .ok statuses => .ok (.ok (f statuses))
  | .error e => .error (.ofStatus e)

abbrev Result := Option (Server × Answer)

def answered (s : Server) (r : Response) : Result := some (s, .ok r)

def change (fuel : Nat) (s : Server) (id : String) (cs : List Command) : Result :=
  match s.world.find? id with
  | none => s.answered (.unknownTimer id)
  | some k => (s.runAll fuel cs).map fun s => (s, s.answer 200 k)

/-- Answers a failed command: a fault of the input is the request's, any other the service's. -/
def refuse (s : Server) : Failure → Server × Answer
  | .sequence e =>
    if e.isInputFault then (s, .ok (.detail 422 e.message)) else (s, .error (.failure (.sequence e)))
  | f => (s, .error (.failure f))

def command (fuel : Nat) (s : Server) (c : Command) (reply : Server → Reply → Answer) : Result :=
  (s.session.run fuel c).map fun (session, r) =>
    let s := { s with session := session }
    match r with
    | .error f => s.refuse f
    | .ok r => (s, reply s r)

def formatted (q : FormatQuery) : Answer :=
  match Duration.clock q.range q.trim ":" q.ms, Duration.clockStrings q.range q.trim q.ms with
  | .ok clock, .ok strings =>
    let parts := Duration.Parts.ofMs q.ms
    .ok (.ok (.obj [("clock", .str clock),
      ("units", .obj (TimeUnit.all.reverse.map fun u => (u.name, .int (parts.get u)))),
      ("strings", .obj (strings.map fun x => (x.1.name, .str x.2)))]))
  | _, _ => .error (.failure .unwritable)

def parsed (s : Server) (input : String) : Server × Answer :=
  match Duration.read s.settings.separator input.toList with
  | .error e => s.refuse (.sequence (.duration e))
  | .ok ms => match Duration.clock s.settings.unitRange s.settings.autoTrim s.settings.separator ms with
    | .error _ => (s, .error (.failure .unwritable))
    | .ok clock => (s, .ok (.ok (.obj [("ms", .int ms), ("clock", .str clock)])))

def ending (s : Server) (ms : Int) : Answer :=
  match s.timeAt s.world.now with
  | .error e => .error (.endTime (.outOfRange e))
  | .ok now =>
    .ok (.ok (.obj [("end_time", .str (endLabel s.settings.timeFormat now ms).text)]))

def untilTime (s : Server) (input : String) : Answer :=
  match TimeOfDay.ofText input with
  | .error e => .ok (.detail 422 e.message)
  | .ok t => match (s.timeAt s.world.now).bind t.msFrom with
    | .error e => .error (.endTime (.outOfRange e))
    | .ok ms => .ok (.ok (.obj [("ms", .int ms)]))

def validated {α : Type} (s : Server) (x : Except Rejected α) (f : α → Result) : Result :=
  match x with
  | .error e => s.answered (.rejected e)
  | .ok a => f a

def entryReply (code : Nat) (s : Server) : Reply → Answer
  | .entry k => s.answer code k
  | _ => .ok ⟨code, .value .null⟩

def textReply (_ : Server) : Reply → Answer
  | .text t => .ok (.ok ((Json.read t).toOption.getD .null))
  | _ => .ok (.ok .null)

def importReply (s : Server) : Reply → Answer
  | .entries ks => s.answerAll ks fun statuses =>
      .obj [("imported", .int ks.length), ("timers", .arr statuses)]
  | _ => .ok (.ok .null)

def input (r : Request) (fallback : Option String) : Except Rejected String :=
  r.content.read "input" fallback Validation.str?

def act (fuel : Nat) (s : Server) (r : Request) : Resource → Result
  | .timers =>
    if r.method = "GET" then some (s, s.answerAll s.world.listed .arr)
    else s.validated (input r (some "")) fun text =>
      s.command fuel (.create text none) (entryReply 201)
  | .exporting => s.command fuel .exportAll textReply
  | .importing => s.validated (r.content.read "json_data" none Validation.str?) fun text =>
      s.command fuel (.importAll (some text)) importReply
  | .timer id => match s.world.find? id with
    | none => s.answered (.unknownTimer id)
    | some k =>
      if r.method = "GET" then some (s, s.answer 200 k)
      else s.command fuel (.remove (.id id)) fun _ _ =>
        .ok (.ok (.obj [("success", .bool true), ("id", .str id)]))
  | .input id => s.validated (input r none) fun text => match s.world.find? id with
    | none => s.answered (.unknownTimer id)
    | some _ => s.command fuel (.setInput (.id id) text) (entryReply 200)
  | .drift id => s.validated (r.content.read "ms" none Validation.int?) fun ms =>
      s.change fuel id (control id (.add (.int ms)))
  | .next id => s.change fuel id [.next (.id id)]
  | .control id name => match action? name with
    | none => s.answered (.rejected (.invalid [["path", "action"]]))
    | some a => s.change fuel id (control id a)
  | .parse => s.validated (input r none) fun text => some (s.parsed text)
  | .format => s.validated (FormatQuery.read r.query) fun q => some (s, formatted q)
  | .ending => s.validated (readQueryMs r.query) fun ms => some (s, s.ending ms)
  | .until => s.validated (input r none) fun text => some (s, s.untilTime text)
  | .manual => s.answered ⟨200, .empty⟩

def serve (fuel : Nat) (s : Server) (r : Request) : Result :=
  match route r.method r.path with
  | .unknown => s.answered (.detail 404 "Not Found")
  | .wrongMethod => s.answered (.detail 405 "Method Not Allowed")
  | .moved => s.answered .moved
  | .found resource => s.act fuel r resource

def written (x : Response) : Answer :=
  match x.body with
  | .value v => if v.isWritable then .ok x else .error (.failure .unwritable)
  | _ => .ok x

def handle (fuel : Nat) (s : Server) (r : Request) : Result :=
  (s.serve fuel r).map fun (s, x) => (s, (x.bind written).map (·.sentFor r.method))

def allowedOrigin (r : Request) : Option String := r.origin.filter isLocal

/-- The commands that a message from a client stands for, or the warning that it deserves. -/
def interpret (s : Server) (message : Json) : Except Log (List Command) :=
  match message with
  | .obj fields =>
    if (Json.field? fields "type").bind Validation.str? = some "timer_action" then
      let data := (Json.field? fields "data").getD .null
      match (data.get? "id").bind Validation.str? with
      | none => .error .unknownTimer
      | some id => match s.world.find? id with
        | none => .error .unknownTimer
        | some _ => match (data.get? "action").bind Validation.str? with
          | none => .error .unknownAction
          | some name =>
            if name = "next" then .ok [.next (.id id)]
            else match action? name with
              | none => .error .unknownAction
              | some a => .ok (control id a)
    else .error .unknownMessage
  | _ => .error .notAnObject

def receive (fuel : Nat) (s : Server) (message : Json) : Option Server :=
  match s.interpret message with
  | .error l => some (s.log l)
  | .ok cs => s.runAll fuel cs

def finish (s : Server) (c : Nat) : Server :=
  { s.setState c .ended with hub := s.hub.disconnect c }

def abort (s : Server) (c : Nat) : Server := (s.log .connectionFailed).finish c

def welcome (s : Server) (c : Nat) : Served :=
  match s.statuses s.world.listed with
  | .error _ => (s.abort c, [])
  | .ok statuses =>
    let m := Message.timers statuses
    if !m.isWritable then (s.log .clientNotReached, [])
    else if s.reaches c then (s.spend c, [(s.nameOf c, m.text)])
    else ((s.log .clientNotReached).abort c, [])

def connect (s : Server) (name : String) (sends : Option Nat) : Served :=
  let c := s.connections.length
  welcome { s with connections := s.connections ++ [⟨name, sends, .live⟩], hub := s.hub.connect c } c

def connection? (s : Server) (name : String) : Option (Nat × ConnectionState) :=
  match (List.range s.connections.length).reverse.find? fun c => s.nameOf c == name with
  | none => none
  | some c => match s.connections[c]? with
    | some x => if x.state = .ended then none else some (c, x.state)
    | none => none

def disconnect (s : Server) (name : String) : Server :=
  match s.connection? name with
  | none => s
  | some (c, _) => s.finish c

def breakOff (s : Server) (name : String) : Server :=
  match s.connection? name with
  | none => s
  | some (c, _) =>
    { s with connections := s.connections.modify c fun x => { x with sends := some 0 } }

/-- A client sends a text. One that is no JSON ends the connection, and so does any text if a send
to the client has failed. -/
def hear (fuel : Nat) (s : Server) (name text : String) : Option Server :=
  match s.connection? name with
  | none => some s
  | some (c, state) => match Json.read text with
    | .error _ => some (s.abort c)
    | .ok message => (s.receive fuel message).map fun s =>
      if state = .failing then s.abort c else s

def tell (s : Server) (event id : String) : Except StatusError Server :=
  match Event.ofName? event with
  | none => .ok s
  | some e =>
    let told := { s with session := (s.session.tell .observer e id).1 }
    match told.world.journal.getLast?.bind told.messageOf? with
    | some (.error f) => .error f
    | _ => .ok told

end Server

open Validation

def textField (v : Json) (name : String) : String := ((v.get? name).bind str?).getD ""

def queryOf? (v : Json) : Option (List (String × String)) :=
  match v.get? "query" with
  | some (.obj fields) => some (fields.map fun f => (f.1, (str? f.2).getD ""))
  | _ => none

/-- A request with a JSON value as its `body`, or with any text under `raw`. A `query` replaces the
query in the path. -/
def Request.ofJson (v : Json) : Request :=
  let target := Target.read (textField v "path")
  let content := match v.get? "body" with
    | some body => some body.text
    | none => (v.get? "raw").bind str?
  { method := (textField v "method").toUpper
    path := target.path
    query := ((queryOf? v).or target.query).getD []
    content := content.map fun text => text.toUTF8.toList
    origin := (v.get? "origin").bind str? }

def Body.json : Body → Json
  | .value v => v
  | .invalid places => .obj [("invalid", .arr (places.map fun p => .arr (p.map .str)))]
  | .empty => .null

def Response.json (x : Response) (r : Request) : Json :=
  .obj ([("status", .int x.status), ("body", x.body.json)] ++
    match r.origin with
    | none => []
    | some _ => [("allow_origin", Json.ofOption .str (Server.allowedOrigin r))])

end Countdown.Web
