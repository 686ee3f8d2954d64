import CleanStack.Lib.Runs

/-!
# A connection that listens

`PgListener` keeps one `LISTEN` client and replaces it when it dies. What it
does is spread over callbacks: of the client it connects, which may fail at any
time, of a timer that connects again, and of a heartbeat. `listenerStep` runs one
of them, or a call of `start` or `stop`, in any order the environment likes.

Clients are numbered in the order they are made. A client is wired from then on
until its listeners are taken off it, and a notification is relayed by whoever
is wired and has completed its `LISTEN`.
-/

namespace CleanStack.Outbox

open CleanStack.Lib

def RECONNECT_BACKOFF_MS : Nat := 250
def RECONNECT_MAX_BACKOFF_MS : Nat := 15000

inductive ClientPhase
  | connecting
  | querying
  | listening
  | rejected
  deriving DecidableEq, Repr

structure PgListenClient where
  phase : ClientPhase
  wired : Bool
  disposed : Bool
  deriving DecidableEq, Repr

/-- `timers` are the reconnections that are due, `reconnectTimer` the one the
listener knows of; `heartbeat` is the client the interval queries, and
`heartbeats` are the clients of the queries that have not been answered. -/
structure ListenerState where
  clients : List PgListenClient
  listenClient : Option Nat
  timers : List Nat
  nextTimer : Nat
  reconnectTimer : Option Nat
  heartbeat : Option Nat
  heartbeats : List Nat
  everConnected : Bool
  stopping : Bool
  reconnectBackoff : Nat
  /-- How many times `onReconnect` was called. -/
  reconnects : Nat
  deriving DecidableEq

inductive ListenerEvent
  | start
  | stop
  | connected (c : Nat)
  | listened (c : Nat)
  /-- `connect` or `LISTEN` fails, however late. -/
  | rejected (c : Nat)
  | error (c : Nat)
  | ended (c : Nat)
  | beat
  /-- An unanswered heartbeat is answered, or fails. -/
  | beatAnswered (k : Nat) (failed : Bool)
  | fire (timer : Nat)

def newListener : ListenerState where
  clients := []
  listenClient := none
  timers := []
  nextTimer := 0
  reconnectTimer := none
  heartbeat := none
  heartbeats := []
  everConnected := false
  stopping := false
  reconnectBackoff := RECONNECT_BACKOFF_MS
  reconnects := 0

namespace ListenerState

variable (s : ListenerState)

def connect : ListenerState :=
  if s.stopping then s else { s with clients := s.clients ++ [⟨.connecting, true, false⟩] }

def dispose (c : Nat) (client : PgListenClient) : ListenerState :=
  if client.disposed then s
  else
    { s with
      clients := s.clients.set c { client with wired := false, disposed := true }
      listenClient := if s.listenClient = some c then none else s.listenClient
      heartbeat := if s.listenClient = some c then none else s.heartbeat }

def scheduleReconnect : ListenerState :=
  if s.stopping then s
  else if s.reconnectTimer.isSome then s
  else
    { s with
      reconnectBackoff := min (s.reconnectBackoff * 2) RECONNECT_MAX_BACKOFF_MS
      timers := s.nextTimer :: s.timers
      nextTimer := s.nextTimer + 1
      reconnectTimer := some s.nextTimer }

/-- The client becomes the one that listens, and its heartbeat replaces another. -/
def adopt (c : Nat) : ListenerState :=
  { s with
    listenClient := some c
    reconnectBackoff := RECONNECT_BACKOFF_MS
    heartbeat := some c
    reconnects := if s.everConnected then s.reconnects + 1 else s.reconnects
    everConnected := true }

/-- `stop`, up to the answer of the client it ends. -/
def stopped : ListenerState :=
  { s with
    stopping := true
    timers := s.timers.filter fun timer => some timer ≠ s.reconnectTimer
    reconnectTimer := none
    heartbeat := none
    listenClient := none
    clients := s.clients.mapIdx fun i client =>
      if s.listenClient = some i then { client with wired := false } else client }

end ListenerState

def listenerStep (s : ListenerState) : ListenerEvent → Option ListenerState
  | .start => some { s with stopping := false }.connect
  | .stop => some s.stopped
  | .connected c =>
      s.clients[c]?.bind fun client =>
        if client.phase = .connecting then
          some { s with clients := s.clients.set c { client with phase := .querying } }
        else none
  | .listened c =>
      s.clients[c]?.bind fun client =>
        if client.phase = .querying then
          let client := { client with phase := .listening }
          let s := { s with clients := s.clients.set c client }
          if client.disposed || s.stopping then some (s.dispose c client)
          else some (s.adopt c)
        else none
  | .rejected c =>
      s.clients[c]?.bind fun client =>
        if client.phase = .connecting || client.phase = .querying then
          let client := { client with phase := .rejected }
          let s := { s with clients := s.clients.set c client }
          some (s.dispose c client).scheduleReconnect
        else none
  | .error c =>
      s.clients[c]?.bind fun client =>
        if client.wired then some (s.dispose c client).scheduleReconnect else none
  | .ended c =>
      s.clients[c]?.bind fun client =>
        if client.wired then
          if s.stopping then some s else some (s.dispose c client).scheduleReconnect
        else none
  | .beat => s.heartbeat.map fun c => { s with heartbeats := s.heartbeats ++ [c] }
  | .beatAnswered k failed =>
      s.heartbeats[k]?.bind fun c =>
        s.clients[c]?.map fun client =>
          let s := { s with heartbeats := s.heartbeats.eraseIdx k }
          if failed && !client.disposed then (s.dispose c client).scheduleReconnect else s
  | .fire timer =>
      if timer ∈ s.timers then
        some { s with timers := s.timers.erase timer, reconnectTimer := none }.connect
      else none

/-! ## Who relays -/

def PgListenClient.relays (client : PgListenClient) : Bool :=
  client.wired && !client.disposed && client.phase = .listening

end CleanStack.Outbox
