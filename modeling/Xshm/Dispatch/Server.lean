import Mathlib.Data.List.Basic
import Xshm.System.Basic
import Xshm.Ring.Layout

/-!
# The threads of a dispatch server

`worker_loop`, the threads that wait for a client to connect to its channel, `server_worker` of
every channel with its `AutoProxyHandler`, the threads that drop a `DispatchedClient`, and
application threads that call `stop`, `disconnect_client` and the methods that only read, in any
order of their steps.  A method of the handler may take any time and may call `disconnect_client`
and the methods that read, so each thread has a stack of calls; the rest of a thread goes on while
its stack is empty.

What a client sends and when it comes and goes is left to the label, as is the outcome of every
wait.  `clients` is locked for writing only as long as one step takes, except while `worker_loop`
closes all channels, and while a client is dropped that an `insert` has replaced.  Channels are
numbered as their ids are taken; the id itself has 32 bits.  `send` passes on a message that no
property here speaks of, and is left out, as are the registration and the name of a client.
-/

namespace Xshm

namespace Dispatch

/-- The threads of a server. -/
inductive Thread (κ : Type*) where
  /-- `worker_loop`. -/
  | lobby
  /-- Waits for the client of channel `n`. -/
  | pending (n : ℕ)
  /-- `server_worker` of channel `n`. -/
  | channel (n : ℕ)
  /-- Drops the `DispatchedClient` of channel `n`. -/
  | dropper (n : ℕ)
  | app (a : κ)
  deriving DecidableEq

/-- The methods of the handler that are called for one client, without `on_error`. -/
inductive Event where
  | connect
  | message (p : Payload)
  | disconnect
  deriving DecidableEq

/-- A call in progress. -/
inductive Frame where
  /-- A method of the handler. -/
  | callback
  /-- `send_to`, `broadcast`, `client_count` and the other methods that lock `clients` for
  reading. -/
  | readClients
  /-- `disconnect_client`, about to remove the entry of the id. -/
  | disconnectClient (clientId : UInt32)
  | setDisconnected (clientId : UInt32) (n : ℕ)
  | stopServer (clientId : UInt32) (n : ℕ)
  | callDisconnect (clientId : UInt32) (n : ℕ)
  /-- The `AutoServer` is stopped and dropped. -/
  | abandon (n : ℕ)
  /-- `Drop for AutoServer`. -/
  | dropServer (n : ℕ)
  | join (n : ℕ)
  deriving DecidableEq

/-- Program points of `worker_loop`. -/
inductive Lobby where
  | head
  /-- `wait_for_client`, and `handle_lobby_client` up to the request. -/
  | accept
  | startServer (n : ℕ)
  | respond (n : ℕ)
  /-- `running` has been cleared: `clients` is about to be locked. -/
  | lock
  | drain
  | ended
  deriving DecidableEq

/-- Program points of the thread that waits for the client of a channel. -/
inductive Pending where
  | absent
  | poll
  | check (clientConnected : Bool)
  | insert
  /-- The entry of another client with that id has been replaced, and is dropped. -/
  | replaced
  | callConnect
  | ended
  deriving DecidableEq

/-- Program points of `server_worker`. -/
inductive ServerWorker where
  | absent
  | head (connected : Bool)
  | waitClient
  | onConnect
  | drainCommands (connected : Bool)
  | receive
  | callMessage (p : Payload)
  | waitAny
  /-- `on_disconnect`, about to look at `clients`. -/
  | onDisconnect
  /-- The client of channel `n` is to be dropped by a thread of its own. -/
  | spawnDrop (n : ℕ)
  | callDisconnect
  | marking
  | ended
  deriving DecidableEq

/-- Program points of `stop`. -/
inductive Stop where
  | idle
  | lockHandle
  | joinLobby
  | takePending
  | joinPending (ns : List ℕ)
  deriving DecidableEq

/-- An `AutoServer` with its worker, the thread that waits for its client, and what they share. -/
structure Channel where
  worker : ServerWorker := .absent
  /-- The field `running` of the `AutoServer`. -/
  running : Bool := true
  /-- A `Shutdown` is in the queue of commands. -/
  shutdown : Bool := false
  pending : Pending := .absent
  connectSignal : Bool := false
  /-- The field `disconnected` of the `DispatchedClient`. -/
  disconnected : Bool := false
  /-- Record: the worker has called `on_disconnect` since its last `on_connect`, and the call has
  looked at `clients`. -/
  reported : Bool := false
  deriving DecidableEq

/-- The id of the `n`-th channel. -/
def clientId (n : ℕ) : UInt32 := UInt32.ofNat n

structure State (κ : Type*) where
  running : Bool := true
  /-- `next_client_id`, not reduced to 32 bits. -/
  nextClientId : ℕ := 1
  /-- The channels of the clients in `clients`. -/
  clients : List ℕ := []
  /-- The thread that has locked `clients` for writing and holds it over several steps. -/
  lock : Option (Thread κ) := none
  lobby : Lobby := .head
  channel : ℕ → Channel := fun _ => {}
  stop : κ → Stop := fun _ => .idle
  /-- The thread that has locked `worker_handle`. -/
  handleLock : Option κ := none
  workerHandle : Bool := true
  pendingConnects : List ℕ := []
  stack : Thread κ → List Frame := fun _ => []
  /-- Record: a call of `stop` has returned. -/
  stopped : Bool := false
  /-- Record: the methods that have been called for an id, without `on_error`. -/
  calls : UInt32 → List Event := fun _ => []

/-- What a method of the handler does next. -/
inductive HandlerOutcome where
  | finish
  | readClients
  | disconnectClient (clientId : UInt32)
  deriving DecidableEq

/-- The outcome of whatever `worker_loop` does next. -/
inductive LobbyOutcome where
  | ok
  /-- No client, or no request from it in time. -/
  | nothing
  | error
  /-- The next client that is removed from `clients` at the end. -/
  | remove (n : ℕ)
  deriving DecidableEq

/-- The outcome of whatever the worker of a channel does next. -/
inductive WorkerOutcome where
  | ok
  | timeout
  | error
  /-- `process_send_queue` has reported an error. -/
  | sendError
  | message (p : Payload)
  | morePending
  | fatal
  | disconnect
  deriving DecidableEq

/-- The methods that an application thread calls. -/
inductive Request where
  | stop
  | readClients
  | disconnectClient (clientId : UInt32)
  deriving DecidableEq

/-- Who moves. -/
inductive Label (κ : Type*) where
  | lobby (o : LobbyOutcome)
  /-- `deadline` says that `channel_connect_timeout` has elapsed. -/
  | pending (n : ℕ) (deadline : Bool)
  | worker (n : ℕ) (o : WorkerOutcome)
  | call (a : κ) (r : Request)
  | stop (a : κ)
  /-- The last call on the stack of a thread goes on. -/
  | frame (t : Thread κ) (o : HandlerOutcome)
  deriving DecidableEq

namespace State

variable {κ : Type*} (s : State κ)

def setChannel (n : ℕ) (ch : Channel) : State κ :=
  { s with channel := Function.update s.channel n ch }

def setWorker (n : ℕ) (pc : ServerWorker) : State κ :=
  s.setChannel n { s.channel n with worker := pc }

def setPending (n : ℕ) (pc : Pending) : State κ :=
  s.setChannel n { s.channel n with pending := pc }

/-- `AutoServer::stop`. -/
def stopServer (n : ℕ) : State κ := s.setChannel n { s.channel n with shutdown := true }

def setStack [DecidableEq κ] (t : Thread κ) (fs : List Frame) : State κ :=
  { s with stack := Function.update s.stack t fs }

def setStop [DecidableEq κ] (a : κ) (pc : Stop) : State κ :=
  { s with stop := Function.update s.stop a pc }

/-- `on_disconnect` of channel `n` has looked at `clients`. -/
def report (n : ℕ) (pc : ServerWorker) : State κ :=
  s.setChannel n { s.channel n with worker := pc, reported := true }

theorem setChannel_channel_self (n : ℕ) (ch : Channel) : (s.setChannel n ch).channel n = ch :=
  Function.update_self ..

theorem setChannel_channel_of_ne {m n : ℕ} (h : m ≠ n) (ch : Channel) :
    (s.setChannel n ch).channel m = s.channel m :=
  Function.update_of_ne h ..

/-- A change of a channel is nothing to what it leaves as it is. -/
theorem setChannel_keeps {T : Type*} (f : Channel → T) {n : ℕ} {ch : Channel}
    (h : f ch = f (s.channel n)) (m : ℕ) : f ((s.setChannel n ch).channel m) = f (s.channel m) := by
  by_cases hm : m = n
  · subst hm
    rw [setChannel_channel_self, h]
  · rw [setChannel_channel_of_ne s hm]

theorem setStack_stack_self [DecidableEq κ] (t : Thread κ) (fs : List Frame) :
    (s.setStack t fs).stack t = fs :=
  Function.update_self ..

theorem setStack_stack_of_ne [DecidableEq κ] {t u : Thread κ} (h : u ≠ t) (fs : List Frame) :
    (s.setStack t fs).stack u = s.stack u :=
  Function.update_of_ne h ..

/-- Record: a method is called for an id. -/
def record (i : UInt32) (e : Event) : State κ :=
  { s with calls := Function.update s.calls i (s.calls i ++ [e]) }

/-- The entry of an id. -/
def find (i : UInt32) : Option ℕ := s.clients.find? fun n => clientId n = i

def erase (n : ℕ) : State κ := { s with clients := s.clients.erase n }

/-- The thread that waits for the client of channel `n` has ended. -/
def pendingFinished (n : ℕ) : Prop :=
  (s.channel n).pending = .ended ∧ s.stack (.pending n) = []

instance (n : ℕ) : Decidable (s.pendingFinished n) := inferInstanceAs (Decidable (_ ∧ _))

variable [DecidableEq κ]

/-- The next step of `worker_loop`. -/
def lobbyStep (o : LobbyOutcome) : Option (State κ) :=
  if s.stack .lobby ≠ [] then none
  else
    match s.lobby, o with
    | .head, _ => some { s with lobby := if s.running then .accept else .lock }
    | .accept, .ok =>
      some { s with nextClientId := s.nextClientId + 1, lobby := .startServer s.nextClientId }
    | .accept, .error => some ({ s with lobby := .head }.setStack .lobby [.callback])
    | .accept, _ => some { s with lobby := .head }
    | .startServer n, .ok =>
      some ({ s with lobby := .respond n }.setWorker n (.head false))
    | .startServer _, _ => some ({ s with lobby := .head }.setStack .lobby [.callback])
    | .respond n, .ok =>
      some ({ s with
        lobby := .head
        pendingConnects := s.pendingConnects.filter (fun m => ¬ s.pendingFinished m) ++ [n]
        }.setPending n .poll)
    | .respond n, _ => some ({ s with lobby := .head }.setStack .lobby [.callback, .abandon n])
    | .lock, _ =>
      if s.lock = none then some { s with lock := some .lobby, lobby := .drain } else none
    | .drain, .remove n =>
      if n ∈ s.clients then
        some ((s.erase n).setStack .lobby [.setDisconnected (clientId n) n])
      else none
    | .drain, _ => if s.clients = [] then some { s with lock := none, lobby := .ended } else none
    | .ended, _ => none

/-- The next step of the thread that waits for the client of channel `n`. -/
def pendingStep (n : ℕ) (deadline : Bool) : Option (State κ) :=
  let ch := s.channel n
  if s.stack (.pending n) ≠ [] then none
  else
    match ch.pending with
    | .absent => none
    | .poll =>
      if s.running = false ∨ deadline = true then some (s.setPending n (.check false))
      else if ch.connectSignal then some (s.setPending n (.check true))
      else some s
    | .check clientConnected =>
      if clientConnected = false ∨ s.running = false then
        some (((s.stopServer n).setPending n .ended).setStack (.pending n) [.abandon n])
      else some (s.setPending n .insert)
    | .insert =>
      if s.lock = none then
        match s.find (clientId n) with
        | none =>
          some ({ s with clients := n :: s.clients }.setChannel n
            { ch with disconnected := false, pending := .callConnect })
        | some m =>
          some ({ s with clients := n :: s.clients.erase m, lock := some (.pending n) }.setChannel n
            { ch with disconnected := false, pending := .replaced }
            |>.setStack (.pending n) [.dropServer m])
      else none
    | .replaced => some ({ s with lock := none }.setPending n .callConnect)
    | .callConnect =>
      some (((s.record (clientId n) .connect).setPending n .ended).setStack (.pending n)
        [.callback])
    | .ended => none

/-- The next step of the worker of channel `n`. -/
def workerStep (n : ℕ) (o : WorkerOutcome) : Option (State κ) :=
  let ch := s.channel n
  if s.stack (.channel n) ≠ [] then none
  else
    match ch.worker, o with
    | .absent, _ => none
    | .head connected, _ =>
      some (s.setWorker n
        (if ch.running = false then .ended
        else if connected then .drainCommands true
        else .waitClient))
    | .waitClient, .ok => some (s.setWorker n .onConnect)
    | .waitClient, .timeout => some (s.setWorker n (.drainCommands false))
    | .waitClient, _ =>
      some ((s.setWorker n (.drainCommands false)).setStack (.channel n) [.callback])
    | .onConnect, _ =>
      some (s.setChannel n
        { ch with connectSignal := true, reported := false, worker := .drainCommands true })
    | .drainCommands connected, _ =>
      some (s.setChannel n { ch with
        running := ch.running && !ch.shutdown
        shutdown := false
        worker := if connected then .receive else .head false })
    | .receive, .message p => some (s.setWorker n (.callMessage p))
    | .receive, .sendError => some (s.setStack (.channel n) [.callback])
    | .receive, .morePending => some (s.setWorker n (.head true))
    | .receive, .fatal => some ((s.setWorker n .onDisconnect).setStack (.channel n) [.callback])
    | .receive, .error => some ((s.setWorker n .waitAny).setStack (.channel n) [.callback])
    | .receive, _ => some (s.setWorker n .waitAny)
    | .callMessage p, _ =>
      some (((s.record (clientId n) (.message p)).setWorker n .receive).setStack (.channel n)
        [.callback])
    | .waitAny, .disconnect => some (s.setWorker n .onDisconnect)
    | .waitAny, .error => some ((s.setWorker n .onDisconnect).setStack (.channel n) [.callback])
    | .waitAny, _ => some (s.setWorker n (.head true))
    | .onDisconnect, _ =>
      if s.lock = none then
        match s.find (clientId n) with
        | some m =>
          -- the entry is removed if its flag can be set
          if (s.channel m).disconnected = false then
            some (((s.erase m).setChannel m { s.channel m with disconnected := true }).report n
              (.spawnDrop m))
          else some (s.report n .marking)
        | none => some (s.report n .marking)
      else none
    | .spawnDrop m, _ =>
      some ((s.setWorker n .callDisconnect).setStack (.dropper m) [.dropServer m])
    | .callDisconnect, _ =>
      some (((s.record (clientId n) .disconnect).setWorker n .marking).setStack (.channel n)
        [.callback])
    | .marking, _ => some (s.setWorker n (.head false))
    | .ended, _ => none

/-- The last call on the stack of thread `t` goes on. -/
def frameStep (t : Thread κ) (o : HandlerOutcome) : Option (State κ) :=
  match s.stack t with
  | [] => none
  | .callback :: fs =>
    match o with
    | .finish => some (s.setStack t fs)
    | .readClients => some (s.setStack t (.readClients :: .callback :: fs))
    | .disconnectClient i => some (s.setStack t (.disconnectClient i :: .callback :: fs))
  | .readClients :: fs => if s.lock = none then some (s.setStack t fs) else none
  | .disconnectClient i :: fs =>
    if s.lock = none then
      match s.find i with
      | none => some (s.setStack t fs)
      | some n => some ((s.erase n).setStack t (.setDisconnected i n :: fs))
    else none
  | .setDisconnected i n :: fs =>
    some ((s.setChannel n { s.channel n with disconnected := true }).setStack t
      (.stopServer i n :: fs))
  | .stopServer i n :: fs => some ((s.stopServer n).setStack t (.callDisconnect i n :: fs))
  | .callDisconnect i n :: fs =>
    some ((s.record i .disconnect).setStack t (.callback :: .dropServer n :: fs))
  | .abandon n :: fs => some ((s.stopServer n).setStack t (.dropServer n :: fs))
  | .dropServer n :: fs =>
    -- `join_unless_self`
    some ((s.setChannel n { s.channel n with running := false, shutdown := true }).setStack t
      (if t = .channel n then fs else .join n :: fs))
  | .join n :: fs => if (s.channel n).worker = .ended then some (s.setStack t fs) else none

/-- An application thread calls a method. -/
def callStep (a : κ) (r : Request) : Option (State κ) :=
  if s.stop a = .idle ∧ s.stack (.app a) = [] then
    match r with
    | .stop => some ({ s with running := false }.setStop a .lockHandle)
    | .readClients => some (s.setStack (.app a) [.readClients])
    | .disconnectClient i => some (s.setStack (.app a) [.disconnectClient i])
  else none

/-- The next step of an application thread in `stop`. -/
def stopStep (a : κ) : Option (State κ) :=
  match s.stop a with
  | .idle => none
  | .lockHandle =>
    if s.handleLock = none then
      if s.workerHandle then
        some ({ s with workerHandle := false, handleLock := some a }.setStop a .joinLobby)
      else some (s.setStop a .takePending)
    else none
  | .joinLobby =>
    if s.lobby = .ended then some ({ s with handleLock := none }.setStop a .takePending) else none
  | .takePending =>
    some ({ s with pendingConnects := [] }.setStop a (.joinPending s.pendingConnects))
  | .joinPending [] => some ({ s with stopped := true }.setStop a .idle)
  | .joinPending (n :: ns) =>
    if s.pendingFinished n then some (s.setStop a (.joinPending ns)) else none

/-- One step. -/
def step : Label κ → Option (State κ)
  | .lobby o => s.lobbyStep o
  | .pending n deadline => s.pendingStep n deadline
  | .worker n o => s.workerStep n o
  | .call a r => s.callStep a r
  | .stop a => s.stopStep a
  | .frame t o => s.frameStep t o

end State

/-- A dispatch server that has just been started. -/
def system (κ : Type*) [DecidableEq κ] : System (State κ) (Label κ) where
  init s := s = {}
  step s := s.step

end Dispatch

end Xshm
