import Mathlib.Data.Finset.Basic
import WarpPipe.ClientCore
import WarpPipe.Library.Keyed

/-!
The server of `src/server.c`: its socket, the list of its clients and the select loop. A function
takes the state of the whole process and returns the next one; how the calls into the kernel and
the allocator turn out is given to it.
-/

namespace WarpPipe

open ByteLayout

/-- `struct warppipe_client_node` with the client it points to. `ptr` is the address of that
client, which is how the application names it; `sock` is its end of the connection. -/
structure ClientNode where
  ptr : Nat
  client : Client
  sock : Socket

structure Server where
  fd : Int
  listen : Bool
  quit : Bool
  maxFd : Int
  readFds : Finset Int
  clients : List ClientNode
  acceptCb : Option FnPtr

inductive ServerEvent where
  | close (fd : Int) (wasOpen : Bool)
  | clientRead (ptr : Nat) (fd : Int)
  deriving DecidableEq

/-- What a callback leaves behind: each request it made, with the client it was made of. -/
structure AppReturn (σ : Type) where
  app : σ
  calls : List (Nat × Call)

structure AppReadReturn (σ : Type) where
  app : σ
  error : Int
  data : Bytes
  calls : List (Nat × Call)

structure Application (σ : Type) where
  accept : FnPtr → σ → Nat → AppReturn σ
  read : FnPtr → σ → Nat → BitVec 64 → Int → AppReadReturn σ
  write : FnPtr → σ → Nat → BitVec 64 → Bytes → Int → AppReturn σ
  completion : FnPtr → σ → Nat → Int → Bytes → Int → AppReturn σ

structure Process (σ : Type) where
  openFds : Finset Int
  server : Server
  app : σ
  events : List ServerEvent

section

variable {σ : Type}

def ClientNode.world {τ : Type} (node : ClientNode) (app : τ) : World τ where
  client := node.client
  sock := node.sock
  app := app
  log := []

def ClientNode.update {τ : Type} (node : ClientNode) (world : World τ) : ClientNode :=
  { node with client := world.client, sock := world.sock }

def findAt (clients : List ClientNode) (ptr : Nat) : Option ClientNode :=
  Keyed.find ClientNode.ptr clients ptr

def updateAt {τ : Type} (clients : List ClientNode) (ptr : Nat) (world : World τ) :
    List ClientNode :=
  Keyed.update ClientNode.ptr clients ptr fun node => node.update world

/-- A request made of the client at `ptr`. There is none once it is freed. -/
def callOn (clients : List ClientNode) (ptr : Nat) (call : Call) : Outcome (List ClientNode) :=
  match findAt clients ptr with
  | none => .error .outOfBounds
  | some node =>
    match call.run (node.world ()) with
    | .ok (_, world) => .ok (updateAt clients ptr world)
    | .error fault => .error fault

def callsOn (clients : List ClientNode) : List (Nat × Call) → Outcome (List ClientNode)
  | [] => .ok clients
  | (ptr, call) :: rest =>
    match callOn clients ptr call with
    | .ok clients => callsOn clients rest
    | .error fault => .error fault

structure Shared (σ : Type) where
  app : σ
  self : Nat
  clients : Outcome (List ClientNode)

def Shared.after (shared : Shared σ) (app : σ) (calls : List (Nat × Call)) : Shared σ where
  app := app
  self := shared.self
  clients := shared.clients.bind fun clients =>
    callsOn clients (calls.filter fun call => call.1 ≠ shared.self)

def ownCalls (self : Nat) (calls : List (Nat × Call)) : List Call :=
  (calls.filter fun call => call.1 = self).map Prod.snd

/-- The callbacks as the client sees them: its own requests are made of it, the others of the
clients beside it. -/
def Application.callbacks (application : Application σ) : Callbacks (Shared σ) where
  read cb shared addr length :=
    let ret := application.read cb shared.app shared.self addr length
    { app := shared.after ret.app ret.calls, error := ret.error, data := ret.data
      calls := ownCalls shared.self ret.calls }
  write cb shared addr data length :=
    let ret := application.write cb shared.app shared.self addr data length
    { app := shared.after ret.app ret.calls, calls := ownCalls shared.self ret.calls }
  completion cb shared errorCode data length :=
    let ret := application.completion cb shared.app shared.self errorCode data length
    { app := shared.after ret.app ret.calls, calls := ownCalls shared.self ret.calls }

def Process.shared (process : Process σ) (self : Nat) : Shared σ where
  app := process.app
  self := self
  clients := .ok process.server.clients

def clientReadAt (application : Application σ) (process : Process σ) (node : ClientNode) :
    Outcome (Process σ) := do
  let world ← warppipeClientRead application.callbacks (node.world (process.shared node.ptr))
  let clients ← world.app.clients
  return { process with
    server := { process.server with clients := updateAt clients node.ptr world }
    app := world.app.app
    events := process.events ++ [.clientRead node.ptr node.client.fd] }

def Process.openFd (process : Process σ) (fd : Int) : Process σ :=
  { process with openFds := insert fd process.openFds }

def Process.closeFd (process : Process σ) (fd : Int) : Process σ :=
  { process with
    openFds := process.openFds.erase fd
    events := process.events ++ [.close fd (decide (fd ∈ process.openFds))] }

def trackMaxFd (server : Server) (newFd : Int) : Server :=
  { server with maxFd := if server.maxFd < newFd then newFd else server.maxFd }

def shouldDisconnectClient (node : ClientNode) : Bool := !node.client.active

def disconnectClient (process : Process σ) (node : ClientNode) : Process σ :=
  let process := process.closeFd node.client.fd
  { process with server := { process.server with
    clients := Keyed.remove ClientNode.ptr process.server.clients node.ptr
    quit := if process.server.listen then process.server.quit else true } }

/-- A condition that is NULL holds of every client. -/
def meets (condition : Option (ClientNode → Bool)) (node : ClientNode) : Bool :=
  condition.all fun holds => holds node

def warppipeServerDisconnectClients (process : Process σ) (condition : Option (ClientNode → Bool)) :
    Process σ :=
  process.server.clients.foldl
    (fun process node => if meets condition node then disconnectClient process node else process)
      process

def fdSetSize : Int := 1024

/-- `FD_SET` and `FD_ISSET` of other descriptors reach behind the `fd_set`, into the client list. -/
def InFdSet (fd : Int) : Prop := 0 ≤ fd ∧ fd < fdSetSize

instance (fd : Int) : Decidable (InFdSet fd) := inferInstanceAs (Decidable (_ ∧ _))

def serverRead (application : Application σ) (process : Process σ) : List Nat → Outcome (Process σ)
  | [] => .ok process
  | ptr :: rest =>
    match findAt process.server.clients ptr with
    | none => serverRead application process rest
    | some node =>
      if InFdSet node.client.fd then
        if node.client.fd ∈ process.server.readFds then
          match clientReadAt application process node with
          | .ok process => serverRead application process rest
          | .error fault => .error fault
        else serverRead application process rest
      else .error .outOfBounds

/-- How the calls that `server_accept` makes turn out: `accept`, `getnameinfo`, the two allocations
(the first with the address and the old contents of its block), and the connection. -/
structure AcceptEnv where
  fd : Int
  named : Bool
  client : Option (Nat × Client)
  node : Bool
  sock : Socket

def insertClient (application : Application σ) (process : Process σ) (fd : Int) (env : AcceptEnv) :
    Outcome (Int × Process σ) :=
  match env.client with
  | none => .ok (-1, process)
  | some (ptr, memory) =>
    if env.node then do
      let node : ClientNode :=
        { ptr := ptr, client := warppipeClientCreate memory fd, sock := env.sock }
      let server := { process.server with clients := process.server.clients ++ [node] }
      let process ←
        match server.acceptCb with
        | none => pure { process with server := server }
        | some cb => do
          let ret := application.accept cb process.app ptr
          let clients ← callsOn server.clients ret.calls
          pure { process with server := { server with clients := clients }, app := ret.app }
      return (0, { process with server := trackMaxFd process.server fd })
    else .ok (-1, process)

def serverAccept (application : Application σ) (process : Process σ) (env : AcceptEnv) :
    Outcome (Int × Process σ) :=
  if process.server.listen then
    if env.fd = -1 then .ok (-1, process)
    else
      let process := process.openFd env.fd
      if env.named then insertClient application process env.fd env else .ok (-1, process)
  else if process.server.clients.isEmpty then insertClient application process process.server.fd env
  else .ok (-1, process)

def warppipeServerRegisterAcceptCb (process : Process σ) (acceptCb : Option FnPtr) : Process σ :=
  { process with server := { process.server with acceptCb := acceptCb } }

inductive AddrStep where
  | noSocket
  /-- An option could not be set, or the bound socket could not be used. -/
  | failed (fd : Int)
  /-- `bind` or `connect` failed. -/
  | refused (fd : Int)
  | bound (fd : Int)
  deriving DecidableEq

/-- The loop over the addresses. None: `warppipe_server_create` gives up. -/
def setUpSocket (process : Process σ) : List AddrStep → Option Int × Process σ
  | [] => (none, process)
  | .noSocket :: rest => setUpSocket process rest
  | .failed fd :: _ => (none, process.openFd fd)
  | .refused fd :: rest => setUpSocket ((process.openFd fd).closeFd fd) rest
  | .bound fd :: _ => (some fd, process.openFd fd)

def Process.serveOn (process : Process σ) (sfd : Int) : Process σ :=
  { process with server := { process.server with maxFd := sfd, fd := sfd, clients := [] } }

/-- `addresses` is none when `getaddrinfo` fails. -/
def warppipeServerCreate (application : Application σ) (process : Process σ)
    (addresses : Option (List AddrStep)) (env : AcceptEnv) : Outcome (Int × Process σ) :=
  match addresses with
  | none => .ok (-1, process)
  | some steps =>
    match setUpSocket process steps with
    | (none, process) => .ok (-1, process)
    | (some sfd, process) => do
      let process ←
        if process.server.listen then pure (process.serveOn sfd)
        else (serverAccept application (process.serveOn sfd) env).map Prod.snd
      return (0, process)

inductive SelectResult where
  | failed
  | ready (fds : Finset Int)

def SelectResult.apply (requested : Finset Int) : SelectResult → Finset Int
  | .failed => requested
  | .ready fds => requested ∩ fds

structure LoopEnv where
  select : SelectResult
  accept : AcceptEnv

def requestedFds (server : Server) : Finset Int :=
  insert server.fd (server.clients.map fun node => node.client.fd).toFinset

def Server.FdsFit (server : Server) : Prop := ∀ fd ∈ requestedFds server, InFdSet fd

instance (server : Server) : Decidable server.FdsFit :=
  inferInstanceAs (Decidable (∀ fd ∈ requestedFds server, InFdSet fd))

def Process.selected (process : Process σ) (result : SelectResult) : Process σ :=
  { process with server :=
    { process.server with readFds := result.apply (requestedFds process.server) } }

def loopAfterSelect (application : Application σ) (process : Process σ) (accept : AcceptEnv) :
    Outcome (Process σ) := do
  let process ←
    if process.server.fd ∈ process.server.readFds then
      (serverAccept application process accept).map Prod.snd
    else pure process
  let process ← serverRead application process (process.server.clients.map ClientNode.ptr)
  return warppipeServerDisconnectClients process (some shouldDisconnectClient)

def warppipeServerLoop (application : Application σ) (process : Process σ) (env : LoopEnv) :
    Outcome (Process σ) :=
  if process.server.FdsFit then
    loopAfterSelect application (process.selected env.select) env.accept
  else .error .outOfBounds

end

end WarpPipe
