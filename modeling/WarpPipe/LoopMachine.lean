import WarpPipe.SharedMemory
import WarpPipe.StateView

/-!
Hosts and the process of the mock that serves them from `warppipe_server_loop`. One call of the loop
reads from every client that `select` reports, in the order of the list; to the hosts that is as
many turns of the device.
-/

namespace WarpPipe

open ByteLayout

variable {σ ρ α : Type} {n : Nat}

structure Guest (σ α : Type) where
  world : World σ
  quit : Bool
  program : Program σ α

def Guest.arrive (guest : Guest σ α) (arrived : Bytes) : Guest σ α :=
  { guest with world := guest.world.arrive arrived }

def Guest.loop (cbs : Callbacks σ) (guest : Guest σ α) : Outcome (Guest σ α × Bytes) :=
  (warppipeClientRead cbs guest.world).map fun after =>
    ({ guest with world := after, quit := guest.quit || !after.client.active },
      transferred guest.world after)

def Guest.step (cbs : Callbacks σ) (guest : Guest σ α) : Outcome (Guest σ α × Bytes) :=
  match guest.program with
  | .done _ => if guest.quit then .ok (guest, []) else guest.loop cbs
  | .change update next =>
    .ok ({ guest with
          world := { guest.world with app := update guest.world.app }
          program := next guest.world.app }, [])
  | .call request next =>
    if guest.quit then .error .outOfBounds
    else (request.run guest.world).map fun (code, after) =>
      ({ guest with world := after, program := next code }, transferred guest.world after)
  | .wait met leave next =>
    if met guest.world.app ∨ guest.quit then
      .ok ({ guest with world := { guest.world with app := leave guest.world.app }
                        program := next guest.quit guest.world.app }, [])
    else guest.loop cbs

def serverSent (application : Application σ) (process : Process σ) : List Nat → List (Nat × Bytes)
  | [] => []
  | ptr :: rest =>
    match findAt process.server.clients ptr with
    | none => serverSent application process rest
    | some node =>
      if node.client.fd ∈ process.server.readFds then
        let world := node.world (process.shared node.ptr)
        match warppipeClientRead application.callbacks world,
            clientReadAt application process node with
        | .ok after, .ok process =>
            (ptr, transferred world after) :: serverSent application process rest
        | _, _ => []
      else serverSent application process rest

def sentTo (sent : List (Nat × Bytes)) (ptr : Nat) : Bytes :=
  (sent.filter fun entry => entry.1 = ptr).flatMap Prod.snd

structure Machine (n : Nat) (σ ρ α : Type) where
  process : Process σ
  guest : Fin n → Guest ρ α

inductive MachineMove (n : Nat) where
  | host (i : Fin n)
  /-- `warppipe_server_loop` once the bytes for these descriptors have come. -/
  | loop (heard : Finset Int)

/-- What `select` reports. The sockets that `accept` returns are blocking, so that a read from
another client would not return. -/
def Process.readable (process : Process σ) (heard : Finset Int) : Finset Int :=
  heard.filter fun fd => ∃ node ∈ process.server.clients, node.client.fd = fd ∧
  node.sock.incoming ≠ []

def nobody : AcceptEnv where
  fd := -1
  named := false
  client := none
  node := false
  sock := ⟨[], [], []⟩

def Machine.hostMoved (machine : Machine n σ ρ α) (ptr : Nat) (i : Fin n) (guest : Guest ρ α)
    (sent : Bytes) :
    Machine n σ ρ α where
  process := machine.process.withClients
      (Keyed.update ClientNode.ptr machine.process.server.clients ptr fun node =>
    { node with sock := { node.sock with incoming := node.sock.incoming ++ sent } })
  guest := Function.update machine.guest i guest

def Machine.looped (machine : Machine n σ ρ α) (application : Application σ) (ptrs : Fin n → Nat)
    (select : SelectResult) (next : Process σ) : Machine n σ ρ α where
  process := next
  guest i :=
    let selected := machine.process.selected select
    (machine.guest i).arrive
      (sentTo (serverSent application selected (selected.server.clients.map ClientNode.ptr))
        (ptrs i))

def machineStep (application : Application σ) (host : Callbacks ρ) (ptrs : Fin n → Nat)
    (machine : Machine n σ ρ α) :
    MachineMove n → Outcome (Machine n σ ρ α)
  | .host i =>
      ((machine.guest i).step host).map fun (guest, sent) => machine.hostMoved (ptrs i) i guest sent
  | .loop heard =>
    let select := .ready (machine.process.readable heard)
    (warppipeServerLoop application machine.process ⟨select, nobody⟩).map
      (machine.looped application ptrs select)

/-- The callbacks for the client at `self`, with a record of the requests that are made of other
clients. -/
def Application.recording (application : Application σ) (self : Nat) :
    Callbacks (σ × List (Nat × Call)) where
  read cb state addr length :=
    let ret := application.read cb state.1 self addr length
    { app := (ret.app, state.2 ++ ret.calls.filter fun call => call.1 ≠ self)
      error := ret.error
      data := ret.data
      calls := ownCalls self ret.calls }
  write cb state addr data length :=
    let ret := application.write cb state.1 self addr data length
    { app := (ret.app, state.2 ++ ret.calls.filter fun call => call.1 ≠ self)
      calls := ownCalls self ret.calls }
  completion cb state errorCode data length :=
    let ret := application.completion cb state.1 self errorCode data length
    { app := (ret.app, state.2 ++ ret.calls.filter fun call => call.1 ≠ self)
      calls := ownCalls self ret.calls }

def recordedAmong (clients : List ClientNode) (self : Nat) (state : σ × List (Nat × Call)) :
    Shared σ :=
  ⟨state.1, self, callsOn clients state.2⟩

theorem callsOn_append (clients : List ClientNode) (first second : List (Nat × Call)) :
    callsOn clients (first ++ second) = (callsOn clients first).bind fun clients =>
      callsOn clients second := by
  induction first generalizing clients with
  | nil => rfl
  | cons entry rest ih =>
      simp only [List.cons_append, callsOn]
      cases callOn clients entry.1 entry.2 with
      | error fault => rfl
      | ok next => exact ih next

theorem callsOn_nobody {calls : List (Nat × Call)} {left : List ClientNode}
    (ok : callsOn [] calls = .ok left) :
    calls = [] := by
  cases calls with
  | nil => rfl
  | cons entry rest => cases ok

theorem recording_through (application : Application σ) (self : Nat) (clients : List ClientNode) :
    (application.recording self).Through (recordedAmong clients self) application.callbacks := by
  constructor
  · intro cb state addr length
    simp only [Application.callbacks, Application.recording, recordedAmong, Shared.after,
      callsOn_append]
  · intro cb state addr data length
    simp only [Application.callbacks, Application.recording, recordedAmong, Shared.after,
      callsOn_append]
  · intro cb state errorCode data length
    simp only [Application.callbacks, Application.recording, recordedAmong, Shared.after,
      callsOn_append]

theorem callbacksAt_through (application : Application σ) (self : Nat) :
    (application.callbacksAt self).Through (fun shared => { shared with self := self })
      application.callbacks := by
  constructor
  · intro cb shared addr length
    rfl
  · intro cb shared addr data length
    rfl
  · intro cb shared errorCode data length
    rfl

/-- A turn in which nothing is asked of other clients goes the same way whoever they are. -/
theorem clientRead_among {application : Application σ} {self : Nat} {device : Shared σ}
    {node : ClientNode} {earlier : List Event} {after : World (Shared σ)}
    (alone : device.clients = .ok [])
    (ran : warppipeClientRead (application.callbacksAt self)
      ⟨node.client, node.sock, device, earlier⟩ = .ok after) (still : after.app.clients = .ok [])
    (clients : List ClientNode) :
    ∃ world, warppipeClientRead application.callbacks
        (node.world ⟨device.app, self, .ok clients⟩) = .ok world ∧
      world.client = after.client ∧ world.sock = after.sock ∧
      world.app = ⟨after.app.app, self, .ok clients⟩ ∧ after.log = earlier ++ world.log := by
  have start : (node.world (device.app, [])).seen (recordedAmong [] self) earlier =
      World.seen (fun shared => { shared with self := self }) []
        ⟨node.client, node.sock, device, earlier⟩ := by
    simp only [World.seen, ClientNode.world, recordedAmong, callsOn, alone, List.append_nil,
      List.nil_append]
  have told := clientRead_seen [] (callbacksAt_through application self)
    ⟨node.client, node.sock, device, earlier⟩
  rw [← start, clientRead_seen earlier (recording_through application self []), ran] at told
  cases recorded : warppipeClientRead (application.recording self) (node.world (device.app, []))
      with
  | error fault =>
      rw [recorded] at told
      cases told
  | ok record =>
      rw [recorded] at told
      simp only [Except.map, Except.ok.injEq, World.seen, World.mk.injEq, recordedAmong,
        Shared.mk.injEq, true_and, List.nil_append] at told
      obtain ⟨client, sock, ⟨app, requests⟩, log⟩ := told
      have nothing : record.app.2 = [] := callsOn_nobody (requests.trans still)
      refine ⟨record.seen (recordedAmong clients self) [], ?_, client, sock, ?_, ?_⟩
      · have same := clientRead_seen [] (recording_through application self clients)
          (node.world (device.app, []))
        rw [recorded] at same
        exact same
      · simp only [World.seen, recordedAmong, nothing, app, callsOn]
      · simp only [World.seen, List.nil_append, log]

/-! The hub behind the machine. -/

abbrev Serving (ρ σ : Type) : Side → Type
  | .left => ρ
  | .right => Shared σ

def serving (application : Application σ) (host : Callbacks ρ) (ptrs : Fin n → Nat) (i : Fin n) :
    (side : Side) → Callbacks (Serving ρ σ side)
  | .left => host
  | .right => application.callbacksAt (ptrs i)

section

variable {τ : Side → Type}

def Seat.guest (seat : Seat τ α) : Guest (τ .left) α := ⟨seat.host, seat.quit, seat.program⟩

def Seat.node (seat : Seat τ α) (ptr : Nat) : ClientNode where
  ptr := ptr
  client := (seat.system .right).client
  sock := (seat.system .right).sock

def Hub.nodes (hub : Hub n τ α) (ptrs : Fin n → Nat) : List ClientNode :=
  (List.finRange n).map fun i => (hub.seat i).node (ptrs i)

def Seat.hosted (seat : Seat τ α) (guest : Guest (τ .left) α) (sent : Bytes) : Seat τ α where
  system := Function.update (Function.update seat.system .right ((seat.system .right).arrive sent))
    .left guest.world
  quit := guest.quit
  program := guest.program

@[simp] theorem arrive_nil (world : World σ) : world.arrive [] = world := by
  simp only [World.arrive, List.append_nil]

theorem arrive_append (world : World σ) (first second : Bytes) :
    (world.arrive first).arrive second = world.arrive (first ++ second) := by
  simp only [World.arrive, List.append_assoc]

theorem hostStep_guest (cbs : (side : Side) → Callbacks (τ side)) (seat : Seat τ α) :
    seat.hostStep cbs = (seat.guest.step (cbs .left)).map fun (guest, sent) =>
      seat.hosted guest sent := by
  have loop : seat.loop cbs = (seat.guest.loop (cbs .left)).map fun (guest, sent) =>
      seat.hosted guest sent := by
    simp only [Seat.loop, systemStep, Guest.loop]
    cases read : warppipeClientRead (cbs .left) (seat.system .left) with
    | error fault => simp [Seat.guest, Seat.host, read, Except.map]
    | ok after =>
        simp only [Seat.guest, Seat.host, read, Except.map, moved_self]
        rfl
  have asleep (world : World (τ .left)) (program : Program (τ .left) α) :
      seat.hosted ⟨world, seat.quit, program⟩ [] =
        ⟨Function.update seat.system .left world, seat.quit, program⟩ := by
    simp only [Seat.hosted, arrive_nil, Function.update_eq_self]
  simp only [Seat.hostStep, Guest.step, show seat.guest.program = seat.program from rfl,
    show seat.guest.quit = seat.quit from rfl, show seat.guest.world = seat.host from rfl]
  cases program : seat.program with
  | done value =>
      by_cases quit : seat.quit
      · simp only [if_pos quit, Except.map]
        have same := asleep seat.host seat.program
        rw [Seat.host, Function.update_eq_self] at same
        exact congrArg Except.ok same.symm
      · simp only [if_neg quit]
        exact loop
  | change update next =>
      simp only [Except.map]
      exact congrArg Except.ok (asleep ..).symm
  | call request next =>
      by_cases quit : seat.quit
      · simp only [if_pos quit, Except.map]
      · simp only [if_neg quit]
        cases request.run seat.host with
        | error fault => rfl
        | ok result => rfl
  | wait met leave next =>
      by_cases ends : met seat.host.app ∨ seat.quit
      · simp only [if_pos ends, Except.map]
        exact congrArg Except.ok (asleep ..).symm
      · simp only [if_neg ends]
        exact loop

theorem findAt_nodes {hub : Hub n τ α} {ptrs : Fin n → Nat} (distinct : Function.Injective ptrs)
    (i : Fin n) :
    findAt (hub.nodes ptrs) (ptrs i) = some ((hub.seat i).node (ptrs i)) := by
  have present : (hub.seat i).node (ptrs i) ∈ hub.nodes ptrs :=
    List.mem_map.mpr ⟨i, List.mem_finRange i, rfl⟩
  cases found : findAt (hub.nodes ptrs) (ptrs i) with
  | none =>
      have absent := List.find?_eq_none.mp found _ present
      exact absurd (decide_eq_true rfl) absent
  | some node =>
      obtain ⟨member, same⟩ := Keyed.find_some found
      obtain ⟨j, -, rfl⟩ := List.mem_map.mp member
      rw [distinct (show ptrs j = ptrs i from same)]

theorem update_nodes {hub : Hub n τ α} {ptrs : Fin n → Nat} (distinct : Function.Injective ptrs)
    (i : Fin n) {device : τ .right} {seat : Seat τ α} {change : ClientNode → ClientNode}
    (changed : change ((hub.seat i).node (ptrs i)) = seat.node (ptrs i)) :
    Keyed.update ClientNode.ptr (hub.nodes ptrs) (ptrs i) change =
      (hub.withSeat i device seat).nodes ptrs := by
  rw [Keyed.update, Hub.nodes, Hub.nodes, List.map_map]
  refine List.map_congr_left fun j _ => ?_
  by_cases same : j = i
  · subst same
    simp only [Function.comp_apply, Hub.withSeat, Function.update_self]
    exact (if_pos rfl).trans changed
  · simp only [Function.comp_apply, Hub.withSeat, Function.update_of_ne same]
    exact if_neg fun hit => same (distinct hit)

/-- A turn of the device reaches one host with what it sends, and no other. -/
theorem guest_moved (hub : Hub n τ α) (i : Fin n) (after : World (τ .right)) (j : Fin n) :
    ((hub.withSeat i after.app
      { hub.seat i with system := (hub.seat i).system.moved .right after }).seat j).guest =
    (hub.seat j).guest.arrive
      (if i = j then transferred ((hub.seat i).system .right) after else []) := by
  by_cases same : j = i
  · subst same
    simp only [Hub.withSeat, Function.update_self, if_true, Seat.guest, Guest.arrive, Seat.host,
      Guest.mk.injEq, and_true]
    exact moved_peer (hub.seat j).system .right after
  · simp only [Hub.withSeat, Function.update_of_ne same, if_neg (Ne.symm same), Guest.arrive,
      arrive_nil]

end

theorem sentTo_cons (ptr : Nat) (bytes : Bytes) (sent : List (Nat × Bytes)) (other : Nat) :
    sentTo ((ptr, bytes) :: sent) other = (if ptr = other then bytes else []) ++
      sentTo sent other := by
  by_cases same : ptr = other
  · simp [sentTo, same]
  · simp [sentTo, same]

def MachineMove.turns (fds : Fin n → Int) : MachineMove n → List (Fin n × Side)
  | .host i => [(i, .left)]
  | .loop heard =>
      ((List.finRange n).filter fun i => decide (fds i ∈ heard)).map fun i => (i, .right)

theorem mem_turns {fds : Fin n → Int} {round : List (MachineMove n)} {i : Fin n}
    (moves : .host i ∈ round ∧ ∃ heard, .loop heard ∈ round ∧ fds i ∈ heard) (side : Side) :
    (i, side) ∈ round.flatMap (MachineMove.turns fds) := by
  obtain ⟨host, heard, loop, reported⟩ := moves
  rw [List.mem_flatMap]
  cases side with
  | left => exact ⟨_, host, List.mem_singleton.mpr rfl⟩
  | right =>
      refine ⟨_, loop, List.mem_map.mpr ⟨i, List.mem_filter.mpr ⟨List.mem_finRange i, ?_⟩, rfl⟩⟩
      exact decide_eq_true reported

/-- The machine holds what the hub holds: the connections are the clients of the process. -/
structure Hosted (ptrs : Fin n → Nat) (fds : Fin n → Int) (hub : Hub n (Serving ρ σ) α)
    (process : Process σ) : Prop where
  app : process.app = hub.device.app
  clients : process.server.clients = hub.nodes ptrs
  fds : ∀ i, ((hub.seat i).system .right).client.fd = fds i

section

variable {ptrs : Fin n → Nat} {fds : Fin n → Int} {hub : Hub n (Serving ρ σ) α}
  {process : Process σ} (hosted : Hosted ptrs fds hub process)

include hosted

theorem Hosted.fd_withSeat {i : Fin n} {device : Serving ρ σ .right} {seat : Seat (Serving ρ σ) α}
    (own : (seat.system .right).client.fd = ((hub.seat i).system .right).client.fd) (j : Fin n) :
    (((hub.withSeat i device seat).seat j).system .right).client.fd = fds j := by
  by_cases same : j = i
  · subst same
    simp only [Hub.withSeat, Function.update_self]
    exact own.trans (hosted.fds j)
  · simp only [Hub.withSeat, Function.update_of_ne same]
    exact hosted.fds j

theorem Hosted.mem_clients (i : Fin n) : (hub.seat i).node (ptrs i) ∈ process.server.clients := by
  rw [hosted.clients]
  exact List.mem_map_of_mem (List.mem_finRange i)

theorem Hosted.mem_requested (i : Fin n) : fds i ∈ requestedFds process.server := by
  have listed := mem_listing (hosted.mem_clients i)
  rw [show ((hub.seat i).node (ptrs i)).client.fd = fds i from hosted.fds i] at listed
  exact mem_requestedFds.mpr (.inr ⟨_, listed⟩)

theorem Hosted.fdsFit (small : ∀ i, InFdSet (fds i)) (own : InFdSet process.server.fd) :
    process.server.FdsFit := by
  intro fd wanted
  rcases mem_requestedFds.mp wanted with rfl | ⟨ptr, listed⟩
  · exact own
  · rw [hosted.clients] at listed
    obtain ⟨node, inside, same⟩ := List.mem_map.mp listed
    obtain ⟨i, -, rfl⟩ := List.mem_map.mp inside
    cases same
    rw [show ((hub.seat i).node (ptrs i)).client.fd = fds i from hosted.fds i]
    exact small i

end

structure Machine.Shows (machine : Machine n σ ρ α) (ptrs : Fin n → Nat) (fds : Fin n → Int)
    (hub : Hub n (Serving ρ σ) α) : Prop where
  hosted : Hosted ptrs fds hub machine.process
  guests : ∀ i, machine.guest i = (hub.seat i).guest
  listens : machine.process.server.listen = true
  own : InFdSet machine.process.server.fd

/-- In these states of the hub no turn fails, no client becomes inactive, and no callback makes a
request of another client than its own. -/
structure HubRuns (cbs : Fin n → (side : Side) → Callbacks (Serving ρ σ side))
    (good : Hub n (Serving ρ σ) α → Prop) :
    Prop where
  step : ∀ hub mover, good hub → ∃ next, hubStep cbs hub mover = .ok next ∧ good next
  alone : ∀ hub, good hub → hub.device.clients = .ok []
  active : ∀ hub i, good hub → ((hub.seat i).system .right).client.active = true
  prompt : ∀ hub i, good hub → ((hub.seat i).system .right).sock.recvs = []

theorem disconnect_nobody {process : Process σ} {condition : Option (ClientNode → Bool)}
    (stay : ∀ node ∈ process.server.clients, meets condition node = false) :
    warppipeServerDisconnectClients process condition = process := by
  rw [warppipeServerDisconnectClients]
  generalize process.server.clients = nodes at stay
  induction nodes with
  | nil => rfl
  | cons node rest ih =>
      rw [List.foldl_cons, stay node List.mem_cons_self]
      exact ih fun other member => stay other (List.mem_cons_of_mem _ member)

theorem ptrs_nodes {τ : Side → Type} (hub : Hub n τ α) (ptrs : Fin n → Nat) :
    (hub.nodes ptrs).map ClientNode.ptr = (List.finRange n).map ptrs := by
  rw [Hub.nodes, List.map_map]
  rfl

section

variable {application : Application σ} {host : Callbacks ρ} {ptrs : Fin n → Nat} {fds : Fin n → Int}
  {good : Hub n (Serving ρ σ) α → Prop} (runs : HubRuns (serving application host ptrs) good)
  (distinct : Function.Injective ptrs)

include runs distinct

theorem clientReadAt_turn {hub : Hub n (Serving ρ σ) α} {process : Process σ}
    (hosted : Hosted ptrs fds hub process) (held : good hub) (i : Fin n) :
    ∃ next later world, clientReadAt application process ((hub.seat i).node (ptrs i)) = .ok next ∧
      warppipeClientRead application.callbacks
        (((hub.seat i).node (ptrs i)).world (process.shared (ptrs i))) = .ok world ∧
      hubStep (serving application host ptrs) hub (i, .right) = .ok later ∧ good later ∧
      Hosted ptrs fds later next ∧ next.server =
        { process.server with clients := later.nodes ptrs } ∧
      (∀ j, j ≠ i → later.seat j = hub.seat j) ∧
      ∀ j, (later.seat j).guest = (hub.seat j).guest.arrive
        (if ptrs i = ptrs j then world.log.flatMap Event.output else []) := by
  obtain ⟨later, stepped, still⟩ := runs.step hub (i, .right) held
  have alone := runs.alone hub held
  have turn := stepped
  simp only [hubStep, Seat.deviceStep, if_pos (runs.active hub i held)] at turn
  cases ran : warppipeClientRead (serving application host ptrs i .right)
      { (hub.seat i).system .right with app := hub.device } with
  | error fault =>
      rw [ran] at turn
      cases turn
  | ok after =>
      rw [ran] at turn
      simp only [Except.map, Except.ok.injEq] at turn
      subst turn
      have ran : warppipeClientRead (application.callbacksAt (ptrs i))
          ⟨((hub.seat i).node (ptrs i)).client,
          ((hub.seat i).node (ptrs i)).sock, hub.device,
          ((hub.seat i).system .right).log⟩ = .ok after := ran
      obtain ⟨world, read, client, sock, app, log⟩ :=
        clientRead_among alone ran (runs.alone _ still) (hub.nodes ptrs)
      have shared : process.shared (ptrs i) = ⟨hub.device.app, ptrs i, .ok (hub.nodes ptrs)⟩ := by
        rw [Process.shared, hosted.app, hosted.clients]
      rw [← shared] at read
      have sent : transferred ((hub.seat i).system .right) after =
          world.log.flatMap Event.output := by
        rw [transferred, fresh_eq log]
      have nodes : updateAt (hub.nodes ptrs) (ptrs i) world =
          (hub.withSeat i after.app
            { hub.seat i with system := (hub.seat i).system.moved .right after }).nodes ptrs := by
        refine update_nodes distinct i ?_
        simp only [ClientNode.update, Seat.node, client, sock, moved_self]
      refine ⟨process.readAt ((hub.seat i).node (ptrs i)) world, _, world, ?_, read, stepped, still,
        ⟨?_, ?_, hosted.fd_withSeat ?_⟩, ?_, fun j apart => Function.update_of_ne apart ..,
        fun j => ?_⟩
      · have reached : world.app.clients = .ok process.server.clients := by rw [app, hosted.clients]
        simp only [clientReadAt, show ((hub.seat i).node (ptrs i)).ptr = ptrs i from rfl, read,
          bind, Except.bind, reached, pure, Except.pure]
        rfl
      · exact (congrArg Shared.app app :)
      · exact (congrArg (fun clients => updateAt clients (ptrs i) world) hosted.clients).trans nodes
      · simp only [moved_self]
        exact (clientRead_ok ran).fd
      · rw [← nodes, ← hosted.clients]
        rfl
      · rw [guest_moved, sent]
        simp only [distinct.eq_iff]

omit distinct in
theorem idle_turn {hub : Hub n (Serving ρ σ) α} {process : Process σ}
    (hosted : Hosted ptrs fds hub process) (held : good hub) {i : Fin n}
    (empty : ((hub.seat i).system .right).sock.incoming = []) :
    ∃ later, hubStep (serving application host ptrs) hub (i, .right) = .ok later ∧ good later ∧
      Hosted ptrs fds later process ∧ (∀ j, j ≠ i → later.seat j = hub.seat j) ∧
      ∀ j, (later.seat j).guest = (hub.seat j).guest := by
  obtain ⟨later, stepped, still⟩ := runs.step hub (i, .right) held
  have turn := stepped
  have read : warppipeClientRead (serving application host ptrs i .right)
      { (hub.seat i).system .right with app := hub.device } =
        .ok { (hub.seat i).system .right with app := hub.device } :=
    clientRead_idle _ empty (runs.prompt hub i held)
  have silent : transferred ((hub.seat i).system .right)
      { (hub.seat i).system .right with app := hub.device } = [] := by
    simp only [transferred, fresh, List.drop_length, List.flatMap_nil]
  simp only [hubStep, Seat.deviceStep, if_pos (runs.active hub i held), read, Except.map,
    Except.ok.injEq] at turn
  subst turn
  refine ⟨_, stepped, still, ⟨hosted.app, hosted.clients.trans ?_, hosted.fd_withSeat ?_⟩,
    fun j apart => Function.update_of_ne apart .., fun j => ?_⟩
  · refine List.map_congr_left fun j _ => ?_
    by_cases same : j = i
    · subst same
      simp only [Hub.withSeat, Function.update_self, Seat.node, moved_self]
    · simp only [Hub.withSeat, Function.update_of_ne same]
  · simp only [moved_self]
  · have moved := guest_moved hub i { (hub.seat i).system .right with app := hub.device } j
    rw [silent, ite_self, Guest.arrive, arrive_nil] at moved
    exact moved

/-- A pass over clients is a turn of the device for each that was heard of. -/
theorem serverRead_turns {hub : Hub n (Serving ρ σ) α} {process : Process σ}
    (hosted : Hosted ptrs fds hub process) (held : good hub) (small : ∀ i, InFdSet (fds i))
    {heard : Finset Int} {is : List (Fin n)} (once : is.Nodup)
    (reported : ∀ i ∈ is, fds i ∈ process.server.readFds → fds i ∈ heard)
    (quiet : ∀ i ∈ is, fds i ∈ heard → fds i ∉ process.server.readFds →
      ((hub.seat i).system .right).sock.incoming = []) :
    ∃ next later, serverRead application process (is.map ptrs) = .ok next ∧
      Runs.run (hubStep (serving application host ptrs)) hub
        ((is.filter fun i => decide (fds i ∈ heard)).map fun i => (i, .right)) = .ok later ∧
      good later ∧ Hosted ptrs fds later next ∧
      next.server = { process.server with clients := later.nodes ptrs } ∧
      ∀ j, (later.seat j).guest =
        (hub.seat j).guest.arrive
          (sentTo (serverSent application process (is.map ptrs)) (ptrs j)) := by
  induction is generalizing hub process with
  | nil =>
      refine ⟨process, hub, rfl, rfl, held, hosted, ?_, fun j => ?_⟩
      · rw [← hosted.clients]
      · simp only [List.map_nil, serverSent, sentTo, List.filter_nil, List.flatMap_nil,
          Guest.arrive, arrive_nil]
  | cons i rest ih =>
      obtain ⟨fresh, once⟩ := List.nodup_cons.mp once
      have found : findAt process.server.clients (ptrs i) = some ((hub.seat i).node (ptrs i)) := by
        rw [hosted.clients]
        exact findAt_nodes distinct i
      have own : ((hub.seat i).node (ptrs i)).client.fd = fds i := hosted.fds i
      have later {after : Hub n (Serving ρ σ) α} (others : ∀ j, j ≠ i → after.seat j = hub.seat j) :
          ∀ j ∈ rest, fds j ∈ heard → fds j ∉ process.server.readFds →
            ((after.seat j).system .right).sock.incoming = [] := by
        intro j member
        rw [others j fun same => fresh (same ▸ member)]
        exact quiet j (List.mem_cons_of_mem _ member)
      have still := fun j member => reported j (List.mem_cons_of_mem i member)
      by_cases ready : fds i ∈ process.server.readFds
      · obtain ⟨middle, after, world, read, ran, stepped, kept, hosts, server, others, guests⟩ :=
          clientReadAt_turn runs distinct hosted held i
        have readFds : middle.server.readFds = process.server.readFds := by rw [server]
        obtain ⟨next, final, passed, turned, ends, last, frame, sent⟩ :=
          ih hosts kept once (by rwa [readFds]) (by rw [readFds]; exact later others)
        refine ⟨next, final, ?_, ?_, ends, last, ?_, fun j => ?_⟩
        · simp only [List.map_cons, serverRead, found, own, if_pos (small i),
            if_pos ready, read, passed]
        · rw [List.filter_cons_of_pos (by simpa using reported i List.mem_cons_self ready),
            List.map_cons, Runs.run_cons stepped]
          exact turned
        · rw [frame, server]
        · have output :
              transferred (((hub.seat i).node (ptrs i)).world (process.shared (ptrs i))) world =
              world.log.flatMap Event.output := by
            rw [transferred, WarpPipe.fresh]
            rfl
          simp only [List.map_cons, serverSent, found, own, if_pos ready,
            show ((hub.seat i).node (ptrs i)).ptr = ptrs i from rfl, ran, read, output, sentTo_cons]
          rw [sent j, guests j]
          simp only [Guest.arrive, arrive_append]
      · have skipped : serverRead application process (ptrs i :: rest.map ptrs) =
            serverRead application process (rest.map ptrs) := by
          simp only [serverRead, found, own, if_pos (small i), if_neg ready]
        have unsent : serverSent application process (ptrs i :: rest.map ptrs) =
            serverSent application process (rest.map ptrs) := by
          simp only [serverSent, found, own, if_neg ready]
        rw [List.map_cons, skipped, unsent]
        by_cases came : fds i ∈ heard
        · obtain ⟨after, stepped, kept, hosts, others, guests⟩ :=
            idle_turn runs hosted held (quiet i List.mem_cons_self came ready)
          obtain ⟨next, final, passed, turned, ends, last, frame, sent⟩ :=
            ih hosts kept once still (later others)
          refine ⟨next, final, passed, ?_, ends, last, frame, fun j => (sent j).trans ?_⟩
          · rw [List.filter_cons_of_pos (by simpa using came), List.map_cons, Runs.run_cons stepped]
            exact turned
          · rw [guests j]
        · rw [List.filter_cons_of_neg (by simpa using came)]
          exact ih hosted held once still (later fun _ _ => rfl)

theorem serverLoop_turns {hub : Hub n (Serving ρ σ) α} {process : Process σ}
    (hosted : Hosted ptrs fds hub process) (held : good hub) (small : ∀ i, InFdSet (fds i))
    (own : InFdSet process.server.fd) (listens : process.server.listen = true) {heard : Finset Int}
    {select : SelectResult} (waits : select = .ready (process.readable heard)) :
    ∃ next later, warppipeServerLoop application process ⟨select, nobody⟩ = .ok next ∧
      Runs.run (hubStep (serving application host ptrs)) hub
        ((MachineMove.loop heard).turns fds) = .ok later ∧
      good later ∧ Hosted ptrs fds later next ∧
      (next.server.listen = true ∧ next.server.fd = process.server.fd) ∧
      ∀ j, (later.seat j).guest = (hub.seat j).guest.arrive
        (sentTo (serverSent application (process.selected select)
        ((process.selected select).server.clients.map ClientNode.ptr)) (ptrs j)) := by
  have selected : Hosted ptrs fds hub (process.selected select) :=
    ⟨hosted.app, hosted.clients, hosted.fds⟩
  have order : (process.selected select).server.clients.map ClientNode.ptr =
      (List.finRange n).map ptrs := by
    rw [selected.clients, ptrs_nodes]
  have left (i : Fin n) : fds i ∈ (process.selected select).server.readFds ↔
      fds i ∈ process.readable heard := by
    rw [waits]
    exact Finset.mem_inter.trans (and_iff_right (hosted.mem_requested i))
  have quiet (i : Fin n) (came : fds i ∈ heard)
      (unreported : fds i ∉ (process.selected select).server.readFds) :
      ((hub.seat i).system .right).sock.incoming = [] := by
    by_contra bytes
    exact unreported ((left i).mpr
      (Finset.mem_filter.mpr ⟨came, _, hosted.mem_clients i, hosted.fds i, bytes⟩))
  obtain ⟨next, later, passed, turned, ends, last, frame, sent⟩ :=
    serverRead_turns runs distinct selected held small (List.nodup_finRange n)
      (fun i _ reported => (Finset.mem_filter.mp ((left i).mp reported)).1)
      fun i _ => quiet i
  have accepted : (serverAccept application (process.selected select) nobody).map Prod.snd =
      .ok (process.selected select) := by
    simp only [serverAccept, Process.selected, listens, if_true, nobody]
    rfl
  have stays : warppipeServerDisconnectClients next (some shouldDisconnectClient) = next := by
    refine disconnect_nobody fun node member => ?_
    rw [last.clients] at member
    obtain ⟨i, -, rfl⟩ := List.mem_map.mp member
    simp only [meets, Option.all_some, shouldDisconnectClient, Seat.node, runs.active later i ends,
      Bool.not_true]
  refine ⟨next, later, ?_, turned, ends, last, ?_, ?_⟩
  · rw [warppipeServerLoop, if_pos (hosted.fdsFit small own)]
    simp only [loopAfterSelect, accepted, ite_self, bind, Except.bind, pure, Except.pure, order,
      passed, stays]
  · rw [frame]
    exact ⟨listens, rfl⟩
  · rw [order]
    exact sent

theorem Machine.Shows.hostMove {machine : Machine n σ ρ α} {hub : Hub n (Serving ρ σ) α}
    (shows : machine.Shows ptrs fds hub) (held : good hub) (i : Fin n) :
    ∃ next later, machineStep application host ptrs machine (.host i) = .ok next ∧
      hubStep (serving application host ptrs) hub (i, .left) = .ok later ∧ good later ∧
      next.Shows ptrs fds later := by
  obtain ⟨later, stepped, still⟩ := runs.step hub (i, .left) held
  have turn := stepped
  simp only [hubStep, hostStep_guest] at turn
  cases ran : (hub.seat i).guest.step (serving application host ptrs i .left) with
  | error fault =>
      rw [ran] at turn
      cases turn
  | ok result =>
      obtain ⟨guest, sent⟩ := result
      rw [ran] at turn
      simp only [Except.map, Except.ok.injEq] at turn
      subst turn
      refine ⟨machine.hostMoved (ptrs i) i guest sent, _, ?_, stepped, still, ?_⟩
      · simp only [machineStep, shows.guests i]
        rw [show (hub.seat i).guest.step host = .ok (guest, sent) from ran]
        rfl
      · refine ⟨⟨shows.hosted.app, ?_, shows.hosted.fd_withSeat rfl⟩, fun j => ?_, shows.listens,
          shows.own⟩
        · simp only [Machine.hostMoved, Process.withClients, shows.hosted.clients]
          refine update_nodes distinct i ?_
          rfl
        · by_cases same : j = i
          · subst same
            simp only [Machine.hostMoved, Hub.withSeat, Function.update_self]
            rfl
          · simp only [Machine.hostMoved, Hub.withSeat, Function.update_of_ne same]
            exact shows.guests j

theorem Machine.Shows.step {machine : Machine n σ ρ α} {hub : Hub n (Serving ρ σ) α}
    (shows : machine.Shows ptrs fds hub) (held : good hub) (small : ∀ i, InFdSet (fds i))
    (move : MachineMove n) :
    ∃ next later, machineStep application host ptrs machine move = .ok next ∧
      Runs.run (hubStep (serving application host ptrs)) hub (move.turns fds) =
        .ok later ∧ good later ∧
      next.Shows ptrs fds later := by
  cases move with
  | host i =>
      obtain ⟨next, later, moved, stepped, still, after⟩ := shows.hostMove runs distinct held i
      exact ⟨next, later, moved, Runs.run_cons stepped [], still, after⟩
  | loop heard =>
      obtain ⟨process, later, looped, turned, still, hosted, ⟨listens, same⟩, sent⟩ :=
        serverLoop_turns runs distinct shows.hosted held small shows.own shows.listens rfl
      refine ⟨machine.looped application ptrs (.ready (machine.process.readable heard)) process,
        later, ?_, turned, still, hosted, fun j => ?_, listens, same.symm ▸ shows.own⟩
      · simp only [machineStep, looped, Except.map]
      · simp only [Machine.looped, shows.guests j, sent j]

/-- A run of the machine is a run of the hub behind it. -/
theorem Machine.Shows.run {machine : Machine n σ ρ α} {hub : Hub n (Serving ρ σ) α}
    (shows : machine.Shows ptrs fds hub) (held : good hub) (small : ∀ i, InFdSet (fds i))
    (moves : List (MachineMove n)) :
    ∃ last final, Runs.run (machineStep application host ptrs) machine moves = .ok last ∧
      Runs.run (hubStep (serving application host ptrs)) hub
        (moves.flatMap (MachineMove.turns fds)) = .ok final ∧
      last.Shows ptrs fds final := by
  induction moves generalizing machine hub with
  | nil => exact ⟨machine, hub, rfl, rfl, shows⟩
  | cons move rest ih =>
      obtain ⟨next, later, moved, turned, still, after⟩ := shows.step runs distinct held small move
      obtain ⟨last, final, ran, played, ends⟩ := ih after still
      refine ⟨last, final, by rw [Runs.run_cons moved, ran], ?_, ends⟩
      rw [List.flatMap_cons, Runs.run_append, turned]
      exact played

end

section

variable {ptrs : Fin n → Nat} {i : Fin n}

theorem mock_read_clients (cb : FnPtr) (shared : Shared (MockDevice MockMemory)) (addr : BitVec 64)
    (length : Int) :
    ((hostsAndMock ptrs i .right).read cb shared addr length).app.clients = shared.clients := by
  simp only [hostsAndMock, Application.callbacksAt, Application.callbacks, mockApplication,
    deviceCallbacks_read_calls, List.map_nil]
  exact clients_after (List.forall_mem_nil _) _

theorem mock_write_clients {cb : FnPtr} (other : cb ≠ config0WritePtr)
    (shared : Shared (MockDevice MockMemory)) (addr : BitVec 64) (data : Bytes) (length : Int) :
    ((hostsAndMock ptrs i .right).write cb shared addr data length).app.clients =
      shared.clients := by
  simp only [hostsAndMock, Application.callbacksAt, Application.callbacks, mockApplication,
    deviceCallbacks_write_calls other, List.map_nil]
  exact clients_after (List.forall_mem_nil _) _

theorem serveRead_clients {device : Shared (MockDevice MockMemory) × Registry} {space : Space}
    {addr : BitVec 64} {length : Nat} {data : Bytes} {rest : Shared (MockDevice MockMemory)}
    (answer : serveRead (hostsAndMock ptrs i .right) device space addr length = some (data, rest)) :
    rest.clients = device.1.clients := by
  simp only [serveRead] at answer
  split at answer
  · cases answer
  · split at answer
    · cases answer
      exact mock_read_clients ..
    · cases answer

theorem Attached.write_clients {host registry : Registry} {windows : MockBar → Window}
    (attached : Attached host registry windows) (device : Shared (MockDevice MockMemory))
    {barIdx : Fin 6} {addr : BitVec 64} {length : Nat} (set : host.bar barIdx ≠ 0)
    (reaches : Reaches barIdx addr length) (data : Bytes) :
    (WarpPipe.serveWrite (hostsAndMock ptrs i .right) (device, registry)
      ⟨.memory, (host.bar barIdx).setWidth 64 + addr, data⟩).1.clients = device.clients := by
  cases found : mockBar? barIdx with
  | none => exact absurd (attached.unset barIdx found) set
  | some bar =>
      obtain rfl := index_of_mockBar? found
      obtain ⟨target, routed, -⟩ := attached.writeRoute bar (reaches bar found).1
      rw [attached.barWriteCb] at routed
      cases bar with
      | bar0 =>
          change registry.writeRoute _ _ = (none, target) at routed
          simp only [WarpPipe.serveWrite, routed]
      | bar1 =>
          change registry.writeRoute _ _ = (some writeBarCb1, target) at routed
          simp only [WarpPipe.serveWrite, routed]
          exact mock_write_clients (by decide) ..

theorem Script.At.clients {script : Script α}
    {station next : Station (HostAndMock MockMemory .left) α} {steps : Nat}
    {device after : HostAndMock MockMemory .right × Registry} {windows : MockBar → Window}
    (stands : script.At station steps) (attached : Attached station.registry device.2 windows)
    (acts : Acts (hostsAndMock ptrs i) device station after next) :
    after.1.clients = device.1.clients := by
  cases acts with
  | silent moves => rfl
  | ask asks answer ends => exact serveRead_clients answer
  | post moves =>
      cases moves with
      | post app proper effect =>
          cases stands with
          | expecting program =>
              cases program
              simp only [Call.effect] at effect
              split at effect <;> cases effect
          | start program fits enough =>
              cases fits with
              | done count value => cases program
              | read => cases program
              | write available reaches rest =>
                  cases program
                  simp only [Call.effect] at effect
                  split at effect
                  · cases effect
                  · rename_i set
                    cases effect
                    exact attached.write_clients device.1 set reaches _

end

def Machine.hub (machine : Machine n σ ρ α) (nodes : Fin n → ClientNode) :
    Hub n (Serving ρ σ) α where
  device := ⟨machine.process.app, 0, .ok []⟩
  seat i :=
    { system := fun
        | .left => (machine.guest i).world
        | .right => (nodes i).world ⟨machine.process.app, 0, .ok []⟩
      quit := (machine.guest i).quit
      program := (machine.guest i).program }

abbrev MockMachine (n : Nat) (α : Type) := Machine n (MockDevice MockMemory) (Shared HostApp) α

def mockMachineStep (nodes : Fin n → ClientNode) :
    MockMachine n α → MachineMove n → Outcome (MockMachine n α) :=
  machineStep (mockApplication mockTable mockBars) hostApplication.callbacks fun i => (nodes i).ptr

structure Machine.Ready (machine : MockMachine n α) (nodes : Fin n → ClientNode)
    (windows : Fin n → MockBar → Window) (scripts : Fin n → Script α) (counts : Fin n → Nat) :
    Prop where
  listens : machine.process.server.listen = true
  own : InFdSet machine.process.server.fd
  small : ∀ i, InFdSet (nodes i).client.fd
  clients : machine.process.server.clients = List.ofFn nodes
  distinct : Function.Injective fun i => (nodes i).ptr
  seats : Seats (machine.hub nodes) windows scripts counts

theorem serving_mock (ptrs : Fin n → Nat) :
    serving (mockApplication mockTable mockBars) hostApplication.callbacks ptrs =
      hostsAndMock ptrs := by
  funext i side
  cases side with
  | left => rfl
  | right => rfl

theorem alone_unstuck (ptrs : Fin n → Nat) (windows : Fin n → MockBar → Window)
    (start : Atomic n α) :
    Unstuck (hostsAndMock ptrs) fun bench steps => Ordered windows start bench steps ∧
    bench.device.clients = .ok [] := by
  refine (ordered_unstuck (fun _ => rfl) (mock_remembers_at ptrs) windows start).and ?_
  intro bench steps i device station ordered alone acts
  obtain ⟨order, -, stands⟩ := ordered.accessed
  exact ((stands i).clients (ordered.attached i) acts).trans alone

theorem course_runs (ptrs : Fin n → Nat) (windows : Fin n → MockBar → Window) (start : Atomic n α) :
    HubRuns (serving (mockApplication mockTable mockBars) hostApplication.callbacks ptrs) fun hub =>
      ∃ prospect, OnCourse (hostsAndMock ptrs)
        (fun bench steps => Ordered windows start bench steps ∧ bench.device.clients = .ok []) hub
          prospect := by
  rw [serving_mock]
  refine ⟨?_, ?_, ?_, ?_⟩
  · rintro hub mover ⟨prospect, course⟩
    obtain ⟨next, later, stepped, still, -⟩ := OnCourse.step (alone_unstuck ptrs windows start)
      (fun i => host_completions i ptrs) (fun i => (mock_remembers_at ptrs i).mild) hub
        prospect mover course
    exact ⟨next, stepped, later, still⟩
  · rintro hub ⟨prospect, course⟩
    obtain ⟨bench, steps, held, device, -⟩ := course.direct
    rw [← device]
    exact held.2
  · rintro hub i ⟨prospect, course⟩
    obtain ⟨bench, steps, -, -, seated⟩ := course.direct
    exact (seated i).active .right
  · rintro hub i ⟨prospect, course⟩
    obtain ⟨bench, steps, -, -, seated⟩ := course.direct
    exact (seated i).linked.recvs .right

section

variable {machine : MockMachine n α} {nodes : Fin n → ClientNode}
  {windows : Fin n → MockBar → Window} {scripts : Fin n → Script α} {counts : Fin n → Nat}
  (ready : machine.Ready nodes windows scripts counts)

include ready

theorem Machine.Ready.run (moves : List (MachineMove n)) :
    ∃ last final, Runs.run (mockMachineStep nodes) machine moves = .ok last ∧
      Runs.run (hubStep (hostsAndMock fun i => (nodes i).ptr)) (machine.hub nodes)
        (moves.flatMap (MachineMove.turns fun i => (nodes i).client.fd)) = .ok final ∧
      last.Shows (fun i => (nodes i).ptr) (fun i => (nodes i).client.fd) final := by
  have shows : machine.Shows (fun i => (nodes i).ptr) (fun i => (nodes i).client.fd)
      (machine.hub nodes) := by
    refine ⟨⟨rfl, ?_, fun i => rfl⟩, fun i => rfl, ready.listens, ready.own⟩
    rw [ready.clients, List.ofFn_eq_map]
    rfl
  have runs :=
    course_runs (fun i => (nodes i).ptr) windows ⟨memoryOf (machine.hub nodes).device, scripts⟩
  rw [← serving_mock]
  exact shows.run runs ready.distinct
    ⟨_, OnCourse.start ready.seats.idle ⟨ready.seats.ordered, rfl⟩⟩ ready.small moves

end

/-- Hosts that the memory mock serves from `warppipe_server_loop` see one memory. Whatever order the
hosts and the calls of the loop come in and whichever of the waiting bytes have reached the mock by
then, no step fails, the mock keeps every client, and its memory is what the accesses of the hosts
leave in some order, in which a host that has returned makes its accesses one by one and returns the
same. Rounds in which every host moves and the mock hears of every client bring all to their
ends. -/
theorem servedMemory_consistent {machine : MockMachine n α} {nodes : Fin n → ClientNode}
    {windows : Fin n → MockBar → Window} {scripts : Fin n → Script α} {counts : Fin n → Nat}
    (ready : machine.Ready nodes windows scripts counts) :
    (∀ moves, ∃ last order, Runs.run (mockMachineStep nodes) machine moves = .ok last ∧
      last.process.server.clients.map ClientNode.ptr = List.ofFn (fun i => (nodes i).ptr) ∧
      last.process.app.memory =
        ((⟨machine.process.app.memory, scripts⟩ : Atomic n α).after order).memory ∧
      ∀ i value, (last.guest i).program = .done value →
        ∃ count, ((⟨machine.process.app.memory, scripts⟩ :
        Atomic n α).after (order ++ List.replicate count i)).script i = .done value) ∧
    ∀ rounds : List (List (MachineMove n)),
      (∀ round ∈ rounds, ∀ i, .host i ∈ round ∧
        ∃ heard, .loop heard ∈ round ∧ (nodes i).client.fd ∈ heard) →
      20 * ∑ i, counts i ≤ rounds.length →
      ∃ last order, Runs.run (mockMachineStep nodes) machine rounds.flatten = .ok last ∧
        last.process.app.memory =
          ((⟨machine.process.app.memory, scripts⟩ : Atomic n α).after order).memory ∧
        ∀ i, ∃ value, (last.guest i).program = .done value ∧
          ((⟨machine.process.app.memory, scripts⟩ : Atomic n α).after order).script i =
            .done value := by
  constructor
  · intro moves
    obtain ⟨last, final, ran, played, shows⟩ := ready.run moves
    obtain ⟨other, order, turned, memory, returned⟩ :=
      ready.seats.consistent (fun i => (nodes i).ptr)
      (moves.flatMap (MachineMove.turns fun i => (nodes i).client.fd))
    cases played.symm.trans turned
    refine ⟨last, order, ran, ?_, ?_, fun i value done => returned i value ?_⟩
    · rw [shows.hosted.clients, ptrs_nodes, List.ofFn_eq_map]
    · rw [shows.hosted.app]
      exact memory
    · rw [shows.guests i] at done
      exact done
  · intro rounds fair enough
    let turns : MachineMove n → List (Fin n × Side) :=
      MachineMove.turns fun i => (nodes i).client.fd
    obtain ⟨last, final, ran, played, shows⟩ := ready.run rounds.flatten
    have whole : ∀ round ∈ rounds.map (List.flatMap turns), ∀ mover, mover ∈ round := by
      intro round member mover
      obtain ⟨moves, inside, rfl⟩ := List.mem_map.mp member
      exact mem_turns (fair moves inside mover.1) mover.2
    obtain ⟨other, order, turned, memory, returned⟩ :=
      ready.seats.returns (fun i => (nodes i).ptr) whole (by rwa [List.length_map])
    have same : (rounds.map (List.flatMap turns)).flatten = rounds.flatten.flatMap turns := by
      rw [← List.flatMap_def, ← List.flatMap_id, List.flatMap_assoc]
      rfl
    rw [same] at turned
    cases played.symm.trans turned
    refine ⟨last, order, ran, ?_, fun i => ?_⟩
    · rw [shows.hosted.app]
      exact memory
    · rw [shows.guests i]
      exact (returned i).2

def pairNodes (i : Fin 2) : ClientNode where
  ptr := i.val + 1
  client := { mockClient with fd := i.val + 4 }
  sock := (clientWith []).sock

def pairMachine : MockMachine 2 Bytes where
  process :=
    { openFds := {0, 1, 2, 3, 4, 5}
      server :=
        { fd := 3, listen := true, quit := false, maxFd := 5, readFds := ∅
          clients := List.ofFn pairNodes, acceptCb := some serverClientAcceptPtr }
      app := mockServer.process.app
      events := [] }
  guest i := ⟨pairSystem .left, false, (pairScripts i).program.program⟩

theorem pair_served :
    pairMachine.Ready pairNodes (fun _ => mockWindows) pairScripts (fun _ => 1) ∧ ∃ last order,
      Runs.run (mockMachineStep pairNodes) pairMachine
        (List.replicate 40 [.host 0, .loop {4}, .host 1, .loop {5}]).flatten = .ok last ∧
      ∀ i, ∃ value, (last.guest i).program = .done value ∧
        ((⟨zeroMemory, pairScripts⟩ : Atomic 2 Bytes).after order).script i = .done value := by
  have ready : pairMachine.Ready pairNodes (fun _ => mockWindows) pairScripts (fun _ => 1) := by
    refine ⟨rfl, by decide, by decide, rfl, fun i j same => ?_, fun i =>
      ⟨⟨fun side => ?_, fun side => ?_, fun side => ?_⟩, rfl, fun side => ?_⟩,
      fun _ => mockClient_attached, fun _ => rfl, pairScripts_fit⟩
    · have equal : i.val + 1 = j.val + 1 := same
      omega
    · cases side <;> rfl
    · cases side <;> rfl
    · cases side <;> exact List.forall_mem_nil _
    · cases side <;> rfl
  have fair :
      ∀ round ∈ List.replicate 40 [MachineMove.host (0 : Fin 2), .loop {4}, .host 1, .loop {5}],
      ∀ i, .host i ∈ round ∧ ∃ heard, .loop heard ∈ round ∧ (pairNodes i).client.fd ∈ heard := by
    intro round member i
    rw [List.eq_of_mem_replicate member]
    match i with
    | 0 => exact ⟨by simp, {4}, by simp, by decide⟩
    | 1 => exact ⟨by simp, {5}, by simp, by decide⟩
  obtain ⟨last, order, ran, -, ends⟩ :=
    (servedMemory_consistent ready).2 _ fair List.length_replicate.ge
  exact ⟨ready, last, order, ran, ends⟩

end WarpPipe
