import WarpPipe.MockConfigCore
import WarpPipe.ServerRuns
import WarpPipe.Transactions

/-!
Several connections to one memory mock. The mock keeps a single pointer to the client that it
accepted last, and registers the BARs of every configuration write there, whichever connection the
write came from.
-/

namespace WarpPipe

open ByteLayout

variable {σ μ : Type}

def registryAt (clients : List ClientNode) (ptr : Nat) : Option Registry :=
  (findAt clients ptr).map fun node => node.client.registry

/-- Where the code of the client itself stays in bounds while it reads, so do the callbacks: they
touch no client that was freed, and change the registrations of no other client. -/
def Isolated (application : Application σ) (process : Process σ) (node : ClientNode) : Prop :=
  ∀ world, warppipeClientRead application.callbacks
      (node.world (process.shared node.ptr)) = .ok world →
    ∃ next, clientReadAt application process node = .ok next ∧
      ∀ ptr, ptr ≠ node.ptr → registryAt next.server.clients ptr =
        registryAt process.server.clients ptr

theorem registryAt_updateAt {τ : Type} (clients : List ClientNode) (ptr other : Nat)
    (world : World τ) :
    registryAt (updateAt clients ptr world) other =
      if other = ptr then (findAt clients ptr).map fun _ => world.client.registry
      else registryAt clients other := by
  rw [registryAt, findAt_updateAt]
  split
  · rw [Option.map_map]
    rfl
  · rfl

theorem isolated_iff {application : Application σ} {process : Process σ} {node : ClientNode}
    {world : World (Shared σ)}
    (ran : warppipeClientRead application.callbacks
      (node.world (process.shared node.ptr)) = .ok world) :
    Isolated application process node ↔ ∃ clients, world.app.clients = .ok clients ∧
      ∀ ptr, ptr ≠ node.ptr → registryAt clients ptr = registryAt process.server.clients ptr := by
  have result : clientReadAt application process node = world.app.clients.map fun clients =>
      { process with
        server := { process.server with clients := updateAt clients node.ptr world }
        app := world.app.app
        events := process.events ++ [.clientRead node.ptr node.client.fd] } := by
    simp only [clientReadAt, ran, bind, Except.bind, pure, Except.pure]
    cases world.app.clients <;> rfl
  have elsewhere (clients : List ClientNode) (ptr : Nat) (other : ptr ≠ node.ptr) :
      registryAt (updateAt clients node.ptr world) ptr = registryAt clients ptr := by
    rw [registryAt_updateAt, if_neg other]
  constructor
  · intro isolated
    obtain ⟨next, read, kept⟩ := isolated world ran
    cases reached : world.app.clients with
    | error fault => simp [result, reached, Except.map] at read
    | ok clients =>
        rw [result, reached] at read
        cases read
        exact ⟨clients, rfl, fun ptr other =>
          (elsewhere clients ptr other).symm.trans (kept ptr other)⟩
  · rintro ⟨clients, reached, kept⟩ other ranOther
    rw [ran] at ranOther
    cases ranOther
    rw [result, reached]
    exact ⟨_, rfl, fun ptr apart => (elsewhere clients ptr apart).trans (kept ptr apart)⟩

theorem clients_after {shared : Shared σ} {calls : List (Nat × Call)}
    (own : ∀ call ∈ calls, call.1 = shared.self) (app : σ) :
    (shared.after app calls).clients = shared.clients := by
  have none : calls.filter (fun call => call.1 ≠ shared.self) = [] := by
    rw [List.filter_eq_nil_iff]
    intro call member
    simp [own call member]
  simp only [Shared.after, none]
  cases shared.clients <;> rfl

theorem callsOn_singleton (clients : List ClientNode) (ptr : Nat) (call : Call) :
    callsOn clients [(ptr, call)] = callOn clients ptr call := by
  simp only [callsOn]
  split
  · rename_i result
    rw [result]
  · rename_i result
    rw [result]

theorem callOn_registry {clients : List ClientNode} {ptr : Nat} {target : ClientNode} {call : Call}
    (found : findAt clients ptr = some target) (valid : call.Valid) :
    ∃ next, callOn clients ptr call = .ok next ∧ ∀ other, registryAt next other =
      if other = ptr then some (target.client.registry.after call)
      else registryAt clients other := by
  obtain ⟨⟨rc, world⟩, ran⟩ := Call.run_valid (target.world ()) valid
  refine ⟨updateAt clients ptr world, by simp only [callOn, found, ran], fun other => ?_⟩
  rw [registryAt_updateAt, found, Option.map_some, Call.run_registry ran]
  rfl

theorem callOn_keeps_iff {clients : List ClientNode} {ptr self : Nat} {call : Call}
    (valid : call.Valid) (apart : ptr ≠ self) :
    (∃ next, callOn clients ptr call = .ok next ∧
      ∀ other, other ≠ self → registryAt next other = registryAt clients other) ↔
    ∃ target, findAt clients ptr = some target ∧
      target.client.registry.after call = target.client.registry := by
  cases found : findAt clients ptr with
  | none => simp [callOn, found]
  | some target =>
      obtain ⟨next, called, registries⟩ := callOn_registry found valid
      have before : registryAt clients ptr = some target.client.registry := by
        rw [registryAt, found]
        rfl
      rw [called]
      constructor
      · rintro ⟨_, ⟨⟩, kept⟩
        have same := kept ptr apart
        rw [registries, if_pos rfl, before] at same
        exact ⟨target, rfl, Option.some.inj same⟩
      · rintro ⟨_, ⟨⟩, same⟩
        refine ⟨next, rfl, fun other _ => ?_⟩
        rw [registries, same]
        split
        · rename_i hit
          rw [hit, before]
        · rfl

theorem config0WriteCb_calls (table : Fin 6 → BarEntry) (space : ConfigSpace) (addr : BitVec 64)
    (data : Bytes) (length : Int) :
    (config0WriteCb table space addr data length).2 = [] ∨ ∃ bar barIdx,
      (config0WriteCb table space addr data length).2 =
        [.registerBar bar (table barIdx).size barIdx (table barIdx).readCb
          (table barIdx).writeCb] := by
  simp only [config0WriteCb]
  split
  · exact .inl rfl
  · split
    · simp only [handleConfigBarWrite]
      split
      · exact .inr ⟨_, _, rfl⟩
      · exact .inl rfl
    · exact .inl rfl

section

variable {table : Fin 6 → BarEntry} {bars : BarMemory μ}

theorem deviceCallbacks_read_calls (cb : FnPtr) (device : MockDevice μ) (addr : BitVec 64)
    (length : Int) :
    ((deviceCallbacks table bars).read cb device addr length).calls = [] := by
  simp only [deviceCallbacks]
  split <;> rfl

theorem deviceCallbacks_write_calls {cb : FnPtr} (other : cb ≠ config0WritePtr)
    (device : MockDevice μ) (addr : BitVec 64) (data : Bytes) (length : Int) :
    ((deviceCallbacks table bars).write cb device addr data length).calls = [] := by
  simp only [deviceCallbacks, if_neg other]
  split <;> rfl

/-- A packet that is no configuration write of four bytes, on a client whose BARs do not route their
writes to the callback for configuration writes. -/
def NoConfigWrite (node : ClientNode) : Prop :=
  (tlpTypeOf (node.sock.incoming.drop Transport.tTlp) ≠ some .cw0 ∨
    tlpDataLengthBytes (node.sock.incoming.drop Transport.tTlp) ≠ 4) ∧
    ∀ barIdx, node.client.barWriteCb barIdx ≠ some config0WritePtr

theorem config0Write_short {length : Int} (short : length ≠ 4) (device : MockDevice μ)
    (addr : BitVec 64) (data : Bytes) :
    ((deviceCallbacks table bars).write config0WritePtr device addr data length).calls = [] := by
  simp only [deviceCallbacks, config0WriteCb, if_pos, ne_eq, short, not_false_eq_true, or_true]

theorem invoked_own {process : Process (MockDevice μ)} {node : ClientNode} {calls : List Call}
    {shared : Shared (MockDevice μ)}
    (safe : process.app.devClient = node.ptr ∨ NoConfigWrite node)
    (invoked : Invoked (mockApplication table bars).callbacks node.client.registry
      (node.sock.incoming.drop Transport.tTlp) (process.shared node.ptr) calls shared) :
    shared.clients = .ok process.server.clients := by
  have nothing {calls : List Call} (none : calls = []) (ptr : Nat) :
      ∀ call ∈ calls.map (Prod.mk ptr), call.1 = node.ptr := by
    rw [none]
    exact List.forall_mem_nil _
  cases invoked with
  | read cb addr length => exact clients_after (nothing (deviceCallbacks_read_calls ..) _) _
  | completion cb data length => exact clients_after (List.forall_mem_nil _) _
  | write cb addr data length routed =>
      by_cases config : cb = config0WritePtr
      · subst config
        rcases safe with latest | ⟨other, plain⟩
        · refine clients_after (fun call member => ?_) _
          obtain ⟨request, -, rfl⟩ := List.mem_map.mp member
          exact latest
        · rcases routed with ⟨barIdx, bar⟩ | ⟨⟨type, size⟩, -⟩
          · exact absurd bar (plain barIdx)
          · have short : length ≠ 4 := by
              rw [size]
              exact other.resolve_left (not_not.mpr type)
            exact clients_after (nothing (config0Write_short short ..) _) _
      · exact clients_after (nothing (deviceCallbacks_write_calls config ..) _) _

theorem isolated_of_safe {process : Process (MockDevice μ)} {node : ClientNode}
    (safe : process.app.devClient = node.ptr ∨ NoConfigWrite node) :
    Isolated (mockApplication table bars) process node := by
  intro world ran
  have reached : world.app.clients = .ok process.server.clients := by
    rcases clientRead_reregistered ran with ⟨same, -⟩ | ⟨calls, invoked, -⟩
    · rw [same]
      rfl
    · exact invoked_own safe invoked
  exact (isolated_iff ran).mpr ⟨_, reached, fun _ _ => rfl⟩ world ran

def configCalls (table : Fin 6 → BarEntry) (device : MockDevice μ) (addr : BitVec 64)
    (data : Bytes) :
    List Call :=
  (config0WriteCb table device.space addr data data.length).2

def BarEntry.registration (entry : BarEntry) (barIdx : Fin 6) (value : BitVec 32) : Call :=
  .registerBar ((barAddr entry.toBarConfig value).setWidth 64) entry.size barIdx
    entry.readCb entry.writeCb

structure SetsBar (addr : BitVec 64) (data : Bytes) (barIdx : Fin 6) : Prop where
  aligned : addr &&& 3 = 0
  whole : data.length = 4
  bar : barIdx? addr = some barIdx
  value : ofLittleEndian 32 4 data ≠ 0xffffffff

theorem mem_configCalls {table : Fin 6 → BarEntry} {device : MockDevice μ} {addr : BitVec 64}
    {data : Bytes} {call : Call} :
    call ∈ configCalls table device addr data ↔ ∃ barIdx, SetsBar addr data barIdx ∧
      call = (table barIdx).registration barIdx (ofLittleEndian 32 4 data) := by
  rw [configCalls, config0WriteCb]
  constructor
  · intro member
    split at member
    · cases member
    · rename_i whole
      rw [not_or, not_not, not_not] at whole
      split at member
      · rename_i barIdx bar
        simp only [handleConfigBarWrite] at member
        split at member
        · rename_i value
          exact ⟨barIdx, ⟨whole.1, by exact_mod_cast whole.2, bar, value⟩,
            List.mem_singleton.mp member⟩
        · cases member
      · cases member
  · rintro ⟨barIdx, ⟨aligned, whole, bar, value⟩, rfl⟩
    have whole : (data.length : Int) = 4 := congrArg Nat.cast whole
    rw [if_neg (not_or.mpr ⟨not_not.mpr aligned, not_not.mpr whole⟩), bar]
    simp only [handleConfigBarWrite, if_pos value]
    exact List.mem_singleton.mpr rfl

theorem configCalls_cases (table : Fin 6 → BarEntry) (device : MockDevice μ) (addr : BitVec 64)
    (data : Bytes) :
    configCalls table device addr data = [] ∨ ∃ bar barIdx, configCalls table device addr data =
      [.registerBar bar (table barIdx).size barIdx (table barIdx).readCb (table barIdx).writeCb] :=
  config0WriteCb_calls table device.space addr data _

theorem runCalls_configCalls {τ : Type} (world : World τ) (device : MockDevice μ) (addr : BitVec 64)
    (data : Bytes) (self : Nat) :
    ∃ next, runCalls world (ownCalls self
      ((configCalls table device addr data).map fun call => (device.devClient, call))) =
        .ok next := by
  refine runCalls_valid world fun call member => ?_
  simp only [ownCalls, List.mem_map, List.mem_filter] at member
  obtain ⟨pair, ⟨⟨request, inside, rfl⟩, -⟩, rfl⟩ := member
  rcases configCalls_cases table device addr data with none | ⟨bar, barIdx, one⟩
  · rw [none] at inside
    cases inside
  · rw [one, List.mem_singleton] at inside
    rw [inside]
    trivial

section

variable {process : Process (MockDevice μ)} {node : ClientNode} {packet rest : Bytes}
  {later : List RecvStep} {addr : BitVec 64} {data : Bytes}
  (registered : node.client.cfg0WriteCb = some config0WritePtr)
  (next : Next node.sock packet rest later) (carries : Carries packet (.write .config0 addr data))

include registered next carries

theorem clientRead_configWrite :
    ∃ world, warppipeClientRead (mockApplication table bars).callbacks
        (node.world (process.shared node.ptr)) = .ok world ∧
      world.app.clients = callsOn process.server.clients
        (((configCalls table process.app addr data).map fun call =>
          (process.app.devClient, call)).filter fun call => call.1 ≠ node.ptr) := by
  obtain ⟨pkt, -, read⟩ := clientRead_serve (mockApplication table bars).callbacks
    (show Arrives (node.world (process.shared node.ptr)).sock packet rest later
      from carries.arrives next) carries
  have route : ((node.world (process.shared node.ptr)).acked packet rest later).client.cfg0WriteCb =
      some config0WritePtr := by
    rw [World.acked, push_client]
    split <;> exact registered
  have app : ((node.world (process.shared node.ptr)).acked packet rest later).app =
      process.shared node.ptr :=
    push_app _ _
  simp only [serve, Client.writeRoute, route, aligned_add_misalignment, invokeWrite, app] at read
  obtain ⟨final, ran⟩ := runCalls_configCalls
    ({ (node.world (process.shared node.ptr)).acked packet rest later with
      app :=
        ((mockApplication table bars).callbacks.write config0WritePtr
          (process.shared node.ptr) addr data
        data.length).app }.emit (.writeCb config0WritePtr addr data data.length))
    process.app addr data node.ptr
  refine ⟨final, read.trans ran, ?_⟩
  rw [(CallSteps.undisturbed (runCalls_ok ran)).app]
  rfl

theorem configWrite_isolated_iff :
    Isolated (mockApplication table bars) process node ↔ process.app.devClient = node.ptr ∨
      ∀ barIdx, SetsBar addr data barIdx → ∃ target,
        findAt process.server.clients process.app.devClient = some target ∧
          target.client.registry.after
            ((table barIdx).registration barIdx (ofLittleEndian 32 4 data)) =
            target.client.registry := by
  have spelled (holds : Call → Prop) : (∀ barIdx, SetsBar addr data barIdx →
      holds ((table barIdx).registration barIdx (ofLittleEndian 32 4 data))) ↔
        ∀ call ∈ configCalls table process.app addr data, holds call := by
    refine ⟨fun all call member => ?_, fun all barIdx sets =>
      all _ (mem_configCalls.mpr ⟨barIdx, sets, rfl⟩)⟩
    obtain ⟨barIdx, sets, rfl⟩ := mem_configCalls.mp member
    exact all barIdx sets
  rw [spelled fun call => ∃ target,
    findAt process.server.clients process.app.devClient = some target ∧
    target.client.registry.after call = target.client.registry]
  obtain ⟨world, ran, reached⟩ := clientRead_configWrite registered next carries
  by_cases latest : process.app.devClient = node.ptr
  · exact iff_of_true (isolated_of_safe (.inl latest)) (.inl latest)
  rw [isolated_iff ran, reached, or_iff_right latest]
  rcases configCalls_cases table process.app addr data with none | ⟨bar, barIdx, one⟩
  · rw [none]
    exact iff_of_true ⟨_, rfl, fun _ _ => rfl⟩ (List.forall_mem_nil _)
  · have made : callsOn process.server.clients (((configCalls table process.app addr data).map
        fun call => (process.app.devClient, call)).filter fun call => call.1 ≠ node.ptr) =
          callOn process.server.clients process.app.devClient
            (.registerBar bar (table barIdx).size barIdx
            (table barIdx).readCb (table barIdx).writeCb) := by
      rw [one, List.map_singleton, List.filter_singleton]
      simp only [ne_eq, latest, not_false_eq_true, decide_true, cond_true]
      exact callsOn_singleton _ _ _
    rw [made, one]
    simp only [List.mem_singleton, forall_eq]
    exact callOn_keeps_iff trivial latest

end

end

/-! Runs: connections come and go, and each reads at any time. -/

/-- The mock with its server and, beside it, the address of the client that was accepted last. -/
structure MockServer (μ : Type) where
  process : Process (MockDevice μ)
  latest : Option Nat

inductive MockServerInput where
  | accept (env : AcceptEnv)
  | disconnect (condition : Option (ClientNode → Bool))
  | read (ptr : Nat)
  | network (ptr : Nat) (sock : Socket)

def mockServerStep (table : Fin 6 → BarEntry) (bars : BarMemory μ) (state : MockServer μ) :
    MockServerInput → Outcome (MockServer μ)
  | .accept env =>
    (serverAccept (mockApplication table bars) state.process env).map fun (rc, process) =>
      { process := process, latest := if rc = 0 then env.client.map Prod.fst else state.latest }
  | .disconnect condition =>
    .ok { state with process := warppipeServerDisconnectClients state.process condition }
  | .read ptr =>
    match findAt state.process.server.clients ptr with
    | none => .ok state
    | some node => (clientReadAt (mockApplication table bars) state.process node).map fun process =>
        { state with process := process }
  | .network ptr sock =>
    let clients := Keyed.update ClientNode.ptr state.process.server.clients ptr fun node =>
      { node with sock := sock }
    .ok { state with process := state.process.withClients clients }

def FreshAccept (state : MockServer μ) : MockServerInput → Prop
  | .accept env =>
      ∀ ptr memory, env.client = some (ptr, memory) → findAt state.process.server.clients ptr = none
  | _ => True

structure MockServer.Fresh (state : MockServer μ) : Prop where
  clients : state.process.server.clients = []
  latest : state.latest = none
  acceptCb : state.process.server.acceptCb = some serverClientAcceptPtr

def Registry.Served (registry : Registry) : Prop :=
  registry.cfg0WriteCb = some config0WritePtr ∧
  ∀ barIdx, registry.barWriteCb barIdx ≠ some config0WritePtr

def AllServed (clients : List ClientNode) : Prop :=
  ∀ ptr registry, registryAt clients ptr = some registry → registry.Served

structure MockServer.Sound (state : MockServer μ) : Prop where
  acceptCb : state.process.server.acceptCb = some serverClientAcceptPtr
  served : AllServed state.process.server.clients
  latest : state.latest = some state.process.app.devClient ∨
    ∀ ptr, registryAt state.process.server.clients ptr = none

def SharedServed (dev : Nat) (shared : Shared (MockDevice μ)) : Prop :=
  shared.app.devClient = dev ∧ ∀ clients, shared.clients = .ok clients → AllServed clients

def FromTable (table : Fin 6 → BarEntry) (call : Call) : Prop :=
  ∃ bar barIdx, call =
    .registerBar bar (table barIdx).size barIdx (table barIdx).readCb (table barIdx).writeCb

section

variable {table : Fin 6 → BarEntry} {bars : BarMemory μ}
  (plain : ∀ barIdx, (table barIdx).writeCb ≠ some config0WritePtr)

theorem config0WriteCb_fromTable {space : ConfigSpace} {addr : BitVec 64} {data : Bytes}
    {length : Int} {call : Call} (member : call ∈ (config0WriteCb table space addr data length).2) :
    FromTable table call := by
  rcases config0WriteCb_calls table space addr data length with none | ⟨bar, barIdx, one⟩
  · rw [none] at member
    cases member
  · rw [one, List.mem_singleton] at member
    exact ⟨bar, barIdx, member⟩

theorem write_fromTable {cb : FnPtr} {device : MockDevice μ} {self : Nat} {addr : BitVec 64}
    {data : Bytes} {length : Int} {call : Nat × Call}
    (member : call ∈ ((mockApplication table bars).write cb device self addr data length).calls) :
    FromTable table call.2 := by
  obtain ⟨request, inside, rfl⟩ := List.mem_map.mp member
  by_cases config : cb = config0WritePtr
  · simp only [deviceCallbacks, if_pos config] at inside
    exact config0WriteCb_fromTable inside
  · rw [deviceCallbacks_write_calls config] at inside
    cases inside

theorem read_devClient (cb : FnPtr) (device : MockDevice μ) (self : Nat) (addr : BitVec 64)
    (length : Int) :
    ((mockApplication table bars).read cb device self addr length).app.devClient =
      device.devClient := by
  simp only [mockApplication, deviceCallbacks]
  split <;> rfl

theorem write_devClient (cb : FnPtr) (device : MockDevice μ) (self : Nat) (addr : BitVec 64)
    (data : Bytes) (length : Int) :
    ((mockApplication table bars).write cb device self addr data length).app.devClient =
      device.devClient := by
  simp only [mockApplication, deviceCallbacks]
  split
  · rfl
  · split <;> rfl

include plain

theorem Registry.Served.after {registry : Registry} (served : registry.Served) {call : Call}
    (fromTable : FromTable table call) : (registry.after call).Served := by
  obtain ⟨bar, barIdx, rfl⟩ := fromTable
  simp only [Registry.after]
  split
  · exact served
  · split
    · exact served
    · refine ⟨served.1, fun other => ?_⟩
      simp only [Function.update_apply]
      split
      · exact plain barIdx
      · exact served.2 other

theorem callsOn_served {clients next : List ClientNode} {calls : List (Nat × Call)}
    (all : ∀ call ∈ calls, FromTable table call.2) (served : AllServed clients)
    (ok : callsOn clients calls = .ok next) : AllServed next := by
  induction calls generalizing clients with
  | nil =>
      cases ok
      exact served
  | cons call rest ih =>
      simp only [callsOn] at ok
      cases found : findAt clients call.1 with
      | none => simp [callOn, found] at ok
      | some target =>
          have fromTable := all call (by simp)
          have valid : call.2.Valid := by
            obtain ⟨bar, barIdx, same⟩ := fromTable
            rw [same]
            trivial
          obtain ⟨middle, called, registries⟩ := callOn_registry found valid
          rw [called] at ok
          refine ih (fun other member => all other (List.mem_cons_of_mem _ member)) ?_ ok
          intro ptr registry hit
          rw [registries] at hit
          split at hit
          · cases hit
            refine Registry.Served.after plain (served call.1 _ ?_) fromTable
            rw [registryAt, found]
            rfl
          · exact served ptr registry hit

theorem SharedServed.after {dev : Nat} {shared : Shared (MockDevice μ)}
    (served : SharedServed dev shared) {app : MockDevice μ}
    (same : app.devClient = shared.app.devClient) {calls : List (Nat × Call)}
    (all : ∀ call ∈ calls, FromTable table call.2) : SharedServed dev (shared.after app calls) := by
  refine ⟨same.trans served.1, fun clients reached => ?_⟩
  cases before : shared.clients with
  | error fault => simp [Shared.after, before, Except.bind] at reached
  | ok old =>
      simp only [Shared.after, before, Except.bind] at reached
      exact callsOn_served plain (fun call member => all call (List.mem_filter.mp member).1)
        (served.2 old before) reached

theorem callbacks_keep_served (dev : Nat) :
    (mockApplication table bars).callbacks.Keep (SharedServed dev) := by
  have nothing {calls : List (Nat × Call)} (none : calls = []) : ∀ call ∈ calls,
      FromTable table call.2 := by
    rw [none]
    exact List.forall_mem_nil _
  refine ⟨fun cb shared addr length served => ?_, fun cb shared addr data length served => ?_,
    fun cb shared errorCode data length served => ?_⟩
  · refine served.after plain (read_devClient ..) (nothing ?_)
    simp only [mockApplication, deviceCallbacks_read_calls, List.map_nil]
  · exact served.after plain (write_devClient ..) fun call member => write_fromTable member
  · exact served.after plain rfl (nothing rfl)

theorem served_foldl {registry : Registry} (served : registry.Served) {calls : List Call}
    (all : ∀ call ∈ calls, FromTable table call) :
    (calls.foldl Registry.after registry).Served := by
  induction calls generalizing registry with
  | nil => exact served
  | cons call rest ih =>
      exact ih (served.after plain (all call (by simp))) fun other member =>
        all other (List.mem_cons_of_mem _ member)

theorem clientRead_served {node : ClientNode} {shared : Shared (MockDevice μ)}
    (served : node.client.registry.Served) {world : World (Shared (MockDevice μ))}
    (ran : warppipeClientRead (mockApplication table bars).callbacks
      (node.world shared) = .ok world) :
    world.client.registry.Served := by
  rcases clientRead_reregistered ran with ⟨-, same⟩ | ⟨calls, invoked, registry⟩
  · rw [same]
    exact served
  · rw [registry]
    refine served_foldl plain served ?_
    have own {self : Nat} {requests : List (Nat × Call)}
        (all : ∀ call ∈ requests, FromTable table call.2) :
        ∀ call ∈ ownCalls self requests, FromTable table call := by
      intro call member
      obtain ⟨request, inside, rfl⟩ := List.mem_map.mp member
      exact all request (List.mem_filter.mp inside).1
    generalize world.app = app at invoked
    cases invoked with
    | read cb addr length =>
        refine own fun call member => ?_
        simp only [mockApplication, deviceCallbacks_read_calls, List.map_nil] at member
        cases member
    | write cb addr data length routed => exact own fun call member => write_fromTable member
    | completion cb data length =>
        exact own (List.forall_mem_nil _)

theorem clientReadAt_served {process next : Process (MockDevice μ)} {node : ClientNode} {ptr : Nat}
    (served : AllServed process.server.clients)
    (found : findAt process.server.clients ptr = some node)
    (ok : clientReadAt (mockApplication table bars) process node = .ok next) :
    AllServed next.server.clients ∧ next.app.devClient = process.app.devClient ∧
      next.server.acceptCb = process.server.acceptCb := by
  obtain ⟨-, rfl⟩ := Keyed.find_some found
  simp only [clientReadAt, bind, Except.bind, pure, Except.pure] at ok
  split at ok
  · cases ok
  · rename_i world ran
    split at ok
    · cases ok
    · rename_i clients reached
      cases ok
      have start : SharedServed process.app.devClient (process.shared node.ptr) := by
        refine ⟨rfl, fun clients same => ?_⟩
        cases same
        exact served
      obtain ⟨dev, others⟩ := clientRead_app (callbacks_keep_served plain _) start ran
      refine ⟨fun ptr registry hit => ?_, dev, rfl⟩
      have own : node.client.registry.Served := served node.ptr _ (by rw [registryAt, found]; rfl)
      rw [registryAt_updateAt] at hit
      split at hit
      · obtain ⟨_, -, rfl⟩ := Option.map_eq_some_iff.mp hit
        exact clientRead_served plain own ran
      · exact others clients reached ptr registry hit

end

theorem findAt_append {clients : List ClientNode} {node : ClientNode}
    (fresh : findAt clients node.ptr = none) :
    findAt (clients ++ [node]) node.ptr = some node := by
  rw [findAt, Keyed.find, List.find?_append, show clients.find? _ = none from fresh]
  simp

theorem findAt_append_of_ne {clients : List ClientNode} {node : ClientNode} {ptr : Nat}
    (other : ptr ≠ node.ptr) :
    findAt (clients ++ [node]) ptr = findAt clients ptr := by
  rw [findAt, findAt, Keyed.find, Keyed.find, List.find?_append]
  simp [other.symm]

theorem callsOn_registry {clients : List ClientNode} {ptr : Nat} {registry : Registry}
    {calls : List Call} (found : registryAt clients ptr = some registry)
    (valid : ∀ call ∈ calls, call.Valid) :
    ∃ next, callsOn clients (calls.map fun call => (ptr, call)) = .ok next ∧
      ∀ other, registryAt next other =
      if other = ptr then some (calls.foldl Registry.after registry)
      else registryAt clients other := by
  induction calls generalizing clients registry with
  | nil =>
      refine ⟨clients, rfl, fun other => ?_⟩
      split
      · rename_i hit
        rw [hit, found]
        rfl
      · rfl
  | cons call rest ih =>
      obtain ⟨target, hit, rfl⟩ := Option.map_eq_some_iff.mp found
      obtain ⟨middle, called, registries⟩ := callOn_registry hit (valid call (by simp))
      have here := registries ptr
      rw [if_pos rfl] at here
      obtain ⟨next, ran, later⟩ :=
        ih here fun other member => valid other (List.mem_cons_of_mem _ member)
      refine ⟨next, by simp only [List.map_cons, callsOn, called, ran], fun other => ?_⟩
      rw [later]
      split
      · rfl
      · rename_i apart
        rw [registries, if_neg apart]

theorem acceptCalls_served (memory : Client) (fd : Int) (ptr : Nat) (sock : Socket)
    {clients : List ClientNode} (fresh : findAt clients ptr = none) (served : AllServed clients) :
    ∃ next, callsOn (clients ++ [⟨ptr, warppipeClientCreate memory fd, sock⟩])
        (acceptCalls.map fun call => (ptr, call)) = .ok next ∧ AllServed next := by
  have here : registryAt (clients ++ [⟨ptr, warppipeClientCreate memory fd, sock⟩]) ptr =
      some (warppipeClientCreate memory fd).registry := by
    rw [registryAt, findAt_append fresh]
    rfl
  have valid : ∀ call ∈ acceptCalls, call.Valid := by
    intro call member
    simp only [acceptCalls, List.mem_cons, List.not_mem_nil, or_false] at member
    rcases member with rfl | rfl <;> trivial
  obtain ⟨next, ran, registries⟩ := callsOn_registry here valid
  refine ⟨next, ran, fun other registry hit => ?_⟩
  rw [registries] at hit
  split at hit
  · cases hit
    refine ⟨rfl, fun barIdx => ?_⟩
    simp [acceptCalls, Registry.after, Client.registry, warppipeClientCreate]
  · rename_i apart
    rw [registryAt, findAt_append_of_ne apart] at hit
    exact served other registry hit

section

variable {table : Fin 6 → BarEntry} {bars : BarMemory μ}

structure AcceptedByMock (process : Process (MockDevice μ)) (env : AcceptEnv) (rc : Int)
    (next : Process (MockDevice μ)) : Prop where
  acceptCb : next.server.acceptCb = some serverClientAcceptPtr
  served : AllServed next.server.clients
  latest : (rc = -1 ∧ next.server.clients = process.server.clients ∧ next.app = process.app) ∨
    rc = 0 ∧ env.client.map Prod.fst = some next.app.devClient

section

variable {process next : Process (MockDevice μ)} {env : AcceptEnv} {rc : Int}
  (acceptCb : process.server.acceptCb = some serverClientAcceptPtr)
  (served : AllServed process.server.clients)
  (fresh : ∀ ptr memory, env.client = some (ptr, memory) → findAt process.server.clients ptr = none)

include acceptCb served fresh

theorem insertClient_mocked {fd : Int}
    (ok : insertClient (mockApplication table bars) process fd env = .ok (rc, next)) :
    AcceptedByMock process env rc next := by
  simp only [insertClient] at ok
  split at ok
  · cases ok
    exact ⟨acceptCb, served, .inl ⟨rfl, rfl, rfl⟩⟩
  · rename_i ptr memory allocated
    split at ok
    · obtain ⟨clients, ran, all⟩ :=
        acceptCalls_served memory fd ptr env.sock (fresh ptr memory allocated) served
      simp only [acceptCb, mockApplication, if_true, bind, Except.bind, pure, Except.pure] at ok
      rw [ran] at ok
      cases ok
      refine ⟨rfl, all, .inr ⟨rfl, ?_⟩⟩
      rw [allocated]
      rfl
    · cases ok
      exact ⟨acceptCb, served, .inl ⟨rfl, rfl, rfl⟩⟩

theorem serverAccept_mocked
    (ok : serverAccept (mockApplication table bars) process env = .ok (rc, next)) :
    AcceptedByMock process env rc next := by
  have nothing : AcceptedByMock process env (-1) process := ⟨acceptCb, served, .inl ⟨rfl, rfl, rfl⟩⟩
  simp only [serverAccept] at ok
  split at ok
  · split at ok
    · cases ok
      exact nothing
    · split at ok
      · have opened : (process.openFd env.fd).server.acceptCb = some serverClientAcceptPtr :=
          acceptCb
        obtain ⟨kept, all, latest⟩ := insertClient_mocked opened served fresh ok
        exact ⟨kept, all, latest⟩
      · cases ok
        exact ⟨acceptCb, served, .inl ⟨rfl, rfl, rfl⟩⟩
  · split at ok
    · exact insertClient_mocked acceptCb served fresh ok
    · cases ok
      exact nothing

end

theorem disconnect_registries (process : Process σ) (condition : Option (ClientNode → Bool)) :
    (warppipeServerDisconnectClients process condition).server.acceptCb = process.server.acceptCb ∧
    ∀ ptr registry,
      registryAt (warppipeServerDisconnectClients process condition).server.clients ptr =
      some registry → registryAt process.server.clients ptr = some registry := by
  refine List.foldlRecOn (motive := fun current : Process σ =>
    current.server.acceptCb = process.server.acceptCb ∧
      ∀ ptr registry, registryAt current.server.clients ptr = some registry →
        registryAt process.server.clients ptr = some registry)
    process.server.clients _ ⟨rfl, fun _ _ hit => hit⟩ ?_
  rintro current ⟨acceptCb, kept⟩ node -
  split
  · refine ⟨acceptCb, fun ptr registry hit => kept ptr registry ?_⟩
    obtain ⟨found, left, rfl⟩ := Option.map_eq_some_iff.mp hit
    have before : findAt current.server.clients ptr = some found := Keyed.find_of_remove left
    rw [registryAt, before]
    rfl
  · exact ⟨acceptCb, kept⟩

theorem registryAt_network (clients : List ClientNode) (ptr other : Nat) (sock : Socket) :
    registryAt (Keyed.update ClientNode.ptr clients ptr fun node =>
      { node with sock := sock }) other = registryAt clients other := by
  have keeps (node : ClientNode) : ({ node with sock := sock } : ClientNode).ptr = node.ptr := rfl
  rw [registryAt, findAt, Keyed.find_update keeps]
  split
  · rename_i same
    subst same
    rw [Option.map_map]
    rfl
  · rfl

theorem mockServerStep_sound (plain : ∀ barIdx, (table barIdx).writeCb ≠ some config0WritePtr)
    {state next : MockServer μ} {input : MockServerInput} (sound : state.Sound)
    (fresh : FreshAccept state input) (ok : mockServerStep table bars state input = .ok next) :
    next.Sound := by
  cases input with
  | accept env =>
      simp only [mockServerStep] at ok
      cases came : serverAccept (mockApplication table bars) state.process env with
      | error fault => simp [came, Except.map] at ok
      | ok outcome =>
          obtain ⟨rc, process⟩ := outcome
          simp only [came, Except.map, Except.ok.injEq] at ok
          rw [← ok]
          obtain ⟨acceptCb, served, latest⟩ :=
            serverAccept_mocked sound.acceptCb sound.served fresh came
          refine ⟨acceptCb, served, ?_⟩
          rcases latest with ⟨rfl, clients, app⟩ | ⟨rfl, dev⟩
          · simp only [clients, app]
            exact sound.latest
          · exact .inl dev
  | disconnect condition =>
      cases ok
      obtain ⟨acceptCb, kept⟩ := disconnect_registries state.process condition
      have app := disconnect_app state.process condition
      refine ⟨acceptCb.trans sound.acceptCb, fun ptr registry hit =>
        sound.served _ _ (kept _ _ hit), ?_⟩
      rcases sound.latest with latest | none
      · left
        simp only [app]
        exact latest
      · right
        intro ptr
        rw [Option.eq_none_iff_forall_ne_some]
        intro registry hit
        have before := kept _ _ hit
        rw [none] at before
        cases before
  | read ptr =>
      simp only [mockServerStep] at ok
      split at ok
      · cases ok
        exact sound
      · rename_i node found
        cases read : clientReadAt (mockApplication table bars) state.process node with
        | error fault => simp [read, Except.map] at ok
        | ok process =>
            simp only [read, Except.map, Except.ok.injEq] at ok
            rw [← ok]
            obtain ⟨served, dev, acceptCb⟩ := clientReadAt_served plain sound.served found read
            refine ⟨acceptCb.trans sound.acceptCb, served, .inl ?_⟩
            rw [dev]
            refine sound.latest.resolve_right fun none => ?_
            have empty := none ptr
            rw [registryAt, found] at empty
            cases empty
  | network ptr sock =>
      cases ok
      refine ⟨sound.acceptCb, fun other registry hit => ?_,
        sound.latest.imp id fun none other => ?_⟩
      · rw [Process.withClients, registryAt_network] at hit
        exact sound.served other registry hit
      · rw [Process.withClients, registryAt_network]
        exact none other

/-- Whatever connections came, went and sent before: a configuration write on a connection leaves
the registrations of the others alone, and freed clients untouched, exactly when that connection was
accepted last or the write registers nothing. No other packet reaches another connection. -/
theorem config_write_isolated_iff (plain : ∀ barIdx, (table barIdx).writeCb ≠ some config0WritePtr)
    {start state : MockServer μ} (new : start.Fresh) {inputs : List MockServerInput}
    (fresh : Runs.Along (mockServerStep table bars) FreshAccept start inputs)
    (ok : Runs.run (mockServerStep table bars) start inputs = .ok state) {node : ClientNode}
    (listed : findAt state.process.server.clients node.ptr = some node) :
    (tlpTypeOf (node.sock.incoming.drop Transport.tTlp) ≠ some .cw0 ∨
        tlpDataLengthBytes (node.sock.incoming.drop Transport.tTlp) ≠ 4 →
      Isolated (mockApplication table bars) state.process node) ∧
    ∀ packet rest later addr data, Next node.sock packet rest later →
      Carries packet (.write .config0 addr data) →
      (Isolated (mockApplication table bars) state.process node ↔ state.latest = some node.ptr ∨
        ∀ barIdx, SetsBar addr data barIdx → ∃ target,
          findAt state.process.server.clients state.process.app.devClient = some target ∧
            target.client.registry.after
              ((table barIdx).registration barIdx (ofLittleEndian 32 4 data)) =
              target.client.registry) := by
  have first : start.Sound := by
    refine ⟨new.acceptCb, fun ptr registry hit => ?_, .inr fun ptr => by rw [new.clients]; rfl⟩
    rw [new.clients] at hit
    cases hit
  have sound : state.Sound := Runs.run_invariant
    (fun _ _ _ holds guard stepped => mockServerStep_sound plain holds guard stepped) first fresh ok
  have here : registryAt state.process.server.clients node.ptr = some node.client.registry := by
    rw [registryAt, listed]
    rfl
  obtain ⟨registered, bars⟩ := sound.served _ _ here
  have latest : state.latest = some state.process.app.devClient :=
    sound.latest.resolve_right fun none => by rw [none] at here; cases here
  refine ⟨fun other => isolated_of_safe (.inr ⟨other, bars⟩),
    fun packet rest later addr data next carries => ?_⟩
  rw [latest, Option.some.injEq]
  exact configWrite_isolated_iff registered next carries

end

def mockServer : MockServer MockMemory where
  process :=
    { openFds := {3}
      server := { fd := 3, listen := true, quit := false, maxFd := 3, readFds := ∅, clients := []
                  acceptCb := some serverClientAcceptPtr }
      app := { space := ⟨List.replicate 64 0, List.length_replicate⟩
               memory := zeroMemory, devClient := 0, fault := none }
      events := [] }
  latest := none

def barWrite : Bytes := sealTlp 1 (writeBlock (fun _ => 0) 0x10 [0, 0, 0, 0x10] .cw0)

theorem last_accepted_isolated :
    ∃ state node, Runs.run (mockServerStep mockTable mockBars) mockServer
        [.accept (acceptAt 4 1), .accept (acceptAt 5 2), .network 2 ⟨barWrite, [], []⟩] =
          .ok state ∧
      findAt state.process.server.clients 2 = some node ∧
      Isolated (mockApplication mockTable mockBars) state.process node := by
  obtain ⟨state, node, ran, found, ptr, latest, sock⟩ : ∃ state node,
      Runs.run (mockServerStep mockTable mockBars) mockServer
        [.accept (acceptAt 4 1), .accept (acceptAt 5 2), .network 2 ⟨barWrite, [], []⟩] =
          .ok state ∧
      findAt state.process.server.clients 2 = some node ∧ node.ptr = 2 ∧ state.latest = some 2 ∧
      node.sock = ⟨barWrite, [], []⟩ := ⟨_, _, rfl, rfl, rfl, rfl, rfl⟩
  have next : Next node.sock barWrite [] [] := by
    rw [sock]
    exact ⟨(List.append_nil _).symm, rfl⟩
  have carries : Carries barWrite (.write .config0 0x10 [0, 0, 0, 0x10]) :=
    carries_write .config0 1 _ ⟨by decide, by decide, by decide⟩
  refine ⟨state, node, ran, found, ((config_write_isolated_iff (by decide) ⟨rfl, rfl, rfl⟩ ?_ ran
    (by rw [ptr]; exact found)).2 _ _ _ _ _ next carries).mpr (.inl (by rw [ptr]; exact latest))⟩
  refine Runs.along_cons (fun _ _ _ => rfl) rfl
    (Runs.along_cons ?_ rfl ⟨trivial, fun _ _ => trivial⟩)
  intro ptr memory allocated
  cases allocated
  rfl

def firstBarAfter (inputs : List MockServerInput) (ptr : Nat) : Outcome (Option (BitVec 32)) :=
  (Runs.run (mockServerStep mockTable mockBars) mockServer inputs).map fun state =>
    (registryAt state.process.server.clients ptr).map fun registry => registry.bar 0

/-- A configuration write on the first of two connections sets a BAR of the second, and none of its
own. Once the second is gone the write goes to a freed client. -/
theorem config_write_crosses :
    firstBarAfter [.accept (acceptAt 4 1), .accept (acceptAt 5 2),
      .network 1 ⟨barWrite, [], []⟩, .read 1] 1 = .ok (some 0) ∧
    firstBarAfter [.accept (acceptAt 4 1), .accept (acceptAt 5 2),
      .network 1 ⟨barWrite, [], []⟩, .read 1] 2 = .ok (some 0x10000000) ∧
    firstBarAfter [.accept (acceptAt 4 1), .accept (acceptAt 5 2),
      .disconnect (some fun node => node.ptr == 2), .network 1 ⟨barWrite, [], []⟩, .read 1] 1 =
        .error .outOfBounds := by
  decide +kernel

end WarpPipe
