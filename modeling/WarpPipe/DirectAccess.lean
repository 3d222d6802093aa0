import WarpPipe.EnumerateCore
import WarpPipe.Isolation

/-!
The connection is transparent to a host that waits for its reads: its program ends as if every
configuration access reached the mock at once, whatever turns the two sides take.
-/

namespace WarpPipe

open ByteLayout

variable {σ α β μ : Type}

structure Standing (σ : Type) where
  app : σ
  slots : Fin 32 → Option FnPtr
  registry : Registry
  active : Bool

def World.standing (world : World σ) : Standing σ :=
  ⟨world.app, world.client.completionCb, world.client.registry, world.client.active⟩

theorem Turned.standing {cbs : Callbacks σ} {before after : World σ} {popped pushed : List Parcel}
    (turned : Turned cbs before after popped pushed) :
    after.standing =
      { before.standing with app := after.view.app, slots := after.view.completionCb } := by
  have same := turned.routes
  simp only [Client.routes, Routes.mk.injEq] at same
  obtain ⟨active, bar, size, read, write, configRead, configWrite⟩ := same
  simp only [World.standing, World.view, Client.registry, active, bar, size, read,
    write, configRead, configWrite]

theorem Relayed.of_log {before after : World σ} {popped : List Parcel} {parcel : Parcel}
    {events : List Event} (log : after.log = before.log ++ parcel.sent :: events)
    (silent : events.flatMap Event.output = [])
    (incoming : before.sock.incoming = popped.flatMap Parcel.bytes ++ after.sock.incoming)
    (recvs : after.sock.recvs = []) (sends : after.sock.SendsAll) :
    Relayed before after popped [parcel] := by
  refine ⟨?_, incoming, recvs, sends⟩
  rw [transferred_sent log silent]
  exact (List.flatMap_singleton ..).symm

section

variable {world : World σ} (sends : world.sock.SendsAll) (recvs : world.sock.recvs = [])

include sends recvs

theorem empty_relays (cbs : Callbacks σ) (empty : world.sock.incoming = []) :
    ∃ after, warppipeClientRead cbs world = .ok after ∧ Relayed world after [] [] ∧
      after.standing = world.standing := by
  obtain ⟨after, read, turned⟩ := waiting_turn cbs sends recvs empty
  refine ⟨after, read, turned.relayed, turned.standing.trans ?_⟩
  obtain ⟨events, turn, -⟩ := turned.turn
  rw [turn.of_idle.2]
  rfl

theorem config0Read_relays {addr : BitVec 64} (access : Encodable addr 4) (cb : FnPtr) :
    ∃ after parcel, (Call.config0Read addr 4 (some cb)).run world = .ok (0, after) ∧
      parcel.content = .message (.read .config0 addr 4 world.client.readTag) ∧
      Relayed world after [] [parcel] ∧
      after.standing = { world.standing with
        slots := Function.update world.client.completionCb world.client.readTag (some cb) } := by
  have carries := carries_read .config0 (world.client.seqno + 1) world.client.readTag access
  have pushed := push_all (show (bumpSeqno (bumpTag world)).sock.SendsAll from sends)
    (readPacketOf world .cr0 addr 4)
  have kept := send_incoming world.sock (readPacketOf world .cr0 addr 4)
  rw [show (Call.config0Read addr 4 (some cb)).run world =
      warppipeReadImp world addr 4 (some cb) .cr0 from rfl,
    warppipeReadImp_eq world (Or.inr rfl), afterRead, pushed, if_neg (by simp only; omega)]
  refine ⟨_, messageParcel carries (show 4 ≤ 4095 by decide), rfl, rfl,
    .of_log (List.append_assoc _ _ _) rfl kept.1.symm (kept.2.trans recvs) (sends.send _).2, rfl⟩

theorem config0Write_relays (cbs : Callbacks σ) (junk : Nat → Byte) {addr : BitVec 64}
    {data : Bytes} (full : data.length = 4) (access : Encodable addr 4) :
    ∃ after parcel, (Call.config0Write junk addr data 4).run world = .ok (0, after) ∧
      parcel.content = .message (.write .config0 addr data) ∧ Relayed world after [] [parcel] ∧
      after.standing = world.standing := by
  obtain ⟨after, parcel, ran, content, turned⟩ :=
    writeImp_turn cbs sends recvs .config0 junk data (Nat.le_of_eq full.symm) access
  rw [List.take_of_length_le (by omega)] at content
  refine ⟨after, parcel, ran, content, turned.relayed, turned.standing.trans ?_⟩
  obtain ⟨events, turn, -⟩ := turned.turn
  generalize after.view = view at turn
  cases turn with
  | issuedRead _ _ _ _ _ said => cases content.symm.trans said
  | issuedWrite => rfl

end

section

variable {cbs : Callbacks σ} {world : World σ} {parcel : Parcel} {rest : Bytes}
variable (sends : world.sock.SendsAll) (next : Next world.sock parcel.bytes rest [])

include sends next

theorem ack_relays (content : parcel.content = .ack) :
    ∃ after, warppipeClientRead cbs world = .ok after ∧ Relayed world after [parcel] [] ∧
      after.standing = world.standing := by
  obtain ⟨after, read, turned⟩ := acknowledged_turn sends next content
  refine ⟨after, read, turned.relayed, turned.standing.trans ?_⟩
  obtain ⟨events, turn, -⟩ := turned.turn
  rw [(turn.of_ack content).1]
  rfl

theorem completion_relays {tag : Fin 32} {data : Bytes} {cb : FnPtr}
    (content : parcel.content = .message (.completion tag data))
    (stored : world.client.completionCb tag = some cb)
    (silent : ∀ app code data length, (cbs.completion cb app code data length).calls = []) :
    ∃ after, warppipeClientRead cbs world = .ok after ∧
      Relayed world after [parcel] [ackParcel parcel.bytes] ∧
      after.standing = { world.standing with
        app := (cbs.completion cb world.app 0 data data.length).app
        slots := Function.update world.client.completionCb tag none } := by
  obtain ⟨after, read, turned⟩ := ended_turn sends next content stored silent
  refine ⟨after, read, turned.relayed, turned.standing.trans ?_⟩
  obtain ⟨events, turn, -⟩ := turned.turn
  generalize after.view = view at turn
  cases turn with
  | passed _ _ said unserved =>
      cases content.symm.trans said
      rw [Unserved, stored] at unserved
      cases unserved
  | wrote _ _ _ _ _ _ said => cases content.symm.trans said
  | ended _ _ _ _ said found =>
      cases content.symm.trans said
      cases stored.symm.trans found
      rfl

theorem config0Read_answered {addr : BitVec 64} {length : Nat} {tag : Fin 32} {cb : FnPtr}
    {data : Bytes} (content : parcel.content = .message (.read .config0 addr length tag))
    (route : world.client.cfg0ReadCb = some cb)
    (silent : ∀ app offset length, (cbs.read cb app offset length).calls = [])
    (returned : cbs.read cb world.app addr length =
      { app := world.app, error := 0, data := data, calls := [] }) (full : data.length = length) :
    ∃ after answer, warppipeClientRead cbs world = .ok after ∧
      Relayed world after [parcel] [ackParcel parcel.bytes, answer] ∧
      answer.content = .message (.completion tag data) ∧ after.standing = world.standing := by
  have routed : world.client.readRoute .config0 (addr &&& ~~~3) = (some cb, addr &&& ~~~3) := by
    rw [Client.readRoute, route]
  obtain ⟨after, answer, read, turned⟩ := asked_turn sends next content routed silent
  obtain ⟨events, turn, -⟩ := turned.turn
  rw [← aligned_add_misalignment addr] at returned
  obtain ⟨other, said, pushed, view, -⟩ := turn.of_read content routed returned
  cases pushed
  refine ⟨after, answer, read, turned.relayed, ?_, turned.standing.trans ?_⟩
  · rw [said, answerOf, if_pos rfl, fillBuffer_full full]
  · rw [view]
    rfl

end

theorem registerBar_keeps (client : Client) (bar : BitVec 64) (barSize : BitVec 32) (barIdx : Fin 6)
    (readCb writeCb : Option FnPtr) :
    let after := (warppipeRegisterBar client bar barSize barIdx readCb writeCb).2
    after.completionCb = client.completionCb ∧ after.active = client.active := by
  simp only [warppipeRegisterBar]
  split
  · exact ⟨rfl, rfl⟩
  · split <;> exact ⟨rfl, rfl⟩

theorem runCalls_registers (world : World σ) {calls : List Call}
    (registers : ∀ call ∈ calls, ∃ bar barSize barIdx readCb writeCb,
      call = .registerBar bar barSize barIdx readCb writeCb) :
    ∃ client, runCalls world calls = .ok { world with client := client } ∧
      client.completionCb = world.client.completionCb ∧ client.active = world.client.active := by
  induction calls generalizing world with
  | nil => exact ⟨world.client, rfl, rfl, rfl⟩
  | cons call rest ih =>
      obtain ⟨bar, barSize, barIdx, readCb, writeCb, rfl⟩ := registers call (by simp)
      obtain ⟨client, ran, slots, active⟩ := ih
        { world with client := (warppipeRegisterBar world.client bar barSize barIdx
          readCb writeCb).2 }
        fun other member => registers other (List.mem_cons_of_mem _ member)
      obtain ⟨keptSlots, keptActive⟩ :=
        registerBar_keeps world.client bar barSize barIdx readCb writeCb
      exact ⟨client, ran, slots.trans keptSlots, active.trans keptActive⟩

theorem config0Write_registers {cbs : Callbacks σ} {world : World σ} {parcel : Parcel}
    {rest : Bytes} (sends : world.sock.SendsAll) (next : Next world.sock parcel.bytes rest [])
    {addr : BitVec 64} {data : Bytes} {cb : FnPtr}
    (content : parcel.content = .message (.write .config0 addr data))
    (route : world.client.cfg0WriteCb = some cb)
    (registers : ∀ call ∈ (cbs.write cb world.app addr data data.length).calls,
      ∃ bar barSize barIdx readCb writeCb, call = .registerBar bar barSize barIdx readCb writeCb) :
    ∃ after, warppipeClientRead cbs world = .ok after ∧
      Relayed world after [parcel] [ackParcel parcel.bytes] ∧
      after.standing = { world.standing with
        app := (cbs.write cb world.app addr data data.length).app
        registry := (cbs.write cb world.app addr data data.length).calls.foldl Registry.after
          world.client.registry } := by
  have said := parcel.carries
  rw [content] at said
  obtain ⟨pkt, -, read⟩ := clientRead_serve cbs (said.1.arrives next) said.1
  obtain ⟨sock, incoming, schedule, still, acked⟩ := acked_all sends parcel.bytes rest []
  have routed : (world.acked parcel.bytes rest []).client.writeRoute .config0 (addr &&& ~~~3) =
      (some cb, addr &&& ~~~3) := by
    rw [acked, Client.writeRoute]
    exact congrArg (Prod.mk · _) route
  simp only [serve, routed, invokeWrite, aligned_add_misalignment] at read
  rw [acked] at read
  obtain ⟨client, ran, slots, active⟩ := runCalls_registers
    (World.emit { client := { world.client with buf := world.client.buf.store 0 parcel.bytes }
                  sock := sock
                  app := (cbs.write cb world.app addr data data.length).app
                  log := world.log ++ [.packet parcel.bytes,
                    .sent (ackOf parcel.bytes) (ackOf parcel.bytes).length] }
      (.writeCb cb addr data data.length)) registers
  have registry := runCalls_registry ran
  refine ⟨_, read.trans ran, ⟨?_, ?_, schedule, still⟩, ?_⟩
  · rw [transferred, fresh_eq (List.append_assoc _ _ _)]
    simp [ackParcel, Event.output]
  · rw [next.stream, List.flatMap_singleton]
    exact congrArg _ incoming.symm
  · simp only [World.standing, slots, active, registry]
    rfl

/-! Direct access: every request takes effect at once. -/

/-- The mock with the registrations of its client, the registrations of the host, and the read that
the host is about to issue or has answered. -/
structure Direct (μ : Type) where
  mock : MockDevice μ × Registry
  hostRegistry : Registry
  readData : Option ReadComplData

def configWrite (table : Fin 6 → BarEntry) (mock : MockDevice μ × Registry)
    (access : BitVec 64 × Bytes) :
    MockDevice μ × Registry :=
  let (space, calls) := config0WriteCb table mock.1.space access.1 access.2 access.2.length
  ({ mock.1 with space := space }, calls.foldl Registry.after mock.2)

/-- `Exec table program direct steps value final`: with direct access the program returns `value`
after that many steps. -/
inductive Exec (table : Fin 6 → BarEntry) :
    HostProgram α → Direct μ → Nat → α → Direct μ → Prop where
  | done (value : α) (direct : Direct μ) : Exec table (.done value) direct 0 value direct
  | expect {readData : ReadComplData} {next : HostProgram α} {direct final : Direct μ} {steps : Nat}
      {value : α} (idle : direct.readData = none) (unfinished : readData.finished = false)
      (later : Exec table next { direct with readData := some readData } steps value final) :
      Exec table (.expect readData next) direct (steps + 1) value final
  | read {addr : BitVec 64} {next : Int → HostProgram α} {direct final : Direct μ} {steps : Nat}
      {value : α} {readData : ReadComplData} {data : Bytes} (access : Encodable addr 4)
      (expected : direct.readData = some readData) (unfinished : readData.finished = false)
      (answer : config0ReadCb direct.mock.1.space addr 4 = .ok (0, data))
      (later : Exec table (next 0) { direct with readData := some (readCompl readData 0 data 4) }
        steps value final) :
      Exec table (.call (.config0Read addr 4 (some readComplPtr)) next) direct
        (steps + 1) value final
  | write {junk : Nat → Byte} {addr : BitVec 64} {data : Bytes} {next : Int → HostProgram α}
      {direct final : Direct μ} {steps : Nat} {value : α} (access : Encodable addr 4)
      (full : data.length = 4) (idle : direct.readData = none)
      (later :
        Exec table (next 0) { direct with mock := configWrite table direct.mock (addr, data) } steps
        value final) :
      Exec table (.call (.config0Write junk addr data 4) next) direct (steps + 1) value final
  | register {bar : BitVec 64} {size : BitVec 32} {barIdx : Fin 6} {readCb writeCb : Option FnPtr}
      {next : Int → HostProgram α} {direct final : Direct μ} {steps : Nat} {value : α}
      (unset : direct.hostRegistry.bar barIdx = 0) (power : ¬(size = 0 ∨ size &&& (size - 1) ≠ 0))
      (idle : direct.readData = none) (later : Exec table (next 0) { direct with
        hostRegistry := direct.hostRegistry.after (.registerBar bar size barIdx readCb writeCb) }
          steps value final) :
      Exec table (.call (.registerBar bar size barIdx readCb writeCb) next) direct
        (steps + 1) value final
  | wait {next : Bool → ReadComplData → HostProgram α} {direct final : Direct μ} {steps : Nat}
      {value : α} {readData : ReadComplData} (expected : direct.readData = some readData)
      (finished : readData.finished = true)
      (later : Exec table (next false readData) { direct with readData := none } steps
        value final) :
      Exec table (.wait next) direct (steps + 1) value final

theorem Exec.bind {table : Fin 6 → BarEntry} {program : HostProgram α} {next : α → HostProgram β}
    {direct middle final : Direct μ} {first second : Nat} {value : α} {result : β}
    (head : Exec table program direct first value middle)
    (tail : Exec table (next value) middle second result final) :
    Exec table (program.bind next) direct (first + second) result final := by
  induction head with
  | done =>
      rw [Nat.zero_add]
      exact tail
  | expect idle unfinished later ih =>
      rw [Nat.add_right_comm]
      exact .expect idle unfinished (ih tail)
  | read access expected unfinished answer later ih =>
      rw [Nat.add_right_comm]
      exact .read access expected unfinished answer (ih tail)
  | write access full idle later ih =>
      rw [Nat.add_right_comm]
      exact .write access full idle (ih tail)
  | register unset power idle later ih =>
      rw [Nat.add_right_comm]
      exact .register unset power idle (ih tail)
  | wait expected finished later ih =>
      rw [Nat.add_right_comm]
      exact .wait expected finished (ih tail)

def messages (parcels : List Parcel) : List Message :=
  parcels.filterMap fun parcel =>
    match parcel.content with
    | .ack => none
    | .message message => some message

def writeMessage (access : BitVec 64 × Bytes) : Message := .write .config0 access.1 access.2

/-- How the host and the mock stand to direct access, with the messages on the way to the mock and
to the host: writes are still to be applied, and perhaps a read that the host waits for. -/
inductive Phase (table : Fin 6 → BarEntry) (mock : MockDevice μ × Registry)
    (slots : Fin 32 → Option FnPtr) (readData : Option ReadComplData) (direct : Direct μ) :
    List Message → List Message → Prop where
  | steady (writes : List (BitVec 64 × Bytes))
      (flushed : writes.foldl (configWrite table) mock = direct.mock)
      (same : readData = direct.readData) :
      Phase table mock slots readData direct (writes.map writeMessage) []
  | asked (writes : List (BitVec 64 × Bytes))
      (flushed : writes.foldl (configWrite table) mock = direct.mock) (addr : BitVec 64)
      (tag : Fin 32) (waiting : ReadComplData) (data : Bytes) (held : slots tag = some readComplPtr)
      (own : readData = some waiting) (unfinished : waiting.finished = false)
      (answer : config0ReadCb direct.mock.1.space addr 4 = .ok (0, data))
      (result : direct.readData = some (readCompl waiting 0 data 4)) :
      Phase table mock slots readData direct
        (writes.map writeMessage ++ [.read .config0 addr 4 tag]) []
  | answered (flushed : mock = direct.mock) (tag : Fin 32) (waiting : ReadComplData) (data : Bytes)
      (held : slots tag = some readComplPtr) (own : readData = some waiting)
      (unfinished : waiting.finished = false) (full : data.length = 4)
      (result : direct.readData = some (readCompl waiting 0 data 4)) :
      Phase table mock slots readData direct [] [.completion tag data]

theorem readCompl_finished (readData : ReadComplData) (errorCode : Int) (data : Bytes)
    (length : Int) :
    (readCompl readData errorCode data length).finished = true := by
  simp only [readCompl]
  split <;> rfl

theorem length_of_config0Read {space : ConfigSpace} {addr : BitVec 64} {data : Bytes}
    (answer : config0ReadCb space addr 4 = .ok (0, data)) : data.length = 4 := by
  simp only [config0ReadCb] at answer
  split at answer
  · cases answer
  · split at answer
    · rename_i inside
      cases answer
      rw [length_slice, space.length_bytes]
      omega
    · cases answer

section

variable {table : Fin 6 → BarEntry} {mock : MockDevice μ × Registry} {slots : Fin 32 → Option FnPtr}
  {readData : Option ReadComplData} {direct : Direct μ} {toMock toHost : List Message}
  {message : Message}

theorem Phase.serve (phase : Phase table mock slots readData direct (message :: toMock) toHost) :
    (∃ access, message = writeMessage access ∧
      Phase table (configWrite table mock access) slots readData direct toMock toHost) ∨
    ∃ addr tag data, message = .read .config0 addr 4 tag ∧
      config0ReadCb mock.1.space addr 4 = .ok (0, data) ∧
      data.length = 4 ∧ toMock = [] ∧ toHost = [] ∧
      Phase table mock slots readData direct [] [.completion tag data] := by
  generalize queue : message :: toMock = all at phase
  cases phase with
  | steady writes flushed same =>
      cases writes with
      | nil => cases queue
      | cons access rest =>
          cases queue
          exact .inl ⟨access, rfl, .steady rest flushed same⟩
  | asked writes flushed addr tag waiting data held own unfinished answer result =>
      cases writes with
      | nil =>
          cases queue
          have flushed : mock = direct.mock := flushed
          have full := length_of_config0Read answer
          refine .inr ⟨addr, tag, data, rfl, by rw [flushed]; exact answer, full, rfl, rfl, ?_⟩
          exact .answered flushed tag waiting data held own unfinished full result
      | cons access rest =>
          cases queue
          exact .inl ⟨access, rfl, .asked rest flushed addr tag waiting data held own unfinished
            answer result⟩
  | answered => cases queue

def Steady (table : Fin 6 → BarEntry) (mock : MockDevice μ × Registry)
    (readData : Option ReadComplData) (direct : Direct μ) (toMock toHost : List Message) : Prop :=
  readData = direct.readData ∧ toHost = [] ∧
    ∃ writes : List (BitVec 64 × Bytes), toMock = writes.map writeMessage ∧
      writes.foldl (configWrite table) mock = direct.mock

theorem Phase.steady_of (phase : Phase table mock slots readData direct toMock toHost)
    (unfinished : ∀ waiting, direct.readData = some waiting → waiting.finished = false) :
    Steady table mock readData direct toMock toHost := by
  have clash {waiting : ReadComplData} {data : Bytes}
      (result : direct.readData = some (readCompl waiting 0 data 4)) : False := by
    have still := unfinished _ result
    rw [readCompl_finished] at still
    cases still
  cases phase with
  | steady writes flushed same => exact ⟨same, rfl, writes, rfl, flushed⟩
  | asked writes flushed addr tag waiting data held own unfinished answer result =>
      exact (clash result).elim
  | answered flushed tag waiting data held own unfinished full result => exact (clash result).elim

theorem Phase.steady_of_finished (phase : Phase table mock slots readData direct toMock toHost)
    (finished : readData.any ReadComplData.finished = true) :
    Steady table mock readData direct toMock toHost := by
  have clash {waiting : ReadComplData} (own : readData = some waiting)
      (unfinished : waiting.finished = false) : False := by
    rw [own, Option.any_some, unfinished] at finished
    cases finished
  cases phase with
  | steady writes flushed same => exact ⟨same, rfl, writes, rfl, flushed⟩
  | asked writes flushed addr tag waiting data held own unfinished =>
      exact (clash own unfinished).elim
  | answered flushed tag waiting data held own unfinished => exact (clash own unfinished).elim

theorem Phase.expected (phase : Phase table mock slots readData direct toMock toHost)
    {result : ReadComplData} (answered : direct.readData = some result) :
    ∃ waiting, readData = some waiting := by
  cases phase with
  | steady writes flushed same => exact ⟨result, same.trans answered⟩
  | asked writes flushed addr tag waiting data held own => exact ⟨waiting, own⟩
  | answered flushed tag waiting data held own => exact ⟨waiting, own⟩

theorem Phase.finish (phase : Phase table mock slots readData direct toMock (message :: toHost)) :
    ∃ tag waiting data, message = .completion tag data ∧ slots tag = some readComplPtr ∧
      readData = some waiting ∧ toHost = [] ∧
      Phase table mock (Function.update slots tag none)
        (some (readCompl waiting 0 data data.length)) direct toMock [] := by
  generalize queue : message :: toHost = all at phase
  cases phase with
  | steady => cases queue
  | asked => cases queue
  | answered flushed tag waiting data held own unfinished full result =>
      cases queue
      refine ⟨tag, waiting, data, rfl, held, own, rfl, .steady [] flushed ?_⟩
      rw [result, full]
      rfl

end

theorem messages_nil : messages [] = [] := rfl

theorem messages_ack {parcel : Parcel} (rest : List Parcel) (content : parcel.content = .ack) :
    messages (parcel :: rest) = messages rest := by
  simp [messages, content]

theorem messages_message {parcel : Parcel} (rest : List Parcel) {message : Message}
    (content : parcel.content = .message message) :
    messages (parcel :: rest) = message :: messages rest := by
  simp [messages, content]

theorem messages_append (first second : List Parcel) :
    messages (first ++ second) = messages first ++ messages second :=
  List.filterMap_append

def Setup.host (setup : Setup μ α) : Standing (Shared HostApp) := (setup.system .left).standing

def Setup.mock (setup : Setup μ α) : Standing (Shared (MockDevice μ)) :=
  (setup.system .right).standing

def Setup.ready (setup : Setup μ α) : Bool :=
  match setup.program with
  | .done _ => false
  | .wait _ => setup.host.app.app.readData.any ReadComplData.finished
  | _ => true

structure HostFit (host : Standing (Shared HostApp)) (direct : Direct μ) : Prop where
  active : host.active = true
  registry : host.registry = direct.hostRegistry
  fault : host.app.app.fault = none

structure MockFit (mock : Standing (Shared (MockDevice μ))) : Prop where
  active : mock.active = true
  fault : mock.app.app.fault = none
  latest : mock.app.app.devClient = mock.app.self
  readCb : mock.registry.cfg0ReadCb = some config0ReadPtr
  writeCb : mock.registry.cfg0WriteCb = some config0WritePtr

structure Coupled (table : Fin 6 → BarEntry) (setup : Setup μ α) (queues : Queues)
    (direct : Direct μ) : Prop where
  linked : Linked setup.system queues
  running : setup.quit = false
  host : HostFit setup.host direct
  mock : MockFit setup.mock
  phase : Phase table (setup.mock.app.app, setup.mock.registry) setup.host.slots
    setup.host.app.app.readData direct (messages (queues .right)) (messages (queues .left))

section

variable {table : Fin 6 → BarEntry} {bars : BarMemory μ}

theorem ownCalls_self (self : Nat) (calls : List Call) :
    ownCalls self (calls.map fun call => (self, call)) = calls := by
  have all : (calls.map fun call => (self, call)).filter (fun call => call.1 = self) =
      calls.map fun call => (self, call) := by
    rw [List.filter_eq_self]
    intro call member
    obtain ⟨request, -, rfl⟩ := List.mem_map.mp member
    exact decide_eq_true rfl
  rw [ownCalls, all, List.map_map]
  exact List.map_id _

theorem after_own {shared : Shared σ} {calls : List (Nat × Call)}
    (own : ∀ call ∈ calls, call.1 = shared.self) (app : σ) :
    shared.after app calls = { shared with app := app } := by
  have clients := clients_after own app
  simp only [Shared.after, Shared.mk.injEq, true_and] at clients ⊢
  exact clients

theorem mockApplication_read {shared : Shared (MockDevice μ)} {addr : BitVec 64}
    {length error : Int} {data : Bytes}
    (answer : config0ReadCb shared.app.space addr length = .ok (error, data)) :
    (mockApplication table bars).callbacks.read config0ReadPtr shared addr length =
      { app := shared, error := error, data := data, calls := [] } := by
  simp only [Application.callbacks, mockApplication, deviceCallbacks, if_true, answer, List.map_nil]
  rw [after_own (List.forall_mem_nil _)]
  rfl

theorem mockApplication_write {shared : Shared (MockDevice μ)}
    (latest : shared.app.devClient = shared.self) (addr : BitVec 64) (data : Bytes) (length : Int) :
    (mockApplication table bars).callbacks.write config0WritePtr shared addr data length =
      { app := { shared with app := { shared.app with
          space := (config0WriteCb table shared.app.space addr data length).1 } }
        calls := (config0WriteCb table shared.app.space addr data length).2 } := by
  simp only [Application.callbacks, mockApplication, deviceCallbacks, if_true, latest,
    ownCalls_self]
  rw [after_own]
  intro call member
  obtain ⟨request, -, rfl⟩ := List.mem_map.mp member
  rfl

theorem mockApplication_read_calls (cb : FnPtr) (shared : Shared (MockDevice μ)) (addr : BitVec 64)
    (length : Int) :
    ((mockApplication table bars).callbacks.read cb shared addr length).calls = [] := by
  simp only [Application.callbacks, mockApplication, deviceCallbacks_read_calls]
  rfl

theorem config0WriteCb_registers {space : ConfigSpace} {addr : BitVec 64} {data : Bytes}
    {length : Int} {call : Call} (member : call ∈ (config0WriteCb table space addr data length).2) :
    ∃ bar barSize barIdx readCb writeCb, call = .registerBar bar barSize barIdx readCb writeCb := by
  obtain ⟨bar, barIdx, same⟩ := config0WriteCb_fromTable member
  exact ⟨bar, _, barIdx, _, _, same⟩

theorem config0WriteCb_config (table : Fin 6 → BarEntry) (space : ConfigSpace) (addr : BitVec 64)
    (data : Bytes) (length : Int) (registry : Registry) :
    let after := (config0WriteCb table space addr data length).2.foldl Registry.after registry
    after.cfg0ReadCb = registry.cfg0ReadCb ∧ after.cfg0WriteCb = registry.cfg0WriteCb := by
  rcases config0WriteCb_calls table space addr data length with none | ⟨bar, barIdx, one⟩
  · rw [none]
    exact ⟨rfl, rfl⟩
  · rw [one]
    simp only [List.foldl_cons, List.foldl_nil, Registry.after]
    split
    · exact ⟨rfl, rfl⟩
    · split <;> exact ⟨rfl, rfl⟩

theorem hostApplication_completion {shared : Shared HostApp} {readData : ReadComplData}
    (own : shared.app.readData = some readData) (errorCode : Int) (data : Bytes) (length : Int) :
    hostApplication.callbacks.completion readComplPtr shared errorCode data length =
      { app := { shared with app := { shared.app with
          readData := some (readCompl readData errorCode data length) } }
        calls := [] } := by
  simp only [Application.callbacks, hostApplication, own, if_true]
  rw [after_own (List.forall_mem_nil _)]
  rfl

theorem hostApplication_completion_calls (cb : FnPtr) (shared : Shared HostApp) (errorCode : Int)
    (data : Bytes) (length : Int) :
    (hostApplication.callbacks.completion cb shared errorCode data length).calls = [] := by
  simp only [Application.callbacks, hostApplication]
  split
  · split <;> rfl
  · rfl

theorem Linked.next {τ : Side → Type} {system : System τ} {queues : Queues}
    (linked : Linked system queues) {side : Side} {parcel : Parcel} {rest : List Parcel}
    (waiting : queues side = parcel :: rest) :
    Next (system side).sock parcel.bytes (rest.flatMap Parcel.bytes) [] := by
  have stream := linked.incoming side
  rw [waiting] at stream
  exact ⟨stream, by rw [linked.recvs side]; rfl⟩

theorem process_ok {τ : Side → Type} {cbs : (side : Side) → Callbacks (τ side)} {system : System τ}
    {side : Side} {after : World (τ side)}
    (read : warppipeClientRead (cbs side) (system side) = .ok after) :
    systemStep cbs system (.process side) = .ok (system.moved side after) := by
  rw [systemStep, read]
  rfl

theorem work_pop {queues : Queues} {side : Side} {parcel : Parcel} {rest pushed : List Parcel}
    (waiting : queues side = parcel :: rest) (less : parcelWork pushed < parcel.content.work) :
    (queues.moved side rest pushed).work < queues.work := by
  rw [queues.work_moved, queues.work_eq side, waiting,
    show parcelWork (parcel :: rest) = parcel.content.work + parcelWork rest from List.sum_cons]
  omega

theorem standing_moved_peer {τ : Side → Type} (system : System τ) (side : Side)
    (after : World (τ side)) :
    (system.moved side after side.peer).standing = (system side.peer).standing := by
  rw [moved_peer]
  rfl

theorem standing_moved_self {τ : Side → Type} (system : System τ) (side : Side)
    (after : World (τ side)) :
    (system.moved side after side).standing = after.standing := by
  rw [moved_self]

section

variable {setup : Setup μ α} {queues : Queues} {direct : Direct μ}
  (coupled : Coupled table setup queues direct)

include coupled

theorem Coupled.mock_turn {after : World (Shared (MockDevice μ))} {popped rest pushed : List Parcel}
    (relayed : Relayed (setup.system .right) after popped pushed)
    (taken : queues .right = popped ++ rest) (mock : MockFit after.standing)
    (phase : Phase table (after.standing.app.app, after.standing.registry) setup.host.slots
      setup.host.app.app.readData direct (messages rest)
        (messages (queues .left) ++ messages pushed)) :
    Coupled table { setup with system := setup.system.moved .right after }
      (queues.moved .right rest pushed) direct := by
  have host :
      ({ setup with system := setup.system.moved .right after } : Setup μ α).host = setup.host :=
    standing_moved_peer setup.system .right after
  have own : ({ setup with system := setup.system.moved .right after } : Setup μ α).mock =
      after.standing :=
    standing_moved_self setup.system .right after
  refine ⟨coupled.linked.relay relayed taken, coupled.running, by rw [host]; exact coupled.host,
    by rw [own]; exact mock, ?_⟩
  rw [host, own, Queues.moved_self, show queues.moved .right rest pushed .left = _ from
    queues.moved_peer .right rest pushed, messages_append]
  exact phase

theorem Coupled.mockStep :
    ∃ after later, mockStep table bars setup =
        .ok { setup with system := setup.system.moved .right after } ∧
      Coupled table { setup with system := setup.system.moved .right after } later direct ∧
      (queues .right ≠ [] → later.work < queues.work) ∧ (queues .right = [] → later = queues) := by
  have active : (setup.system .right).client.active = true := coupled.mock.active
  have stepped {after : World (Shared (MockDevice μ))}
      (read : warppipeClientRead (mockApplication table bars).callbacks
        (setup.system .right) = .ok after) :
      WarpPipe.mockStep table bars setup =
        .ok { setup with system := setup.system.moved .right after } := by
    rw [WarpPipe.mockStep, if_pos active,
      process_ok (show warppipeClientRead (hostAndMock table bars .right) (setup.system .right) =
        .ok after from read)]
    rfl
  have sends := coupled.linked.sends .right
  have phase := coupled.phase
  cases waiting : queues .right with
  | nil =>
      have stream := coupled.linked.incoming .right
      rw [waiting] at stream phase
      obtain ⟨after, read, relayed, standing⟩ := empty_relays sends (coupled.linked.recvs .right)
        (mockApplication table bars).callbacks stream
      refine ⟨after, _, stepped read,
        coupled.mock_turn relayed waiting (by rw [standing]; exact coupled.mock) ?_,
        fun busy => absurd rfl busy, fun _ => ?_⟩
      · rw [standing, messages_nil, List.append_nil]
        exact phase
      · have idle := queues.moved_idle .right
        rwa [waiting] at idle
  | cons parcel rest =>
      have next := coupled.linked.next waiting
      cases content : parcel.content with
      | ack =>
          obtain ⟨after, read, relayed, standing⟩ := ack_relays sends next content
          rw [waiting, messages_ack rest content] at phase
          refine ⟨after, _, stepped read,
            coupled.mock_turn relayed waiting (by rw [standing]; exact coupled.mock) ?_,
            fun _ => work_pop waiting ?_, nofun⟩
          · rw [standing, messages_nil, List.append_nil]
            exact phase
          · rw [content]
            decide
      | message message =>
          rw [waiting, messages_message rest content] at phase
          rcases phase.serve with ⟨access, rfl, later⟩ |
            ⟨addr, tag, data, rfl, answer, full, last, free, later⟩
          · have written : (mockApplication table bars).callbacks.write config0WritePtr
                (setup.system .right).app access.1 access.2 access.2.length = _ :=
                  mockApplication_write coupled.mock.latest _ _ _
            obtain ⟨after, read, relayed, standing⟩ := config0Write_registers sends next content
              coupled.mock.writeCb (by rw [written]; exact fun call => config0WriteCb_registers)
            rw [written] at standing
            refine ⟨after, _, stepped read, coupled.mock_turn relayed waiting ?_ ?_,
              fun _ => work_pop waiting ?_, nofun⟩
            · obtain ⟨reads, writes⟩ :=
                config0WriteCb_config table (setup.system .right).app.app.space access.1
                access.2 access.2.length setup.mock.registry
              rw [standing]
              exact ⟨coupled.mock.active, coupled.mock.fault, coupled.mock.latest,
                reads.trans coupled.mock.readCb, writes.trans coupled.mock.writeCb⟩
            · rw [standing, messages_ack [] rfl, messages_nil, List.append_nil]
              exact later
            · rw [content]
              exact Nat.one_lt_two
          · have returned : (mockApplication table bars).callbacks.read config0ReadPtr
                (setup.system .right).app addr 4 = _ := mockApplication_read answer
            obtain ⟨after, reply, read, relayed, said, standing⟩ :=
              config0Read_answered sends next content
              coupled.mock.readCb (fun _ _ _ => mockApplication_read_calls ..) returned full
            refine ⟨after, _, stepped read,
              coupled.mock_turn relayed waiting (by rw [standing]; exact coupled.mock) ?_,
              fun _ => work_pop waiting ?_, nofun⟩
            · rw [standing, last, free, messages_ack _ rfl, messages_message [] said]
              exact later
            · rw [content]
              simp [parcelWork, said, ackParcel, Content.work]

theorem Coupled.host_turn {after : World (Shared HostApp)} {popped rest pushed : List Parcel}
    {program : HostProgram β} {later : Direct μ}
    (relayed : Relayed (setup.system .left) after popped pushed)
    (taken : queues .left = popped ++ rest) (host : HostFit after.standing later)
    (phase : Phase table (setup.mock.app.app, setup.mock.registry) after.standing.slots
      after.standing.app.app.readData later (messages (queues .right) ++ messages pushed)
        (messages rest)) :
    Coupled table
      { system := setup.system.moved .left after, quit := setup.quit, program := program }
      (queues.moved .left rest pushed) later := by
  have mock :
      ({ system := setup.system.moved .left after, quit := setup.quit, program := program } :
      Setup μ β).mock = setup.mock := standing_moved_peer setup.system .left after
  have own : ({ system := setup.system.moved .left after, quit := setup.quit, program := program } :
      Setup μ β).host = after.standing := standing_moved_self setup.system .left after
  refine ⟨coupled.linked.relay relayed taken, coupled.running, by rw [own]; exact host,
    by rw [mock]; exact coupled.mock, ?_⟩
  rw [mock, own, Queues.moved_self, show queues.moved .left rest pushed .right = _ from
    queues.moved_peer .left rest pushed, messages_append]
  exact phase

theorem Coupled.hostLoop :
    ∃ next later, hostLoop table bars setup = .ok next ∧ next.program = setup.program ∧
      Coupled table next later direct ∧ (queues .left ≠ [] → later.work < queues.work) ∧
      (queues .left = [] → later = queues ∧ next.host = setup.host) := by
  have stepped {after : World (Shared HostApp)}
      (read : warppipeClientRead hostApplication.callbacks (setup.system .left) = .ok after)
      (active : after.standing.active = true) :
      WarpPipe.hostLoop table bars setup =
        .ok { setup with system := setup.system.moved .left after } := by
    have still : (setup.system.moved .left after .left).client.active = true := by
      rw [moved_self]
      exact active
    rw [WarpPipe.hostLoop,
      process_ok (show warppipeClientRead (hostAndMock table bars .left) (setup.system .left) =
        .ok after from read)]
    simp only [Except.map, still, Bool.not_true, Bool.or_false]
  have sends := coupled.linked.sends .left
  have phase := coupled.phase
  cases waiting : queues .left with
  | nil =>
      have stream := coupled.linked.incoming .left
      rw [waiting] at stream phase
      obtain ⟨after, read, relayed, standing⟩ := empty_relays sends (coupled.linked.recvs .left)
        hostApplication.callbacks stream
      refine ⟨_, _, stepped read (by rw [standing]; exact coupled.host.active), rfl,
        coupled.host_turn relayed waiting (by rw [standing]; exact coupled.host) ?_,
        fun busy => absurd rfl busy, fun _ => ⟨?_, ?_⟩⟩
      · rw [standing, messages_nil, List.append_nil]
        exact phase
      · have idle := queues.moved_idle .left
        rwa [waiting] at idle
      · exact (standing_moved_self setup.system .left after).trans standing
  | cons parcel rest =>
      have next := coupled.linked.next waiting
      cases content : parcel.content with
      | ack =>
          obtain ⟨after, read, relayed, standing⟩ := ack_relays sends next content
          rw [waiting, messages_ack rest content] at phase
          refine ⟨_, _, stepped read (by rw [standing]; exact coupled.host.active), rfl,
            coupled.host_turn relayed waiting (by rw [standing]; exact coupled.host) ?_,
            fun _ => work_pop waiting ?_, nofun⟩
          · rw [standing, messages_nil, List.append_nil]
            exact phase
          · rw [content]
            decide
      | message message =>
          rw [waiting, messages_message rest content] at phase
          obtain ⟨tag, data', data, rfl, held, own, last, later⟩ := phase.finish
          obtain ⟨after, read, relayed, standing⟩ := completion_relays sends next content held
            (fun _ _ _ _ => hostApplication_completion_calls ..)
          have finished : hostApplication.callbacks.completion readComplPtr
              (setup.system .left).app 0 data
              data.length = _ := hostApplication_completion own _ _ _
          rw [finished] at standing
          refine ⟨_, _, stepped read (by rw [standing]; exact coupled.host.active), rfl,
            coupled.host_turn relayed waiting ?_ ?_, fun _ => work_pop waiting ?_, nofun⟩
          · rw [standing]
            exact ⟨coupled.host.active, coupled.host.registry, coupled.host.fault⟩
          · rw [standing, last, messages_ack [] rfl, messages_nil, List.append_nil]
            exact later
          · rw [content]
            exact Nat.one_lt_two

theorem Coupled.step_silent {after : World (Shared HostApp)} {program : HostProgram β}
    {later : Direct μ} (log : after.log = (setup.system .left).log)
    (sock : after.sock = (setup.system .left).sock) (host : HostFit after.standing later)
    (phase : Phase table (setup.mock.app.app, setup.mock.registry) after.standing.slots
      after.standing.app.app.readData later (messages (queues .right)) (messages (queues .left))) :
    Coupled table
      { system := setup.system.moved .left after, quit := setup.quit, program := program } queues
      later := by
  have relayed : Relayed (setup.system .left) after [] [] := by
    refine ⟨?_, by rw [sock]; rfl, by rw [sock]; exact coupled.linked.recvs .left,
      by rw [sock]; exact coupled.linked.sends .left⟩
    rw [transferred, fresh_eq (log.trans (List.append_nil _).symm)]
    rfl
  have same := queues.moved_idle .left
  rw [← same]
  refine coupled.host_turn relayed (List.nil_append _).symm host ?_
  rw [messages_nil, List.append_nil]
  exact phase

theorem Coupled.setReadData {readData : Option ReadComplData} {program : HostProgram β}
    {later : Direct μ} (registry : later.hostRegistry = direct.hostRegistry)
    (phase : Phase table (setup.mock.app.app, setup.mock.registry) setup.host.slots readData later
      (messages (queues .right)) (messages (queues .left))) :
    Coupled table { system := setup.setReadData readData, quit := setup.quit, program := program }
      queues later := by
  have moved : setup.setReadData readData = setup.system.moved .left
      { setup.system .left with app := { (setup.system .left).app with
          app := { (setup.system .left).app.app with readData := readData } } } := by
    have nothing (world : World (Shared HostApp)) (app : Shared HostApp) :
        transferred world { world with app := app } = [] := by
      have log : ({ world with app := app } : World (Shared HostApp)).log = world.log ++ [] :=
        (List.append_nil _).symm
      rw [transferred, fresh_eq log]
      rfl
    rw [Setup.setReadData, System.moved, nothing, World.arrive, List.append_nil]
    exact congrArg (Function.update · _ _) (Function.update_eq_self _ _).symm
  rw [moved]
  refine coupled.step_silent rfl rfl ⟨coupled.host.active,
    coupled.host.registry.trans registry.symm, coupled.host.fault⟩ phase

def Advances (table : Fin 6 → BarEntry) (bars : BarMemory μ) (setup : Setup μ α) (queues : Queues)
    (program : HostProgram α) (after : Direct μ) : Prop :=
  ∃ next later, hostStep table bars setup = .ok next ∧ next.program = program ∧
    Coupled table next later after ∧ later.work ≤ queues.work + 4

theorem Coupled.advances_expect {readData : ReadComplData} {next : HostProgram α}
    (same : setup.program = .expect readData next) (idle : direct.readData = none) :
    Advances table bars setup queues next { direct with readData := some readData } := by
  have running := coupled.running
  obtain ⟨-, toHost, writes, toMock, flushed⟩ := coupled.phase.steady_of (by rw [idle]; nofun)
  refine ⟨_, queues, by simp only [WarpPipe.hostStep, same, running]; rfl, rfl,
    coupled.setReadData rfl ?_, by omega⟩
  rw [toHost, toMock]
  exact .steady writes flushed rfl

theorem Coupled.advances_read {addr : BitVec 64} {next : Int → HostProgram α}
    {readData : ReadComplData} {data : Bytes}
    (same : setup.program = .call (.config0Read addr 4 (some readComplPtr)) next)
    (access : Encodable addr 4) (expected : direct.readData = some readData)
    (unfinished : readData.finished = false)
    (answer : config0ReadCb direct.mock.1.space addr 4 = .ok (0, data)) :
    Advances table bars setup queues (next 0)
      { direct with readData := some (readCompl readData 0 data 4) } := by
  have running := coupled.running
  obtain ⟨own, toHost, writes, toMock, flushed⟩ := coupled.phase.steady_of (by
    intro waiting held
    rw [expected] at held
    cases held
    exact unfinished)
  obtain ⟨after, parcel, ran, content, relayed, standing⟩ :=
    config0Read_relays (coupled.linked.sends .left) (coupled.linked.recvs .left) access readComplPtr
  refine ⟨{ setup with system := setup.system.moved .left after, program := next 0 }, _,
    by simp only [WarpPipe.hostStep, same, running, ran]; rfl, rfl,
    coupled.host_turn relayed (List.nil_append _).symm ?_ ?_, ?_⟩
  · rw [standing]
    exact ⟨coupled.host.active, coupled.host.registry, coupled.host.fault⟩
  · rw [standing, toHost, toMock, messages_message [] content]
    refine .asked writes ?_ addr _ readData data (Function.update_self ..) (own.trans expected)
      unfinished ?_ rfl
    · exact flushed
    · exact answer
  · rw [queues.work_moved, queues.work_eq .left,
      show parcelWork [parcel] = parcel.content.work from rfl, content]
    exact Nat.le_refl _

theorem Coupled.advances_write {junk : Nat → Byte} {addr : BitVec 64} {data : Bytes}
    {next : Int → HostProgram α}
    (same : setup.program = .call (.config0Write junk addr data 4) next) (access : Encodable addr 4)
    (full : data.length = 4) (idle : direct.readData = none) :
    Advances table bars setup queues (next 0)
      { direct with mock := configWrite table direct.mock (addr, data) } := by
  have running := coupled.running
  obtain ⟨own, toHost, writes, toMock, flushed⟩ := coupled.phase.steady_of (by rw [idle]; nofun)
  obtain ⟨after, parcel, ran, content, relayed, standing⟩ :=
    config0Write_relays (coupled.linked.sends .left)
    (coupled.linked.recvs .left) hostApplication.callbacks junk full access
  refine ⟨{ setup with system := setup.system.moved .left after, program := next 0 }, _,
    by simp only [WarpPipe.hostStep, same, running, ran]; rfl, rfl,
    coupled.host_turn relayed (List.nil_append _).symm ?_ ?_, ?_⟩
  · rw [standing]
    exact ⟨coupled.host.active, coupled.host.registry, coupled.host.fault⟩
  · rw [standing, toHost, toMock, messages_message [] content]
    have more : writes.map writeMessage ++ [.write .config0 addr data] =
        (writes ++ [(addr, data)]).map writeMessage := by
      rw [List.map_append]
      rfl
    rw [messages_nil, more]
    refine .steady _ ?_ own
    rw [List.foldl_append, flushed]
    rfl
  · rw [queues.work_moved, queues.work_eq .left,
      show parcelWork [parcel] = parcel.content.work from rfl, content]
    exact Nat.add_le_add_left (show 2 ≤ 4 by decide) _

theorem Coupled.advances_register {bar : BitVec 64} {size : BitVec 32} {barIdx : Fin 6}
    {readCb writeCb : Option FnPtr} {next : Int → HostProgram α}
    (same : setup.program = .call (.registerBar bar size barIdx readCb writeCb) next)
    (unset : direct.hostRegistry.bar barIdx = 0) (power : ¬(size = 0 ∨ size &&& (size - 1) ≠ 0))
    (idle : direct.readData = none) :
    Advances table bars setup queues (next 0)
      { direct with hostRegistry := direct.hostRegistry.after (.registerBar bar size barIdx readCb
        writeCb) } := by
  have running := coupled.running
  obtain ⟨own, toHost, writes, toMock, flushed⟩ := coupled.phase.steady_of (by rw [idle]; nofun)
  have free : (setup.system .left).client.bar barIdx = 0 :=
    (congrArg (fun registry => registry.bar barIdx) coupled.host.registry).trans unset
  have code :
      (warppipeRegisterBar (setup.system .left).client bar size barIdx readCb writeCb).1 = 0 := by
    rw [warppipeRegisterBar, if_neg (not_not.mpr free), if_neg power]
  obtain ⟨after, ran, client, sock, app, log⟩ : ∃ after : World (Shared HostApp),
      (Call.registerBar bar size barIdx readCb writeCb).run (setup.system .left) = .ok (0, after) ∧
      after.client =
        (warppipeRegisterBar (setup.system .left).client bar size barIdx readCb writeCb).2 ∧
      after.sock = (setup.system .left).sock ∧ after.app = (setup.system .left).app ∧
      after.log = (setup.system .left).log := by
    refine ⟨{ setup.system .left with
      client :=
        (warppipeRegisterBar (setup.system .left).client bar size barIdx readCb writeCb).2 },
      ?_, rfl, rfl, rfl, rfl⟩
    rw [← code]
    rfl
  obtain ⟨slots, active⟩ :=
    registerBar_keeps (setup.system .left).client bar size barIdx readCb writeCb
  have standing : after.standing = { setup.host with
      registry := setup.host.registry.after (.registerBar bar size barIdx readCb writeCb) } := by
    simp only [World.standing, client, app, slots, active, registry_registerBar]
    rfl
  refine ⟨{ setup with system := setup.system.moved .left after, program := next 0 }, queues,
    by simp only [WarpPipe.hostStep, same, running, ran]; rfl, rfl,
    coupled.step_silent log sock ?_ ?_, by omega⟩
  · rw [standing, coupled.host.registry]
    exact ⟨coupled.host.active, rfl, coupled.host.fault⟩
  · rw [standing, toHost, toMock]
    exact .steady writes flushed own

theorem Coupled.advances_wait {next : Bool → ReadComplData → HostProgram α}
    {readData : ReadComplData} (same : setup.program = .wait next) (ready : setup.ready = true)
    (expected : direct.readData = some readData) (finished : readData.finished = true) :
    Advances table bars setup queues (next false readData) { direct with readData := none } := by
  have running := coupled.running
  have ended : setup.host.app.app.readData.any ReadComplData.finished = true := by
    rwa [Setup.ready, same] at ready
  obtain ⟨own, toHost, writes, toMock, flushed⟩ := coupled.phase.steady_of_finished ended
  have stored : (setup.system .left).app.app.readData = some readData := own.trans expected
  refine ⟨{ setup with system := setup.setReadData none, program := next setup.quit readData },
    queues, ?_, ?_, coupled.setReadData rfl ?_, by omega⟩
  · simp only [WarpPipe.hostStep, same, stored, finished, true_or, if_true]
  · rw [running]
  · rw [toHost, toMock]
    exact .steady writes flushed rfl

theorem Coupled.hostStep {steps : Nat} {value : α} {final : Direct μ}
    (exec : Exec table setup.program direct (steps + 1) value final) (ready : setup.ready = true) :
    ∃ next later after, hostStep table bars setup = .ok next ∧ Coupled table next later after ∧
      Exec table next.program after steps value final ∧ later.work ≤ queues.work + 4 := by
  have resume {program : HostProgram α} {after : Direct μ}
      (advances : Advances table bars setup queues program after)
      (rest : Exec table program after steps value final) :
      ∃ next later after, WarpPipe.hostStep table bars setup = .ok next ∧
        Coupled table next later after ∧
        Exec table next.program after steps value final ∧ later.work ≤ queues.work + 4 := by
    obtain ⟨next, later, stepped, rfl, still, bound⟩ := advances
    exact ⟨next, later, after, stepped, still, rest, bound⟩
  generalize same : setup.program = program at exec
  generalize count : steps + 1 = all at exec
  cases exec with
  | done => cases count
  | expect idle unfinished later =>
      cases count
      exact resume (coupled.advances_expect same idle) later
  | read access expected unfinished answer later =>
      cases count
      exact resume (coupled.advances_read same access expected unfinished answer) later
  | write access full idle later =>
      cases count
      exact resume (coupled.advances_write same access full idle) later
  | register unset power idle later =>
      cases count
      exact resume (coupled.advances_register same unset power idle) later
  | wait expected finished later =>
      cases count
      exact resume (coupled.advances_wait same ready expected finished) later

omit coupled

theorem Coupled.hostStep_blocked {steps : Nat} {value : α} {final : Direct μ}
    (coupled : Coupled table setup queues direct)
    (exec : Exec table setup.program direct steps value final) (blocked : setup.ready = false) :
    WarpPipe.hostStep table bars setup = WarpPipe.hostLoop table bars setup := by
  have running := coupled.running
  cases same : setup.program with
  | done result => simp [WarpPipe.hostStep, same, running]
  | expect readData next => simp [Setup.ready, same] at blocked
  | call request next => simp [Setup.ready, same] at blocked
  | wait next =>
      rw [same] at exec
      cases exec with
      | @wait _ _ _ _ _ readData expected finished later =>
          have unfinished : setup.host.app.app.readData.any ReadComplData.finished = false := by
            rwa [Setup.ready, same] at blocked
          obtain ⟨waiting, held⟩ := coupled.phase.expected expected
          have stored : (setup.system .left).app.app.readData = some waiting := held
          rw [held, Option.any_some] at unfinished
          simp [WarpPipe.hostStep, same, stored, unfinished, running]

end

/-- What is left to do: the steps of the program, whether it can take the next one now, and the
packets under way. -/
structure Outlook where
  steps : Nat
  ready : Bool
  queues : Queues

/-- A step can send a read, which costs four packets in all. -/
def Outlook.work (outlook : Outlook) : Nat := 5 * outlook.steps + outlook.queues.work

def Outlook.waits (outlook : Outlook) : Side → Prop
  | .left => outlook.ready = true ∨ outlook.queues .left ≠ []
  | .right => outlook.queues .right ≠ []

structure OnTrack (table : Fin 6 → BarEntry) (value : α) (final : Direct μ) (setup : Setup μ α)
    (outlook : Outlook) : Prop where
  ready : outlook.ready = setup.ready
  coupled : ∃ direct, Coupled table setup outlook.queues direct ∧
    Exec table setup.program direct outlook.steps value final

theorem OnTrack.step {value : α} {final : Direct μ} {setup : Setup μ α} {outlook : Outlook}
    (side : Side) (track : OnTrack table value final setup outlook) :
    ∃ next later, setupStep table bars setup side = .ok next ∧
      OnTrack table value final next later ∧
      (outlook.waits side → later.work < outlook.work) ∧
      (¬outlook.waits side → later = outlook) := by
  obtain ⟨direct, coupled, exec⟩ := track.coupled
  cases side with
  | right =>
      obtain ⟨after, later, stepped, still, less, same⟩ := coupled.mockStep
      have host :
          ({ setup with system := setup.system.moved .right after } : Setup μ α).host =
            setup.host :=
        standing_moved_peer setup.system .right after
      refine ⟨_, { outlook with queues := later }, stepped, ⟨?_, direct, still, exec⟩, fun busy =>
        ?_, fun idle => ?_⟩
      · rw [track.ready, Setup.ready, Setup.ready, host]
      · have fewer := less busy
        simp only [Outlook.work]
        omega
      · rw [same (not_not.mp idle)]
  | left =>
      cases ready : setup.ready with
      | true =>
          have waits : outlook.waits .left := .inl (track.ready.trans ready)
          have some : ∃ steps, outlook.steps = steps + 1 := by
            cases count : outlook.steps with
            | zero =>
                rw [count] at exec
                generalize program : setup.program = current at exec
                cases exec
                simp [Setup.ready, program] at ready
            | succ steps => exact ⟨steps, rfl⟩
          obtain ⟨steps, count⟩ := some
          rw [count] at exec
          obtain ⟨next, later, after, stepped, still, rest, bound⟩ := coupled.hostStep exec ready
          refine ⟨next, ⟨steps, next.ready, later⟩, stepped, ⟨rfl, after, still, rest⟩, fun _ => ?_,
            fun idle => absurd waits idle⟩
          simp only [Outlook.work, count]
          omega
      | false =>
          obtain ⟨next, later, looped, program, still, less, same⟩ := coupled.hostLoop
          refine ⟨next, ⟨outlook.steps, next.ready, later⟩,
            (coupled.hostStep_blocked exec ready).trans looped,
            ⟨rfl, direct, still, by rw [program]; exact exec⟩, fun busy => ?_, fun idle => ?_⟩
          · have fewer := less (busy.resolve_left (by rw [track.ready, ready]; decide))
            simp only [Outlook.work]
            omega
          · obtain ⟨queues, host⟩ := same (not_not.mp fun busy => idle (.inr busy))
            have blocked : next.ready = outlook.ready := by
              rw [track.ready, Setup.ready, Setup.ready, program, host]
            rw [queues, blocked]

structure Ended (value : α) (final : Direct μ) (setup : Setup μ α) : Prop where
  program : setup.program = .done value
  host : setup.host.registry = final.hostRegistry
  mock : (setup.mock.app.app, setup.mock.registry) = final.mock
  faults : setup.host.app.app.fault = none ∧ setup.mock.app.app.fault = none

theorem Exec.of_done {result value : α} {direct final : Direct μ} {steps : Nat}
    (exec : Exec table (.done result) direct steps value final) :
    result = value ∧ direct = final ∧ steps = 0 := by
  cases exec
  exact ⟨rfl, rfl, rfl⟩

theorem Phase.drained {mock : MockDevice μ × Registry} {slots : Fin 32 → Option FnPtr}
    {readData : Option ReadComplData} {direct : Direct μ} {toMock toHost : List Message}
    (phase : Phase table mock slots readData direct toMock toHost) (served : toMock = [])
    (finished : toHost = []) :
    mock = direct.mock ∧ readData = direct.readData := by
  cases phase with
  | steady writes flushed same =>
      cases List.map_eq_nil_iff.mp served
      exact ⟨flushed, same⟩
  | asked writes => simp at served
  | answered => cases finished

section

variable {value : α} {final : Direct μ} {setup : Setup μ α} {outlook : Outlook}
  (track : OnTrack table value final setup outlook)

include track

theorem OnTrack.returned {result : α} (program : setup.program = .done result) :
    result = value := by
  obtain ⟨direct, -, exec⟩ := track.coupled
  rw [program] at exec
  exact exec.of_done.1

theorem OnTrack.ended (blocked : setup.ready = false) (drained : ∀ side, outlook.queues side = []) :
    Ended value final setup ∧ outlook.steps = 0 := by
  obtain ⟨direct, coupled, exec⟩ := track.coupled
  obtain ⟨mock, readData⟩ := coupled.phase.drained (by rw [drained]; rfl) (by rw [drained]; rfl)
  cases same : setup.program with
  | done result =>
      rw [same] at exec
      obtain ⟨rfl, rfl, count⟩ := exec.of_done
      exact ⟨⟨same, coupled.host.registry, mock, coupled.host.fault, coupled.mock.fault⟩, count⟩
  | expect => simp [Setup.ready, same] at blocked
  | call => simp [Setup.ready, same] at blocked
  | wait next =>
      -- nothing is under way, so the read that it waits for has been answered
      rw [same] at exec
      generalize outlook.steps = steps at exec
      cases exec with
      | wait expected finished later =>
          rw [Setup.ready, same] at blocked
          simp [readData, expected, finished] at blocked

/-- Whatever turns the two sides take, no step fails and the program returns nothing but its
value. -/
theorem OnTrack.runs (schedule : List Side) :
    ∃ last later, Runs.run (setupStep table bars) setup schedule = .ok last ∧
      OnTrack table value final last later := by
  obtain ⟨last, later, ran, still, -⟩ := Runs.run_round
    (fun _ _ side held => OnTrack.step side held) track schedule
  exact ⟨last, later, ran, still⟩

/-- Turns that leave no side out bring the program to its end. -/
theorem OnTrack.ends {rounds : List (List Side)} (fair : ∀ round ∈ rounds, ∀ side, side ∈ round)
    (enough : outlook.work ≤ rounds.length) :
    ∃ last, Runs.run (setupStep table bars) setup rounds.flatten = .ok last ∧
      Ended value final last ∧ ∀ side, (last.system side).sock.incoming = [] := by
  have settled {setup : Setup μ α} {outlook : Outlook}
      (held : OnTrack table value final setup outlook)
      (rests : ∀ side, ¬outlook.waits side) : setup.ready = false ∧
      ∀ side, outlook.queues side = [] := by
    have left := not_or.mp (rests .left)
    refine ⟨?_, fun side => ?_⟩
    · rw [← held.ready]
      exact Bool.eq_false_iff.mpr left.1
    · cases side with
      | left => exact not_not.mp left.2
      | right => exact not_not.mp (rests .right)
  have idle (setup : Setup μ α) (outlook : Outlook) (held : OnTrack table value final setup outlook)
      (rests : ∀ side, ¬outlook.waits side) : outlook.work = 0 := by
    obtain ⟨blocked, drained⟩ := settled held rests
    rw [Outlook.work, (held.ended blocked drained).2, Queues.work, drained .left, drained .right]
    rfl
  obtain ⟨last, later, ran, held, rests⟩ := Runs.run_rounds
    (fun _ _ side held => OnTrack.step side held) idle track fair enough
  obtain ⟨blocked, drained⟩ := settled held rests
  obtain ⟨direct, coupled, -⟩ := held.coupled
  refine ⟨last, ran, (held.ended blocked drained).1, fun side => ?_⟩
  rw [coupled.linked.incoming, drained]
  rfl

end

end

end WarpPipe
