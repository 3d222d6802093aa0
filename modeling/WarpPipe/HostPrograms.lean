import WarpPipe.DirectAccess

/-!
Programs of hosts that share a device. Each host makes requests of its client and waits for its
reads; each has a connection of its own, and the device handles one packet of one connection at a
time. Beside this machine stands direct access, where a request takes effect at once.
-/

namespace WarpPipe

open ByteLayout

variable {σ α β : Type} {τ : Side → Type} {n : Nat}

inductive Program (σ α : Type) where
  | done (value : α)
  | change (update : σ → σ) (next : σ → Program σ α)
  | call (request : Call) (next : Int → Program σ α)
  /-- A loop that serves the connection until `met` or `server->quit`. It ends with `quit` and the
  data, which `leave` then gives up. -/
  | wait (met : σ → Bool) (leave : σ → σ) (next : Bool → σ → Program σ α)

def Program.bind (program : Program σ α) (next : α → Program σ β) : Program σ β :=
  match program with
  | .done value => next value
  | .change update rest => .change update fun app => (rest app).bind next
  | .call request rest => .call request fun code => (rest code).bind next
  | .wait met leave rest => .wait met leave fun quit app => (rest quit app).bind next

instance : Monad (Program σ) where
  pure := .done
  bind := .bind

structure Seat (τ : Side → Type) (α : Type) where
  system : System τ
  quit : Bool
  program : Program (τ .left) α

def Seat.host (seat : Seat τ α) : World (τ .left) := seat.system .left

def Seat.withHost (seat : Seat τ α) (app : τ .left) : System τ :=
  Function.update seat.system .left { seat.host with app := app }

def Seat.loop (cbs : (side : Side) → Callbacks (τ side)) (seat : Seat τ α) : Outcome (Seat τ α) :=
  (systemStep cbs seat.system (.process .left)).map fun system =>
    { seat with system := system, quit := seat.quit || !(system .left).client.active }

def Seat.hostStep (cbs : (side : Side) → Callbacks (τ side)) (seat : Seat τ α) :
    Outcome (Seat τ α) :=
  match seat.program with
  | .done _ => if seat.quit then .ok seat else seat.loop cbs
  | .change update next =>
    .ok { seat with system := seat.withHost (update seat.host.app), program := next seat.host.app }
  | .call request next =>
    if seat.quit then .error .outOfBounds
    else (request.run seat.host).map fun (code, after) =>
      { seat with system := seat.system.moved .left after, program := next code }
  | .wait met leave next =>
    if met seat.host.app ∨ seat.quit then
      .ok
        { seat with system := seat.withHost (leave
          seat.host.app), program := next seat.quit seat.host.app }
    else seat.loop cbs

def Seat.deviceStep (cbs : (side : Side) → Callbacks (τ side)) (device : τ .right)
    (seat : Seat τ α) :
    Outcome (τ .right × Seat τ α) :=
  if (seat.system .right).client.active then
    (warppipeClientRead (cbs .right) { seat.system .right with app := device }).map fun after =>
      (after.app, { seat with system := seat.system.moved .right after })
  else .ok (device, seat)

/-- Hosts that share one device. What the device keeps is in `device`, not in the connections. -/
structure Hub (n : Nat) (τ : Side → Type) (α : Type) where
  device : τ .right
  seat : Fin n → Seat τ α

def Hub.withSeat (hub : Hub n τ α) (i : Fin n) (device : τ .right) (seat : Seat τ α) :
    Hub n τ α where
  device := device
  seat := Function.update hub.seat i seat

def hubStep (cbs : Fin n → (side : Side) → Callbacks (τ side)) (hub : Hub n τ α) :
    Fin n × Side → Outcome (Hub n τ α)
  | (i, .left) => ((hub.seat i).hostStep (cbs i)).map fun seat => hub.withSeat i hub.device seat
  | (i, .right) =>
      ((hub.seat i).deviceStep (cbs i) hub.device).map fun (device, seat) =>
        hub.withSeat i device seat

structure Post where
  space : Space
  addr : BitVec 64
  data : Bytes

def Post.message (post : Post) : Message := .write post.space post.addr post.data

def Registry.barTarget (registry : Registry) (cbOf : Fin 6 → Option FnPtr) (addr : BitVec 64) :
    Option FnPtr × BitVec 64 :=
  match (List.finRange 6).find? fun index =>
    addr &&& (~~~(registry.barSize index - 1)).setWidth 64 = (registry.bar index).setWidth 64 with
  | some index => (cbOf index, addr &&& (registry.barSize index - 1).setWidth 64)
  | none => (none, addr)

def Registry.readRoute (registry : Registry) (space : Space) (addr : BitVec 64) :
    Option FnPtr × BitVec 64 :=
  match space with
  | .memory => registry.barTarget registry.barReadCb addr
  | .config0 => (registry.cfg0ReadCb, addr)

def Registry.writeRoute (registry : Registry) (space : Space) (addr : BitVec 64) :
    Option FnPtr × BitVec 64 :=
  match space with
  | .memory => registry.barTarget registry.barWriteCb addr
  | .config0 => (registry.cfg0WriteCb, addr)

theorem readRoute_registry (client : Client) (space : Space) (addr : BitVec 64) :
    client.readRoute space addr = client.registry.readRoute space addr := by
  cases space <;> rfl

theorem writeRoute_registry (client : Client) (space : Space) (addr : BitVec 64) :
    client.writeRoute space addr = client.registry.writeRoute space addr := by
  cases space <;> rfl

/-- A write that reaches the device at once, with the BARs that the device registers for it. -/
def serveWrite (cbs : Callbacks σ) (device : σ × Registry) (post : Post) : σ × Registry :=
  match device.2.writeRoute post.space (post.addr &&& ~~~3) with
  | (none, _) => device
  | (some cb, target) =>
    let ret := cbs.write cb device.1 (target + misalignment post.addr) post.data post.data.length
    (ret.app, ret.calls.foldl Registry.after device.2)

/-- The answer to a read that reaches the device at once. None: there is no answer, or no data. -/
def serveRead (cbs : Callbacks σ) (device : σ × Registry) (space : Space) (addr : BitVec 64)
    (length : Nat) :
    Option (Bytes × σ) :=
  match device.2.readRoute space (addr &&& ~~~3) with
  | (none, _) => none
  | (some cb, target) =>
    let ret := cbs.read cb device.1 (target + misalignment addr) length
    if ret.error = 0 then some (fillBuffer length ret.data, ret.app) else none

inductive Effect where
  | silent (code : Int) (registry : Registry)
  | post (post : Post)
  | ask (space : Space) (addr : BitVec 64) (length : Nat) (cb : Option FnPtr)

def Call.effect (registry : Registry) : Call → Effect
  | .registerBar bar barSize barIdx readCb writeCb =>
    .silent (if registry.bar barIdx ≠ 0 then -1
      else if barSize = 0 ∨ barSize &&& (barSize - 1) ≠ 0 then -1 else 0)
      (registry.after (.registerBar bar barSize barIdx readCb writeCb))
  | .registerConfig0ReadCb readCb => .silent 0 (registry.after (.registerConfig0ReadCb readCb))
  | .registerConfig0WriteCb writeCb => .silent 0 (registry.after (.registerConfig0WriteCb writeCb))
  | .read barIdx addr length cb =>
    if registry.bar barIdx = 0 then .silent (-1) registry
    else .ask .memory ((registry.bar barIdx).setWidth 64 + addr) length.toNat cb
  | .config0Read addr length cb => .ask .config0 addr length.toNat cb
  | .write _ barIdx addr data length =>
    if registry.bar barIdx = 0 then .silent (-1) registry
    else .post ⟨.memory, (registry.bar barIdx).setWidth 64 + addr, data.take length.toNat⟩
  | .config0Write _ addr data length => .post ⟨.config0, addr, data.take length.toNat⟩

def Call.Proper (registry : Registry) : Call → Prop
  | .read barIdx addr length _ => registry.bar barIdx ≠ 0 →
    length ≤ 4095 ∧ Encodable ((registry.bar barIdx).setWidth 64 + addr) length.toNat
  | .config0Read addr length _ => length ≤ 4095 ∧ Encodable addr length.toNat
  | .write _ barIdx addr data length => registry.bar barIdx ≠ 0 →
    length ≤ data.length ∧ Encodable ((registry.bar barIdx).setWidth 64 + addr) length.toNat
  | .config0Write _ addr data length => length ≤ data.length ∧ Encodable addr length.toNat
  | _ => True

structure Station (σ α : Type) where
  program : Program σ α
  app : σ
  registry : Registry

/-- Hosts with direct access to a device, which has the registrations of a connection for each. -/
structure Bench (n : Nat) (τ : Side → Type) (α : Type) where
  device : τ .right
  registry : Fin n → Registry
  station : Fin n → Station (τ .left) α

def Bench.served (bench : Bench n τ α) (i : Fin n) : τ .right × Registry :=
  (bench.device, bench.registry i)

def Bench.acted (bench : Bench n τ α) (i : Fin n) (device : τ .right × Registry)
    (station : Station (τ .left) α) :
    Bench n τ α where
  device := device.1
  registry := Function.update bench.registry i device.2
  station := Function.update bench.station i station

/-- The steps that a host takes by itself: those that the device need not answer. -/
inductive Station.Moves : Station σ α → Option Post → Station σ α → Prop where
  | change {update : σ → σ} {next : σ → Program σ α} (app : σ) (registry : Registry) :
      Moves ⟨.change update next, app, registry⟩ none ⟨next app, update app, registry⟩
  | silent {request : Call} {next : Int → Program σ α} {code : Int} {registry after : Registry}
      (app : σ) (proper : request.Proper registry)
      (effect : request.effect registry = .silent code after) :
      Moves ⟨.call request next, app, registry⟩ none ⟨next code, app, after⟩
  | post {request : Call} {next : Int → Program σ α} {registry : Registry} {post : Post} (app : σ)
      (proper : request.Proper registry) (effect : request.effect registry = .post post) :
      Moves ⟨.call request next, app, registry⟩ (some post) ⟨next 0, app, registry⟩

structure Station.Asks (station : Station σ α) (space : Space) (addr : BitVec 64) (length : Nat)
    (cb : FnPtr) (met : σ → Bool) (leave : σ → σ) (resume : Bool → σ → Program σ α) : Prop where
  program : ∃ request next, station.program = .call request next ∧ request.Proper station.registry ∧
    request.effect station.registry = .ask space addr length (some cb) ∧
    next 0 = .wait met leave resume
  unfinished : met station.app = false

def Station.resumed (station : Station σ α) (leave : σ → σ) (resume : Bool → σ → Program σ α)
    (app : σ) :
    Station σ α :=
  ⟨resume false app, leave app, station.registry⟩

/-- One step with direct access, for a host and the device as its connection shows it. -/
inductive Acts (cbs : (side : Side) → Callbacks (τ side)) (device : τ .right × Registry)
    (station : Station (τ .left) α) : τ .right × Registry → Station (τ .left) α → Prop where
  | silent {after : Station (τ .left) α} (moves : station.Moves none after) :
      Acts cbs device station device after
  | post {post : Post} {after : Station (τ .left) α} (moves : station.Moves (some post) after) :
      Acts cbs device station (serveWrite (cbs .right) device post) after
  | ask {space : Space} {addr : BitVec 64} {length : Nat} {cb : FnPtr} {met : τ .left → Bool}
      {leave : τ .left → τ .left} {resume : Bool → τ .left → Program (τ .left) α} {data : Bytes}
      {rest : τ .right} (asks : station.Asks space addr length cb met leave resume)
      (answer : serveRead (cbs .right) device space addr length = some (data, rest))
      (ends : met ((cbs .left).completion cb station.app 0 data data.length).app = true) :
      Acts cbs device station (rest, device.2)
        (station.resumed leave resume
          ((cbs .left).completion cb station.app 0 data data.length).app)

def Station.Done (station : Station σ α) : Prop := ∃ value, station.program = .done value

/-! The hosts of `zephyr-samples/common/common.c`. -/

def Shared.setReadData (shared : Shared HostApp) (readData : Option ReadComplData) :
    Shared HostApp :=
  { shared with app := { shared.app with readData := readData } }

structure ReadSlot (σ : Type) where
  get : σ → Option ReadComplData
  put : Option ReadComplData → σ → σ
  get_put : ∀ readData app, get (put readData app) = readData
  put_put : ∀ first second app, put second (put first app) = put second app

def sharedSlot : ReadSlot (Shared HostApp) where
  get shared := shared.app.readData
  put readData shared := shared.setReadData readData
  get_put _ _ := rfl
  put_put _ _ _ := rfl

def ReadSlot.waiting (slot : ReadSlot σ) (app : σ) : ReadComplData :=
  (slot.get app).getD { finished := false, buf := [], bufSize := 0, ret := 0 }

/-- A host that has more data than that of its reads runs the same program. -/
def HostProgram.within (slot : ReadSlot σ) : HostProgram α → Program σ α
  | .done value => .done value
  | .expect readData next => .change (slot.put (some readData)) fun _ => next.within slot
  | .call request next => .call request fun code => (next code).within slot
  | .wait next =>
    .wait (fun app => (slot.get app).any ReadComplData.finished) (slot.put none)
      fun quit app => (next quit (slot.waiting app)).within slot

def HostProgram.program (program : HostProgram α) : Program (Shared HostApp) α :=
  program.within sharedSlot

def readData (barIdx : Fin 6) (addr : BitVec 64) (length : Int) (buf : Bytes) :
    HostProgram (Int × Bytes) := do
  HostProgram.expect { finished := false, buf := buf, bufSize := length, ret := 0 } (pure ())
  let ret ← makeRequest (.read barIdx addr length (some readComplPtr))
  if ret < 0 then return (ret, buf)
  else do
    let (ret, readData) ← waitForCompletion
    if ret < 0 then return (ret, readData.buf)
    else return (readData.ret, readData.buf)

def Application.callbacksAt (application : Application σ) (self : Nat) : Callbacks (Shared σ) where
  read cb shared addr length :=
    application.callbacks.read cb { shared with self := self } addr length
  write cb shared addr data length :=
    application.callbacks.write cb { shared with self := self } addr data length
  completion cb shared errorCode data length :=
    application.callbacks.completion cb { shared with self := self } errorCode data length

abbrev WithMock (σ μ : Type) : Side → Type
  | .left => σ
  | .right => Shared (MockDevice μ)

def withMock {μ : Type} (host : Callbacks σ) (table : Fin 6 → BarEntry) (bars : BarMemory μ) :
    (side : Side) → Callbacks (WithMock σ μ side)
  | .left => host
  | .right => (mockApplication table bars).callbacks

def hostsAndMock (ptrs : Fin n → Nat) (i : Fin n) :
    (side : Side) → Callbacks (HostAndMock MockMemory side)
  | .left => hostApplication.callbacks
  | .right => (mockApplication mockTable mockBars).callbacksAt (ptrs i)

end WarpPipe
