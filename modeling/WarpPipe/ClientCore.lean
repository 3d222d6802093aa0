import WarpPipe.CrcCore

/-!
The client of `src/client.c`: its state, its socket, the packet handlers and the requests an
application makes. A function that touches the client, the socket or the application takes the
whole `World` and returns the next one. What C leaves undefined, or stops with a failed assertion,
is a `Fault`.
-/

namespace WarpPipe

open ByteLayout

abbrev FnPtr := Nat

instance neZeroBars : NeZero 6 := ⟨by decide⟩

instance neZeroSlots : NeZero 32 := ⟨by decide⟩

inductive Fault where
  | assertFailed
  /-- `recv` stored bytes behind the end of `client->buf`. -/
  | bufferOverrun
  /-- Any other access outside the object it starts from. -/
  | outOfBounds
  | outOfFuel
  deriving DecidableEq, Repr

abbrev Outcome := Except Fault

theorem ok_of_map_ok {α β : Type} {outcome : Outcome α} {change : α → β} {value : β}
    (ok : outcome.map change = .ok value) :
    ∃ before, outcome = .ok before ∧ change before = value := by
  cases outcome with
  | error fault => cases ok
  | ok before => exact ⟨before, rfl, Except.ok.inj ok⟩

structure RecvBuffer where
  bytes : Bytes
  length_bytes : bytes.length = clientBufferSize

def RecvBuffer.store (buf : RecvBuffer) (offset : Nat) (bytes : Bytes) : RecvBuffer where
  bytes := overwrite buf.bytes offset bytes
  length_bytes := by rw [length_overwrite, buf.length_bytes]

/-- `struct warppipe_client`. The pointer `private_data` is the application state of the world. -/
structure Client where
  fd : Int
  seqno : BitVec 32
  active : Bool
  barReadCb : Fin 6 → Option FnPtr
  barWriteCb : Fin 6 → Option FnPtr
  bar : Fin 6 → BitVec 32
  barSize : Fin 6 → BitVec 32
  cfg0ReadCb : Option FnPtr
  cfg0WriteCb : Option FnPtr
  completionCb : Fin 32 → Option FnPtr
  readTag : Fin 32
  buf : RecvBuffer

/-- How a later `recv` turns out: up to `more + 1` bytes, or one of its errors. -/
inductive RecvStep where
  | deliver (more : Nat)
  | again
  | failed
  | closed
  deriving DecidableEq, Repr

inductive SendStep where
  | all
  | short (count : Nat)
  | failed
  deriving DecidableEq, Repr

/-- One end of a connection: the bytes that arrived and are not read yet, and how the following
calls turn out. Calls past the end of a schedule transfer as much as they can. -/
structure Socket where
  incoming : Bytes
  recvs : List RecvStep
  sends : List SendStep

inductive RecvResult where
  | received (bytes : Bytes)
  | again
  | failed
  | closed
  deriving DecidableEq, Repr

/-- Hand over at most `limit` bytes. A socket without bytes answers `EAGAIN`, as the one of a server
that connected does: `O_NONBLOCK` is set. A socket from `accept` blocks instead, and `select` has to
report it before it is read. -/
def Socket.take (sock : Socket) (limit : Nat) (recvs : List RecvStep) : RecvResult × Socket :=
  if sock.incoming.take limit = [] then (.again, { sock with recvs := recvs })
  else (.received (sock.incoming.take limit),
    { sock with incoming := sock.incoming.drop limit, recvs := recvs })

def Socket.recv (sock : Socket) (count : Nat) : RecvResult × Socket :=
  match sock.recvs with
  | [] => sock.take count []
  | .deliver more :: rest => sock.take (min count (more + 1)) rest
  | .again :: rest => (.again, { sock with recvs := rest })
  | .failed :: rest => (.failed, { sock with recvs := rest })
  | .closed :: rest => (.closed, { sock with recvs := rest })

def Socket.send (sock : Socket) (packet : Bytes) : Int × Socket :=
  match sock.sends with
  | [] => (packet.length, sock)
  | .all :: rest => (packet.length, { sock with sends := rest })
  | .short count :: rest => (min count packet.length, { sock with sends := rest })
  | .failed :: rest => (-1, { sock with sends := rest })

inductive DllpNote where
  | ackNak (seqno : Nat)
  | credit
  | unknown (type : Nat)
  deriving DecidableEq, Repr

inductive Event where
  | packet (bytes : Bytes)
  | dllp (note : DllpNote)
  | sent (packet : Bytes) (count : Int)
  | readCb (cb : FnPtr) (addr : BitVec 64) (length : Int) (error : Int) (data : Bytes)
  | writeCb (cb : FnPtr) (addr : BitVec 64) (data : Bytes) (length : Int)
  /-- A read that was sent left its callback in the slot of its tag. -/
  | stored (tag : Fin 32) (cb : Option FnPtr)
  | completion (tag : Fin 32) (cb : FnPtr) (errorCode : Int) (data : Bytes) (length : Int)
  deriving DecidableEq, Repr

/-- A request an application makes of the library. `junk` is what the block that `malloc` returns
held before. -/
inductive Call where
  | registerBar (bar : BitVec 64) (barSize : BitVec 32) (barIdx : Fin 6)
      (readCb writeCb : Option FnPtr)
  | registerConfig0ReadCb (readCb : Option FnPtr)
  | registerConfig0WriteCb (writeCb : Option FnPtr)
  | read (barIdx : Fin 6) (addr : BitVec 64) (length : Int) (cb : Option FnPtr)
  | config0Read (addr : BitVec 64) (length : Int) (cb : Option FnPtr)
  | write (junk : Nat → Byte) (barIdx : Fin 6) (addr : BitVec 64) (data : Bytes) (length : Int)
  | config0Write (junk : Nat → Byte) (addr : BitVec 64) (data : Bytes) (length : Int)

/-- What a read callback leaves behind: its return value, the bytes it wrote to `data`, and the
requests it made meanwhile. -/
structure ReadReturn (σ : Type) where
  app : σ
  error : Int
  data : Bytes
  calls : List Call

structure CallbackReturn (σ : Type) where
  app : σ
  calls : List Call

structure Callbacks (σ : Type) where
  read : FnPtr → σ → BitVec 64 → Int → ReadReturn σ
  write : FnPtr → σ → BitVec 64 → Bytes → Int → CallbackReturn σ
  completion : FnPtr → σ → Int → Bytes → Int → CallbackReturn σ

structure World (σ : Type) where
  client : Client
  sock : Socket
  app : σ
  log : List Event

section

variable {σ : Type}

def World.emit (world : World σ) (event : Event) : World σ :=
  { world with log := world.log ++ [event] }

def World.deactivate (world : World σ) : World σ :=
  { world with client := { world.client with active := false } }

def getBarIdx (client : Client) (addr : BitVec 64) : Option (Fin 6) :=
  (List.finRange 6).find? fun index =>
    addr &&& (~~~(client.barSize index - 1)).setWidth 64 = (client.bar index).setWidth 64

def handleDllp (world : World σ) (pkt : Bytes) : World σ :=
  let type := PcieDllp.dlType.get pkt
  if type = PcieDllpType.ack.code ∨ type = PcieDllpType.nak.code then
    world.emit (.dllp (.ackNak (PcieDllp.dlSeqnoHi.get pkt <<< 8 ||| PcieDllp.dlSeqnoLo.get pkt)))
  else if PcieDllp.fcType.get pkt ≠ 0 ∧ PcieDllp.fcRsvd1.get pkt = 0 then
    world.emit (.dllp .credit)
  else world.emit (.dllp (.unknown type))

def onTlp (change : Bytes → Bytes) (tport : Bytes) : Bytes :=
  tport.take Transport.tTlp ++ change (tport.drop Transport.tTlp)

def onUnion (change : Bytes → Bytes) (tport : Bytes) : Bytes :=
  tport.take Transport.tUnion ++ change (tport.drop Transport.tUnion)

/-- The `send` call of `client_send_pcie_transport` and the check of its result. -/
def transmit (world : World σ) (tport : Bytes) (packetLength : Int) : Outcome (Int × World σ) :=
  if packetLength.toNat ≤ tport.length then
    let packet := tport.take packetLength.toNat
    let (count, sock) := world.sock.send packet
    let world := { world with sock := sock }.emit (.sent packet count)
    if count ≠ packetLength then .ok (-1, world.deactivate) else .ok (count, world)
  else .error .outOfBounds

def setSeqno (seqno : BitVec 32) (pkt : Bytes) : Bytes :=
  let pkt := PcieDltlp.dlSeqnoHi.set (seqno.sshiftRight 8).toNat pkt
  PcieDltlp.dlSeqnoLo.set (seqno &&& 0xff).toNat pkt

def clientSendPcieTransport (world : World σ) (tport : Bytes) : Outcome (Int × World σ) :=
  match PcieProto.ofCode? (Transport.tProto.get tport) with
  | some .tlp =>
    let seqno := world.client.seqno + 1
    let world := { world with client := { world.client with seqno := seqno } }
    let tport := onUnion (setSeqno seqno) tport
    if lcrcOffset (tport.drop Transport.tUnion) + 4 ≤ (tport.drop Transport.tUnion).length then
      let tport := onUnion pcieLcrc32 tport
      transmit world tport (headerSize + tlpTotalLength (tport.drop Transport.tTlp))
    else .error .outOfBounds
  | some .dllp => transmit world (onUnion pcieCrc16 tport) headerSize
  | none => transmit world tport headerSize

def readRequest (tag : Fin 32) (type : PcieTlpType) : Bytes :=
  let tport := Transport.tProto.set PcieProto.tlp.code (List.replicate Transport.size 0)
  onTlp (fun tlp =>
    PcieTlp.rTag.set tag.val
      (PcieTlp.tlpType.set (type.code &&& 0x1f) (PcieTlp.tlpFmt.set (type.code >>> 5) tlp))) tport

def warppipeReadImp (world : World σ) (addr : BitVec 64) (length : Int) (cb : Option FnPtr)
    (type : PcieTlpType) : Outcome (Int × World σ) := do
  let tag := world.client.readTag
  let world := { world with client := { world.client with readTag := tag + 1 } }
  let tport := onTlp (fun tlp => tlpReqSetAddr tlp addr length) (readRequest tag type)
  let (sent, world) ← clientSendPcieTransport world tport
  if sent = -1 then return (-1, world)
  let slots := Function.update world.client.completionCb tag cb
  let world := { world with client := { world.client with completionCb := slots } }
  return (0, world.emit (.stored tag cb))

def writeAllocation (align : Nat) (length : Int) : Nat :=
  Transport.size + (length + align + 3).toNat / 4 * 4

def writeRequest (junk : Nat → Byte) (addr : BitVec 64) (length : Int) (type : PcieTlpType) :
    Bytes :=
  let block := (List.range (writeAllocation (addr &&& 3).toNat length)).map junk
  let tport := Transport.tProto.set PcieProto.tlp.code block
  onTlp (fun tlp =>
    tlpReqSetAddr
      (PcieTlp.tlpType.set (type.code &&& 0x1f) (PcieTlp.tlpFmt.set (type.code >>> 5) tlp))
      addr length) tport

def payloadOffset (tlp : Bytes) : Nat :=
  if PcieTlp.tlpFmt.get tlp &&& pcieTlpFmt4dw ≠ 0 then PcieTlp.rData64 else PcieTlp.rData32

def warppipeWriteImp (world : World σ) (junk : Nat → Byte) (addr : BitVec 64) (data : Bytes)
    (length : Int) (type : PcieTlpType) : Outcome (Int × World σ) :=
  let align := (addr &&& 3).toNat
  let tport := writeRequest junk addr length type
  let payload := Transport.tTlp + payloadOffset (tport.drop Transport.tTlp) + align
  -- `memcpy(payload + (addr & 3), data, length)`, whose `size_t` a negative length overflows
  if 0 ≤ length ∧ length ≤ data.length ∧ payload + length ≤ tport.length then do
    let tport := overwrite tport payload (data.take length.toNat)
    let (rc, world) ← clientSendPcieTransport world tport
    return (if rc > 0 then 0 else rc, world)
  else .error .outOfBounds

def warppipeRead (world : World σ) (barIdx : Fin 6) (addr : BitVec 64) (length : Int)
    (cb : Option FnPtr) : Outcome (Int × World σ) :=
  if world.client.bar barIdx = 0 then .ok (-1, world)
  else warppipeReadImp world ((world.client.bar barIdx).setWidth 64 + addr) length cb .mrd64

def warppipeConfig0Read (world : World σ) (addr : BitVec 64) (length : Int)
    (cb : Option FnPtr) : Outcome (Int × World σ) :=
  warppipeReadImp world addr length cb .cr0

def warppipeWrite (world : World σ) (junk : Nat → Byte) (barIdx : Fin 6) (addr : BitVec 64)
    (data : Bytes) (length : Int) : Outcome (Int × World σ) :=
  if world.client.bar barIdx = 0 then .ok (-1, world)
  else warppipeWriteImp world junk ((world.client.bar barIdx).setWidth 64 + addr) data length .mwr64

def warppipeConfig0Write (world : World σ) (junk : Nat → Byte) (addr : BitVec 64)
    (data : Bytes) (length : Int) : Outcome (Int × World σ) :=
  warppipeWriteImp world junk addr data length .cw0

/-- `warppipe_client_create` on a block of memory that held `memory` before. The completion slots
and the receive buffer keep what was there. -/
def warppipeClientCreate (memory : Client) (fd : Int) : Client :=
  { memory with
    fd := fd
    seqno := 0
    active := true
    cfg0ReadCb := none
    cfg0WriteCb := none
    readTag := 0
    barReadCb := fun _ => none
    barWriteCb := fun _ => none
    bar := fun _ => 0
    barSize := fun _ => 0 }

def warppipeRegisterBar (client : Client) (bar : BitVec 64) (barSize : BitVec 32) (barIdx : Fin 6)
    (readCb writeCb : Option FnPtr) : Int × Client :=
  if client.bar barIdx ≠ 0 then (-1, client)
  else if barSize = 0 ∨ barSize &&& (barSize - 1) ≠ 0 then (-1, client)
  else (0, { client with
    bar := Function.update client.bar barIdx (bar.setWidth 32)
    barSize := Function.update client.barSize barIdx barSize
    barReadCb := Function.update client.barReadCb barIdx readCb
    barWriteCb := Function.update client.barWriteCb barIdx writeCb })

def Call.run (world : World σ) : Call → Outcome (Int × World σ)
  | .registerBar bar barSize barIdx readCb writeCb =>
    let (rc, client) := warppipeRegisterBar world.client bar barSize barIdx readCb writeCb
    .ok (rc, { world with client := client })
  | .registerConfig0ReadCb readCb =>
    .ok (0, { world with client := { world.client with cfg0ReadCb := readCb } })
  | .registerConfig0WriteCb writeCb =>
    .ok (0, { world with client := { world.client with cfg0WriteCb := writeCb } })
  | .read barIdx addr length cb => warppipeRead world barIdx addr length cb
  | .config0Read addr length cb => warppipeConfig0Read world addr length cb
  | .write junk barIdx addr data length => warppipeWrite world junk barIdx addr data length
  | .config0Write junk addr data length => warppipeConfig0Write world junk addr data length

def runCalls (world : World σ) : List Call → Outcome (World σ)
  | [] => .ok world
  | call :: rest => do
    let (_, world) ← call.run world
    runCalls world rest

/-- The buffer of `length` zero bytes that a read callback is given, after it wrote `data`. -/
def fillBuffer (length : Int) (data : Bytes) : Bytes :=
  overwrite (List.replicate length.toNat 0) 0 data

def invokeRead (cbs : Callbacks σ) (world : World σ) (cb : FnPtr) (addr : BitVec 64)
    (length : Int) : Outcome (Int × Bytes × World σ) := do
  let ret := cbs.read cb world.app addr length
  let data := fillBuffer length ret.data
  let world := { world with app := ret.app }.emit (.readCb cb addr length ret.error data)
  let world ← runCalls world ret.calls
  return (ret.error, data, world)

def invokeWrite (cbs : Callbacks σ) (world : World σ) (cb : FnPtr) (addr : BitVec 64)
    (data : Bytes) (length : Int) : Outcome (World σ) :=
  let ret := cbs.write cb world.app addr data length
  runCalls ({ world with app := ret.app }.emit (.writeCb cb addr data length)) ret.calls

def invokeCompletion (cbs : Callbacks σ) (world : World σ) (tag : Fin 32) (cb : FnPtr)
    (errorCode : Int) (data : Bytes) (length : Int) : Outcome (World σ) :=
  let ret := cbs.completion cb world.app errorCode data length
  runCalls ({ world with app := ret.app }.emit (.completion tag cb errorCode data length)) ret.calls

def barTarget (client : Client) (cbOf : Fin 6 → Option FnPtr) (addr : BitVec 64) :
    Option FnPtr × BitVec 64 :=
  match getBarIdx client addr with
  | some index => (cbOf index, addr &&& (client.barSize index - 1).setWidth 64)
  | none => (none, addr)

def readTarget (client : Client) (pkt : Bytes) : Option FnPtr × BitVec 64 :=
  match tlpTypeOf pkt with
  | some .iord | some .mrd32 | some .mrd64 =>
    barTarget client client.barReadCb (tlpReqGetAddr pkt)
  | some .cr0 => (client.cfg0ReadCb, tlpReqGetAddr pkt)
  | _ => (none, tlpReqGetAddr pkt)

def writeTarget (client : Client) (pkt : Bytes) : Option FnPtr × BitVec 64 :=
  match tlpTypeOf pkt with
  | some .iowr | some .mwr32 | some .mwr64 =>
    barTarget client client.barWriteCb (tlpReqGetAddr pkt)
  | some .cw0 => (client.cfg0WriteCb, tlpReqGetAddr pkt)
  | _ => (none, tlpReqGetAddr pkt)

/-- The completion that `handle_memory_read_request` prepares before it asks the callback. -/
def completionHeader (pkt : Bytes) : Bytes :=
  let dataLenBytes := tlpDataLengthBytes pkt
  let block := List.replicate (Transport.size + tlpDataLength pkt * 4) 0
  let tport := Transport.tProto.set PcieProto.tlp.code block
  onTlp (fun tlp =>
    let tlp := PcieTlp.tlpFmt.set (PcieTlpType.cpld.code >>> 5) tlp
    let tlp := PcieTlp.tlpType.set (PcieTlpType.cpld.code &&& 0x1f) tlp
    let tlp := PcieTlp.tlpLengthHi.set (PcieTlp.tlpLengthHi.get pkt) tlp
    let tlp := PcieTlp.tlpLengthLo.set (PcieTlp.tlpLengthLo.get pkt) tlp
    let tlp := PcieTlp.cTag.set (PcieTlp.rTag.get pkt) tlp
    let tlp := PcieTlp.cByteCountHi.set ((dataLenBytes >>> (8 : Nat)) % 16).toNat tlp
    PcieTlp.cByteCountLo.set (dataLenBytes % 256).toNat tlp) tport

/-- `tlp_fmt &= ~PCIE_TLP_FMT_DATA`: a Cpl instead of a CplD. -/
def dropData (tlp : Bytes) : Bytes :=
  PcieTlp.tlpFmt.set (PcieTlp.tlpFmt.get tlp &&& (7 ^^^ pcieTlpFmtData)) tlp

def completionPacket (pkt : Bytes) (error : Int) (data : Bytes) : Bytes :=
  let tport := onTlp (fun tlp => overwrite tlp PcieTlp.cData data) (completionHeader pkt)
  if error ≠ 0 then onTlp dropData tport else tport

def handleMemoryReadRequest (cbs : Callbacks σ) (world : World σ) (pkt : Bytes) :
    Outcome (World σ) :=
  match readTarget world.client pkt with
  | (none, _) => .ok world
  | (some cb, addr) => do
    let (error, data, world) ←
      invokeRead cbs world cb (addr + BitVec.ofNat 64 (firstByteOffset pkt))
        (tlpDataLengthBytes pkt)
    let (_, world) ← clientSendPcieTransport world (completionPacket pkt error data)
    return world

def handleMemoryWriteRequest (cbs : Callbacks σ) (world : World σ) (pkt : Bytes) :
    Outcome (World σ) :=
  match writeTarget world.client pkt with
  | (none, _) => .ok world
  | (some cb, addr) =>
    let dataLen := tlpDataLengthBytes pkt
    let data := slice pkt (payloadOffset pkt + firstByteOffset pkt) dataLen.toNat
    invokeWrite cbs world cb (addr + BitVec.ofNat 64 (firstByteOffset pkt)) data dataLen

def clearSlot (world : World σ) (tag : Fin 32) : World σ :=
  { world with client := { world.client with
    completionCb := Function.update world.client.completionCb tag none } }

def handleCompletion (cbs : Callbacks σ) (world : World σ) (pkt : Bytes) : Outcome (World σ) :=
  if bound : PcieTlp.cTag.get pkt < 32 then
    let tag : Fin 32 := ⟨PcieTlp.cTag.get pkt, bound⟩
    match world.client.completionCb tag with
    | none => .ok world
    | some cb => do
      let dataLen := PcieTlp.cByteCountHi.get pkt <<< 8 ||| PcieTlp.cByteCountLo.get pkt
      let world ← invokeCompletion cbs world tag cb 0 (slice pkt PcieTlp.cData dataLen) dataLen
      return clearSlot world tag
  else .error .outOfBounds

def handleTlp (cbs : Callbacks σ) (world : World σ) (pkt : Bytes) : Outcome (World σ) :=
  match tlpTypeOf pkt with
  | some .iord | some .mrd32 | some .mrd64 | some .cr0 => handleMemoryReadRequest cbs world pkt
  | some .iowr | some .mwr32 | some .mwr64 | some .cw0 => handleMemoryWriteRequest cbs world pkt
  | some .cpld => handleCompletion cbs world pkt
  | _ => .ok world

def ackPacket (type : PcieDllpType) (seqno : Nat) : Bytes :=
  let tport := Transport.tProto.set PcieProto.dllp.code (List.replicate Transport.size 0)
  onUnion (fun dllp =>
    PcieDllp.dlSeqnoLo.set (seqno &&& 0xff)
      (PcieDllp.dlSeqnoHi.set (seqno >>> 8) (PcieDllp.dlNak.set type.code dllp))) tport

def warppipeAck (world : World σ) (type : PcieDllpType) (seqno : Nat) :
    Outcome (Int × World σ) := do
  let (sent, world) ← clientSendPcieTransport world (ackPacket type seqno)
  return (if sent = -1 then -1 else 0, world)

def recvInto (world : World σ) (offset count : Nat) : Outcome (RecvResult × World σ) :=
  match world.sock.recv count with
  | (.received bytes, sock) =>
    if offset + bytes.length ≤ clientBufferSize then
      .ok (.received bytes, { world with
        sock := sock
        client := { world.client with buf := world.client.buf.store offset bytes } })
    else .error .bufferOverrun
  | (result, sock) => .ok (result, { world with sock := sock })

/-- The `while (len < total)` loop; true when all bytes are there. -/
def receiveLoop : Nat → World σ → Nat → Nat → Outcome (Bool × World σ)
  | fuel, world, len, total =>
    if len < total then
      match fuel with
      | 0 => .error .outOfFuel
      | fuel + 1 =>
        match recvInto world len (total - len) with
        | .ok (.received bytes, world) => receiveLoop fuel world (len + bytes.length) total
        | .ok (_, world) => .ok (false, world.deactivate)
        | .error fault => .error fault
    else .ok (true, world)

def receivedSeqno (pkt : Bytes) : Nat :=
  PcieDltlp.dlSeqnoHi.get pkt <<< 8 ||| PcieDltlp.dlSeqnoLo.get pkt

def processTlp (cbs : Callbacks σ) (world : World σ) : Outcome (World σ) := do
  let pkt := world.client.buf.bytes.drop Transport.tUnion
  let crcOk := pcieLcrc32Valid pkt
  let (_, world) ← warppipeAck world (if crcOk then .ack else .nak) (receivedSeqno pkt)
  if crcOk then handleTlp cbs world (pkt.drop PcieDltlp.dlTlp) else return world

def readTlp (cbs : Callbacks σ) (world : World σ) : Outcome (World σ) := do
  let total := tlpTotalLength (world.client.buf.bytes.drop Transport.tTlp)
  if total < 0 then return world.deactivate
  let total := total.toNat + headerSize
  if total ≤ clientBufferSize then
    let (complete, world) ← receiveLoop (total - headerSize) world headerSize total
    if complete then processTlp cbs (world.emit (.packet (world.client.buf.bytes.take total)))
    else return world
  else throw .assertFailed

def readDllp (world : World σ) : World σ :=
  let pkt := world.client.buf.bytes.drop Transport.tUnion
  let world := world.emit (.packet (world.client.buf.bytes.take headerSize))
  if pcieCrc16Valid pkt then handleDllp world pkt else world

def readPacket (cbs : Callbacks σ) (world : World σ) : Outcome (World σ) :=
  match PcieProto.ofCode? (Transport.tProto.get world.client.buf.bytes) with
  | some .dllp => .ok (readDllp world)
  | some .tlp => readTlp cbs world
  | none => .ok world.deactivate

def warppipeClientRead (cbs : Callbacks σ) (world : World σ) : Outcome (World σ) :=
  match recvInto world 0 headerSize with
  | .ok (.received bytes, world) =>
    if bytes.length = headerSize then readPacket cbs world else .ok world.deactivate
  | .ok (.again, world) => .ok world
  | .ok (_, world) => .ok world.deactivate
  | .error fault => .error fault

end

end WarpPipe
