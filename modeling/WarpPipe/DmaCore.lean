import Mathlib.Logic.Function.Basic
import WarpPipe.ClientCore
import WarpPipe.Library.ByteMemory

/-!
The emulated DMA controller of `zephyr-samples/drivers/dma/dma_emul.c`. Its two arrays are functions
on their indices: `xfer` has one entry per channel and `block` has `requests` entries per channel,
in one row. A block list of the user is a chain of pointers into `heap`.
-/

namespace WarpPipe

open ByteLayout

/-- `struct dma_block_config`, the fields that the driver reads. Addresses are of type `dma_addr_t`,
whose width is the build's choice, and wrap around with it. -/
structure DmaBlockConfig (w : Nat) where
  sourceAddress : BitVec w
  destAddress : BitVec w
  blockSize : Nat
  nextBlock : Option Nat
  deriving DecidableEq

structure DmaConfig where
  dmaSlot : Nat
  errorCallbackEn : Bool
  sourceChainingEn : Bool
  destChainingEn : Bool
  linkedChannel : Nat
  sourceBurstLength : Nat
  destBurstLength : Nat
  blockCount : Nat
  headBlock : Option Nat
  userData : Nat
  dmaCallback : FnPtr
  deriving DecidableEq

inductive DmaChannelState where
  | unused
  | loaded
  | started
  | stopped
  deriving DecidableEq, Repr

/-- `struct dma_emul_xfer_desc`; the state is kept in the `_reserved` bits of the configuration. -/
structure DmaXferDesc where
  config : DmaConfig
  state : DmaChannelState
  deriving DecidableEq

structure DmaDevice (w channels requests : Nat) where
  xfer : Fin channels → DmaXferDesc
  block : Fin (channels * requests) → DmaBlockConfig w

variable {w channels requests : Nat}

def DmaDevice.init : DmaDevice w channels requests where
  xfer _ := ⟨⟨0, false, false, false, 0, 0, 0, 0, none, 0, 0⟩, .unused⟩
  block _ := ⟨0, 0, 0, none⟩

def assertNoMsg (asserts : Bool) (condition : Prop) [Decidable condition] : Outcome Unit :=
  if asserts = true ∧ ¬condition then .error .assertFailed else .ok ()

def DmaDevice.xferAt (device : DmaDevice w channels requests) (channel : Nat) :
    Outcome DmaXferDesc :=
  if inside : channel < channels then .ok (device.xfer ⟨channel, inside⟩) else .error .outOfBounds

def DmaDevice.blockAt (device : DmaDevice w channels requests) (index : Nat) :
    Outcome (DmaBlockConfig w) :=
  if inside : index < channels * requests then .ok (device.block ⟨index, inside⟩)
  else .error .outOfBounds

def DmaDevice.setXfer (device : DmaDevice w channels requests) (channel : Nat)
    (desc : DmaXferDesc) :
    Outcome (DmaDevice w channels requests) :=
  if inside : channel < channels then
    .ok { device with xfer := Function.update device.xfer ⟨channel, inside⟩ desc }
  else .error .outOfBounds

def DmaDevice.setBlock (device : DmaDevice w channels requests) (index : Nat)
    (block : DmaBlockConfig w) : Outcome (DmaDevice w channels requests) :=
  if inside : index < channels * requests then
    .ok { device with block := Function.update device.block ⟨index, inside⟩ block }
  else .error .outOfBounds

section

variable (asserts : Bool)

def dmaEmulGetChannelState (device : DmaDevice w channels requests) (channel : Nat) :
    Outcome DmaChannelState := do
  assertNoMsg asserts (channel < channels)
  return (← device.xferAt channel).state

def dmaEmulSetChannelState (device : DmaDevice w channels requests) (channel : Nat)
    (state : DmaChannelState) : Outcome (DmaDevice w channels requests) := do
  assertNoMsg asserts (channel < channels)
  device.setXfer channel { ← device.xferAt channel with state }

def blocksValid (requests : Nat) (heap : Nat → DmaBlockConfig w) : Nat → Nat → Option Nat → Bool
  | 0, _, _ => true
  | _ + 1, _, none => false
  | left + 1, i, some block =>
    if i ≥ requests then false else blocksValid requests heap left (i + 1) (heap block).nextBlock

def dmaEmulConfigValid (channels requests : Nat) (heap : Nat → DmaBlockConfig w) (channel : Nat)
    (config : DmaConfig) : Bool :=
  if config.dmaSlot ≥ requests then false
  else if channel ≥ channels then false
  else if config.destBurstLength ≠ config.sourceBurstLength then false
  else blocksValid requests heap config.blockCount 0 config.headBlock

structure DmaConfigured (w channels requests : Nat) where
  code : Int
  device : DmaDevice w channels requests
  written : List Nat

def copyBlocks (heap : Nat → DmaBlockConfig w) :
    Nat → Nat → Option Nat → DmaDevice w channels requests →
      Outcome (DmaDevice w channels requests × List Nat)
  | 0, _, _, device => .ok (device, [])
  | _ + 1, _, none, _ => if asserts then .error .assertFailed else .error .outOfBounds
  | left + 1, index, some blockIt, device => do
    let device ← device.setBlock index (heap blockIt)
    let (device, written) ← copyBlocks heap left (index + 1) (heap blockIt).nextBlock device
    return (device, index :: written)

/-- The errors are `-EINVAL` and `-EBUSY`. -/
def dmaEmulConfigure (heap : Nat → DmaBlockConfig w) (device : DmaDevice w channels requests)
    (channel : Nat) (config : DmaConfig) : Outcome (DmaConfigured w channels requests) :=
  if dmaEmulConfigValid channels requests heap channel config = false then .ok ⟨-22, device, []⟩
  else do
    match ← dmaEmulGetChannelState asserts device channel with
    | .unused | .stopped =>
      let device ← device.setXfer channel { ← device.xferAt channel with config }
      let (device, written) ←
        copyBlocks asserts heap config.blockCount (channel * requests + config.dmaSlot)
          config.headBlock device
      let device ← dmaEmulSetChannelState asserts device channel .loaded
      return ⟨0, device, written⟩
    | _ => return ⟨-16, device, []⟩

/-- The loop of `dma_emul_start` that marks a channel and those linked to it, and the channels that
it visits. -/
def markStarted : Nat → DmaDevice w channels requests → Nat →
    Outcome (DmaDevice w channels requests × List Nat)
  | 0, _, _ => .error .outOfFuel
  | fuel + 1, device, channel => do
    let device ← dmaEmulSetChannelState asserts device channel .started
    let config := (← device.xferAt channel).config
    if config.sourceChainingEn || config.destChainingEn then
      let (device, visited) ← markStarted fuel device config.linkedChannel
      return (device, channel :: visited)
    else return (device, [channel])

structure DmaStarted (w channels requests : Nat) where
  code : Int
  device : DmaDevice w channels requests
  visited : List Nat
  work : Option Nat

/-- `created` is what `warppipe_server_create` returned and `submitted` what
`k_work_submit_to_queue` returned. The errors of its own are `-EINVAL`, `-1` and `-EIO`. -/
def dmaEmulStart (fuel : Nat) (created submitted : Int) (device : DmaDevice w channels requests)
    (channel : Nat) : Outcome (DmaStarted w channels requests) :=
  if channel ≥ channels then .ok ⟨-22, device, [], none⟩
  else if created = -1 then .ok ⟨-1, device, [], none⟩
  else do
    match ← dmaEmulGetChannelState asserts device channel with
    | .started => return ⟨0, device, [], none⟩
    | .loaded | .stopped =>
      let (device, visited) ← markStarted asserts fuel device channel
      return ⟨if submitted < 0 then submitted else 0, device, visited, some channel⟩
    | .unused => return ⟨-5, device, [], none⟩

def dmaEmulStop (device : DmaDevice w channels requests) (channel : Nat) :
    Outcome (Int × DmaDevice w channels requests) := do
  return (0, ← dmaEmulSetChannelState asserts device channel .stopped)

/-! `dma_emul_work_handler` runs on the work queue while other threads call the driver, and shares
its lock with them. -/

inductive DmaStatus where
  | complete
  | canceled
  deriving DecidableEq, Repr

structure DmaCallback (w : Nat) where
  callback : FnPtr
  userData : Nat
  channel : Nat
  status : DmaStatus
  memory : BitVec w → Byte

structure DmaHandler (w channels requests : Nat) where
  device : DmaDevice w channels requests
  memory : BitVec w → Byte
  /-- The static memory from `&result` on, of which `result` is the first four bytes. -/
  statics : Nat → Byte
  gotResult : Bool
  locked : Nat
  callbacks : List (DmaCallback w)

structure DmaWorld (w channels requests : Nat) where
  /-- What other threads did to the device before the handler takes the lock for the `n`-th time. -/
  meanwhile : Nat → DmaDevice w channels requests → DmaDevice w channels requests
  /-- The memory that the completion of a read points to, for the `n`-th use of the lock, the
  address and the length of the read. -/
  answer : Nat → BitVec w → Nat → Nat → Byte

def DmaHandler.lock (world : DmaWorld w channels requests)
    (handler : DmaHandler w channels requests) :
    DmaHandler w channels requests :=
  { handler with
    device := world.meanwhile handler.locked handler.device, locked := handler.locked + 1 }

def DmaHandler.callBack (handler : DmaHandler w channels requests) (config : DmaConfig)
    (channel : Nat) (status : DmaStatus) : DmaHandler w channels requests :=
  { handler with
    callbacks := handler.callbacks ++
      [⟨config.dmaCallback, config.userData, channel, status, handler.memory⟩] }

/-- It copies four bytes, whatever the length of the completion is. -/
def pcieCompletionCb (handler : DmaHandler w channels requests) (data : Nat → Byte) :
    DmaHandler w channels requests :=
  { handler with
    statics := fun offset => if offset < 4 then data offset else handler.statics offset
    gotResult := true }

/-- One read of the remote BAR: the request, the wait for its completion, and the copy out of the
result buffer. -/
def DmaHandler.burst (world : DmaWorld w channels requests)
    (handler : DmaHandler w channels requests) (block : DmaBlockConfig w) (bytes : Nat) :
    DmaHandler w channels requests :=
  let answered :=
    if handler.gotResult then handler
    else pcieCompletionCb handler (world.answer handler.locked block.sourceAddress bytes)
  { answered with
    memory := copyTo answered.memory block.destAddress answered.statics bytes, gotResult := false }

def DmaBlockConfig.advance (block : DmaBlockConfig w) (bytes : Nat) : DmaBlockConfig w :=
  { block with
    blockSize := block.blockSize - bytes
    sourceAddress := block.sourceAddress + BitVec.ofNat w bytes
    destAddress := block.destAddress + BitVec.ofNat w bytes }

theorem DmaBlockConfig.blockSize_advance (block : DmaBlockConfig w) (bytes : Nat) :
    (block.advance bytes).blockSize = block.blockSize - bytes := rfl

/-- The loop over the bursts of a block, and whether it was left because the channel is stopped. -/
def burstLoop (world : DmaWorld w channels requests) (channel : Nat) (config : DmaConfig)
    (block : DmaBlockConfig w) (handler : DmaHandler w channels requests) :
    Outcome (Bool × DmaHandler w channels requests) :=
  let bytes := min block.blockSize config.destBurstLength
  if bytes > 0 then do
    let handler := handler.lock world
    let state ← dmaEmulGetChannelState asserts handler.device channel
    if state = .stopped then
      return (true,
        if config.errorCallbackEn then handler.callBack config channel .canceled else handler)
    assertNoMsg asserts (state = .started)
    burstLoop world channel config (block.advance bytes) (handler.burst world block bytes)
  else return (false, handler)
  termination_by block.blockSize
  decreasing_by
    rw [DmaBlockConfig.blockSize_advance]
    omega

def blockLoop (world : DmaWorld w channels requests) (channel : Nat) (config : DmaConfig) :
    Nat → Nat → DmaHandler w channels requests → Outcome (Bool × DmaHandler w channels requests)
  | 0, _, handler => .ok (false, handler)
  | left + 1, i, handler => do
    let handler := handler.lock world
    let block ← handler.device.blockAt (channel * requests + config.dmaSlot + i)
    let (canceled, handler) ← burstLoop asserts world channel config block handler
    if canceled then return (true, handler)
    blockLoop world channel config left (i + 1) handler

inductive DmaPosition where
  | transfer (channel : Nat)
  | link (channel : Nat) (config : DmaConfig)
  | out
  deriving DecidableEq

def handleTransfer (world : DmaWorld w channels requests) (channel : Nat)
    (handler : DmaHandler w channels requests) :
    Outcome (DmaPosition × DmaHandler w channels requests) := do
  let handler := handler.lock world
  let config := (← handler.device.xferAt channel).config
  let (canceled, handler) ← blockLoop asserts world channel config config.blockCount 0 handler
  if canceled then return (.out, handler)
  let handler := handler.lock world
  let device ← dmaEmulSetChannelState asserts handler.device channel .stopped
  return (.link channel config, { handler with device }.callBack config channel .complete)

def handleLink (channel : Nat) (config : DmaConfig) : Outcome DmaPosition :=
  if config.sourceChainingEn || config.destChainingEn then do
    assertNoMsg asserts (channel ≠ config.linkedChannel)
    return .transfer config.linkedChannel
  else .ok .out

def dmaEmulWorkHandler (world : DmaWorld w channels requests) :
    Nat → DmaPosition → DmaHandler w channels requests →
      Outcome (DmaPosition × DmaHandler w channels requests)
  | 0, position, handler => .ok (position, handler)
  | _ + 1, .out, handler => .ok (.out, handler)
  | steps + 1, .link channel config, handler => do
    dmaEmulWorkHandler world steps (← handleLink asserts channel config) handler
  | steps + 1, .transfer channel, handler => do
    let (position, handler) ← handleTransfer asserts world channel handler
    dmaEmulWorkHandler world steps position handler

end

end WarpPipe
