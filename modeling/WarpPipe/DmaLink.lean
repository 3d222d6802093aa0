import WarpPipe.DmaChain
import WarpPipe.SoleHost

/-!
The DMA controller on a connection to the memory mock. `dma_emul_start` enumerates the mock and
submits the work; the handler makes its reads of the client and serves the connection until their
completions arrive. The connection is transparent to it, so that a chain of channels moves the bytes
of BAR 0.
-/

namespace WarpPipe

open ByteLayout

variable {w channels requests : Nat}

structure DmaHost (w channels requests : Nat) extends HostApp where
  handler : DmaHandler w channels requests

def pcieCompletionPtr : FnPtr := 7

/-- The callbacks of the host. `beyond` is what lies behind the data of a completion:
`pcie_completion_cb` always copies four bytes. -/
def dmaApplication (beyond : Nat → Nat → Byte) : Application (DmaHost w channels requests) where
  accept _ app _ := { app := app, calls := [] }
  read _ app _ _ _ := { app := app, error := 1, data := [], calls := [] }
  write _ app _ _ _ _ := { app := app, calls := [] }
  completion cb app client errorCode data length :=
    if cb = pcieCompletionPtr then
      { app := { app with handler := pcieCompletionCb app.handler fun offset =>
          if offset < data.length then getByte data offset else beyond app.handler.locked offset }
        calls := [] }
    else
      let ret := hostApplication.completion cb app.toHostApp client errorCode data length
      { app := { app with toHostApp := ret.app }, calls := ret.calls }

abbrev SharedDma (w channels requests : Nat) : Type := Shared (DmaHost w channels requests)

def Shared.withHandler (shared : SharedDma w channels requests)
    (handler : DmaHandler w channels requests) :
    SharedDma w channels requests :=
  { shared with app := { shared.app with handler := handler } }

def Shared.locked (world : DmaWorld w channels requests) (shared : SharedDma w channels requests) :
    SharedDma w channels requests :=
  shared.withHandler (shared.app.handler.lock world)

def DmaHandler.copyOut (handler : DmaHandler w channels requests) (block : DmaBlockConfig w)
    (bytes : Nat) :
    DmaHandler w channels requests :=
  { handler with
    memory := copyTo handler.memory block.destAddress handler.statics bytes, gotResult := false }

/-! The driver as a program. What other threads do is up to `world.meanwhile`; the answers come from
the connection, not from `world.answer`. -/

abbrev DmaProgram (w channels requests : Nat) : Type :=
  Program (SharedDma w channels requests) (Outcome (DmaPosition × DmaHandler w channels requests))

section

variable (asserts : Bool) (world : DmaWorld w channels requests)

/-- The return value of `warppipe_read` is ignored. The loop behind it does not look at `quit`, and
does not end once the connection is lost. -/
def burstProgram (channel : Nat) (config : DmaConfig) (block : DmaBlockConfig w)
    (next : Bool → DmaProgram w channels requests) : DmaProgram w channels requests :=
  let bytes := min block.blockSize config.destBurstLength
  if bytes > 0 then
    .change (Shared.locked world) fun shared =>
      match dmaEmulGetChannelState asserts (shared.locked world).app.handler.device channel with
      | .error fault => .done (.error fault)
      | .ok state =>
        if state = .stopped then
          if config.errorCallbackEn then
            .change (fun shared =>
              shared.withHandler (shared.app.handler.callBack config channel .canceled))
              fun _ => next true
          else next true
        else
          match assertNoMsg asserts (state = .started) with
          | .error fault => .done (.error fault)
          | .ok _ =>
            .call (.read 0 (block.sourceAddress.setWidth 64) bytes (some pcieCompletionPtr))
                fun _ =>
              .wait (fun shared => shared.app.handler.gotResult)
                (fun shared => shared.withHandler (shared.app.handler.copyOut block bytes))
                fun quit _ =>
                  if quit then .done (.error .outOfFuel)
                  else burstProgram channel config (block.advance bytes) next
  else next false
  termination_by block.blockSize
  decreasing_by
    rw [DmaBlockConfig.blockSize_advance]
    omega

def blockProgram (channel : Nat) (config : DmaConfig)
    (next : Bool → DmaProgram w channels requests) :
    Nat → Nat → DmaProgram w channels requests
  | 0, _ => next false
  | left + 1, i =>
    .change (Shared.locked world) fun shared =>
      match (shared.locked world).app.handler.device.blockAt
          (channel * requests + config.dmaSlot + i) with
      | .error fault => .done (.error fault)
      | .ok block =>
        burstProgram asserts world channel config block fun canceled =>
          if canceled then next true else blockProgram channel config next left (i + 1)

def completeProgram (channel : Nat) (config : DmaConfig)
    (next : DmaPosition → DmaProgram w channels requests) :
    DmaProgram w channels requests :=
  .change (Shared.locked world) fun shared =>
    match dmaEmulSetChannelState asserts (shared.locked world).app.handler.device channel
        .stopped with
    | .error fault => .done (.error fault)
    | .ok device =>
      .change (fun shared => shared.withHandler
          (DmaHandler.callBack { shared.app.handler with device := device } config
            channel .complete))
        fun _ => next (.link channel config)

def transferProgram (channel : Nat) (next : DmaPosition → DmaProgram w channels requests) :
    DmaProgram w channels requests :=
  .change (Shared.locked world) fun shared =>
    match (shared.locked world).app.handler.device.xferAt channel with
    | .error fault => .done (.error fault)
    | .ok desc =>
      blockProgram asserts world channel desc.config
        (fun canceled => if canceled then next .out else completeProgram asserts world channel
          desc.config next)
        desc.config.blockCount 0

def workProgram : Nat → DmaPosition → DmaProgram w channels requests
  | 0, position => .change id fun shared => .done (.ok (position, shared.app.handler))
  | _ + 1, .out => .change id fun shared => .done (.ok (.out, shared.app.handler))
  | steps + 1, .link channel config =>
    match handleLink asserts channel config with
    | .error fault => .done (.error fault)
    | .ok position => workProgram steps position
  | steps + 1, .transfer channel => transferProgram asserts world channel (workProgram steps)

end

def linkWorld (meanwhile : Nat → DmaDevice w channels requests → DmaDevice w channels requests)
    (beyond : Nat → Nat → Byte) (remote : BitVec w → Byte) : DmaWorld w channels requests where
  meanwhile := meanwhile
  answer time addr length offset := if offset < length then remote (addr + BitVec.ofNat w offset)
    else beyond time offset

def MockMemory.remote (memory : MockMemory) (addr : BitVec w) : Byte :=
  getByte memory.bar0 addr.toNat

def DmaBlockConfig.InBar (block : DmaBlockConfig w) : Prop :=
  block.sourceAddress.toNat + block.blockSize ≤ 128

instance (block : DmaBlockConfig w) : Decidable block.InBar := inferInstanceAs (Decidable (_ ≤ _))

theorem DmaBlockConfig.InBar.advance {block : DmaBlockConfig w} (inBar : block.InBar) {bytes : Nat}
    (within : bytes ≤ block.blockSize) : (block.advance bytes).InBar := by
  have moved : (block.sourceAddress + BitVec.ofNat w bytes).toNat ≤
      block.sourceAddress.toNat + bytes := by
    rw [BitVec.toNat_add, BitVec.toNat_ofNat]
    exact (Nat.mod_le ..).trans (Nat.add_le_add_left (Nat.mod_le ..) _)
  unfold InBar at inBar ⊢
  simp only [DmaBlockConfig.advance]
  omega

def dmaCallbacks (beyond : Nat → Nat → Byte) :
    (side : Side) → Callbacks (WithMock (SharedDma w channels requests) MockMemory side) :=
  withMock (dmaApplication beyond).callbacks mockTable mockBars

section

variable {beyond : Nat → Nat → Byte} {device : Shared (MockDevice MockMemory)}
  {registry mockRegistry : Registry} {windows : MockBar → Window}
  {shared : SharedDma w channels requests}
  {meanwhile : Nat → DmaDevice w channels requests → DmaDevice w channels requests}

theorem dma_completion (handler : DmaHandler w channels requests) (data : Bytes) (length : Int) :
    (dmaApplication beyond).callbacks.completion pcieCompletionPtr (shared.withHandler handler)
      0 data length =
      { app := shared.withHandler (pcieCompletionCb handler fun offset =>
          if offset < data.length then getByte data offset else beyond handler.locked offset)
        calls := [] } := by
  simp only [Application.callbacks, dmaApplication, if_true]
  rw [after_own (List.forall_mem_nil _)]
  rfl

theorem burst_link (wide : 7 ≤ w) (memory : MockMemory) {handler : DmaHandler w channels requests}
    (waiting : handler.gotResult = false) {block : DmaBlockConfig w} (inBar : block.InBar)
    {bytes : Nat} (within : bytes ≤ block.blockSize) :
    handler.burst (linkWorld meanwhile beyond memory.remote) block bytes =
      (pcieCompletionCb handler fun offset =>
        if offset < (memory.read .bar0 block.sourceAddress.toNat bytes).length then
          getByte (memory.read .bar0 block.sourceAddress.toNat bytes) offset
        else beyond handler.locked offset).copyOut block bytes := by
  have room : (2 : Nat) ^ 7 ≤ 2 ^ w := Nat.pow_le_pow_right (by decide) wide
  unfold DmaBlockConfig.InBar at inBar
  have answer : (linkWorld meanwhile beyond memory.remote).answer handler.locked
      block.sourceAddress bytes = fun offset =>
          if offset < (memory.read .bar0 block.sourceAddress.toNat bytes).length then
        getByte (memory.read .bar0 block.sourceAddress.toNat bytes) offset
          else beyond handler.locked offset := by
    funext offset
    simp only [linkWorld, MockMemory.length_read]
    by_cases short : offset < bytes
    · have place : (block.sourceAddress + BitVec.ofNat w offset).toNat =
          block.sourceAddress.toNat + offset := by
        rw [BitVec.toNat_add, BitVec.toNat_ofNat, Nat.mod_eq_of_lt (by omega : offset < 2 ^ w)]
        exact Nat.mod_eq_of_lt (by omega)
      rw [if_pos short, if_pos short, MockMemory.remote, place]
      simp [MockMemory.read, MockMemory.bytes, getByte, short]
    · rw [if_neg short, if_neg short]
  rw [DmaHandler.burst, if_neg (by simp [waiting]), answer]
  rfl

/-- A read of the mock, the wait for its completion and the copy are a burst. -/
theorem burst_acts (wide : 7 ≤ w) (attached : Attached registry mockRegistry windows)
    {handler : DmaHandler w channels requests} (waiting : handler.gotResult = false)
    {block : DmaBlockConfig w} (inBar : block.InBar) {bytes : Nat} (positive : 0 < bytes)
    (within : bytes ≤ block.blockSize)
    (resume : Bool → SharedDma w channels requests → DmaProgram w channels requests) :
    ∃ after app, memoryOf after = memoryOf device ∧
      Acts (dmaCallbacks beyond) (device, mockRegistry)
        ⟨.call (.read 0 (block.sourceAddress.setWidth 64) bytes (some pcieCompletionPtr)) fun _ =>
          .wait (fun shared => shared.app.handler.gotResult)
            (fun shared => shared.withHandler (shared.app.handler.copyOut block bytes)) resume,
          shared.withHandler handler, registry⟩
        (after, mockRegistry)
        ⟨resume false app, shared.withHandler
          (handler.burst (linkWorld meanwhile beyond (memoryOf device).remote) block bytes),
          registry⟩ := by
  rw [burst_link wide _ waiting inBar within]
  unfold DmaBlockConfig.InBar at inBar
  have place : (block.sourceAddress.setWidth 64).toNat = block.sourceAddress.toNat := by
    rw [BitVec.toNat_setWidth]
    exact Nat.mod_eq_of_lt (by omega)
  have inside : (block.sourceAddress.setWidth 64).toNat < MockBar.bar0.size := by
    rw [place]
    exact (by omega : block.sourceAddress.toNat < 128)
  obtain ⟨after, answer, same⟩ := attached.serveRead mock_remembers device .bar0 bytes inside
  rw [place] at answer
  have set : registry.bar 0 ≠ 0 := attached.set .bar0
  have effect :
      (Call.read 0 (block.sourceAddress.setWidth 64) bytes (some pcieCompletionPtr)).effect
        registry =
      .ask .memory ((registry.bar 0).setWidth 64 + block.sourceAddress.setWidth 64) bytes
        (some pcieCompletionPtr) := by
    rw [Call.effect, if_neg set, Int.toNat_natCast]
  have proper :
      (Call.read 0 (block.sourceAddress.setWidth 64) bytes (some pcieCompletionPtr)).Proper
        registry :=
    fun _ => ⟨by omega, attached.encodable .bar0 inside (by omega) (by omega)⟩
  have asks : Station.Asks
      ⟨.call (.read 0 (block.sourceAddress.setWidth 64) bytes (some pcieCompletionPtr)) fun _ =>
      .wait (fun shared => shared.app.handler.gotResult)
        (fun shared => shared.withHandler (shared.app.handler.copyOut block bytes)) resume,
      shared.withHandler handler, registry⟩ .memory
      ((registry.bar 0).setWidth 64 + block.sourceAddress.setWidth 64) bytes pcieCompletionPtr
      (fun shared => shared.app.handler.gotResult)
      (fun shared => shared.withHandler (shared.app.handler.copyOut block bytes)) resume :=
    ⟨⟨_, _, rfl, proper, effect, rfl⟩, waiting⟩
  have completed : (dmaCallbacks beyond .left).completion pcieCompletionPtr
      (shared.withHandler handler) 0 ((memoryOf device).read .bar0 block.sourceAddress.toNat bytes)
      ((memoryOf device).read .bar0 block.sourceAddress.toNat bytes).length = _ :=
        dma_completion handler _ _
  have ends :
      ((dmaCallbacks beyond .left).completion pcieCompletionPtr (shared.withHandler handler) 0
      ((memoryOf device).read .bar0 block.sourceAddress.toNat bytes)
      ((memoryOf device).read .bar0 block.sourceAddress.toNat
        bytes).length).app.app.handler.gotResult = true := by
    rw [completed]
    rfl
  have acts : Acts (dmaCallbacks beyond) (device, mockRegistry) _ _ _ := .ask asks answer ends
  rw [completed] at acts
  exact ⟨after, _, same, acts⟩

end

def Drives (beyond : Nat → Nat → Byte) (memory : MockMemory) (registry mockRegistry : Registry)
    (shared : SharedDma w channels requests) (program : DmaProgram w channels requests)
    (handler : DmaHandler w channels requests) (next : DmaProgram w channels requests)
    (after : DmaHandler w channels requests) : Prop :=
  ∀ device, memoryOf device = memory → ∃ count final, memoryOf final = memory ∧
    Performs (dmaCallbacks beyond) (device, mockRegistry)
      ⟨program, shared.withHandler handler, registry⟩ count
      (final, mockRegistry) ⟨next, shared.withHandler after, registry⟩

section

variable {asserts : Bool} {beyond : Nat → Nat → Byte} {memory : MockMemory}
  {registry mockRegistry : Registry} {windows : MockBar → Window}
  {shared : SharedDma w channels requests}
  {meanwhile : Nat → DmaDevice w channels requests → DmaDevice w channels requests}
  {program second third : DmaProgram w channels requests}
  {handler middle last : DmaHandler w channels requests}

theorem Drives.refl (program : DmaProgram w channels requests)
    (handler : DmaHandler w channels requests) :
    Drives beyond memory registry mockRegistry shared program handler program handler :=
  fun device same => ⟨0, device, same, .here ..⟩

theorem Drives.trans
    (first : Drives beyond memory registry mockRegistry shared program handler second middle)
    (rest : Drives beyond memory registry mockRegistry shared second middle third last) :
    Drives beyond memory registry mockRegistry shared program handler third last := by
  intro device same
  obtain ⟨count, between, still, performs⟩ := first device same
  obtain ⟨more, final, kept, later⟩ := rest between still
  exact ⟨count + more, final, kept, performs.trans later⟩

theorem Drives.change {update : SharedDma w channels requests → SharedDma w channels requests}
    {next : SharedDma w channels requests → DmaProgram w channels requests}
    (changes : update (shared.withHandler handler) = shared.withHandler middle)
    (rest : Drives beyond memory registry mockRegistry shared (next (shared.withHandler handler))
      middle third last) :
    Drives beyond memory registry mockRegistry shared (.change update next) handler third last := by
  intro device same
  obtain ⟨count, final, kept, performs⟩ := rest device same
  rw [← changes] at performs
  exact ⟨count + 1, final, kept, .step (.silent (.change ..)) performs⟩

variable (wide : 7 ≤ w) (attached : Attached registry mockRegistry windows)

include wide attached

theorem burstProgram_drives {channel : Nat} {config : DmaConfig} {canceled : Bool}
    (next : Bool → DmaProgram w channels requests) {kept : DmaDevice w channels requests → Prop}
    (keeps : (linkWorld meanwhile beyond memory.remote).Keeps kept) (start : kept handler.device)
    (waiting : handler.gotResult = false) (block : DmaBlockConfig w) (inBar : block.InBar)
    (ok : burstLoop asserts (linkWorld meanwhile beyond memory.remote) channel config
      block handler =
      .ok (canceled, last)) :
    kept last.device ∧ last.gotResult = false ∧ Drives beyond memory registry mockRegistry shared
      (burstProgram asserts (linkWorld meanwhile beyond memory.remote) channel config block next)
        handler
      (next canceled) last := by
  induction left : block.blockSize using Nat.strong_induction_on generalizing block handler with
  | _ size ih =>
      rw [burstLoop] at ok
      rw [burstProgram]
      by_cases more : min block.blockSize config.destBurstLength > 0
      · rw [if_pos more] at ok ⊢
        have locked := handler.lock_proceeds keeps start waiting
        cases read : dmaEmulGetChannelState asserts
          (handler.lock (linkWorld meanwhile beyond memory.remote)).device channel with
        | error fault =>
            simp only [Bind.bind, Except.bind, read] at ok
            cases ok
        | ok state =>
            simp only [Bind.bind, Except.bind, read] at ok
            have found : dmaEmulGetChannelState asserts ((shared.withHandler handler).locked
                (linkWorld meanwhile beyond memory.remote)).app.handler.device channel =
                  .ok state := read
            by_cases stopped : state = .stopped
            · rw [if_pos stopped] at ok
              cases ok
              by_cases enabled : config.errorCallbackEn = true
              · rw [if_pos enabled]
                refine ⟨locked.kept, locked.waiting, .change rfl ?_⟩
                simp only [found, if_pos stopped, if_pos enabled]
                exact .change rfl (.refl _ _)
              · rw [if_neg enabled]
                refine ⟨locked.kept, locked.waiting, .change rfl ?_⟩
                simp only [found, if_pos stopped, if_neg enabled]
                exact .refl _ _
            · rw [if_neg stopped] at ok
              cases fine : assertNoMsg asserts (state = .started) with
              | error fault =>
                  rw [fine] at ok
                  cases ok
              | ok _ =>
                  rw [fine] at ok
                  have smaller :
                      (block.advance (min block.blockSize config.destBurstLength)).blockSize <
                        size := by
                    rw [DmaBlockConfig.blockSize_advance]
                    omega
                  have burst :=
                    DmaHandler.burst_proceeds (linkWorld meanwhile beyond memory.remote) locked.kept
                    locked.waiting block (min block.blockSize config.destBurstLength)
                  obtain ⟨still, waits, drives⟩ := ih _ smaller burst.kept burst.waiting _
                    (inBar.advance (Nat.min_le_left ..)) ok rfl
                  refine ⟨still, waits, .change rfl ?_⟩
                  simp only [found, if_neg stopped, fine]
                  intro device same
                  obtain ⟨after, app, kept, acts⟩ :=
                    burst_acts wide attached locked.waiting inBar more
                    (Nat.min_le_left ..) fun quit _ => if quit then .done (.error .outOfFuel) else
                      burstProgram asserts (linkWorld meanwhile beyond memory.remote) channel config
                        (block.advance (min block.blockSize config.destBurstLength)) next
                  rw [same] at kept acts
                  obtain ⟨count, final, unchanged, performs⟩ := drives after kept
                  exact ⟨count + 1, final, unchanged, .step acts performs⟩
      · rw [if_neg more] at ok ⊢
        cases ok
        exact ⟨start, waiting, .refl _ _⟩

theorem blockProgram_drives {channel : Nat} {config : DmaConfig} {blocks : List (DmaBlockConfig w)}
    {canceled : Bool} (next : Bool → DmaProgram w channels requests)
    {kept : DmaDevice w channels requests → Prop}
    (keeps : (linkWorld meanwhile beyond memory.remote).Keeps kept)
    (stored : ∀ device, kept device → device.Stored channel config blocks)
    (inBar : ∀ block ∈ blocks, block.InBar) (start : kept handler.device)
    (waiting : handler.gotResult = false) {left i : Nat} (rest : i + left = blocks.length)
    (ok : blockLoop asserts (linkWorld meanwhile beyond memory.remote) channel config
      left i handler =
      .ok (canceled, last)) :
    kept last.device ∧ last.gotResult = false ∧ Drives beyond memory registry mockRegistry shared
      (blockProgram asserts (linkWorld meanwhile beyond memory.remote) channel config next left i)
        handler
      (next canceled) last := by
  induction left generalizing i handler with
  | zero =>
      cases ok
      exact ⟨start, waiting, .refl _ _⟩
  | succ left ih =>
      have inside : i < blocks.length := by omega
      have locked := handler.lock_proceeds keeps start waiting
      have read := (stored _ locked.kept).block i inside
      have found : ((shared.withHandler handler).locked
          (linkWorld meanwhile beyond memory.remote)).app.handler.device.blockAt
            (channel * requests + config.dmaSlot + i) = .ok blocks[i] := read
      rw [blockLoop] at ok
      simp only [Bind.bind, Except.bind, read] at ok
      cases looped : burstLoop asserts (linkWorld meanwhile beyond memory.remote) channel
        config blocks[i] (handler.lock (linkWorld meanwhile beyond memory.remote)) with
      | error fault =>
          rw [looped] at ok
          cases ok
      | ok result =>
          obtain ⟨stopped, moved⟩ := result
          rw [looped] at ok
          obtain ⟨still, waits, drives⟩ := burstProgram_drives wide attached
            (fun canceled => if canceled then next true else
              blockProgram asserts (linkWorld meanwhile beyond memory.remote) channel config
                next left (i + 1))
            keeps locked.kept locked.waiting blocks[i] (inBar _ (List.getElem_mem inside)) looped
          cases stopped with
          | true =>
              cases ok
              refine ⟨still, waits, .change rfl ?_⟩
              simp only [found]
              exact drives
          | false =>
              obtain ⟨keptLast, waitsLast, further⟩ :=
                ih still waits (show i + 1 + left = blocks.length by omega) ok
              refine ⟨keptLast, waitsLast, .change rfl ?_⟩
              simp only [found]
              exact drives.trans further

theorem transferProgram_drives {channel : Nat} {config : DmaConfig}
    {blocks : List (DmaBlockConfig w)} {position : DmaPosition}
    (next : DmaPosition → DmaProgram w channels requests)
    {kept : DmaDevice w channels requests → Prop}
    (keeps : (linkWorld meanwhile beyond memory.remote).Keeps kept)
    (stored : ∀ device, kept device → device.Stored channel config blocks)
    (inBar : ∀ block ∈ blocks, block.InBar)
    (stops : ∀ device inside, kept device → kept (device.withState ⟨channel, inside⟩ .stopped))
    (start : kept handler.device) (waiting : handler.gotResult = false)
    (ok : handleTransfer asserts (linkWorld meanwhile beyond memory.remote) channel handler =
      .ok (position, last)) :
    (position = .out ∨ position = .link channel config) ∧ kept last.device ∧
      last.gotResult = false ∧ Drives beyond memory registry mockRegistry shared
        (transferProgram asserts (linkWorld meanwhile beyond memory.remote) channel next) handler
        (next position) last := by
  have locked := handler.lock_proceeds keeps start waiting
  obtain ⟨state, read, -⟩ := (stored _ locked.kept).desc
  have found : ((shared.withHandler handler).locked
      (linkWorld meanwhile beyond memory.remote)).app.handler.device.xferAt channel = .ok ⟨config,
      state⟩ := read
  rw [handleTransfer] at ok
  simp only [Bind.bind, Except.bind, read] at ok
  cases looped : blockLoop asserts (linkWorld meanwhile beyond memory.remote) channel config
    config.blockCount 0 (handler.lock (linkWorld meanwhile beyond memory.remote)) with
  | error fault =>
      rw [looped] at ok
      cases ok
  | ok result =>
      obtain ⟨canceled, moved⟩ := result
      rw [looped] at ok
      obtain ⟨still, waits, drives⟩ : kept moved.device ∧ moved.gotResult = false ∧
          Drives beyond memory registry mockRegistry shared _ _ _ _ :=
            blockProgram_drives wide attached
        (fun canceled => if canceled then next .out else
          completeProgram asserts (linkWorld meanwhile beyond memory.remote) channel config next)
        keeps stored inBar locked.kept locked.waiting
        (show 0 + config.blockCount = blocks.length by
          rw [Nat.zero_add, (stored _ locked.kept).count]) looped
      cases canceled with
      | true =>
          cases ok
          refine ⟨.inl rfl, still, waits, .change rfl ?_⟩
          simp only [found]
          exact drives
      | false =>
          have relocked := moved.lock_proceeds keeps still waits
          have inside := (stored _ relocked.kept).inside
          simp only [dmaEmulSetChannelState_eq inside] at ok
          cases ok
          refine ⟨.inr rfl, stops _ inside relocked.kept, relocked.waiting, .change rfl ?_⟩
          simp only [found]
          refine drives.trans (.change rfl ?_)
          simp only [dmaEmulSetChannelState_eq inside]
          exact .change rfl (.refl _ _)

def DmaPosition.On (configOf : Nat → DmaConfig) (chain : List Nat) : DmaPosition → Prop
  | .transfer channel => channel ∈ chain
  | .link channel config => channel ∈ chain ∧ config = configOf channel
  | .out => True

omit wide attached in
theorem handleLink_on {configOf : Nat → DmaConfig} {chain : List Nat} {channel : Nat}
    {position : DmaPosition}
    (closed : ((configOf channel).sourceChainingEn || (configOf channel).destChainingEn) = true →
      (configOf channel).linkedChannel ∈ chain)
    (ok : handleLink asserts channel (configOf channel) = .ok position) :
    position.On configOf chain := by
  rw [handleLink] at ok
  by_cases enabled :
    ((configOf channel).sourceChainingEn || (configOf channel).destChainingEn) = true
  · rw [if_pos enabled] at ok
    cases fine : assertNoMsg asserts (channel ≠ (configOf channel).linkedChannel) with
    | error fault =>
        rw [fine] at ok
        cases ok
    | ok _ =>
        rw [fine] at ok
        cases ok
        exact closed enabled
  · rw [if_neg enabled] at ok
    cases ok
    trivial

/-- The handler ends on a connection as it does in the world that the connection makes. -/
theorem workProgram_drives {configOf : Nat → DmaConfig} {blocksOf : Nat → List (DmaBlockConfig w)}
    {chain : List Nat}
    (keeps : (linkWorld meanwhile beyond memory.remote).Keeps
      (HoldsChain configOf blocksOf (fun _ _ => True) chain))
    (closed : ∀ channel ∈ chain,
      ((configOf channel).sourceChainingEn || (configOf channel).destChainingEn) = true →
      (configOf channel).linkedChannel ∈ chain)
    (inBar : ∀ channel ∈ chain, ∀ block ∈ blocksOf channel, block.InBar) {steps : Nat}
    {position final : DmaPosition} (on : position.On configOf chain)
    (start : HoldsChain configOf blocksOf (fun _ _ => True) chain handler.device)
    (waiting : handler.gotResult = false)
    (ok : dmaEmulWorkHandler asserts (linkWorld meanwhile beyond memory.remote) steps
      position handler =
      .ok (final, last)) :
    Drives beyond memory registry mockRegistry shared
      (workProgram asserts (linkWorld meanwhile beyond memory.remote) steps position) handler
      (.done (.ok (final, last))) last := by
  induction steps generalizing position handler with
  | zero =>
      cases ok
      exact .change rfl (.refl _ _)
  | succ steps ih =>
      cases position with
      | out =>
          cases ok
          exact .change rfl (.refl _ _)
      | link channel config =>
          obtain ⟨member, rfl⟩ := on
          rw [dmaEmulWorkHandler] at ok
          rw [workProgram]
          cases linked : handleLink asserts channel (configOf channel) with
          | error fault =>
              rw [linked] at ok
              cases ok
          | ok next =>
              rw [linked] at ok
              exact ih (handleLink_on (closed channel member) linked) start waiting ok
      | transfer channel =>
          rw [dmaEmulWorkHandler] at ok
          rw [workProgram]
          cases moved : handleTransfer asserts (linkWorld meanwhile beyond memory.remote)
              channel handler with
          | error fault =>
              rw [moved] at ok
              cases ok
          | ok result =>
              obtain ⟨next, middle⟩ := result
              rw [moved] at ok
              have stops (device : DmaDevice w channels requests) (inside : channel < channels)
                  (holds : HoldsChain configOf blocksOf (fun _ _ => True) chain device) :
                  HoldsChain configOf blocksOf (fun _ _ => True) chain
                    (device.withState ⟨channel, inside⟩ .stopped) :=
                fun other within => (holds other within).withState _ fun _ => trivial
              obtain ⟨reached, still, waits, drives⟩ : _ ∧ _ ∧ _ ∧
                  Drives beyond memory registry mockRegistry shared _ _ _ _ :=
                    transferProgram_drives wide attached
                (workProgram asserts (linkWorld meanwhile beyond memory.remote) steps) keeps
                (fun device holds => holds channel on) (inBar channel on) stops start waiting moved
              refine drives.trans (ih ?_ still waits ok)
              rcases reached with rfl | rfl
              · trivial
              · exact ⟨on, rfl⟩

end

def dmaSlot : ReadSlot (SharedDma w channels requests) where
  get shared := shared.app.readData
  put readData shared := { shared with app := { shared.app with readData := readData } }
  get_put _ _ := rfl
  put_put _ _ _ := rfl

theorem dmaSlot_completes (beyond : Nat → Nat → Byte) :
    (dmaSlot : ReadSlot (SharedDma w channels requests)).Completes
      (dmaApplication beyond).callbacks := by
  intro shared readData data length own
  have other : readComplPtr ≠ pcieCompletionPtr := by decide
  have held : shared.app.toHostApp.readData = some readData := own
  simp only [Application.callbacks, dmaApplication, hostApplication, if_neg other, held, if_true]
  rw [after_own (List.forall_mem_nil _)]
  rfl

/-- `dma_emul_start` once it has connected, and the handler of the work that it submits. The return
value of `enumerate` is ignored. -/
def startProgram (asserts : Bool) (world : DmaWorld w channels requests) (junk : Junk) (fuel : Nat)
    (submitted : Int) (steps channel : Nat) : DmaProgram w channels requests :=
  if channel ≥ channels then .change id fun shared => .done (.ok (.out, shared.app.handler))
  else ((enumerate junk).within dmaSlot).bind fun _ =>
    .change (fun shared =>
        match dmaEmulStart asserts fuel 0 submitted shared.app.handler.device channel with
        | .ok started => shared.withHandler { shared.app.handler with device := started.device }
        | .error _ => shared)
      fun shared =>
        match dmaEmulStart asserts fuel 0 submitted shared.app.handler.device channel with
        | .error fault => .done (.error fault)
        | .ok started =>
          match started.work with
          | none => .change id fun shared => .done (.ok (.out, shared.app.handler))
          | some channel => workProgram asserts world steps (.transfer channel)

def dmaHub (system : System (HostAndMock MockMemory)) (handler : DmaHandler w channels requests)
    (program : DmaProgram w channels requests) :
    Hub 1 (WithMock (SharedDma w channels requests) MockMemory)
      (Outcome (DmaPosition × DmaHandler w channels requests)) where
  device := (system .right).app
  seat _ :=
    { system := fun
        | .left => { system .left with
            app := ⟨⟨(system .left).app.app, handler⟩, (system .left).app.self,
              (system .left).app.clients⟩ }
        | .right => system .right
      quit := false
      program := program }

def dmaShared (host : Process HostApp) (hostNode : ClientNode)
    (handler : DmaHandler w channels requests) :
    SharedDma w channels requests :=
  ⟨⟨host.app, handler⟩, hostNode.ptr, .ok host.server.clients⟩

theorem dma_completion_calls (beyond : Nat → Nat → Byte) (cb : FnPtr)
    (shared : SharedDma w channels requests) (code : Int) (data : Bytes) (length : Int) :
    ((dmaApplication beyond).callbacks.completion cb shared code data length).calls = [] := by
  by_cases own : cb = pcieCompletionPtr
  · simp only [Application.callbacks, dmaApplication, if_pos own]
    rfl
  · have plain := hostApplication_completion_calls cb
      ⟨shared.app.toHostApp, shared.self, shared.clients⟩ code data length
    simp only [Application.callbacks, dmaApplication, if_neg own] at plain ⊢
    exact plain

/-- What a run comes to: no step fails, nothing but `value` is returned, and turns that leave no
side out get there with that memory and nothing under way. -/
def DmaSettles (beyond : Nat → Nat → Byte)
    (hub : Hub 1 (WithMock (SharedDma w channels requests) MockMemory)
      (Outcome (DmaPosition × DmaHandler w channels requests)))
    (value : Outcome (DmaPosition × DmaHandler w channels requests)) (memory : MockMemory) : Prop :=
  (∀ schedule, ∃ last, Runs.run (hubStep fun _ => dmaCallbacks beyond) hub schedule = .ok last ∧
    ∀ result, (last.seat (.last 0)).program = .done result → result = value) ∧
  ∃ enough, ∀ rounds : List (List (Fin 1 × Side)), (∀ round ∈ rounds, ∀ mover, mover ∈ round) →
    enough ≤ rounds.length → ∃ last, Runs.run (hubStep fun _ => dmaCallbacks beyond) hub
        rounds.flatten = .ok last ∧
      (last.seat (.last 0)).Idle ∧ (last.seat (.last 0)).program = .done value ∧
      memoryOf last.device = memory

section

variable {host : Process HostApp} {device : Process (MockDevice MockMemory)}
  {hostNode deviceNode : ClientNode}
  (fresh : FreshConnection mockTable mockBars host device hostNode deviceNode)
  (vendor : device.app.space.vendorId ≠ 0xFFFF) (type : device.app.space.headerType = 0)

include fresh vendor type

theorem FreshConnection.dmaSettles (beyond : Nat → Nat → Byte) (junk : Junk)
    {handler last : DmaHandler w channels requests} {start : DmaProgram w channels requests}
    (drives : ∀ registry mockRegistry, Attached registry mockRegistry enumeratedWindows →
      Drives beyond device.app.memory registry mockRegistry
        (dmaShared host hostNode handler) start handler
        (.done (.ok (.out, last))) last) :
    DmaSettles beyond (dmaHub (connection host device hostNode deviceNode) handler
      (((enumerate junk).within dmaSlot).bind fun _ => start)) (.ok (.out, last))
        device.app.memory := by
  obtain ⟨first, -, mock, mockRegistry, registry, kept, attached, enumerates⟩ :=
    fresh.enumerates vendor type (dmaSlot_completes beyond) junk (fun _ => start)
      (dmaShared host hostNode handler)
  obtain ⟨_, _, -, -, hostApp⟩ := fresh.host_created
  have started : dmaSlot.put none (dmaShared host hostNode handler) =
      dmaShared host hostNode handler := by
    simp only [dmaSlot, dmaShared, hostApp]
  rw [started] at enumerates
  obtain ⟨second, final, unchanged, handles⟩ := drives registry mockRegistry attached mock kept
  have coupled := fresh.coupled (HostProgram.done ())
  have idle : ((dmaHub (connection host device hostNode deviceNode) handler
      (((enumerate junk).within dmaSlot).bind fun _ => start)).seat 0).Idle := by
    refine ⟨⟨fun side => ?_, fun side => ?_, fun side => ?_⟩, rfl, fun side => ?_⟩
    · cases side
      · exact coupled.linked.incoming .left
      · exact coupled.linked.incoming .right
    · cases side
      · exact coupled.linked.recvs .left
      · exact coupled.linked.recvs .right
    · cases side
      · exact coupled.linked.sends .left
      · exact coupled.linked.sends .right
    · cases side
      · exact coupled.host.active
      · exact coupled.mock.active
  obtain ⟨safe, live⟩ :=
    hub_transparent (dma_completion_calls beyond) mock_remembers.mild idle
      (enumerates.trans handles)
  refine ⟨safe, 10 * (first + second), fun rounds fair enough => ?_⟩
  obtain ⟨after, ran, rests, served, station⟩ := live rounds fair enough
  exact ⟨after, ran, rests, congrArg Station.program station,
    (congrArg (fun served => memoryOf served.1) served).trans unchanged⟩

/-- A chain of channels that is started on a fresh connection to the mock moves the bytes of BAR 0,
whatever turns the two sides take and whatever channels other threads configure and stop
meanwhile. -/
theorem started_chain_moves_bar (beyond : Nat → Nat → Byte) (junk : Junk) (wide : 7 ≤ w)
    {asserts : Bool} {configOf : Nat → DmaConfig} {blocksOf : Nat → List (DmaBlockConfig w)}
    {may : Nat → Prop} {handler : DmaHandler w channels requests} {fuel channel : Nat}
    {submitted : Int} {started : DmaStarted w channels requests}
    (ok : dmaEmulStart asserts fuel 0 submitted handler.device channel = .ok started)
    (submits : started.work = some channel)
    (stored : ∀ other ∈ started.visited,
      handler.device.Stored other (configOf other) (blocksOf other))
    (slots : ∀ other ∈ started.visited,
      (configOf other).dmaSlot + (configOf other).blockCount ≤ requests)
    (apart : DestinationsApart (started.visited.flatMap blocksOf))
    (bursts : ∀ other ∈ started.visited, ∀ block ∈ blocksOf other,
      block.BurstFits (configOf other).destBurstLength)
    (inBar : ∀ other ∈ started.visited, ∀ block ∈ blocksOf other, block.InBar)
    {meanwhile : Nat → DmaDevice w channels requests → DmaDevice w channels requests}
    (around : ∀ time device, ∃ calls : List (DmaCall w),
      (∀ call ∈ calls, call.Leaves requests started.visited may) ∧
      Runs.run (dmaStep asserts) device calls = .ok (meanwhile time device))
    (waiting : handler.gotResult = false) :
    ∃ last, ServedChain asserts configOf blocksOf may device.app.memory.remote started.visited
        { handler with device := started.device } last ∧
      DmaSettles beyond (dmaHub (connection host device hostNode deviceNode) handler
        (startProgram asserts (linkWorld meanwhile beyond device.app.memory.remote) junk
          fuel submitted (2 * started.visited.length) channel)) (.ok (.out,
          last)) device.app.memory := by
  have answers : (linkWorld meanwhile beyond device.app.memory.remote).Answers
      device.app.memory.remote :=
    fun _ _ _ _ short => if_pos short
  have calls : (linkWorld meanwhile beyond device.app.memory.remote).CallsAround asserts
      started.visited may := around
  obtain ⟨rest, first, chained, distinct, start⟩ := started_visited ok submits stored
  have own : channel ∈ started.visited := by
    rw [first]
    exact List.mem_cons_self
  have inside : channel < channels := (stored channel own).inside
  obtain ⟨last, ran, served⟩ : ∃ last, dmaEmulWorkHandler asserts
      (linkWorld meanwhile beyond device.app.memory.remote) (2 * started.visited.length)
      (.transfer channel) { handler with device := started.device } = .ok (.out, last) ∧
      ServedChain asserts configOf blocksOf may device.app.memory.remote started.visited
        { handler with device := started.device } last := by
    simp only [first] at slots apart bursts calls ⊢
    exact workHandler_served chained distinct start slots apart bursts answers calls waiting
  refine ⟨last, served, ?_⟩
  have holds : HoldsChain configOf blocksOf (fun _ _ => True) started.visited started.device := by
    rw [first]
    exact fun other member => (start other member).stored
  rw [startProgram, if_neg (by omega)]
  refine fresh.dmaSettles vendor type beyond junk fun registry mockRegistry attached => ?_
  have found : dmaEmulStart asserts fuel 0 submitted
      ((dmaShared host hostNode handler).withHandler handler).app.handler.device channel =
        .ok started := ok
  have closed : ∀ other ∈ started.visited,
      ((configOf other).sourceChainingEn || (configOf other).destChainingEn) = true →
        (configOf other).linkedChannel ∈ started.visited := by
    rw [first]
    exact fun other member enabled => chained.closed member enabled
  have works : Drives beyond device.app.memory registry mockRegistry
      (dmaShared host hostNode handler)
      (workProgram asserts (linkWorld meanwhile beyond device.app.memory.remote)
        (2 * started.visited.length) (.transfer channel)) { handler with device :=
          started.device } (.done (.ok (.out, last))) last :=
    workProgram_drives wide attached
      (calls.keeps (fun _ _ => trivial) slots (List.suffix_refl _)) closed inBar
      (show DmaPosition.On configOf started.visited (.transfer channel) from own) holds waiting ran
  refine .change
    (?_ : _ = (dmaShared host hostNode handler).withHandler
      { handler with device := started.device }) ?_
  · simp only [found]
    rfl
  · simp only [found, submits]
    exact works

end

def sampleBlock (dataEnd : BitVec 32) : DmaBlockConfig 32 := ⟨0, dataEnd, 32, none⟩

def finishedCb : FnPtr := 8

def sampleConfig : DmaConfig := ⟨0, false, false, false, 0, 4, 4, 1, some 0, 0, finishedCb⟩

def sampleHandler (dataEnd : BitVec 32) : DmaHandler 32 1 1 where
  device := DmaDevice.init.configured (.last 0) sampleConfig [sampleBlock dataEnd]
  memory _ := 0
  statics _ := 0
  gotResult := false
  locked := 0
  callbacks := []

theorem sample_transfer : ∃ host device hostNode deviceNode last,
    FreshConnection mockTable mockBars host device hostNode deviceNode ∧
      last.callbacks.map (fun call => (call.channel, call.status)) = [(0, .complete)] ∧
      Copied [sampleBlock 0x1000] zeroMemory.remote last.memory ∧
      DmaSettles (fun _ _ => 0)
        (dmaHub (connection host device hostNode deviceNode) (sampleHandler 0x1000)
        (startProgram true (linkWorld (fun _ device => device) (fun _ _ => 0) zeroMemory.remote)
          blankJunk 1 0 2 0))
        (.ok (.out, last)) zeroMemory := by
  obtain ⟨host, device, hostNode, deviceNode, fresh, vendor, type, memory⟩ := mock_connects
  obtain ⟨started, ok, visited, submits⟩ : ∃ started,
      dmaEmulStart true 1 0 0 (sampleHandler 0x1000).device 0 = .ok started ∧
      started.visited = [0] ∧ started.work = some 0 := ⟨_, rfl, rfl, rfl⟩
  have stored : ∀ other ∈ [0], (sampleHandler 0x1000).device.Stored other sampleConfig
      [sampleBlock 0x1000] := by
    intro other member
    obtain rfl := List.mem_singleton.mp member
    exact ⟨⟨_, rfl, trivial⟩, rfl, fun | 0, _ => rfl⟩
  rw [← visited] at stored
  have alone : ∀ (time : Nat) (device : DmaDevice 32 1 1), ∃ calls : List (DmaCall 32),
      (∀ call ∈ calls, call.Leaves 1 started.visited fun _ => False) ∧
      Runs.run (dmaStep true) device calls = .ok device := fun _ _ => ⟨[], nofun, rfl⟩
  obtain ⟨last, ⟨done, left, log, split, callbacks, stoppable, calls, copied, -⟩, settles⟩ :=
    started_chain_moves_bar fresh vendor type (fun _ _ => 0) blankJunk (by decide) ok submits stored
      (by rw [visited]; decide) (by rw [visited]; exact ⟨by decide, by decide⟩)
        (by rw [visited]; decide)
      (by rw [visited]; decide) alone rfl
  obtain rfl : left = [] := by
    cases left with
    | nil => rfl
    | cons other rest => exact (stoppable other rfl).elim
  rw [visited, List.append_nil] at split
  subst split
  rw [memory] at copied settles
  rw [visited] at settles
  refine ⟨host, device, hostNode, deviceNode, last, fresh, ?_, copied, settles⟩
  rw [callbacks]
  exact calls

end WarpPipe
