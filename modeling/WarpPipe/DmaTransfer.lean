import WarpPipe.DmaChannels

/-!
What `dma_emul_work_handler` has copied when it reports a transfer as complete. The data passes
through a result buffer of four bytes, while the length of a burst is the user's choice.
-/

namespace WarpPipe

open ByteLayout

variable {w channels requests : Nat}

structure DmaDevice.Held (device : DmaDevice w channels requests) (channel : Nat)
    (config : DmaConfig) (blocks : List (DmaBlockConfig w)) (allowed : DmaChannelState → Prop) :
    Prop where
  desc : ∃ state, device.xferAt channel = .ok ⟨config, state⟩ ∧ allowed state
  count : config.blockCount = blocks.length
  block : ∀ i, (inside : i < blocks.length) →
    device.blockAt (channel * requests + config.dmaSlot + i) = .ok blocks[i]

def StartedOr (may : Prop) (state : DmaChannelState) : Prop :=
  state = .started ∨ may ∧ state = .stopped

def DmaWorld.Keeps (world : DmaWorld w channels requests)
    (kept : DmaDevice w channels requests → Prop) : Prop :=
  ∀ time device, kept device → kept (world.meanwhile time device)

structure DmaDevice.Running (device : DmaDevice w channels requests) (channel : Nat)
    (config : DmaConfig) (blocks : List (DmaBlockConfig w)) : Prop where
  desc : device.xferAt channel = .ok ⟨config, .started⟩
  count : config.blockCount = blocks.length
  block : ∀ i, (inside : i < blocks.length) →
    device.blockAt (channel * requests + config.dmaSlot + i) = .ok blocks[i]

theorem DmaDevice.running_iff {device : DmaDevice w channels requests} {channel : Nat}
    {config : DmaConfig} {blocks : List (DmaBlockConfig w)} :
    device.Running channel config blocks ↔ device.Held channel config blocks (StartedOr False) := by
  constructor
  · intro running
    exact ⟨⟨.started, running.desc, .inl rfl⟩, running.count, running.block⟩
  · rintro ⟨⟨state, found, started | ⟨never, -⟩⟩, count, block⟩
    · exact ⟨started ▸ found, count, block⟩
    · exact never.elim

def DmaWorld.LeavesRunning (world : DmaWorld w channels requests) (channel : Nat)
    (config : DmaConfig) (blocks : List (DmaBlockConfig w)) : Prop :=
  world.Keeps fun device => device.Running channel config blocks

def DmaWorld.Answers (world : DmaWorld w channels requests) (remote : BitVec w → Byte) : Prop :=
  ∀ time addr length offset, offset < length →
    world.answer time addr length offset = remote (addr + BitVec.ofNat w offset)

/-- The bytes that arrive for a block: those of a burst behind the fourth one come from behind the
result buffer. -/
def burstData (burst : Nat) (statics : Nat → Byte) (remote : BitVec w → Byte) (source : BitVec w)
    (offset : Nat) : Byte :=
  if offset % burst < 4 then remote (source + BitVec.ofNat w offset) else statics (offset % burst)

def transferBlock (burst : Nat) (statics : Nat → Byte) (remote : BitVec w → Byte)
    (memory : BitVec w → Byte) (block : DmaBlockConfig w) : BitVec w → Byte :=
  copyTo memory block.destAddress (burstData burst statics remote block.sourceAddress)
    (if burst = 0 then 0 else block.blockSize)

theorem burstData_congr (burst : Nat) {statics other : Nat → Byte} (remote : BitVec w → Byte)
    (source : BitVec w) (same : ∀ offset, 4 ≤ offset → statics offset = other offset) :
    burstData burst statics remote source = burstData burst other remote source := by
  funext offset
  unfold burstData
  split
  · rfl
  · exact same _ (by omega)

theorem DmaHandler.burst_memory {world : DmaWorld w channels requests} {remote : BitVec w → Byte}
    {handler : DmaHandler w channels requests} (answers : world.Answers remote)
    (waiting : handler.gotResult = false) (block : DmaBlockConfig w) {bytes length : Nat}
    (short : bytes ≤ length) :
    (handler.burst world block bytes).memory =
      copyTo handler.memory block.destAddress
        (burstData length handler.statics remote block.sourceAddress) bytes := by
  unfold DmaHandler.burst
  rw [if_neg (by simp [waiting])]
  apply copyTo_congr
  intro offset within
  simp only [pcieCompletionCb, burstData, Nat.mod_eq_of_lt (show offset < length by omega)]
  split
  · exact answers _ _ _ _ within
  · rfl

theorem burstData_rest {burst size : Nat} (statics : Nat → Byte) (remote : BitVec w → Byte)
    (source : BitVec w) {offset : Nat} (within : offset < size - min size burst) :
    burstData burst statics remote (source + BitVec.ofNat w (min size burst)) offset =
      burstData burst statics remote source (min size burst + offset) := by
  have full : min size burst = burst := by omega
  simp only [burstData, full, Nat.add_mod_left, BitVec.ofNat_add, BitVec.add_assoc]

theorem transferBlock_advance {length : Nat} (statics : Nat → Byte) (remote : BitVec w → Byte)
    (memory : BitVec w → Byte) {block : DmaBlockConfig w} (fits : block.blockSize ≤ 2 ^ w) :
    transferBlock length statics remote
      (copyTo memory block.destAddress (burstData length statics remote block.sourceAddress)
        (min block.blockSize length)) (block.advance (min block.blockSize length)) =
      transferBlock length statics remote memory block := by
  unfold transferBlock
  by_cases none : length = 0
  · simp [none]
  · rw [if_neg none, if_neg none]
    exact copyTo_copyTo (Nat.min_le_left ..) fits fun _ within => burstData_rest _ _ _ within

theorem transferBlock_congr {length : Nat} {statics other : Nat → Byte} (remote : BitVec w → Byte)
    (memory : BitVec w → Byte) (block : DmaBlockConfig w)
    (same : ∀ offset, 4 ≤ offset → statics offset = other offset) :
    transferBlock length statics remote memory block =
      transferBlock length other remote memory block := by
  rw [transferBlock, burstData_congr length remote _ same, ← transferBlock]

theorem foldl_transferBlock_congr {length : Nat} {statics other : Nat → Byte}
    (remote : BitVec w → Byte) (memory : BitVec w → Byte) (blocks : List (DmaBlockConfig w))
    (same : ∀ offset, 4 ≤ offset → statics offset = other offset) :
    blocks.foldl (transferBlock length statics remote) memory =
      blocks.foldl (transferBlock length other remote) memory := by
  have steps : transferBlock length statics remote = transferBlock length other remote := by
    funext memory block
    exact transferBlock_congr remote memory block same
  rw [steps]

/-- The memory behind a transfer that was given up: whole blocks, and whole bursts of the next
one. -/
inductive Partly (burst : Nat) (statics : Nat → Byte) (remote : BitVec w → Byte) :
    (BitVec w → Byte) → List (DmaBlockConfig w) → (BitVec w → Byte) → Prop where
  | here {memory : BitVec w → Byte} {block : DmaBlockConfig w} {rest : List (DmaBlockConfig w)}
      {bytes : Nat} (short : bytes < block.blockSize) (whole : burst ∣ bytes) :
      Partly burst statics remote memory (block :: rest)
        (copyTo memory block.destAddress (burstData burst statics remote block.sourceAddress) bytes)
  | later {memory after : BitVec w → Byte} {block : DmaBlockConfig w}
      {rest : List (DmaBlockConfig w)}
      (partly : Partly burst statics remote
        (transferBlock burst statics remote memory block) rest after) :
      Partly burst statics remote memory (block :: rest) after

theorem Partly.congr {burst : Nat} {statics other : Nat → Byte} {remote : BitVec w → Byte}
    {memory after : BitVec w → Byte} {blocks : List (DmaBlockConfig w)}
    (partly : Partly burst statics remote memory blocks after)
    (same : ∀ offset, 4 ≤ offset → statics offset = other offset) :
    Partly burst other remote memory blocks after := by
  induction partly with
  | here short whole =>
      rw [burstData_congr burst remote _ same]
      exact .here short whole
  | later partly ih =>
      rw [transferBlock_congr remote _ _ same] at ih
      exact .later ih

def canceledCalls (config : DmaConfig) (channel : Nat) (memory : BitVec w → Byte) :
    List (DmaCallback w) :=
  if config.errorCallbackEn then [⟨config.dmaCallback, config.userData, channel, .canceled, memory⟩]
  else []

section

variable {device : DmaDevice w channels requests} {channel : Nat} {config : DmaConfig}
  {blocks : List (DmaBlockConfig w)} {allowed : DmaChannelState → Prop} {may : Prop}

theorem DmaDevice.Held.inside (held : device.Held channel config blocks allowed) :
    channel < channels := by
  obtain ⟨state, found, -⟩ := held.desc
  by_contra outside
  rw [DmaDevice.xferAt, dif_neg outside] at found
  cases found

theorem DmaDevice.Held.state (asserts : Bool) (held : device.Held channel config blocks allowed) :
    ∃ state, dmaEmulGetChannelState asserts device channel = .ok state ∧ allowed state := by
  obtain ⟨state, found, fine⟩ := held.desc
  rw [device.xferAt_of_lt held.inside] at found
  exact ⟨state, by rw [dmaEmulGetChannelState_eq held.inside, Except.ok.inj found], fine⟩

structure DmaHandler.Proceeds (before after : DmaHandler w channels requests)
    (kept : DmaDevice w channels requests → Prop) : Prop where
  kept : kept after.device
  waiting : after.gotResult = false
  statics : ∀ offset, 4 ≤ offset → after.statics offset = before.statics offset

theorem DmaHandler.Proceeds.trans {first second third : DmaHandler w channels requests}
    {kept : DmaDevice w channels requests → Prop} (one : first.Proceeds second kept)
    (two : second.Proceeds third kept) : first.Proceeds third kept where
  kept := two.kept
  waiting := two.waiting
  statics offset behind := (two.statics offset behind).trans (one.statics offset behind)

variable {world : DmaWorld w channels requests} {remote : BitVec w → Byte}
  {kept : DmaDevice w channels requests → Prop} {handler : DmaHandler w channels requests}

theorem DmaHandler.lock_proceeds (keeps : world.Keeps kept) (start : kept handler.device)
    (waiting : handler.gotResult = false) : handler.Proceeds (handler.lock world) kept where
  kept := keeps _ _ start
  waiting := waiting
  statics _ _ := rfl

theorem DmaHandler.burst_proceeds (world : DmaWorld w channels requests)
    (start : kept handler.device) (waiting : handler.gotResult = false) (block : DmaBlockConfig w)
    (bytes : Nat) : handler.Proceeds (handler.burst world block bytes) kept := by
  unfold burst
  rw [if_neg (by simp [waiting])]
  exact ⟨start, rfl, fun offset behind => if_neg (by omega)⟩

theorem DmaHandler.burst_callbacks (world : DmaWorld w channels requests)
    (handler : DmaHandler w channels requests) (block : DmaBlockConfig w) (bytes : Nat) :
    (handler.burst world block bytes).callbacks = handler.callbacks := by
  unfold burst
  split <;> rfl

theorem copyTo_advance {length bytes : Nat} (statics : Nat → Byte) (remote : BitVec w → Byte)
    (memory : BitVec w → Byte) {block : DmaBlockConfig w} (fits : block.blockSize ≤ 2 ^ w)
    (short : bytes < block.blockSize - min block.blockSize length) :
    copyTo (copyTo memory block.destAddress (burstData length statics remote block.sourceAddress)
        (min block.blockSize length))
      (block.advance (min block.blockSize length)).destAddress
      (burstData length statics remote (block.advance (min block.blockSize length)).sourceAddress)
      bytes =
    copyTo memory block.destAddress (burstData length statics remote block.sourceAddress)
      (min block.blockSize length + bytes) := by
  have room : min block.blockSize length + bytes ≤ 2 ^ w := by omega
  refine Eq.trans ?_ (copyTo_copyTo (Nat.le_add_right _ bytes) room fun offset within =>
    burstData_rest statics remote block.sourceAddress
      (show offset < block.blockSize - min block.blockSize length by omega))
  rw [Nat.add_sub_cancel_left]
  rfl

/-- How the loop over the bursts of a block ends: the block is moved, or the channel was found
stopped behind some of its bursts. -/
inductive BurstsEnd (may : Prop) (config : DmaConfig) (channel : Nat) (remote : BitVec w → Byte)
    (block : DmaBlockConfig w) (before after : DmaHandler w channels requests) : Bool → Prop where
  | moved (callbacks : after.callbacks = before.callbacks)
      (memory : after.memory =
        transferBlock config.destBurstLength before.statics remote before.memory block) :
      BurstsEnd may config channel remote block before after false
  | canceled {bytes : Nat} (stops : may) (short : bytes < block.blockSize)
      (whole : config.destBurstLength ∣ bytes)
      (callbacks : after.callbacks = before.callbacks ++ canceledCalls config channel after.memory)
      (memory : after.memory = copyTo before.memory block.destAddress
        (burstData config.destBurstLength before.statics remote block.sourceAddress) bytes) :
      BurstsEnd may config channel remote block before after true

theorem BurstsEnd.of_stopped {block : DmaBlockConfig w} (stops : may) (more : 0 < block.blockSize) :
    BurstsEnd may config channel remote block handler
      (if config.errorCallbackEn then handler.callBack config channel .canceled else handler)
      true := by
  refine .canceled stops more (Nat.dvd_zero _) ?_ ?_
  · unfold canceledCalls
    split
    · rfl
    · exact (List.append_nil _).symm
  · rw [copyTo_zero]
    split <;> rfl

-- Taking the lock changes the device alone, which the end of the loop does not speak of.
theorem BurstsEnd.of_lock {block : DmaBlockConfig w} {after : DmaHandler w channels requests}
    {canceled : Bool}
    (ends : BurstsEnd may config channel remote block (handler.lock world) after canceled) :
    BurstsEnd may config channel remote block handler after canceled := by
  cases ends with
  | moved callbacks memory => exact .moved callbacks memory
  | canceled stops short whole callbacks memory =>
      exact .canceled stops short whole callbacks memory

theorem BurstsEnd.advance {block : DmaBlockConfig w} {after : DmaHandler w channels requests}
    {canceled : Bool} (answers : world.Answers remote) (waiting : handler.gotResult = false)
    (fits : block.blockSize ≤ 2 ^ w)
    (ends : BurstsEnd may config channel remote
      (block.advance (min block.blockSize config.destBurstLength))
      (handler.burst world block (min block.blockSize config.destBurstLength)) after canceled) :
    BurstsEnd may config channel remote block handler after canceled := by
  have burst : handler.Proceeds _ fun _ => True := DmaHandler.burst_proceeds world trivial waiting
    block (min block.blockSize config.destBurstLength)
  have same := burstData_congr config.destBurstLength remote
    (block.advance (min block.blockSize config.destBurstLength)).sourceAddress burst.statics
  have first := DmaHandler.burst_memory answers waiting block
    (Nat.min_le_right block.blockSize config.destBurstLength)
  cases ends with
  | moved callbacks memory =>
      refine .moved (callbacks.trans (DmaHandler.burst_callbacks ..)) ?_
      rw [memory, transferBlock, same, first]
      exact transferBlock_advance _ _ _ fits
  | @canceled bytes stops short whole callbacks memory =>
      rw [DmaBlockConfig.blockSize_advance] at short
      rw [DmaHandler.burst_callbacks] at callbacks
      have full : min block.blockSize config.destBurstLength = config.destBurstLength := by omega
      refine .canceled stops (Nat.add_lt_of_lt_sub' short) ?_ callbacks ?_
      · rw [full]
        exact Nat.dvd_add (Nat.dvd_refl _) whole
      · rw [memory, same, first]
        exact copyTo_advance _ _ _ fits short

variable (keeps : world.Keeps kept)
  (held : ∀ device, kept device → device.Held channel config blocks (StartedOr may))

include keeps held

theorem burstLoop_held (asserts : Bool) (answers : world.Answers remote)
    (start : kept handler.device) (waiting : handler.gotResult = false) (block : DmaBlockConfig w)
    (fits : block.blockSize ≤ 2 ^ w) :
    ∃ canceled after, burstLoop asserts world channel config block handler = .ok (canceled, after) ∧
      handler.Proceeds after kept ∧
      BurstsEnd may config channel remote block handler after canceled := by
  induction left : block.blockSize using Nat.strong_induction_on generalizing block handler with
  | _ size ih =>
      rw [burstLoop]
      by_cases more : min block.blockSize config.destBurstLength > 0
      · rw [if_pos more]
        have locked := handler.lock_proceeds keeps start waiting
        obtain ⟨state, read, allowed⟩ := (held _ locked.kept).state asserts
        simp only [Bind.bind, Except.bind, read]
        by_cases stopped : state = .stopped
        · obtain ⟨stops, -⟩ := allowed.resolve_left (by rw [stopped]; decide)
          rw [if_pos stopped]
          have ends : BurstsEnd may config channel remote block (handler.lock world) _ true :=
            .of_stopped stops (by omega)
          refine ⟨true, _, rfl, ?_, ends.of_lock⟩
          split
          · exact ⟨locked.kept, locked.waiting, locked.statics⟩
          · exact locked
        · obtain rfl := allowed.resolve_right fun other => stopped other.2
          have smaller :
              (block.advance (min block.blockSize config.destBurstLength)).blockSize < size := by
            rw [DmaBlockConfig.blockSize_advance]
            omega
          have burst : (handler.lock world).Proceeds _ kept :=
            DmaHandler.burst_proceeds world locked.kept locked.waiting block
              (min block.blockSize config.destBurstLength)
          obtain ⟨canceled, after, ok, proceeds, ends⟩ :=
            ih _ smaller burst.kept burst.waiting _ (by omega) rfl
          refine ⟨canceled, after, ?_, (locked.trans burst).trans proceeds, ?_⟩
          · simp only [stopped, assertNoMsg]
            simpa using ok
          · exact (ends.advance answers locked.waiting fits).of_lock
      · rw [if_neg more]
        refine ⟨false, handler, rfl, ⟨start, waiting, fun _ _ => rfl⟩, .moved rfl ?_⟩
        unfold transferBlock
        split
        · exact copyTo_zero.symm
        · rw [show block.blockSize = 0 by omega, copyTo_zero]

theorem blockLoop_held (asserts : Bool) (answers : world.Answers remote)
    (start : kept handler.device) (waiting : handler.gotResult = false)
    (fits : ∀ block ∈ blocks, block.blockSize ≤ 2 ^ w) {left i : Nat}
    (rest : i + left = blocks.length) :
    ∃ canceled after, blockLoop asserts world channel config left i handler =
        .ok (canceled, after) ∧
      handler.Proceeds after kept ∧
      ((canceled = false ∧ after.callbacks = handler.callbacks ∧ after.memory =
          (blocks.drop i).foldl (transferBlock config.destBurstLength handler.statics remote)
            handler.memory) ∨
        (canceled = true ∧ may ∧ after.callbacks =
            handler.callbacks ++ canceledCalls config channel after.memory ∧
          Partly config.destBurstLength handler.statics remote handler.memory (blocks.drop i)
            after.memory)) := by
  induction left generalizing i handler with
  | zero =>
      refine ⟨false, handler, rfl, ⟨start, waiting, fun _ _ => rfl⟩, .inl ⟨rfl, rfl, ?_⟩⟩
      rw [List.drop_of_length_le (by omega), List.foldl_nil]
  | succ left ih =>
      have inside : i < blocks.length := by omega
      have locked := handler.lock_proceeds keeps start waiting
      obtain ⟨canceled, moved, looped, advanced, ends⟩ :=
        burstLoop_held keeps held asserts answers locked.kept locked.waiting blocks[i]
          (fits _ (List.getElem_mem inside))
      have upto := locked.trans advanced
      rw [List.drop_eq_getElem_cons inside, blockLoop]
      simp only [Bind.bind, Except.bind, (held _ locked.kept).block i inside, looped]
      cases ends with
      | moved callbacks memory =>
          obtain ⟨canceled, after, ok, further, outcome⟩ :=
            ih upto.kept upto.waiting (show i + 1 + left = blocks.length by omega)
          refine ⟨canceled, after, ok, upto.trans further, ?_⟩
          rw [callbacks] at outcome
          rcases outcome with ⟨rfl, later, restMemory⟩ | ⟨rfl, stops, later, partly⟩
          · refine .inl ⟨rfl, later, ?_⟩
            rw [restMemory, List.foldl_cons,
              foldl_transferBlock_congr remote _ _ upto.statics, memory]
            rfl
          · refine .inr ⟨rfl, stops, later, .later ?_⟩
            rw [memory] at partly
            exact partly.congr upto.statics
      | canceled stops short whole callbacks memory =>
          refine ⟨true, moved, rfl, upto, .inr ⟨rfl, stops, callbacks, ?_⟩⟩
          rw [memory]
          exact .here short whole

/-- The transfer of a channel is reported complete, or it is given up. -/
theorem handleTransfer_held (asserts : Bool) (answers : world.Answers remote)
    (start : kept handler.device) (waiting : handler.gotResult = false)
    (fits : ∀ block ∈ blocks, block.blockSize ≤ 2 ^ w)
    (after : DmaDevice w channels requests → Prop)
    (stops : ∀ device inside, kept device → after (device.withState ⟨channel, inside⟩ .stopped)) :
    (∃ last, handleTransfer asserts world channel handler = .ok (.link channel config, last) ∧
      handler.Proceeds last after ∧
      last.memory = blocks.foldl (transferBlock config.destBurstLength handler.statics remote)
        handler.memory ∧
      last.callbacks = handler.callbacks ++
        [⟨config.dmaCallback, config.userData, channel, .complete, last.memory⟩]) ∨
    ∃ last, handleTransfer asserts world channel handler = .ok (.out, last) ∧
      handler.Proceeds last kept ∧ may ∧
      Partly config.destBurstLength handler.statics remote handler.memory blocks last.memory ∧
      last.callbacks = handler.callbacks ++ canceledCalls config channel last.memory := by
  have locked := handler.lock_proceeds keeps start waiting
  have holds := held _ locked.kept
  obtain ⟨state, desc, -⟩ := holds.desc
  obtain ⟨canceled, moved, looped, advanced, outcome⟩ :=
    blockLoop_held keeps held asserts answers locked.kept locked.waiting fits
      (show 0 + config.blockCount = blocks.length by rw [Nat.zero_add, holds.count])
  have upto := locked.trans advanced
  unfold handleTransfer
  simp only [Bind.bind, Except.bind, desc, looped]
  rw [List.drop_zero] at outcome
  rcases outcome with ⟨rfl, callbacks, memory⟩ | ⟨rfl, may, callbacks, partly⟩
  · have relocked := moved.lock_proceeds keeps upto.kept upto.waiting
    have inside := (held _ relocked.kept).inside
    refine .inl ⟨DmaHandler.callBack { moved.lock world with
        device :=
          (moved.lock world).device.withState ⟨channel, inside⟩ .stopped } config channel .complete,
      ?_, ⟨stops _ inside relocked.kept, relocked.waiting, ?_⟩, memory, ?_⟩
    · simp only [dmaEmulSetChannelState_eq inside]
      rfl
    · exact (upto.trans relocked).statics
    · exact congrArg (· ++ _) callbacks
  · exact .inr ⟨moved, rfl, upto, may, partly, callbacks⟩

end

theorem handleTransfer_running {world : DmaWorld w channels requests} {remote : BitVec w → Byte}
    {channel : Nat} {config : DmaConfig} {blocks : List (DmaBlockConfig w)}
    {handler : DmaHandler w channels requests} (asserts : Bool) (answers : world.Answers remote)
    (leaves : world.LeavesRunning channel config blocks)
    (running : handler.device.Running channel config blocks) (waiting : handler.gotResult = false)
    (fits : ∀ block ∈ blocks, block.blockSize ≤ 2 ^ w) :
    ∃ after, handleTransfer asserts world channel handler = .ok (.link channel config, after) ∧
      after.callbacks = handler.callbacks ++
          [⟨config.dmaCallback, config.userData, channel, .complete,
        blocks.foldl (transferBlock config.destBurstLength handler.statics remote)
          handler.memory⟩] := by
  rcases handleTransfer_held leaves (fun _ => DmaDevice.running_iff.mp) asserts answers
    running waiting fits (fun _ => True) (fun _ _ _ => trivial) with
    ⟨last, ok, -, memory, callbacks⟩ | ⟨_, -, -, never, -⟩
  · exact ⟨last, ok, by rw [callbacks, memory]⟩
  · exact never.elim

structure DestinationsApart (blocks : List (DmaBlockConfig w)) : Prop where
  fits : ∀ block ∈ blocks, block.blockSize ≤ 2 ^ w
  apart : blocks.Pairwise fun first second =>
    ∀ i < first.blockSize, ∀ j < second.blockSize,
      first.destAddress + BitVec.ofNat w i ≠ second.destAddress + BitVec.ofNat w j

def Copied (blocks : List (DmaBlockConfig w)) (remote memory : BitVec w → Byte) : Prop :=
  ∀ block ∈ blocks, ∀ offset < block.blockSize,
    memory (block.destAddress + BitVec.ofNat w offset) =
      remote (block.sourceAddress + BitVec.ofNat w offset)

theorem foldl_transferBlock_outside {length : Nat} {statics : Nat → Byte} {remote : BitVec w → Byte}
    {memory : BitVec w → Byte} {blocks : List (DmaBlockConfig w)} {addr : BitVec w}
    (outside : ∀ block ∈ blocks, ∀ offset < block.blockSize,
      addr ≠ block.destAddress + BitVec.ofNat w offset) :
    blocks.foldl (transferBlock length statics remote) memory addr = memory addr := by
  induction blocks generalizing memory with
  | nil => rfl
  | cons block rest ih =>
      rw [List.foldl_cons, ih fun other member => outside other (List.mem_cons_of_mem _ member)]
      apply copyTo_outside
      intro offset within
      split at within
      · omega
      · exact outside block List.mem_cons_self offset within

theorem foldl_transferBlock_at {length : Nat} (some : 0 < length) {statics : Nat → Byte}
    {remote : BitVec w → Byte} {memory : BitVec w → Byte} {blocks : List (DmaBlockConfig w)}
    (apart : DestinationsApart blocks) {block : DmaBlockConfig w} (member : block ∈ blocks)
    {offset : Nat} (within : offset < block.blockSize) :
    blocks.foldl (transferBlock length statics remote) memory
        (block.destAddress + BitVec.ofNat w offset) =
      burstData length statics remote block.sourceAddress offset := by
  obtain ⟨fits, pairwise⟩ := apart
  induction blocks generalizing memory with
  | nil => cases member
  | cons first rest ih =>
      rw [List.pairwise_cons] at pairwise
      rw [List.foldl_cons]
      rcases List.mem_cons.mp member with rfl | later
      · rw [foldl_transferBlock_outside fun other member i inside =>
          pairwise.1 other member offset within i inside, transferBlock, if_neg (by omega)]
        exact copyTo_at within (fits _ List.mem_cons_self)
      · exact ih later (fun other member => fits other (List.mem_cons_of_mem _ member)) pairwise.2

theorem foldl_transferBlock_zero (statics : Nat → Byte) (remote : BitVec w → Byte)
    (memory : BitVec w → Byte) (blocks : List (DmaBlockConfig w)) :
    blocks.foldl (transferBlock 0 statics remote) memory = memory := by
  induction blocks generalizing memory with
  | nil => rfl
  | cons block rest ih => rw [List.foldl_cons, ih, transferBlock, if_pos rfl, copyTo_zero]

/-- A burst of the block fits the result buffer, and is not empty unless the block is. -/
def DmaBlockConfig.BurstFits (block : DmaBlockConfig w) (length : Nat) : Prop :=
  block.blockSize = 0 ∨ 0 < length ∧ (length ≤ 4 ∨ block.blockSize ≤ 4)

instance (block : DmaBlockConfig w) (length : Nat) : Decidable (block.BurstFits length) :=
  inferInstanceAs (Decidable (_ ∨ _))

theorem foldl_transferBlock_copied {length : Nat} (statics : Nat → Byte) (remote : BitVec w → Byte)
    (memory : BitVec w → Byte) {blocks : List (DmaBlockConfig w)} (apart : DestinationsApart blocks)
    (fits : ∀ block ∈ blocks, block.BurstFits length) :
    Copied blocks remote (blocks.foldl (transferBlock length statics remote) memory) := by
  intro block member offset within
  rcases fits block member with empty | ⟨some, short⟩
  · omega
  · rw [foldl_transferBlock_at some apart member within, burstData, if_pos]
    rcases short with short | short
    · exact Nat.lt_of_lt_of_le (Nat.mod_lt _ some) short
    · exact Nat.lt_of_le_of_lt (Nat.mod_le ..) (by omega)

/-- If a burst does not fit, there are contents with which the transfer goes wrong: memory that
bursts of no bytes do not change, or static memory that longer bursts take for data. -/
theorem burstFits_of_copied {length : Nat} {blocks : List (DmaBlockConfig w)}
    (apart : DestinationsApart blocks)
    (unchanged : Copied blocks (fun _ => 1)
      (blocks.foldl (transferBlock length (fun _ => 1) fun _ => 1)
      fun _ => 0))

    (replaced : Copied blocks (fun _ => 0)
      (blocks.foldl (transferBlock length (fun _ => 1) fun _ => 0)
      fun _ => 0)) :
    ∀ block ∈ blocks, block.BurstFits length := by
  intro block member
  by_cases empty : block.blockSize = 0
  · exact Or.inl empty
  refine Or.inr ?_
  by_cases none : length = 0
  · have byte := unchanged block member 0 (by omega)
    rw [none, foldl_transferBlock_zero] at byte
    cases byte
  · refine ⟨by omega, ?_⟩
    by_contra long
    rw [not_or] at long
    have byte := replaced block member 4 (by omega)
    rw [foldl_transferBlock_at (by omega) apart member (by omega), burstData,
      Nat.mod_eq_of_lt (by omega), if_neg (by omega)] at byte
    cases byte

theorem configured_running (device : DmaDevice w channels requests) {channel : Nat}
    (inside : channel < channels) {config : DmaConfig} {blocks : List (DmaBlockConfig w)}
    (count : config.blockCount = blocks.length)
    (fits : config.blockCount = 0 ∨
      channel * requests + config.dmaSlot + config.blockCount ≤ channels * requests) :
    DmaDevice.Running ((device.configured ⟨channel, inside⟩ config blocks).withState
      ⟨channel, inside⟩ .started) channel config blocks where
  desc := by
    simp only [DmaDevice.xferAt_of_lt inside, DmaDevice.withState, DmaDevice.configured,
      Function.update_self]
  count := count
  block := by
    intro i within
    have array : channel * requests + config.dmaSlot + blocks.length ≤
      channels * requests := by omega
    rw [DmaDevice.blockAt, dif_pos (by omega)]
    exact congrArg _ (device.putBlocks_at within array)

def ReportsCopied (asserts : Bool) (world : DmaWorld w channels requests) (remote : BitVec w → Byte)
    (handler : DmaHandler w channels requests) (channel : Nat) (blocks : List (DmaBlockConfig w)) :
    Prop :=
  ∃ position after call,
    dmaEmulWorkHandler asserts world 1 (.transfer channel) handler = .ok (position, after) ∧
      after.callbacks = handler.callbacks ++ [call] ∧ call.channel = channel ∧
      call.status = .complete ∧ Copied blocks remote call.memory

theorem reportsCopied_iff (asserts : Bool) {world : DmaWorld w channels requests}
    {remote : BitVec w → Byte} {handler : DmaHandler w channels requests} {channel : Nat}
    {config : DmaConfig} {blocks : List (DmaBlockConfig w)} (answers : world.Answers remote)
    (leaves : world.LeavesRunning channel config blocks)
    (running : handler.device.Running channel config blocks) (waiting : handler.gotResult = false)
    (fits : ∀ block ∈ blocks, block.blockSize ≤ 2 ^ w) :
    ReportsCopied asserts world remote handler channel blocks ↔
      Copied blocks remote (blocks.foldl
        (transferBlock config.destBurstLength handler.statics remote) handler.memory) := by
  obtain ⟨after, ok, callbacks⟩ :=
    handleTransfer_running asserts answers leaves running waiting fits
  have step : dmaEmulWorkHandler asserts world 1 (.transfer channel) handler =
      .ok (.link channel config, after) := by
    rw [dmaEmulWorkHandler, ok]
    rfl
  constructor
  · rintro ⟨position, other, call, reached, called, -, -, copied⟩
    rw [step] at reached
    cases reached
    rw [callbacks] at called
    obtain rfl := List.singleton_inj.mp (List.append_cancel_left called)
    exact copied
  · intro copied
    exact ⟨_, after, _, step, callbacks, rfl, rfl, copied⟩

def quietWorld (remote : BitVec w → Byte) : DmaWorld w channels requests where
  meanwhile _ device := device
  answer _ addr _ offset := remote (addr + BitVec.ofNat w offset)

theorem quietWorld_answers (remote : BitVec w → Byte) :
    (quietWorld remote : DmaWorld w channels requests).Answers remote :=
  fun _ _ _ _ _ => rfl

theorem quietWorld_leaves (remote : BitVec w → Byte) (channel : Nat) (config : DmaConfig)
    (blocks : List (DmaBlockConfig w)) :
    (quietWorld remote : DmaWorld w channels requests).LeavesRunning channel config blocks :=
  fun _ _ running => running

/-- For an accepted configuration whose destinations do not overlap, a transfer that nobody disturbs
is complete when it is reported so, whatever the memories hold, exactly if the bursts of every block
fit the result buffer. -/
theorem complete_means_copied_iff (asserts : Bool) (heap : Nat → DmaBlockConfig w)
    (device : DmaDevice w channels requests) (channel : Nat) (config : DmaConfig)
    (result : DmaConfigured w channels requests)
    (accepted : dmaEmulConfigure asserts heap device channel config = .ok result)
    (code : result.code = 0) (blocks : List (DmaBlockConfig w))
    (listed : blockList heap config.blockCount config.headBlock = some blocks)
    (apart : DestinationsApart blocks) :
    (∀ (world : DmaWorld w channels requests) (remote : BitVec w → Byte)
        (handler : DmaHandler w channels requests),
      world.Answers remote → world.LeavesRunning channel config blocks →
      handler.device.Running channel config blocks → handler.gotResult = false →
      ReportsCopied asserts world remote handler channel blocks) ↔
    ∀ block ∈ blocks, block.BurstFits config.destBurstLength := by
  constructor
  · intro always
    have count : config.blockCount = blocks.length := (length_blockList listed).symm
    rcases dmaEmulConfigure_cases accepted with ⟨-, refused⟩ | ⟨inside, -, -, -, fits, -⟩
    · exact absurd code refused
    have running := configured_running device inside count fits
    have copied : ∀ remote, Copied blocks remote (blocks.foldl
        (transferBlock config.destBurstLength (fun _ => 1) remote) fun _ => 0) := by
      intro remote
      have answers : (quietWorld remote : DmaWorld w channels requests).Answers remote :=
        quietWorld_answers remote
      have leaves : (quietWorld remote : DmaWorld w channels requests).LeavesRunning channel config
          blocks := quietWorld_leaves remote channel config blocks
      exact (reportsCopied_iff asserts answers leaves running rfl apart.fits).mp
        (always _ remote ⟨_, fun _ => 0, fun _ => 1, false, 0, []⟩ answers leaves running rfl)
    exact burstFits_of_copied apart (copied _) (copied _)
  · intro fits world remote handler answers leaves running waiting
    rw [reportsCopied_iff asserts answers leaves running waiting apart.fits]
    exact foldl_transferBlock_copied handler.statics remote handler.memory apart fits

theorem pairHeap_apart : DestinationsApart [pairHeap 0, pairHeap 1] where
  fits := by decide
  apart := by decide

def startedHandler (config : DmaConfig) (blocks : List (DmaBlockConfig 32)) :
    DmaHandler 32 1 2 where
  device := ((DmaDevice.init : DmaDevice 32 1 2).configured 0 config blocks).withState 0 .started
  memory _ := 0
  statics _ := 1
  gotResult := false
  locked := 0
  callbacks := []

theorem bursts_of_four_copy :
    ReportsCopied true (quietWorld fun addr => addr.setWidth 8) (fun addr => addr.setWidth 8)
      (startedHandler (plainConfig 0 4 2 (some 0)) [pairHeap 0, pairHeap 1]) 0
      [pairHeap 0, pairHeap 1] :=
  (complete_means_copied_iff true pairHeap DmaDevice.init 0 (plainConfig 0 4 2 (some 0)) _ rfl rfl
    [pairHeap 0, pairHeap 1] rfl pairHeap_apart).mpr (by decide) _ _ _ (quietWorld_answers _)
    (quietWorld_leaves _ _ _ _)
      (configured_running DmaDevice.init (by decide) rfl (Or.inr (by decide)))
    rfl

def wideHeap : Nat → DmaBlockConfig 32 := fun _ => ⟨0, 0x1000, 8, none⟩

/-- With bursts of no bytes, an accepted transfer is reported complete and nothing is copied. With
bursts of eight bytes, the last four of a block come from behind the result buffer. -/
theorem complete_without_copy :
    (∃ result, dmaEmulConfigure true wideHeap (DmaDevice.init : DmaDevice 32 1 2) 0
        (plainConfig 0 0 1 (some 0)) = .ok result ∧ result.code = 0) ∧
      (∃ position after call, dmaEmulWorkHandler true (quietWorld fun _ => 1) 1 (.transfer 0)
          (startedHandler (plainConfig 0 0 1 (some 0)) [wideHeap 0]) = .ok (position, after) ∧
        after.callbacks = [call] ∧ call.channel = 0 ∧ call.status = .complete ∧
        ¬Copied [wideHeap 0] (fun _ => 1) call.memory) ∧
    (∃ result, dmaEmulConfigure true wideHeap (DmaDevice.init : DmaDevice 32 1 2) 0
        (plainConfig 0 8 1 (some 0)) = .ok result ∧ result.code = 0) ∧
      ∃ position after call, dmaEmulWorkHandler true (quietWorld fun _ => 0) 1 (.transfer 0)
          (startedHandler (plainConfig 0 8 1 (some 0)) [wideHeap 0]) = .ok (position, after) ∧
        after.callbacks = [call] ∧ call.channel = 0 ∧ call.status = .complete ∧
        ¬Copied [wideHeap 0] (fun _ => 0) call.memory := by
  have completes : ∀ (burst : Nat) (remote : BitVec 32 → Byte), ∃ position after call,
      dmaEmulWorkHandler true (quietWorld remote) 1 (.transfer 0)
          (startedHandler (plainConfig 0 burst 1 (some 0)) [wideHeap 0]) = .ok (position, after) ∧
        after.callbacks = [call] ∧ call.channel = 0 ∧ call.status = .complete ∧
        call.memory = transferBlock burst (fun _ => 1) remote (fun _ => 0) (wideHeap 0) := by
    intro burst remote
    have running : (startedHandler (plainConfig 0 burst 1 (some 0)) [wideHeap 0]).device.Running 0
        (plainConfig 0 burst 1 (some 0)) [wideHeap 0] :=
      configured_running DmaDevice.init (by decide) rfl (Or.inr (by simp [plainConfig]))
    obtain ⟨after, ok, callbacks⟩ := handleTransfer_running true (quietWorld_answers remote)
      (quietWorld_leaves remote 0 _ _) running rfl (by decide)
    exact ⟨_, after, _, by rw [dmaEmulWorkHandler, ok]; rfl, callbacks, rfl, rfl, rfl⟩
  refine ⟨⟨_, rfl, rfl⟩, ?_, ⟨_, rfl, rfl⟩, ?_⟩
  · obtain ⟨position, after, call, ok, callbacks, channel, status, memory⟩ := completes 0 fun _ => 1
    refine ⟨position, after, call, ok, callbacks, channel, status, ?_⟩
    intro copied
    have byte := copied (wideHeap 0) (by decide) 0 (by decide)
    rw [memory] at byte
    revert byte
    decide
  · obtain ⟨position, after, call, ok, callbacks, channel, status, memory⟩ := completes 8 fun _ => 0
    refine ⟨position, after, call, ok, callbacks, channel, status, ?_⟩
    intro copied
    have byte := copied (wideHeap 0) (by decide) 4 (by decide)
    rw [memory] at byte
    revert byte
    decide

end WarpPipe
