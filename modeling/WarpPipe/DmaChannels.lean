import WarpPipe.DmaCore

/-!
What `dma_emul_configure` does to the arrays of the driver. The validation bounds the slot and the
number of blocks separately, while the blocks are stored from the slot on, so it depends on their
sum whether the blocks of a channel stay among the entries of that channel.
-/

namespace WarpPipe

variable {w channels requests : Nat}

def blockList (heap : Nat → DmaBlockConfig w) : Nat → Option Nat → Option (List (DmaBlockConfig w))
  | 0, _ => some []
  | _ + 1, none => none
  | count + 1, some block => (blockList heap count (heap block).nextBlock).map (heap block :: ·)

theorem length_blockList {heap : Nat → DmaBlockConfig w} {count : Nat} {head : Option Nat}
    {blocks : List (DmaBlockConfig w)} (listed : blockList heap count head = some blocks) :
    blocks.length = count := by
  induction count generalizing head blocks with
  | zero =>
      cases listed
      rfl
  | succ count ih =>
      cases head with
      | none => cases listed
      | some block =>
          obtain ⟨rest, listedRest, rfl⟩ := Option.map_eq_some_iff.mp listed
          rw [List.length_cons, ih listedRest]

theorem blocksValid_iff (heap : Nat → DmaBlockConfig w) (count i : Nat) (head : Option Nat) :
    blocksValid requests heap count i head = true ↔
      (∃ blocks, blockList heap count head = some blocks) ∧ (count = 0 ∨ i + count ≤ requests) := by
  induction count generalizing i head with
  | zero => simp [blocksValid, blockList]
  | succ count ih =>
      cases head with
      | none => simp [blocksValid, blockList]
      | some block =>
          rw [blocksValid]
          by_cases full : i ≥ requests
          · rw [if_pos full]
            constructor
            · intro impossible
              cases impossible
            · rintro ⟨_, impossible | fits⟩ <;> omega
          · rw [if_neg full, ih]
            constructor
            · rintro ⟨⟨rest, listed⟩, fits⟩
              exact ⟨⟨heap block :: rest, by rw [blockList, listed, Option.map_some]⟩, by omega⟩
            · rintro ⟨⟨blocks, listed⟩, fits⟩
              obtain ⟨rest, listedRest, -⟩ := Option.map_eq_some_iff.mp listed
              exact ⟨⟨rest, listedRest⟩, by omega⟩

theorem dmaEmulConfigValid_iff (heap : Nat → DmaBlockConfig w) (channel : Nat)
    (config : DmaConfig) :
    dmaEmulConfigValid channels requests heap channel config = true ↔
      config.dmaSlot < requests ∧ channel < channels ∧
        config.destBurstLength = config.sourceBurstLength ∧
        (∃ blocks, blockList heap config.blockCount config.headBlock = some blocks) ∧
        config.blockCount ≤ requests := by
  simp only [dmaEmulConfigValid, Bool.if_false_left, Bool.and_eq_true, blocksValid_iff,
    Bool.not_eq_true', decide_eq_false_iff_not]
  constructor
  · rintro ⟨slot, inside, bursts, listed, fits⟩
    exact ⟨by omega, by omega, not_not.mp bursts, listed, by omega⟩
  · rintro ⟨slot, inside, bursts, listed, fits⟩
    exact ⟨by omega, by omega, not_not.mpr bursts, listed, by omega⟩

def DmaDevice.putBlocks (device : DmaDevice w channels requests) (index : Nat)
    (blocks : List (DmaBlockConfig w)) : DmaDevice w channels requests :=
  { device with
    block := fun entry =>
      if index ≤ entry.val then (blocks[entry.val - index]?).getD (device.block entry)
      else device.block entry }

theorem DmaDevice.putBlocks_nil (device : DmaDevice w channels requests) (index : Nat) :
    device.putBlocks index [] = device := by
  simp [putBlocks]

theorem DmaDevice.putBlocks_cons (device : DmaDevice w channels requests) {index : Nat}
    (inside : index < channels * requests) (block : DmaBlockConfig w)
    (rest : List (DmaBlockConfig w)) :
    DmaDevice.putBlocks { device with block := Function.update device.block ⟨index, inside⟩ block }
      (index + 1) rest = device.putBlocks index (block :: rest) := by
  unfold putBlocks
  congr 1
  funext entry
  dsimp only
  rcases Nat.lt_trichotomy entry.val index with before | same | behind
  · have other : entry ≠ ⟨index, inside⟩ := by
      intro equal
      simp [equal] at before
    rw [if_neg (by omega), if_neg (by omega), Function.update_of_ne other]
  · have equal : entry = ⟨index, inside⟩ := Fin.ext same
    rw [if_neg (by omega), if_pos (by omega), same, Nat.sub_self, equal, Function.update_self]
    rfl
  · have other : entry ≠ ⟨index, inside⟩ := by
      intro equal
      simp [equal] at behind
    rw [if_pos (by omega), if_pos (by omega), Function.update_of_ne other,
      show entry.val - index = entry.val - (index + 1) + 1 by omega, List.getElem?_cons_succ]

theorem DmaDevice.putBlocks_of_lt (device : DmaDevice w channels requests) {index : Nat}
    (blocks : List (DmaBlockConfig w)) {entry : Fin (channels * requests)}
    (before : entry.val < index) :
    (device.putBlocks index blocks).block entry = device.block entry := by
  simp only [putBlocks]
  rw [if_neg (by omega)]

theorem DmaDevice.putBlocks_of_ge (device : DmaDevice w channels requests) {index : Nat}
    {blocks : List (DmaBlockConfig w)} {entry : Fin (channels * requests)}
    (behind : index + blocks.length ≤ entry.val) :
    (device.putBlocks index blocks).block entry = device.block entry := by
  simp only [putBlocks]
  rw [if_pos (by omega), List.getElem?_eq_none (by omega), Option.getD_none]

theorem DmaDevice.putBlocks_at (device : DmaDevice w channels requests) {index i : Nat}
    {blocks : List (DmaBlockConfig w)} (inside : i < blocks.length)
    (fits : index + blocks.length ≤ channels * requests) :
    (device.putBlocks index blocks).block ⟨index + i, by omega⟩ = blocks[i] := by
  simp only [putBlocks]
  rw [if_pos (by omega), Nat.add_sub_cancel_left, List.getElem?_eq_getElem inside, Option.getD_some]

theorem copyBlocks_eq (asserts : Bool) {heap : Nat → DmaBlockConfig w} {count : Nat} (index : Nat)
    {head : Option Nat} {blocks : List (DmaBlockConfig w)}
    (listed : blockList heap count head = some blocks) (device : DmaDevice w channels requests) :
    copyBlocks asserts heap count index head device =
      if count = 0 ∨ index + count ≤ channels * requests then
        .ok (device.putBlocks index blocks, List.range' index count)
      else .error .outOfBounds := by
  induction count generalizing index head blocks device with
  | zero =>
      cases listed
      rw [copyBlocks, if_pos (Or.inl rfl), DmaDevice.putBlocks_nil, List.range'_zero]
  | succ count ih =>
      cases head with
      | none => cases listed
      | some block =>
          obtain ⟨rest, listedRest, rfl⟩ := Option.map_eq_some_iff.mp listed
          rw [copyBlocks, DmaDevice.setBlock]
          by_cases inside : index < channels * requests
          · rw [dif_pos inside]
            simp only [Bind.bind, Except.bind]
            rw [ih _ listedRest]
            by_cases fits : index + (count + 1) ≤ channels * requests
            · rw [if_pos (Or.inr (by omega)), if_pos (Or.inr fits)]
              simp only [Pure.pure, Except.pure, DmaDevice.putBlocks_cons, List.range'_succ]
            · rw [if_neg (by omega), if_neg (by omega)]
          · rw [dif_neg inside, if_neg (by omega)]
            rfl

section

variable {asserts : Bool} {heap : Nat → DmaBlockConfig w} {device : DmaDevice w channels requests}
  {channel : Nat} {config : DmaConfig} {blocks : List (DmaBlockConfig w)}

theorem DmaDevice.xferAt_of_lt (inside : channel < channels) :
    device.xferAt channel = .ok (device.xfer ⟨channel, inside⟩) := by
  rw [xferAt, dif_pos inside]

theorem dmaEmulGetChannelState_eq (inside : channel < channels) :
    dmaEmulGetChannelState asserts device channel = .ok (device.xfer ⟨channel, inside⟩).state := by
  simp [dmaEmulGetChannelState, assertNoMsg, DmaDevice.xferAt_of_lt inside, inside, Bind.bind,
    Except.bind, Pure.pure, Except.pure]

def DmaDevice.withState (device : DmaDevice w channels requests) (channel : Fin channels)
    (state : DmaChannelState) : DmaDevice w channels requests :=
  ⟨Function.update device.xfer channel ⟨(device.xfer channel).config, state⟩, device.block⟩

theorem dmaEmulSetChannelState_eq (inside : channel < channels) (state : DmaChannelState) :
    dmaEmulSetChannelState asserts device channel state =
      .ok (device.withState ⟨channel, inside⟩ state) := by
  simp [dmaEmulSetChannelState, assertNoMsg, DmaDevice.xferAt_of_lt inside, DmaDevice.setXfer,
    DmaDevice.withState, inside, Bind.bind, Except.bind]

theorem DmaChannelState.busy_of_not_free {state : DmaChannelState}
    (busy : ¬(state = .unused ∨ state = .stopped)) : state = .loaded ∨ state = .started := by
  cases state <;> simp at busy ⊢

def DmaDevice.configured (device : DmaDevice w channels requests) (channel : Fin channels)
    (config : DmaConfig) (blocks : List (DmaBlockConfig w)) : DmaDevice w channels requests where
  xfer := Function.update device.xfer channel ⟨config, .loaded⟩
  block := (device.putBlocks (channel * requests + config.dmaSlot) blocks).block

theorem dmaEmulConfigure_busy
    (valid : dmaEmulConfigValid channels requests heap channel config = true)
    (inside : channel < channels)
    (busy : (device.xfer ⟨channel, inside⟩).state = .loaded ∨
      (device.xfer ⟨channel, inside⟩).state = .started) :
    dmaEmulConfigure asserts heap device channel config = .ok ⟨-16, device, []⟩ := by
  rw [dmaEmulConfigure, if_neg (by simp [valid]), dmaEmulGetChannelState_eq inside]
  rcases busy with state | state <;> simp [state, Bind.bind, Except.bind, Pure.pure, Except.pure]

theorem dmaEmulConfigure_free
    (valid : dmaEmulConfigValid channels requests heap channel config = true)
    (inside : channel < channels)
    (free : (device.xfer ⟨channel, inside⟩).state = .unused ∨
      (device.xfer ⟨channel, inside⟩).state = .stopped)
    (listed : blockList heap config.blockCount config.headBlock = some blocks) :
    dmaEmulConfigure asserts heap device channel config =
      if config.blockCount = 0 ∨
          channel * requests + config.dmaSlot + config.blockCount ≤ channels * requests then
        .ok ⟨0, device.configured ⟨channel, inside⟩ config blocks,
          List.range' (channel * requests + config.dmaSlot) config.blockCount⟩
      else .error .outOfBounds := by
  rw [dmaEmulConfigure, if_neg (by simp [valid]), dmaEmulGetChannelState_eq inside]
  have stored : device.setXfer channel ⟨config, (device.xfer ⟨channel, inside⟩).state⟩ =
      .ok { device with
        xfer := Function.update device.xfer ⟨channel, inside⟩
          ⟨config, (device.xfer ⟨channel, inside⟩).state⟩ } := by
    rw [DmaDevice.setXfer, dif_pos inside]
  have copied := copyBlocks_eq asserts (channel * requests + config.dmaSlot) listed
    { device with
      xfer := Function.update device.xfer ⟨channel, inside⟩
        ⟨config, (device.xfer ⟨channel, inside⟩).state⟩ }
  have desc : device.xferAt channel = .ok (device.xfer ⟨channel, inside⟩) :=
    device.xferAt_of_lt inside
  rcases free with state | state
  all_goals
    simp only [Bind.bind, Except.bind, state, desc] at stored copied ⊢
    rw [stored]
    simp only
    rw [copied]
    by_cases fits : config.blockCount = 0 ∨
        channel * requests + config.dmaSlot + config.blockCount ≤ channels * requests
    · rw [if_pos fits, if_pos fits]
      simp only
      rw [dmaEmulSetChannelState_eq inside]
      simp [DmaDevice.configured, DmaDevice.withState, DmaDevice.putBlocks, Pure.pure, Except.pure]
    · rw [if_neg fits, if_neg fits]

theorem dmaEmulConfigure_cases {result : DmaConfigured w channels requests}
    (ok : dmaEmulConfigure asserts heap device channel config = .ok result) :
    (result.device = device ∧ result.code ≠ 0) ∨
      ∃ (inside : channel < channels) (blocks : List (DmaBlockConfig w)),
        (device.xfer ⟨channel, inside⟩).state ≠ .started ∧
        blockList heap config.blockCount config.headBlock = some blocks ∧
        (config.blockCount = 0 ∨
          channel * requests + config.dmaSlot + config.blockCount ≤ channels * requests) ∧
        result.device = device.configured ⟨channel, inside⟩ config blocks := by
  by_cases valid : dmaEmulConfigValid channels requests heap channel config = true
  · obtain ⟨-, inside, -, ⟨blocks, listed⟩, -⟩ :=
      (dmaEmulConfigValid_iff heap channel config).mp valid
    by_cases free : (device.xfer ⟨channel, inside⟩).state = .unused ∨
        (device.xfer ⟨channel, inside⟩).state = .stopped
    · rw [dmaEmulConfigure_free valid inside free listed] at ok
      by_cases fits : config.blockCount = 0 ∨
          channel * requests + config.dmaSlot + config.blockCount ≤ channels * requests
      · rw [if_pos fits] at ok
        cases ok
        refine Or.inr ⟨inside, blocks, ?_, listed, fits, rfl⟩
        rcases free with state | state <;> simp [state]
      · rw [if_neg fits] at ok
        cases ok
    · rw [dmaEmulConfigure_busy valid inside (DmaChannelState.busy_of_not_free free)] at ok
      cases ok
      exact Or.inl ⟨rfl, show (-16 : Int) ≠ 0 by decide⟩
  · rw [dmaEmulConfigure, if_pos (by simpa using valid)] at ok
    cases ok
    exact Or.inl ⟨rfl, show (-22 : Int) ≠ 0 by decide⟩

structure DmaConfigured.OnlyChannel (result : DmaConfigured w channels requests)
    (device : DmaDevice w channels requests) (channel : Nat) : Prop where
  written : ∀ index ∈ result.written,
    channel * requests ≤ index ∧ index < (channel + 1) * requests
  block : ∀ entry : Fin (channels * requests),
    ¬(channel * requests ≤ entry.val ∧ entry.val < (channel + 1) * requests) →
      result.device.block entry = device.block entry
  xfer : ∀ other : Fin channels, other.val ≠ channel → result.device.xfer other = device.xfer other

theorem onlyChannel_of_unchanged (code : Int) :
    DmaConfigured.OnlyChannel ⟨code, device, []⟩ device channel where
  written := by
    intro index member
    cases member
  block _ _ := rfl
  xfer _ _ := rfl

theorem mem_range'_own {slot count : Nat} (some : 0 < count) :
    (∀ index ∈ List.range' (channel * requests + slot) count,
      channel * requests ≤ index ∧ index < (channel + 1) * requests) ↔ slot + count ≤ requests := by
  rw [Nat.succ_mul]
  constructor
  · intro own
    have last := own (channel * requests + slot + (count - 1)) (by
      rw [List.mem_range'_1]
      omega)
    omega
  · intro fits index member
    rw [List.mem_range'_1] at member
    omega

theorem configured_onlyChannel {code : Int} {written : List Nat} (inside : channel < channels)
    (own : ∀ index ∈ written, channel * requests ≤ index ∧ index < (channel + 1) * requests)
    (fits : config.dmaSlot + blocks.length ≤ requests) :
    DmaConfigured.OnlyChannel ⟨code, device.configured ⟨channel, inside⟩ config blocks, written⟩
      device channel where
  written := own
  block := by
    intro entry outside
    rw [Nat.succ_mul] at outside
    by_cases before : entry.val < channel * requests + config.dmaSlot
    · exact device.putBlocks_of_lt blocks before
    · exact device.putBlocks_of_ge
        (show channel * requests + config.dmaSlot + blocks.length ≤ entry.val by omega)
  xfer := by
    intro other different
    apply Function.update_of_ne
    intro same
    exact different (congrArg Fin.val same)

/-- A valid configuration stays with its channel exactly if its blocks fit behind its slot, or if
the call is refused because the channel is in use. -/
theorem configure_keeps_to_channel_iff (asserts : Bool) (heap : Nat → DmaBlockConfig w)
    (device : DmaDevice w channels requests) (channel : Nat) (config : DmaConfig)
    (valid : dmaEmulConfigValid channels requests heap channel config = true) :
    (∃ result, dmaEmulConfigure asserts heap device channel config = .ok result ∧
      result.OnlyChannel device channel) ↔
    config.dmaSlot + config.blockCount ≤ requests ∨
      ∃ desc, device.xferAt channel = .ok desc ∧
        (desc.state = .loaded ∨ desc.state = .started) := by
  obtain ⟨slot, inside, -, ⟨blocks, listed⟩, -⟩ :=
    (dmaEmulConfigValid_iff heap channel config).mp valid
  have length := length_blockList listed
  have desc : device.xferAt channel = .ok (device.xfer ⟨channel, inside⟩) :=
    device.xferAt_of_lt inside
  by_cases free : (device.xfer ⟨channel, inside⟩).state = .unused ∨
      (device.xfer ⟨channel, inside⟩).state = .stopped
  · rw [dmaEmulConfigure_free valid inside free listed]
    constructor
    · rintro ⟨result, ok, only⟩
      left
      by_cases empty : config.blockCount = 0
      · omega
      · by_cases fits : channel * requests + config.dmaSlot + config.blockCount ≤
          channels * requests
        · rw [if_pos (Or.inr fits)] at ok
          cases ok
          exact (mem_range'_own (by omega)).mp only.written
        · rw [if_neg (by omega)] at ok
          cases ok
    · rintro (fits | ⟨other, found, busy⟩)
      · have array : channel * requests + requests ≤ channels * requests := by
          rw [← Nat.succ_mul]
          exact Nat.mul_le_mul_right _ inside
        refine ⟨_, if_pos (Or.inr (by omega)), configured_onlyChannel inside ?_ (by omega)⟩
        by_cases empty : config.blockCount = 0
        · rw [empty]
          intro index member
          cases member
        · exact (mem_range'_own (by omega)).mpr fits
      · rw [desc] at found
        cases found
        rcases free with state | state <;> simp [state] at busy
  · have busy := DmaChannelState.busy_of_not_free free
    constructor
    · intro _
      exact Or.inr ⟨_, desc, busy⟩
    · intro _
      exact ⟨_, dmaEmulConfigure_busy valid inside busy, onlyChannel_of_unchanged _⟩

end

def plainConfig (slot burst count : Nat) (head : Option Nat) : DmaConfig :=
  ⟨slot, true, false, false, 0, burst, burst, count, head, 0, 0⟩

def pairHeap : Nat → DmaBlockConfig 32
  | 0 => ⟨0, 0x1000, 4, some 1⟩
  | _ => ⟨4, 0x1004, 4, none⟩

theorem two_blocks_keep_to_channel :
    ∃ result, dmaEmulConfigure true pairHeap (DmaDevice.init : DmaDevice 32 2 2) 0
        (plainConfig 0 4 2 (some 0)) = .ok result ∧
      result.OnlyChannel (DmaDevice.init : DmaDevice 32 2 2) 0 :=
  (configure_keeps_to_channel_iff true pairHeap DmaDevice.init 0 (plainConfig 0 4 2 (some 0))
    (by decide)).mpr (Or.inl (by decide))

/-- Two blocks from slot 1 on: the second one lands in the first entry of the next channel, and
behind the end of the array if there is no next channel. -/
theorem second_block_spills :
    (dmaEmulConfigValid 2 2 pairHeap 0 (plainConfig 1 4 2 (some 0)) = true ∧
      ∃ result, dmaEmulConfigure true pairHeap (DmaDevice.init : DmaDevice 32 2 2) 0
          (plainConfig 1 4 2 (some 0)) = .ok result ∧
        result.code = 0 ∧ result.written = [1, 2] ∧ result.device.block 2 = pairHeap 1 ∧
        ¬result.OnlyChannel (DmaDevice.init : DmaDevice 32 2 2) 0) ∧
    dmaEmulConfigValid 2 2 pairHeap 1 (plainConfig 1 4 2 (some 0)) = true ∧
      dmaEmulConfigure true pairHeap (DmaDevice.init : DmaDevice 32 2 2) 1
        (plainConfig 1 4 2 (some 0)) = .error .outOfBounds := by
  refine ⟨⟨by decide, _, rfl, rfl, rfl, rfl, ?_⟩, by decide, rfl⟩
  intro only
  have own := only.written 2 (by decide)
  omega

end WarpPipe
