import WarpPipe.DmaStart
import WarpPipe.DmaTransfer
import WarpPipe.Library.Runs

/-!
Calls of the driver while the handler works. As long as the configurations of all channels keep to
the entries of their channels, no call but a stop of its own channel disturbs a transfer, so a
transfer that is configured, started and reported complete has been copied.
-/

namespace WarpPipe

variable {w channels requests : Nat}

inductive DmaCall (w : Nat) where
  | configure (heap : Nat → DmaBlockConfig w) (channel : Nat) (config : DmaConfig)
  | start (fuel : Nat) (created submitted : Int) (channel : Nat)
  | stop (channel : Nat)

def dmaStep (asserts : Bool) (device : DmaDevice w channels requests) :
    DmaCall w → Outcome (DmaDevice w channels requests)
  | .configure heap channel config =>
    (dmaEmulConfigure asserts heap device channel config).map (·.device)
  | .start fuel created submitted channel =>
    (dmaEmulStart asserts fuel created submitted device channel).map (·.device)
  | .stop channel => (dmaEmulStop asserts device channel).map (·.2)

/-- The call configures no channel of the chain, keeps to the entries of the channel that it
configures, and stops those channels only that may be stopped. It starts nothing: `dma_emul_start`
would create the server again and replace the work item. -/
def DmaCall.Leaves (requests : Nat) (chain : List Nat) (may : Nat → Prop) : DmaCall w → Prop
  | .configure _ other config => other ∉ chain ∧ config.dmaSlot + config.blockCount ≤ requests
  | .start .. => False
  | .stop other => other ∈ chain → may other

section

variable {asserts : Bool} {device : DmaDevice w channels requests} {channel : Nat}
  {config : DmaConfig} {blocks : List (DmaBlockConfig w)} {allowed : DmaChannelState → Prop}

theorem DmaDevice.xferAt_withState_of_ne {other : Fin channels} (state : DmaChannelState)
    (different : other.val ≠ channel) :
    (device.withState other state).xferAt channel = device.xferAt channel := by
  by_cases inside : channel < channels
  · rw [xferAt_of_lt inside, xferAt_of_lt inside]
    have kept : (⟨channel, inside⟩ : Fin channels) ≠ other := by
      rintro rfl
      exact different rfl
    exact congrArg _ (Function.update_of_ne kept ..)
  · rw [xferAt, xferAt, dif_neg inside, dif_neg inside]

theorem own_entries_apart {other entry : Nat} (different : other ≠ channel)
    (lower : channel * requests ≤ entry) (upper : entry < (channel + 1) * requests) :
    ¬(other * requests ≤ entry ∧ entry < (other + 1) * requests) := by
  rintro ⟨otherLower, otherUpper⟩
  rcases Nat.lt_or_gt_of_ne different with before | behind
  · have gap : (other + 1) * requests ≤ channel * requests := Nat.mul_le_mul_right _ before
    omega
  · have gap : (channel + 1) * requests ≤ other * requests := Nat.mul_le_mul_right _ behind
    omega

variable (held : device.Held channel config blocks allowed)

include held

theorem DmaDevice.Held.of_same {other : DmaDevice w channels requests}
    (desc : other.xferAt channel = device.xferAt channel)
    (block : ∀ i < blocks.length, other.blockAt (channel * requests + config.dmaSlot + i) =
      device.blockAt (channel * requests + config.dmaSlot + i)) :
    other.Held channel config blocks allowed where
  desc := by
    rw [desc]
    exact held.desc
  count := held.count
  block i inside := (block i inside).trans (held.block i inside)

theorem DmaDevice.Held.withState_of_ne {other : Fin channels} (state : DmaChannelState)
    (different : other.val ≠ channel) :
    (device.withState other state).Held channel config blocks allowed :=
  held.of_same (DmaDevice.xferAt_withState_of_ne state different) fun _ _ => rfl

theorem DmaDevice.Held.withState (other : Fin channels) {state : DmaChannelState}
    (fine : other.val = channel → allowed state) :
    (device.withState other state).Held channel config blocks allowed := by
  by_cases same : other.val = channel
  · refine ⟨⟨state, ?_, fine same⟩, held.count, held.block⟩
    obtain ⟨before, found, -⟩ := held.desc
    subst same
    rw [device.xferAt_of_lt other.isLt] at found
    rw [DmaDevice.xferAt_of_lt other.isLt, DmaDevice.withState]
    simp only [Function.update_self]
    rw [Except.ok.inj found]
  · exact held.withState_of_ne state same

theorem markStarted_held (fine : allowed .started) {fuel other : Nat}
    {marked : DmaDevice w channels requests × List Nat}
    (ok : markStarted asserts fuel device other = .ok marked) :
    marked.1.Held channel config blocks allowed := by
  induction fuel generalizing device other marked with
  | zero => cases ok
  | succ fuel ih =>
      by_cases inside : other < channels
      · have next := held.withState ⟨other, inside⟩ fun _ => fine
        rw [markStarted_succ asserts fuel inside] at ok
        cases link : device.linked other with
        | none =>
            rw [link] at ok
            cases ok
            exact next
        | some after =>
            rw [link] at ok
            obtain ⟨rest, result, rfl⟩ := ok_of_map_ok ok
            exact (ih next result : rest.1.Held channel config blocks allowed)
      · exact absurd ok (markStarted_outside asserts _ inside _)

theorem dmaEmulConfigure_held {heap : Nat → DmaBlockConfig w} {other : Nat} {new : DmaConfig}
    {result : DmaConfigured w channels requests}
    (fits : config.dmaSlot + config.blockCount ≤ requests) (different : other ≠ channel)
    (newFits : new.dmaSlot + new.blockCount ≤ requests)
    (ok : dmaEmulConfigure asserts heap device other new = .ok result) :
    result.device.Held channel config blocks allowed := by
  rcases dmaEmulConfigure_cases ok with ⟨same, -⟩ | ⟨inside, newBlocks, free, listed, -, same⟩
  · rw [same]
    exact held
  have length := length_blockList listed
  have only : DmaConfigured.OnlyChannel
      ⟨0, device.configured ⟨other, inside⟩ new newBlocks, []⟩ device other :=
    configured_onlyChannel inside (by simp) (by omega)
  rw [same]
  refine held.of_same ?_ ?_
  · rw [DmaDevice.xferAt_of_lt held.inside, DmaDevice.xferAt_of_lt held.inside]
    exact congrArg _ (only.xfer _ (Ne.symm different))
  · intro i within
    have count := held.count
    have array : (channel + 1) * requests ≤ channels * requests :=
      Nat.mul_le_mul_right _ held.inside
    have own : channel * requests + config.dmaSlot + i < (channel + 1) * requests := by
      rw [Nat.succ_mul]
      omega
    unfold DmaDevice.blockAt
    rw [dif_pos (by omega), dif_pos (by omega)]
    exact congrArg _ (only.block _ (own_entries_apart different (by simp only; omega) own))

end

section

variable {asserts : Bool} {configOf : Nat → DmaConfig} {blocksOf : Nat → List (DmaBlockConfig w)}
  {may : Nat → Prop} {allowed : Nat → DmaChannelState → Prop}

def HoldsChain (configOf : Nat → DmaConfig) (blocksOf : Nat → List (DmaBlockConfig w))
    (allowed : Nat → DmaChannelState → Prop) (chain : List Nat)
    (device : DmaDevice w channels requests) : Prop :=
  ∀ channel ∈ chain, device.Held channel (configOf channel) (blocksOf channel) (allowed channel)

theorem dmaStep_holds (stopped : ∀ channel, may channel → allowed channel .stopped)
    {device after : DmaDevice w channels requests} {call : DmaCall w} {chain : List Nat}
    (holds : HoldsChain configOf blocksOf allowed chain device)
    (fits : ∀ channel ∈ chain, (configOf channel).dmaSlot +
      (configOf channel).blockCount ≤ requests) (leaves : call.Leaves requests chain may)
    (ok : dmaStep asserts device call = .ok after) :
    HoldsChain configOf blocksOf allowed chain after := by
  intro channel member
  have held := holds channel member
  cases call with
  | configure heap other new =>
      obtain ⟨configured, result, rfl⟩ := ok_of_map_ok ok
      refine dmaEmulConfigure_held held (fits channel member) ?_ leaves.2 result
      rintro rfl
      exact leaves.1 member
  | start => exact leaves.elim
  | stop other =>
      by_cases inside : other < channels
      · simp only [dmaStep, dmaEmulStop, dmaEmulSetChannelState_eq inside] at ok
        cases ok
        refine held.withState ⟨other, inside⟩ ?_
        rintro rfl
        exact stopped other (leaves member)
      · cases asserts <;>
          simp [dmaStep, dmaEmulStop, dmaEmulSetChannelState, assertNoMsg, inside, DmaDevice.xferAt,
            Bind.bind, Except.bind, Except.map] at ok

/-- Other threads only call the driver, and leave the chain alone apart from stopping what may be
stopped. -/
def DmaWorld.CallsAround (asserts : Bool) (world : DmaWorld w channels requests) (chain : List Nat)
    (may : Nat → Prop) : Prop :=
  ∀ time device, ∃ calls : List (DmaCall w), (∀ call ∈ calls, call.Leaves requests chain may) ∧
    Runs.run (dmaStep asserts) device calls = .ok (world.meanwhile time device)

theorem DmaWorld.CallsAround.keeps {world : DmaWorld w channels requests} {chain : List Nat}
    (stopped : ∀ channel, may channel → allowed channel .stopped)
    (around : world.CallsAround asserts chain may)
    (fits : ∀ channel ∈ chain, (configOf channel).dmaSlot +
      (configOf channel).blockCount ≤ requests) {later : List Nat} (within : later <:+ chain) :
    world.Keeps (HoldsChain configOf blocksOf allowed later) := by
  intro time device holds
  obtain ⟨calls, leave, ran⟩ := around time device
  have members {channel : Nat} (member : channel ∈ later) : channel ∈ chain := within.subset member
  have keeps : ∀ (device : DmaDevice w channels requests) call after,
      HoldsChain configOf blocksOf allowed later device → call.Leaves requests chain may →
      dmaStep asserts device call = .ok after →
      HoldsChain configOf blocksOf allowed later after := by
    intro device call after holds leaves ok
    refine dmaStep_holds stopped holds (fun channel member => fits channel (members member)) ?_ ok
    cases call with
    | configure heap other new => exact ⟨fun member => leaves.1 (members member), leaves.2⟩
    | start => exact leaves.elim
    | stop other => exact fun member => leaves (members member)
  exact Runs.run_invariant keeps holds (Runs.along_of_forall device leave) ran

end

theorem DmaWorld.CallsAround.leavesRunning {asserts : Bool} {world : DmaWorld w channels requests}
    {channel : Nat} {config : DmaConfig} {blocks : List (DmaBlockConfig w)}
    (around : world.CallsAround asserts [channel] fun _ => False)
    (fits : config.dmaSlot + config.blockCount ≤ requests) :
    world.LeavesRunning channel config blocks := by
  have alone {device : DmaDevice w channels requests} : device.Running channel config blocks ↔
      HoldsChain (fun _ => config) (fun _ => blocks) (fun _ => StartedOr False)
        [channel] device := by
    rw [DmaDevice.running_iff, HoldsChain, List.forall_mem_singleton]
  intro time device running
  refine alone.mpr
    (around.keeps (fun _ never => never.elim) (fun _ _ => fits) (List.suffix_refl _) time
    device (alone.mp running))

theorem configured_start_running {asserts : Bool} {device : DmaDevice w channels requests}
    {channel : Nat} {config : DmaConfig} {blocks : List (DmaBlockConfig w)}
    (inside : channel < channels) (count : config.blockCount = blocks.length)
    (fits : config.blockCount = 0 ∨
      channel * requests + config.dmaSlot + config.blockCount ≤ channels * requests)
    {fuel : Nat} {created submitted : Int} (connected : created ≠ -1)
    {result : DmaStarted w channels requests} (ok : dmaEmulStart asserts fuel created submitted
      (device.configured ⟨channel, inside⟩ config blocks) channel = .ok result) :
    result.device.Running channel config blocks := by
  have starts : (device.configured ⟨channel, inside⟩ config blocks).StartsLoop created channel := by
    refine ⟨connected, ⟨config, .loaded⟩, ?_, Or.inl rfl⟩
    simp only [DmaDevice.xferAt_of_lt inside, DmaDevice.configured, Function.update_self]
  rw [dmaEmulStart_loop asserts fuel submitted starts] at ok
  cases fuel with
  | zero => cases ok
  | succ fuel =>
      have running := configured_running device inside count fits
      rw [markStarted_succ asserts fuel inside] at ok
      cases link : (device.configured ⟨channel, inside⟩ config blocks).linked channel with
      | none =>
          rw [link] at ok
          cases ok
          exact running
      | some other =>
          rw [link] at ok
          obtain ⟨final, started, rfl⟩ := ok_of_map_ok ok
          obtain ⟨rest, marked, rfl⟩ := ok_of_map_ok started
          have held : rest.1.Held channel config blocks (StartedOr False) :=
            markStarted_held (DmaDevice.running_iff.mp running) (.inl rfl) marked
          exact DmaDevice.running_iff.mpr held

/-- From the configuration to the callback: if the blocks fit behind the slot, and their bursts the
result buffer, then what is reported complete has been copied, whatever calls of the driver other
threads make that leave the channel alone. -/
theorem started_transfer_copied {asserts : Bool} {heap : Nat → DmaBlockConfig w}
    {device : DmaDevice w channels requests} {channel : Nat} {config : DmaConfig}
    {configured : DmaConfigured w channels requests} {blocks : List (DmaBlockConfig w)}
    (accepted : dmaEmulConfigure asserts heap device channel config = .ok configured)
    (code : configured.code = 0)
    (listed : blockList heap config.blockCount config.headBlock = some blocks)
    (fits : config.dmaSlot + config.blockCount ≤ requests)
    (apart : DestinationsApart blocks)
    (bursts : ∀ block ∈ blocks, block.BurstFits config.destBurstLength)
    {fuel : Nat} {created submitted : Int} (connected : created ≠ -1)
    {started : DmaStarted w channels requests}
    (ok : dmaEmulStart asserts fuel created submitted configured.device channel = .ok started)
    {world : DmaWorld w channels requests} {remote : BitVec w → ByteLayout.Byte}
    (answers : world.Answers remote) (around : world.CallsAround asserts [channel] fun _ => False)
    {handler : DmaHandler w channels requests} (same : handler.device = started.device)
    (waiting : handler.gotResult = false) :
    ReportsCopied asserts world remote handler channel blocks := by
  rcases dmaEmulConfigure_cases accepted with ⟨-, refused⟩ |
    ⟨inside, other, -, others, array, result⟩
  · exact absurd code refused
  rw [listed] at others
  cases others
  rw [result] at ok
  have running := configured_start_running inside (length_blockList listed).symm array connected ok
  rw [← same] at running
  rw [reportsCopied_iff asserts answers (around.leavesRunning fits) running waiting apart.fits]
  exact foldl_transferBlock_copied handler.statics remote handler.memory apart bursts

end WarpPipe
