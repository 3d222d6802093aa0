import WarpPipe.DmaCalls

/-!
Chains of linked channels. The handler of `dma_emul.c` works on one channel of a chain after the
other, while other threads call the driver and may stop some of them.
-/

namespace WarpPipe

open ByteLayout LinkChain

variable {w channels requests : Nat}

/-- What the handler reports about the channels of a chain, the memory that it leaves, and the
channels that are left: each one is complete in turn, with all of its blocks moved, up to the end or
to a channel that was stopped. -/
inductive ChainLog (configOf : Nat → DmaConfig) (blocksOf : Nat → List (DmaBlockConfig w))
    (may : Nat → Prop) (statics : Nat → Byte) (remote : BitVec w → Byte) :
    List Nat → (BitVec w → Byte) → List (DmaCallback w) → (BitVec w → Byte) → List Nat → Prop where
  | ended (memory : BitVec w → Byte) :
      ChainLog configOf blocksOf may statics remote [] memory [] memory []
  | complete {channel : Nat} {rest left : List Nat} {memory after last : BitVec w → Byte}
      {log : List (DmaCallback w)} (moved : after = (blocksOf channel).foldl
        (transferBlock (configOf channel).destBurstLength statics remote) memory)
      (later : ChainLog configOf blocksOf may statics remote rest after log last left) :
      ChainLog configOf blocksOf may statics remote (channel :: rest) memory
        (⟨(configOf channel).dmaCallback, (configOf channel).userData, channel, .complete, after⟩ ::
          log) last left
  | canceled {channel : Nat} {rest : List Nat} {memory after : BitVec w → Byte}
      (stopped : may channel)
      (partly : Partly (configOf channel).destBurstLength statics remote memory
        (blocksOf channel) after) :
      ChainLog configOf blocksOf may statics remote (channel :: rest) memory
        (canceledCalls (configOf channel) channel after) after (channel :: rest)

theorem ChainLog.congr {configOf : Nat → DmaConfig} {blocksOf : Nat → List (DmaBlockConfig w)}
    {may : Nat → Prop} {statics other : Nat → Byte} {remote : BitVec w → Byte}
    {chain left : List Nat} {memory last : BitVec w → Byte} {log : List (DmaCallback w)}
    (logged : ChainLog configOf blocksOf may statics remote chain memory log last left)
    (same : ∀ offset, 4 ≤ offset → statics offset = other offset) :
    ChainLog configOf blocksOf may other remote chain memory log last left := by
  induction logged with
  | ended memory => exact .ended memory
  | complete moved later ih =>
      exact .complete (moved.trans (foldl_transferBlock_congr remote _ _ same)) ih
  | canceled stopped partly => exact .canceled stopped (partly.congr same)

theorem Partly.outside {burst : Nat} {statics : Nat → Byte} {remote : BitVec w → Byte}
    {memory after : BitVec w → Byte} {blocks : List (DmaBlockConfig w)}
    (partly : Partly burst statics remote memory blocks after) {addr : BitVec w}
    (outside : ∀ block ∈ blocks, ∀ offset < block.blockSize,
      addr ≠ block.destAddress + BitVec.ofNat w offset) :
    after addr = memory addr := by
  induction partly with
  | here short whole =>
      exact copyTo_outside fun offset within => outside _ List.mem_cons_self offset (by omega)
  | @later memory after block rest partly ih =>
      rw [ih fun other member => outside other (List.mem_cons_of_mem _ member)]
      have alone : [block].foldl (transferBlock burst statics remote) memory addr = memory addr :=
        foldl_transferBlock_outside fun other member => by
          rw [List.mem_singleton.mp member]
          exact outside block List.mem_cons_self
      exact alone

section

variable {configOf : Nat → DmaConfig} {blocksOf : Nat → List (DmaBlockConfig w)} {may : Nat → Prop}
  {statics : Nat → Byte} {remote : BitVec w → Byte} {chain left : List Nat}
  {memory last : BitVec w → Byte} {log : List (DmaCallback w)}
  (logged : ChainLog configOf blocksOf may statics remote chain memory log last left)

include logged

theorem ChainLog.outside {addr : BitVec w} (outside : ∀ block ∈ chain.flatMap blocksOf,
      ∀ offset < block.blockSize, addr ≠ block.destAddress + BitVec.ofNat w offset) :
    last addr = memory addr := by
  induction logged with
  | ended memory => rfl
  | complete moved later ih =>
      rw [List.flatMap_cons] at outside
      rw [ih fun block member => outside block (List.mem_append_right _ member), moved]
      exact foldl_transferBlock_outside fun block member =>
        outside block (List.mem_append_left _ member)
  | canceled stopped partly =>
      rw [List.flatMap_cons] at outside
      exact partly.outside fun block member => outside block (List.mem_append_left _ member)

theorem ChainLog.copied (apart : DestinationsApart (chain.flatMap blocksOf))
    (bursts : ∀ channel ∈ chain, ∀ block ∈ blocksOf channel,
      block.BurstFits (configOf channel).destBurstLength) :
    ∃ done, chain = done ++ left ∧ (∀ channel ∈ left.head?, may channel) ∧
      log.map (fun call => (call.channel, call.status)) = done.map (·, .complete) ++
        (left.head?.toList.filter fun channel => (configOf channel).errorCallbackEn).map
          (·, .canceled) ∧
      Copied (done.flatMap blocksOf) remote last := by
  induction logged with
  | ended memory => exact ⟨[], rfl, nofun, rfl, nofun⟩
  | @complete channel rest left memory after last log moved later ih =>
      rw [List.flatMap_cons] at apart
      obtain ⟨ownPairs, laterPairs, cross⟩ := List.pairwise_append.mp apart.apart
      have own : DestinationsApart (blocksOf channel) :=
        ⟨fun block member => apart.fits block (List.mem_append_left _ member), ownPairs⟩
      obtain ⟨done, rfl, stoppable, calls, copied⟩ := ih
        ⟨fun block member => apart.fits block (List.mem_append_right _ member), laterPairs⟩
        fun other member => bursts other (List.mem_cons_of_mem _ member)
      refine ⟨channel :: done, rfl, stoppable, ?_, ?_⟩
      · rw [List.map_cons, calls]
        rfl
      · intro block member offset within
        rw [List.flatMap_cons] at member
        rcases List.mem_append.mp member with first | further
        · rw [later.outside fun other others i inside =>
            cross block first other others offset within i inside, moved]
          exact foldl_transferBlock_copied statics remote memory own
            (bursts channel List.mem_cons_self) block first offset within
        · exact copied block further offset within
  | @canceled channel rest memory after stopped partly =>
      refine ⟨[], rfl, ?_, ?_, nofun⟩
      · rintro other ⟨⟩
        exact stopped
      · cases enabled : (configOf channel).errorCallbackEn <;> simp [canceledCalls, enabled]

end

def Chained (configOf : Nat → DmaConfig) : List Nat → Prop
  | [] => True
  | [last] => ((configOf last).sourceChainingEn || (configOf last).destChainingEn) = false
  | first :: second :: rest =>
    ((configOf first).sourceChainingEn || (configOf first).destChainingEn) = true ∧
      (configOf first).linkedChannel = second ∧ Chained configOf (second :: rest)

theorem Chained.closed {configOf : Nat → DmaConfig} {first : Nat} {rest : List Nat}
    (chained : Chained configOf (first :: rest)) {channel : Nat} (member : channel ∈ first :: rest)
    (enabled : ((configOf channel).sourceChainingEn || (configOf channel).destChainingEn) = true) :
    (configOf channel).linkedChannel ∈ first :: rest := by
  induction rest generalizing first with
  | nil =>
      obtain rfl := List.mem_singleton.mp member
      cases enabled.symm.trans chained
  | cons second rest ih =>
      obtain ⟨-, link, later⟩ := chained
      rcases List.mem_cons.mp member with rfl | further
      · rw [link]
        exact List.mem_cons_of_mem _ List.mem_cons_self
      · exact List.mem_cons_of_mem _ (ih later further)

section

variable {configOf : Nat → DmaConfig} {blocksOf : Nat → List (DmaBlockConfig w)} {may : Nat → Prop}
  {allowed : Nat → DmaChannelState → Prop} {world : DmaWorld w channels requests}
  {remote : BitVec w → Byte} {handler : DmaHandler w channels requests}

theorem HoldsChain.stopped {device : DmaDevice w channels requests} {channel : Nat}
    {rest : List Nat} (holds : HoldsChain configOf blocksOf allowed (channel :: rest) device)
    (new : channel ∉ rest) (inside : channel < channels) :
    HoldsChain configOf blocksOf allowed rest (device.withState ⟨channel, inside⟩ .stopped) := by
  intro other member
  refine (holds other (List.mem_cons_of_mem _ member)).withState_of_ne _ fun same => new ?_
  rw [show channel = other from same]
  exact member

theorem workHandler_out (asserts : Bool) (steps : Nat) :
    dmaEmulWorkHandler asserts world steps .out handler = .ok (.out, handler) := by
  cases steps <;> rfl

theorem workHandler_transfer {asserts : Bool} {channel : Nat} {position : DmaPosition}
    {next : DmaHandler w channels requests}
    (ok : handleTransfer asserts world channel handler = .ok (position, next)) (steps : Nat) :
    dmaEmulWorkHandler asserts world (steps + 1) (.transfer channel) handler =
      dmaEmulWorkHandler asserts world steps position next := by
  rw [dmaEmulWorkHandler, ok]
  rfl

theorem workHandler_link {asserts : Bool} {channel : Nat} {config : DmaConfig}
    {position : DmaPosition} (ok : handleLink asserts channel config = .ok position) (steps : Nat) :
    dmaEmulWorkHandler asserts world (steps + 1) (.link channel config) handler =
      dmaEmulWorkHandler asserts world steps position handler := by
  rw [dmaEmulWorkHandler, ok]
  rfl

theorem workHandler_chain (asserts : Bool) (answers : world.Answers remote) {channel : Nat}
    {rest : List Nat} (keeps : ∀ later, later <:+ channel :: rest →
      world.Keeps (HoldsChain configOf blocksOf (fun other => StartedOr (may other)) later))
    (chained : Chained configOf (channel :: rest)) (distinct : (channel :: rest).Nodup)
    (start : HoldsChain configOf blocksOf (fun other => StartedOr (may other)) (channel :: rest)
      handler.device) (waiting : handler.gotResult = false)
    (fits : ∀ other ∈ channel :: rest, ∀ block ∈ blocksOf other, block.blockSize ≤ 2 ^ w) :
    ∃ log last left, dmaEmulWorkHandler asserts world (2 * (channel :: rest).length)
        (.transfer channel) handler = .ok (.out, last) ∧
      last.callbacks = handler.callbacks ++ log ∧
      HoldsChain configOf blocksOf (fun other => StartedOr (may other)) left last.device ∧
      ChainLog configOf blocksOf may handler.statics remote (channel :: rest) handler.memory log
        last.memory left := by
  induction rest generalizing channel handler with
  | nil =>
      have unlinked : handleLink asserts channel (configOf channel) = .ok .out :=
        if_neg (by rw [show _ = false from chained]; decide)
      rcases handleTransfer_held (keeps _ (List.suffix_refl _))
        (fun _ holds => holds channel List.mem_cons_self)
        asserts answers start waiting (fits channel List.mem_cons_self) _
        (fun _ inside holds => HoldsChain.stopped holds List.not_mem_nil inside) with
        ⟨last, ok, proceeds, memory, callbacks⟩ | ⟨last, ok, proceeds, may, partly, callbacks⟩
      · refine ⟨_, last, [], ?_, callbacks, proceeds.kept, .complete memory (.ended _)⟩
        exact (workHandler_transfer ok 1).trans (workHandler_link unlinked 0)
      · refine ⟨_, last, _, ?_, callbacks, proceeds.kept, .canceled may partly⟩
        exact (workHandler_transfer ok 1).trans (workHandler_out asserts 1)
  | cons second rest ih =>
      obtain ⟨enabled, link, further⟩ := chained
      obtain ⟨new, others⟩ := List.nodup_cons.mp distinct
      have linked : handleLink asserts channel (configOf channel) = .ok (.transfer second) := by
        have different : channel ≠ (configOf channel).linkedChannel := by
          rw [link]
          exact fun same => new (same ▸ List.mem_cons_self)
        rw [handleLink, if_pos enabled, link]
        rw [link] at different
        simp [assertNoMsg, different, Bind.bind, Except.bind, Pure.pure, Except.pure]
      rcases handleTransfer_held (keeps _ (List.suffix_refl _))
        (fun _ holds => holds channel List.mem_cons_self)
        asserts answers start waiting (fits channel List.mem_cons_self) _
        (fun _ inside holds => HoldsChain.stopped holds new inside) with
        ⟨middle, ok, proceeds, memory, callbacks⟩ | ⟨last, ok, proceeds, may, partly, callbacks⟩
      · obtain ⟨log, last, left, ran, later, holds, logged⟩ := ih
          (fun later within => keeps later (within.trans (List.suffix_cons ..))) further
            others proceeds.kept
          proceeds.waiting fun other member => fits other (List.mem_cons_of_mem _ member)
        refine ⟨_ :: log, last, left, ?_, ?_, holds,
          .complete memory (logged.congr proceeds.statics)⟩
        · have steps : 2 * (channel :: second :: rest).length =
              2 * (second :: rest).length + 1 + 1 := by
            rw [List.length_cons]
            omega
          rw [steps, workHandler_transfer ok, workHandler_link linked, ran]
        · rw [later, callbacks, List.append_assoc]
          rfl
      · refine ⟨_, last, _, ?_, callbacks, proceeds.kept, .canceled may partly⟩
        have steps : 2 * (channel :: second :: rest).length =
            2 * (second :: rest).length + 1 + 1 := by
          rw [List.length_cons]
          omega
        rw [steps, workHandler_transfer ok, workHandler_out]

end

abbrev DmaDevice.Stored (device : DmaDevice w channels requests) (channel : Nat)
    (config : DmaConfig) (blocks : List (DmaBlockConfig w)) : Prop :=
  device.Held channel config blocks fun _ => True

section

variable {asserts : Bool} {device : DmaDevice w channels requests} {configOf : Nat → DmaConfig}
  {blocksOf : Nat → List (DmaBlockConfig w)} {may : Nat → Prop}

theorem DmaDevice.Held.stored {channel : Nat} {config : DmaConfig}
    {blocks : List (DmaBlockConfig w)} {allowed : DmaChannelState → Prop}
    (held : device.Held channel config blocks allowed) :
    device.Stored channel config blocks :=
  ⟨held.desc.imp fun _ found => ⟨found.1, trivial⟩, held.count, held.block⟩

theorem DmaDevice.Held.started {channel : Nat} {config : DmaConfig}
    {blocks : List (DmaBlockConfig w)} (stored : device.Stored channel config blocks)
    (inside : channel < channels) (may : Prop) :
    (device.withState ⟨channel, inside⟩ .started).Held channel config blocks (StartedOr may) := by
  refine ⟨⟨.started, ?_, .inl rfl⟩, stored.count, stored.block⟩
  obtain ⟨before, found, -⟩ := stored.desc
  rw [device.xferAt_of_lt inside] at found
  rw [DmaDevice.xferAt_of_lt inside, DmaDevice.withState]
  simp only [Function.update_self]
  rw [Except.ok.inj found]

theorem markStarted_holdsChain {fuel channel : Nat}
    {marked : DmaDevice w channels requests × List Nat}
    (ok : markStarted asserts fuel device channel = .ok marked)
    (stored : ∀ other ∈ marked.2, device.Stored other (configOf other) (blocksOf other)) :
    HoldsChain configOf blocksOf (fun other => StartedOr (may other)) marked.2 marked.1 := by
  induction fuel generalizing device channel marked with
  | zero => cases ok
  | succ fuel ih =>
      by_cases inside : channel < channels
      · rw [markStarted_succ asserts fuel inside] at ok
        cases link : device.linked channel with
        | none =>
            rw [link] at ok
            cases ok
            intro other member
            rw [List.mem_singleton.mp member]
            exact (stored channel List.mem_cons_self).started inside _
        | some after =>
            rw [link] at ok
            obtain ⟨rest, result, rfl⟩ := ok_of_map_ok ok
            intro other member
            rcases List.mem_cons.mp member with rfl | later
            · have first : rest.1.Held other (configOf other) (blocksOf other)
                  (StartedOr (may other)) :=
                markStarted_held ((stored _ List.mem_cons_self).started inside _) (.inl rfl) result
              exact first
            · refine ih result (fun another within => ?_) other later
              exact (stored another (List.mem_cons_of_mem _ within)).withState _ fun _ => trivial
      · exact absurd ok (markStarted_outside asserts _ inside _)

theorem follow_chained {fuel channel : Nat} {visited : List Nat}
    (ends : follow device.linked fuel channel = some visited)
    (stored : ∀ other ∈ visited, device.Stored other (configOf other) (blocksOf other)) :
    Chained configOf visited ∧ ∃ rest, visited = channel :: rest := by
  have linked {other : Nat} (held : device.Stored other (configOf other) (blocksOf other)) :
      device.linked other = if (configOf other).sourceChainingEn || (configOf other).destChainingEn
          then
        some (configOf other).linkedChannel else none := by
    obtain ⟨state, found, -⟩ := held.desc
    rw [DmaDevice.linked, found]
  induction fuel generalizing channel visited with
  | zero => cases ends
  | succ fuel ih =>
      cases link : device.linked channel with
      | none =>
          rw [follow_end link] at ends
          cases ends
          refine ⟨?_, [], rfl⟩
          rw [linked (stored channel List.mem_cons_self)] at link
          rw [Chained]
          by_contra enabled
          rw [Bool.not_eq_false] at enabled
          rw [if_pos enabled] at link
          cases link
      | some next =>
          rw [follow_link link] at ends
          obtain ⟨rest, endsRest, rfl⟩ := Option.map_eq_some_iff.mp ends
          obtain ⟨chained, later, rfl⟩ :=
            ih endsRest fun other member => stored other (List.mem_cons_of_mem _ member)
          refine ⟨?_, _, rfl⟩
          rw [linked (stored channel List.mem_cons_self)] at link
          by_cases enabled :
            ((configOf channel).sourceChainingEn || (configOf channel).destChainingEn) = true
          · rw [if_pos enabled, Option.some.injEq] at link
            exact ⟨enabled, link, chained⟩
          · rw [if_neg enabled] at link
            cases link

theorem start_again {fuel : Nat} {created submitted : Int} {channel : Nat} {config : DmaConfig}
    {blocks : List (DmaBlockConfig w)} (held : device.Held channel config blocks (· = .started))
    (connected : created ≠ -1) :
    dmaEmulStart asserts fuel created submitted device channel = .ok ⟨0, device, [], none⟩ := by
  have inside := held.inside
  obtain ⟨state, read, rfl⟩ := held.state asserts
  rw [dmaEmulStart, if_neg (by omega), if_neg connected, read]
  rfl

/-- What the handler leaves of a chain of channels. It reports the first ones of the chain complete,
in order, each once and with its blocks at their destinations, and touches nothing but the
destinations of the chain. It got to the end, or to a channel that was stopped, which it reports as
canceled if that is asked for. The channels behind that one stay started, so that starting one of
them again submits no work. -/
def ServedChain (asserts : Bool) (configOf : Nat → DmaConfig)
    (blocksOf : Nat → List (DmaBlockConfig w)) (may : Nat → Prop) (remote : BitVec w → Byte)
    (chain : List Nat) (handler last : DmaHandler w channels requests) : Prop :=
  ∃ done left log, chain = done ++ left ∧
    last.callbacks = handler.callbacks ++ log ∧ (∀ other ∈ left.head?, may other) ∧
    log.map (fun call => (call.channel, call.status)) = done.map (·, .complete) ++
      (left.head?.toList.filter fun other => (configOf other).errorCallbackEn).map (·, .canceled) ∧
    Copied (done.flatMap blocksOf) remote last.memory ∧
    (∀ addr, (∀ block ∈ chain.flatMap blocksOf, ∀ offset < block.blockSize,
      addr ≠ block.destAddress + BitVec.ofNat w offset) → last.memory addr = handler.memory addr) ∧
    ∀ other ∈ left, ¬may other → ∀ fuel submitted, ∀ created ≠ -1,
      dmaEmulStart asserts fuel created submitted last.device other = .ok ⟨0, last.device, [], none⟩

theorem started_visited {fuel : Nat} {created submitted : Int} {channel : Nat}
    {started : DmaStarted w channels requests}
    (ok : dmaEmulStart asserts fuel created submitted device channel = .ok started)
    (submits : started.work = some channel)
    (stored : ∀ other ∈ started.visited, device.Stored other (configOf other) (blocksOf other)) :
    ∃ rest, started.visited = channel :: rest ∧ Chained configOf (channel :: rest) ∧
      (channel :: rest).Nodup ∧ HoldsChain configOf blocksOf (fun other => StartedOr (may other))
        (channel :: rest) started.device := by
  by_cases starts : device.StartsLoop created channel
  · rw [dmaEmulStart_loop asserts fuel submitted starts] at ok
    obtain ⟨marked, loop, rfl⟩ := ok_of_map_ok ok
    obtain ⟨ends, -⟩ := (markStarted_ok_iff asserts fuel channel marked.2).mp ⟨marked.1, loop⟩
    obtain ⟨chained, rest, first⟩ := follow_chained ends stored
    have distinct := nodup_follow ends
    have holds : HoldsChain configOf blocksOf (fun other => StartedOr (may other))
        marked.2 marked.1 :=
      markStarted_holdsChain loop stored
    rw [first] at chained distinct holds
    exact ⟨rest, first, chained, distinct, holds⟩
  · obtain ⟨code, returned⟩ := dmaEmulStart_returns asserts fuel submitted starts
    rw [returned] at ok
    cases ok
    cases submits

theorem workHandler_served {world : DmaWorld w channels requests} {remote : BitVec w → Byte}
    {handler : DmaHandler w channels requests} {channel : Nat} {rest : List Nat}
    (chained : Chained configOf (channel :: rest)) (distinct : (channel :: rest).Nodup)
    (start : HoldsChain configOf blocksOf (fun other => StartedOr (may other)) (channel :: rest)
      handler.device)
    (slots : ∀ other ∈ channel :: rest,
      (configOf other).dmaSlot + (configOf other).blockCount ≤ requests)
    (apart : DestinationsApart ((channel :: rest).flatMap blocksOf))
    (bursts : ∀ other ∈ channel :: rest, ∀ block ∈ blocksOf other,
      block.BurstFits (configOf other).destBurstLength)
    (answers : world.Answers remote) (around : world.CallsAround asserts (channel :: rest) may)
    (waiting : handler.gotResult = false) :
    ∃ last, dmaEmulWorkHandler asserts world (2 * (channel :: rest).length)
        (.transfer channel) handler = .ok (.out, last) ∧
      ServedChain asserts configOf blocksOf may remote (channel :: rest) handler last := by
  have fits : ∀ other ∈ channel :: rest, ∀ block ∈ blocksOf other, block.blockSize ≤ 2 ^ w :=
    fun other member block inside => apart.fits block (List.mem_flatMap.mpr ⟨other, member, inside⟩)
  obtain ⟨log, last, left, ran, callbacks, holds, logged⟩ := workHandler_chain asserts answers
    (fun _ within => around.keeps (fun _ may => .inr ⟨may, rfl⟩) slots within) chained
      distinct start
    waiting fits
  obtain ⟨done, split, stoppable, calls, copied⟩ := logged.copied apart bursts
  refine ⟨last, ran, done, left, log, split, callbacks, stoppable, calls, copied,
    fun addr outside => logged.outside outside,
    fun other member never fuel submitted created connected => ?_⟩
  have held := holds other member
  exact start_again ⟨held.desc.imp fun state found => ⟨found.1, found.2.resolve_right fun stopped =>
    never stopped.1⟩, held.count, held.block⟩ connected

/-- A chain that is started is served, whatever channels beside it other threads configure and
stop. -/
theorem started_chain_copied {fuel : Nat} {created submitted : Int} {channel : Nat}
    {started : DmaStarted w channels requests}
    (ok : dmaEmulStart asserts fuel created submitted device channel = .ok started)
    (submits : started.work = some channel)
    (stored : ∀ other ∈ started.visited, device.Stored other (configOf other) (blocksOf other))
    (slots : ∀ other ∈ started.visited,
      (configOf other).dmaSlot + (configOf other).blockCount ≤ requests)
    (apart : DestinationsApart (started.visited.flatMap blocksOf))
    (bursts : ∀ other ∈ started.visited, ∀ block ∈ blocksOf other,
      block.BurstFits (configOf other).destBurstLength)
    {world : DmaWorld w channels requests} {remote : BitVec w → Byte}
    (answers : world.Answers remote) (around : world.CallsAround asserts started.visited may)
    {handler : DmaHandler w channels requests} (same : handler.device = started.device)
    (waiting : handler.gotResult = false) :
    ∃ last, dmaEmulWorkHandler asserts world (2 * started.visited.length)
        (.transfer channel) handler = .ok (.out, last) ∧
      ServedChain asserts configOf blocksOf may remote started.visited handler last := by
  obtain ⟨rest, first, chained, distinct, start⟩ := started_visited ok submits stored
  rw [← same] at start
  simp only [first] at slots apart bursts around ⊢
  exact workHandler_served chained distinct start slots apart bursts answers around waiting

end

def linkedPair : DmaDevice 32 2 1 :=
  ((DmaDevice.init.configured 0
    { plainConfig 0 4 1 (some 0) with sourceChainingEn := true, linkedChannel := 1 }
    [pairHeap 0]).configured 1 (plainConfig 0 4 1 (some 1)) [pairHeap 1])

def stoppingWorld : DmaWorld 32 2 1 where
  meanwhile time device := if time = 0 then device.withState (.last 1) .stopped else device
  answer _ addr _ offset := (addr + BitVec.ofNat 32 offset).setWidth 8

theorem stoppingWorld_calls (chain : List Nat) : stoppingWorld.CallsAround true chain (· = 1) := by
  intro time device
  by_cases first : time = 0
  · refine ⟨[.stop 1], ?_, ?_⟩
    · intro call member
      rw [List.mem_singleton.mp member]
      exact fun _ => rfl
    · simp only [stoppingWorld, if_pos first]
      rfl
  · refine ⟨[], nofun, ?_⟩
    simp only [stoppingWorld, if_neg first]
    rfl

theorem linkedPair_served :
    ∃ started, dmaEmulStart true 2 0 0 linkedPair 0 = .ok started ∧ started.visited = [0, 1] ∧
      ∃ last, dmaEmulWorkHandler true stoppingWorld 4 (.transfer 0)
          ⟨started.device, fun _ => 0, fun _ => 1, false, 0, []⟩ = .ok (.out, last) ∧
        ServedChain true (fun channel => (linkedPair.xfer (.ofNat 2 channel)).config)
          (fun channel => [pairHeap channel]) (· = 1) (fun addr => addr.setWidth 8) [0, 1]
          ⟨started.device, fun _ => 0, fun _ => 1, false, 0, []⟩ last := by
  have stored : ∀ channel ∈ [0, 1],
      linkedPair.Stored channel (linkedPair.xfer (.ofNat 2 channel)).config [pairHeap channel] := by
    intro channel member
    rcases List.mem_pair.mp member with rfl | rfl
    · exact ⟨⟨_, rfl, trivial⟩, rfl, fun | 0, _ => rfl⟩
    · exact ⟨⟨_, rfl, trivial⟩, rfl, fun | 0, _ => rfl⟩
  have starts : ∃ started, dmaEmulStart true 2 0 0 linkedPair 0 = .ok started ∧
      started.visited = [0, 1] ∧ started.work = some 0 := ⟨_, rfl, rfl, rfl⟩
  obtain ⟨started, ok, visited, submits⟩ := starts
  refine ⟨started, ok, visited, ?_⟩
  rw [show 4 = 2 * [0, 1].length from rfl, ← visited]
  rw [← visited] at stored
  refine started_chain_copied ok submits stored ?_ ?_ ?_ (fun _ _ _ _ _ => rfl)
    (stoppingWorld_calls _) rfl rfl
  · rw [visited]
    decide
  · rw [visited]
    exact pairHeap_apart
  · rw [visited]
    decide

end WarpPipe
