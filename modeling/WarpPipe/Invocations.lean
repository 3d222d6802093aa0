import WarpPipe.ClientRuns
import WarpPipe.ReceiveBuffer

/-!
The callback that a TLP makes its handler invoke, as a value: which callback, and with which
arguments. A peer chooses all bits of the TLP that they are computed from.
-/

namespace WarpPipe

open ByteLayout

variable {σ : Type}

/-- The data of a write starts `offset` bytes into the TLP, that of a completion at `c_data`. -/
inductive Invocation where
  | read (cb : FnPtr) (addr : BitVec 64) (length : Int)
  | write (cb : FnPtr) (addr : BitVec 64) (offset : Nat) (length : Int)
  | completion (tag : Fin 32) (cb : FnPtr) (length : Nat)
  deriving DecidableEq

def readInvocation (client : Client) (pkt : Bytes) : Option Invocation :=
  (readTarget client pkt).1.map fun cb =>
    .read cb ((readTarget client pkt).2 + BitVec.ofNat 64 (firstByteOffset pkt))
      (tlpDataLengthBytes pkt)

def writeInvocation (client : Client) (pkt : Bytes) : Option Invocation :=
  (writeTarget client pkt).1.map fun cb =>
    .write cb ((writeTarget client pkt).2 + BitVec.ofNat 64 (firstByteOffset pkt))
      (payloadOffset pkt + firstByteOffset pkt) (tlpDataLengthBytes pkt)

def byteCount (pkt : Bytes) : Nat :=
  PcieTlp.cByteCountHi.get pkt <<< 8 ||| PcieTlp.cByteCountLo.get pkt

def completionInvocation (client : Client) (pkt : Bytes) : Outcome (Option Invocation) :=
  if bound : PcieTlp.cTag.get pkt < 32 then
    let tag : Fin 32 := ⟨PcieTlp.cTag.get pkt, bound⟩
    .ok ((client.completionCb tag).map fun cb => .completion tag cb (byteCount pkt))
  else .error .outOfBounds

def invocation (client : Client) (pkt : Bytes) : Outcome (Option Invocation) :=
  match tlpTypeOf pkt with
  | some .iord | some .mrd32 | some .mrd64 | some .cr0 => .ok (readInvocation client pkt)
  | some .iowr | some .mwr32 | some .mwr64 | some .cw0 => .ok (writeInvocation client pkt)
  | some .cpld => completionInvocation client pkt
  | _ => .ok none

def Invocation.run (cbs : Callbacks σ) (world : World σ) (pkt : Bytes) :
    Invocation → Outcome (World σ)
  | .read cb addr length => do
    let (error, data, world) ← invokeRead cbs world cb addr length
    let (_, world) ← clientSendPcieTransport world (completionPacket pkt error data)
    return world
  | .write cb addr offset length =>
      invokeWrite cbs world cb addr (slice pkt offset length.toNat) length
  | .completion tag cb length => do
    let world ← invokeCompletion cbs world tag cb 0 (slice pkt PcieTlp.cData length) length
    return clearSlot world tag

def runInvocation (cbs : Callbacks σ) (world : World σ) (pkt : Bytes) :
    Option Invocation → Outcome (World σ)
  | none => .ok world
  | some invoked => invoked.run cbs world pkt

theorem memoryReadRequest_eq (cbs : Callbacks σ) (world : World σ) (pkt : Bytes) :
    handleMemoryReadRequest cbs world pkt =
      runInvocation cbs world pkt (readInvocation world.client pkt) := by
  rw [handleMemoryReadRequest, readInvocation]
  obtain ⟨target, addr⟩ := readTarget world.client pkt
  cases target <;> rfl

theorem memoryWriteRequest_eq (cbs : Callbacks σ) (world : World σ) (pkt : Bytes) :
    handleMemoryWriteRequest cbs world pkt =
      runInvocation cbs world pkt (writeInvocation world.client pkt) := by
  rw [handleMemoryWriteRequest, writeInvocation]
  obtain ⟨target, addr⟩ := writeTarget world.client pkt
  cases target <;> rfl

theorem completion_eq (cbs : Callbacks σ) (world : World σ) (pkt : Bytes) :
    handleCompletion cbs world pkt =
      (completionInvocation world.client pkt).bind (runInvocation cbs world pkt) := by
  rw [handleCompletion, completionInvocation]
  split
  · rename_i bound
    cases slot : world.client.completionCb ⟨PcieTlp.cTag.get pkt, bound⟩ <;>
      simp only [slot] <;> rfl
  · rfl

/-- Handling a TLP is invoking the callback that it asks for, if there is one. -/
theorem handleTlp_eq (cbs : Callbacks σ) (world : World σ) (pkt : Bytes) :
    handleTlp cbs world pkt = (invocation world.client pkt).bind (runInvocation cbs world pkt) := by
  rw [handleTlp, invocation]
  cases tlpTypeOf pkt with
  | none => rfl
  | some type =>
      cases type with
      | iord | mrd32 | mrd64 | cr0 => exact memoryReadRequest_eq cbs world pkt
      | iowr | mwr32 | mwr64 | cw0 => exact memoryWriteRequest_eq cbs world pkt
      | cpld => exact completion_eq cbs world pkt
      | _ => rfl

theorem handleTlp_invokes (cbs : Callbacks σ) {world : World σ} {pkt : Bytes} {invoked : Invocation}
    (found : invocation world.client pkt = .ok (some invoked)) :
    handleTlp cbs world pkt = invoked.run cbs world pkt := by
  rw [handleTlp_eq, found]
  rfl

def lastDisabled (lastBe : Nat) : Nat :=
  if lastBe &&& 8 ≠ 0 then 0
  else if lastBe &&& 4 ≠ 0 then 1
  else if lastBe &&& 2 ≠ 0 then 2
  else 3

theorem trimLast_eq {lastBe : Nat} (bound : lastBe < 16) (dataLenBytes : Int) :
    trimLast lastBe dataLenBytes = if lastBe = 0 then -1
      else dataLenBytes - lastDisabled lastBe := by
  interval_cases lastBe <;> simp [trimLast, lastDisabled]

theorem enabledBytes_eq {firstBe : Nat} (bound : firstBe < 16) (dwords lastBe : Nat) :
    enabledBytes dwords firstBe lastBe =
      if firstBe = 0 then if dwords = 1 then 0 else -1
      else trimLast (if dwords = 1 then firstBe else lastBe)
          (dwords * 4 - firstEnabled firstBe) := by
  have single : ((dwords : Int) * 4 = 4) ↔ dwords = 1 := by omega
  simp only [enabledBytes, single]
  interval_cases firstBe <;> simp [firstEnabled]

theorem firstEnabled_add_lastDisabled {enables : Nat} (bound : enables < 16) (some : enables ≠ 0) :
    firstEnabled enables + lastDisabled enables ≤ 3 := by
  interval_cases enables <;> first | contradiction | decide

theorem firstEnabled_le (firstBe : Nat) : firstEnabled firstBe ≤ 3 := by
  rw [firstEnabled]
  split
  · exact Nat.le_refl 3
  · split
    · decide
    · split <;> decide

theorem lastDisabled_le (lastBe : Nat) : lastDisabled lastBe ≤ 3 := by
  rw [lastDisabled]
  split
  · decide
  · split
    · decide
    · split <;> decide

def ProperEnables (pkt : Bytes) : Prop :=
  tlpDataLength pkt = 1 ∨ PcieTlp.rFirstBe.get pkt ≠ 0 ∧ PcieTlp.rLastBe.get pkt ≠ 0

instance properEnablesDecidable (pkt : Bytes) : Decidable (ProperEnables pkt) :=
  inferInstanceAs (Decidable (_ ∨ _))

theorem tlpDataLength_pos (pkt : Bytes) : 1 ≤ tlpDataLength pkt := by
  rw [tlpDataLength]
  omega

theorem tlpDataLengthBytes_improper {pkt : Bytes} (improper : ¬ProperEnables pkt) :
    tlpDataLengthBytes pkt = -1 := by
  have firstBound : PcieTlp.rFirstBe.get pkt < 16 := PcieTlp.rFirstBe.get_lt pkt
  have lastBound : PcieTlp.rLastBe.get pkt < 16 := PcieTlp.rLastBe.get_lt pkt
  rw [ProperEnables, not_or, not_and_or, not_not, not_not] at improper
  obtain ⟨several, missing⟩ := improper
  rw [tlpDataLengthBytes, enabledBytes_eq firstBound, if_neg several, if_neg several]
  by_cases first : PcieTlp.rFirstBe.get pkt = 0
  · rw [if_pos first]
  · rw [if_neg first, trimLast_eq lastBound, if_pos (missing.resolve_left first)]

theorem tlpDataLengthBytes_proper {pkt : Bytes} (proper : ProperEnables pkt) :
    0 ≤ tlpDataLengthBytes pkt ∧ firstByteOffset pkt + tlpDataLengthBytes pkt ≤
      4 * tlpDataLength pkt := by
  have firstBound : PcieTlp.rFirstBe.get pkt < 16 := PcieTlp.rFirstBe.get_lt pkt
  have lastBound : PcieTlp.rLastBe.get pkt < 16 := PcieTlp.rLastBe.get_lt pkt
  have some := tlpDataLength_pos pkt
  have low := firstEnabled_le (PcieTlp.rFirstBe.get pkt)
  have high := lastDisabled_le (PcieTlp.rLastBe.get pkt)
  rw [tlpDataLengthBytes, enabledBytes_eq firstBound, firstByteOffset]
  by_cases first : PcieTlp.rFirstBe.get pkt = 0
  · have single : tlpDataLength pkt = 1 := proper.resolve_right fun both => both.1 first
    rw [if_pos first, if_pos single]
    omega
  · rw [if_neg first]
    by_cases single : tlpDataLength pkt = 1
    · have sum := firstEnabled_add_lastDisabled firstBound first
      rw [if_pos single, trimLast_eq firstBound, if_neg first]
      omega
    · have last : PcieTlp.rLastBe.get pkt ≠ 0 := (proper.resolve_left single).2
      rw [if_neg single, trimLast_eq lastBound, if_neg last]
      omega

theorem tlpDataLengthBytes_nonneg_iff (pkt : Bytes) :
    0 ≤ tlpDataLengthBytes pkt ↔ ProperEnables pkt := by
  constructor
  · intro nonneg
    by_contra improper
    rw [tlpDataLengthBytes_improper improper] at nonneg
    omega
  · intro proper
    exact (tlpDataLengthBytes_proper proper).1

/-- The length is one that the TLP can have, and a write stays inside its payload. -/
def Invocation.Sane (pkt : Bytes) : Invocation → Prop
  | .read _ _ length => 0 ≤ length ∧ length ≤ 4 * tlpDataLength pkt
  | .write _ _ offset length => (0 ≤ length ∧ length ≤ 4 * tlpDataLength pkt) ∧
      payloadOffset pkt ≤ offset ∧ offset + length ≤ payloadOffset pkt + 4 * tlpDataLength pkt ∧
      payloadOffset pkt + 4 * tlpDataLength pkt = tlpTotalLength pkt
  | .completion .. => True

theorem tlpFmt_of_type {pkt : Bytes} {type : PcieTlpType} (found : tlpTypeOf pkt = some type) :
    PcieTlp.tlpFmt.get pkt = type.code >>> 5 := by
  have low : PcieTlp.tlpType.get pkt < 32 := PcieTlp.tlpType.get_lt pkt
  have code := List.find?_some found
  simp only [decide_eq_true_eq] at code
  rw [code, Nat.shiftRight_or_distrib, Nat.shiftLeft_shiftRight, Nat.shiftRight_eq_div_pow,
    Nat.div_eq_of_lt low, Nat.or_zero]

theorem payload_end {pkt : Bytes} {type : PcieTlpType} (found : tlpTypeOf pkt = some type)
    (write : type ∈ [PcieTlpType.iowr, .mwr32, .mwr64, .cw0]) :
    (payloadOffset pkt + 4 * tlpDataLength pkt : Int) = tlpTotalLength pkt := by
  have cases := tlpTotalLength_cases pkt
  have fmt : PcieTlp.tlpFmt.get pkt = 2 ∨ PcieTlp.tlpFmt.get pkt = 3 := by
    have same := tlpFmt_of_type found
    simp only [List.mem_cons, List.not_mem_nil, or_false] at write
    rcases write with rfl | rfl | rfl | rfl
    · exact .inl same
    · exact .inl same
    · exact .inr same
    · exact .inl same
  rw [payloadOffset, PcieTlp.rData32, PcieTlp.rData64]
  rcases fmt with fmt | fmt
  · rw [if_neg (by rw [fmt]; decide)]
    omega
  · rw [if_pos (by rw [fmt]; decide)]
    omega

theorem writeInvocation_sane_iff {client : Client} {pkt : Bytes} {invoked : Invocation}
    {type : PcieTlpType} (found : tlpTypeOf pkt = some type)
    (write : type ∈ [PcieTlpType.iowr, .mwr32, .mwr64, .cw0])
    (invokes : writeInvocation client pkt = some invoked) :
    invoked.Sane pkt ↔ ProperEnables pkt := by
  obtain ⟨cb, -, rfl⟩ := Option.map_eq_some_iff.mp invokes
  have last := payload_end found write
  simp only [Invocation.Sane]
  constructor
  · intro sane
    exact (tlpDataLengthBytes_nonneg_iff pkt).mp sane.1.1
  · intro proper
    have range := tlpDataLengthBytes_proper proper
    push_cast
    omega

theorem readInvocation_sane_iff {client : Client} {pkt : Bytes} {invoked : Invocation}
    (invokes : readInvocation client pkt = some invoked) :
    invoked.Sane pkt ↔ ProperEnables pkt := by
  obtain ⟨cb, -, rfl⟩ := Option.map_eq_some_iff.mp invokes
  simp only [Invocation.Sane]
  constructor
  · intro sane
    exact (tlpDataLengthBytes_nonneg_iff pkt).mp sane.1
  · intro proper
    have range := tlpDataLengthBytes_proper proper
    omega

/-- A request makes its handler pass on a length that the TLP can have iff its byte enables are
proper: otherwise the handler passes on the -1 of `tlp_data_length_bytes`. -/
theorem request_lengths_sane_iff (cbs : Callbacks σ) {world : World σ} {pkt : Bytes}
    {invoked : Invocation} (request : tlpTypeOf pkt ≠ some .cpld)
    (found : invocation world.client pkt = .ok (some invoked)) :
    handleTlp cbs world pkt = invoked.run cbs world pkt ∧
    (invoked.Sane pkt ↔ ProperEnables pkt) := by
  refine ⟨handleTlp_invokes cbs found, ?_⟩
  rw [invocation] at found
  cases kind : tlpTypeOf pkt with
  | none => simp [kind] at found
  | some type =>
      simp only [kind] at found
      cases type with
      | iord | mrd32 | mrd64 | cr0 => exact readInvocation_sane_iff (Except.ok.inj found)
      | iowr | mwr32 | mwr64 | cw0 =>
          exact writeInvocation_sane_iff kind (by decide) (Except.ok.inj found)
      | cpld => exact absurd kind request
      | _ => cases found

def configReader (packet : Bytes) : World Unit :=
  { clientWith packet with client := { (clientWith packet).client with cfg0ReadCb := some 7 } }

def configReadOf (dwords enables : Byte) : Bytes :=
  3 :: pcieLcrc32 [0, 1, 0x04, 0, 0, dwords, 0, 0, 0, enables, 0, 0, 0, 0, 0, 0, 0, 0]

theorem enabled_read_sane :
    Invocation.Sane ((configReadOf 2 0xff).drop Transport.tTlp) (.read 7 0 8) ∧
      handleTlp silentCallbacks (configReader []) ((configReadOf 2 0xff).drop Transport.tTlp) =
        Invocation.run silentCallbacks (configReader []) ((configReadOf 2 0xff).drop Transport.tTlp)
          (.read 7 0 8) := by
  have proper : ProperEnables ((configReadOf 2 0xff).drop Transport.tTlp) := by decide +kernel
  have sane := request_lengths_sane_iff silentCallbacks
    (show tlpTypeOf ((configReadOf 2 0xff).drop Transport.tTlp) ≠ some .cpld by decide +kernel)
    (show invocation (configReader []).client ((configReadOf 2 0xff).drop Transport.tTlp) =
      .ok (some (.read 7 0 8)) by decide +kernel)
  exact ⟨sane.2.mpr proper, sane.1⟩

/-- Two double words, and no byte enabled in either. -/
theorem negative_length_invoked :
    (warppipeClientRead silentCallbacks (configReader (configReadOf 2 0x00))).map
        (invocations (configReader (configReadOf 2 0x00))) =
      .ok [.readCb 7 3 (-1) 0 []] := by
  decide +kernel

def OnlySlot (tag : Nat) (before after : Client) : Prop :=
  after = { before with completionCb := after.completionCb } ∧
    ∀ slot : Fin 32, slot.val ≠ tag → after.completionCb slot = before.completionCb slot

theorem invocation_completion {client : Client} {pkt : Bytes}
    (completion : tlpTypeOf pkt = some .cpld) :
    invocation client pkt = completionInvocation client pkt := by
  rw [invocation, completion]

theorem completionInvocation_of_tag {client : Client} {pkt : Bytes} {tag : Fin 32}
    (own : PcieTlp.cTag.get pkt = tag) : completionInvocation client pkt =
      .ok ((client.completionCb tag).map fun cb => .completion tag cb (byteCount pkt)) := by
  have bound : PcieTlp.cTag.get pkt < 32 := by omega
  have same : (⟨PcieTlp.cTag.get pkt, bound⟩ : Fin 32) = tag := Fin.ext own
  rw [completionInvocation, dif_pos bound]
  simp only [same]

theorem invokeCompletion_quiet {cbs : Callbacks σ} (quiet : cbs.Quiet) (world : World σ)
    (tag : Fin 32) (cb : FnPtr) (data : Bytes) (length : Int) : ∃ app,
    invokeCompletion cbs world tag cb 0 data length =
      .ok ({ world with app := app }.emit (.completion tag cb 0 data length)) := by
  refine ⟨(cbs.completion cb world.app 0 data length).app, ?_⟩
  rw [invokeCompletion, quiet.completion]
  rfl

theorem silentCallbacks_quiet : (silentCallbacks : Callbacks σ).Quiet :=
  ⟨fun _ _ _ _ => rfl, fun _ _ _ _ _ => rfl, fun _ _ _ _ _ => rfl⟩

/-- The handler looks at the slot of `tag`, and clears it behind the callback. The requests that the
callback makes are its own. -/
def HandlesSlot (cbs : Callbacks σ) (world : World σ) (pkt : Bytes) (tag : Fin 32) : Prop :=
  (world.client.completionCb tag = none ∧ handleTlp cbs world pkt = .ok world) ∨
    ∃ cb data length, world.client.completionCb tag = some cb ∧
      handleTlp cbs world pkt =
        (invokeCompletion cbs world tag cb 0 data length).map fun after => clearSlot after tag

theorem handlesSlot_of_tag (cbs : Callbacks σ) (world : World σ) {pkt : Bytes}
    (completion : tlpTypeOf pkt = some .cpld) {tag : Fin 32} (own : PcieTlp.cTag.get pkt = tag) :
    HandlesSlot cbs world pkt tag := by
  rw [HandlesSlot, handleTlp_eq, invocation_completion completion, completionInvocation_of_tag own]
  cases slot : world.client.completionCb tag with
  | none => exact .inl ⟨rfl, rfl⟩
  | some cb => exact .inr ⟨cb, _, _, rfl, rfl⟩

/-- Handling a completion stays inside the table of callbacks, and changes nothing but the slot of
its tag, iff the tag is one of the 32 that the client gives out. -/
theorem completion_confined_iff (world : World σ) {pkt : Bytes}
    (completion : tlpTypeOf pkt = some .cpld) :
    ((∀ cbs : Callbacks σ, cbs.Quiet → ∃ final, handleTlp cbs world pkt = .ok final ∧
        OnlySlot (PcieTlp.cTag.get pkt) world.client final.client) ↔
      PcieTlp.cTag.get pkt < 32) ∧
    ∀ tag : Fin 32, PcieTlp.cTag.get pkt = tag →
      ∀ cbs : Callbacks σ, HandlesSlot cbs world pkt tag := by
  refine ⟨⟨fun confined => ?_, fun bound cbs quiet => ?_⟩,
    fun tag own cbs => handlesSlot_of_tag cbs world completion own⟩
  · by_contra outside
    obtain ⟨final, handled, -⟩ := confined silentCallbacks silentCallbacks_quiet
    rw [handleTlp_eq, invocation_completion completion, completionInvocation, dif_neg outside]
      at handled
    cases handled
  · have slot : PcieTlp.cTag.get pkt = (⟨_, bound⟩ : Fin 32) := rfl
    rcases handlesSlot_of_tag cbs world completion slot with ⟨-, handled⟩ |
      ⟨cb, data, length, -, handled⟩
    · exact ⟨world, handled, rfl, fun _ _ => rfl⟩
    · obtain ⟨app, returned⟩ := invokeCompletion_quiet quiet world ⟨_, bound⟩ cb data length
      rw [returned] at handled
      refine ⟨_, handled, rfl, fun slot other => ?_⟩
      exact Function.update_of_ne (fun same => other (congrArg Fin.val same)) _ _

def completionOf (count tag : Byte) : Bytes :=
  3 :: pcieLcrc32 [0, 1, 0x4a, 0, 0, 1, 0, 0, 0, count, 0, 0, tag, 0, 0xaa, 0xbb, 0xcc,
    0xdd, 0, 0, 0, 0]

theorem last_tag_confined :
    ∃ final, handleTlp silentCallbacks (clientWith [])
        ((completionOf 4 31).drop Transport.tTlp) = .ok final ∧
      OnlySlot 31 (clientWith []).client final.client := by
  have tag : PcieTlp.cTag.get ((completionOf 4 31).drop Transport.tTlp) = 31 := by decide +kernel
  have confined := (completion_confined_iff (clientWith [])
    (show tlpTypeOf ((completionOf 4 31).drop Transport.tTlp) = some .cpld by decide +kernel)).1.mpr
      (by rw [tag]; decide) silentCallbacks silentCallbacks_quiet
  rwa [tag] at confined

theorem tag_outside_table :
    pcieLcrc32Valid ((completionOf 4 32).drop Transport.tUnion) = true ∧
      (warppipeClientRead silentCallbacks (clientWith (completionOf 4 32))).map
        (fun final => final.log) = .error .outOfBounds := by
  decide +kernel

end WarpPipe
