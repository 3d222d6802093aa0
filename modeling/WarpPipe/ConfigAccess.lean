import WarpPipe.Invocations
import WarpPipe.MockConfigCore

/-!
The bytes of the memory mock that configuration requests reach. The write callback looks for a BAR
before it stores anything; the read callback checks the alignment of an address and not its size.
-/

namespace WarpPipe

open ByteLayout

variable {μ : Type}

def requestStart (pkt : Bytes) : BitVec 64 :=
  tlpReqGetAddr pkt + BitVec.ofNat 64 (firstByteOffset pkt)

/-- What a configuration callback does stays inside the header: a read answers with bytes of it or
with an error, and a write changes nothing but the double words of the BARs. -/
def Invocation.InHeader (table : Fin 6 → BarEntry) (space : ConfigSpace) (pkt : Bytes) :
    Invocation → Prop
  | .read cb addr length => cb = config0ReadPtr ∧
      ∃ code data, config0ReadCb space addr length = .ok (code, data) ∧
        (code = 0 → ∃ offset, offset + 4 ≤ 64 ∧ data = slice space.bytes offset 4)
  | .write cb addr offset length =>
      let written := config0WriteCb table space addr (slice pkt offset length.toNat) length
      cb = config0WritePtr ∧ (∀ index, index < barOffset ∨ barOffset + 4 * 6 ≤ index →
        getByte written.1.bytes index = getByte space.bytes index) ∧
      (barIdx? addr = none → written = (space, []))
  | .completion .. => True

theorem getByte_setBar_outside (space : ConfigSpace) (barIdx : Fin 6) (value : BitVec 32)
    {index : Nat} (outside : index < barOffset ∨ barOffset + 4 * 6 ≤ index) :
    getByte (space.setBar barIdx value).bytes index = getByte space.bytes index := by
  have apart : index < barOffset + 4 * barIdx.val ∨
      barOffset + 4 * barIdx.val + (littleEndian 4 value).length ≤ index := by
    rw [length_littleEndian]
    omega
  have fits : barOffset + 4 * barIdx.val + (littleEndian 4 value).length ≤ space.bytes.length := by
    rw [length_littleEndian, space.length_bytes, barOffset]
    omega
  exact getByte_overwrite_outside fits apart

theorem config0WriteCb_inHeader (table : Fin 6 → BarEntry) (space : ConfigSpace) (pkt : Bytes)
    (addr : BitVec 64) (offset : Nat) (length : Int) :
    Invocation.InHeader table space pkt (.write config0WritePtr addr offset length) := by
  simp only [Invocation.InHeader, config0WriteCb, true_and]
  by_cases rejected : addr &&& 3 ≠ 0 ∨ length ≠ 4
  · rw [if_pos rejected]
    exact ⟨fun _ _ => rfl, fun _ => rfl⟩
  · rw [if_neg rejected]
    cases found : barIdx? addr with
    | none => exact ⟨fun _ _ => rfl, fun _ => rfl⟩
    | some barIdx =>
        refine ⟨fun index outside => ?_, fun missed => by cases missed⟩
        exact getByte_setBar_outside space barIdx _ outside

theorem config0ReadCb_inHeader_iff (table : Fin 6 → BarEntry) (space : ConfigSpace) (pkt : Bytes)
    (addr : BitVec 64) (length : Int) :
    Invocation.InHeader table space pkt (.read config0ReadPtr addr length) ↔
      (addr.toNat % 4 = 0 → length = 4 → addr.toNat < 64) := by
  have aligned : addr &&& 3 = 0 ↔ addr.toNat % 4 = 0 := by
    rw [← BitVec.toNat_inj, toNat_and_three]
    rfl
  simp only [Invocation.InHeader, config0ReadCb, true_and]
  by_cases rejected : addr &&& 3 ≠ 0 ∨ length ≠ 4
  · rw [if_pos rejected]
    constructor
    · intro _ multiple four
      rcases rejected with misaligned | other
      · exact absurd (aligned.mpr multiple) misaligned
      · exact absurd four other
    · intro _
      exact ⟨1, [], rfl, fun zero => absurd zero (by decide)⟩
  · rw [if_neg rejected]
    rw [not_or, not_not, not_not] at rejected
    have multiple := aligned.mp rejected.1
    by_cases inside : addr.toNat + 4 ≤ 64
    · rw [if_pos inside]
      constructor
      · intro _ _ _
        omega
      · intro _
        exact ⟨0, _, rfl, fun _ => ⟨addr.toNat, inside, rfl⟩⟩
    · rw [if_neg inside]
      constructor
      · rintro ⟨code, data, answered, -⟩
        cases answered
      · intro low
        have small := low multiple rejected.2
        omega

/-- A configuration request to the mock reaches only the header iff it is no read of exactly four
bytes at a multiple of four behind the header. -/
theorem config_accesses_in_header_iff (table : Fin 6 → BarEntry) (bars : BarMemory μ)
    {world : World (MockDevice μ)} (reads : world.client.cfg0ReadCb = some config0ReadPtr)
    (writes : world.client.cfg0WriteCb = some config0WritePtr) {pkt : Bytes}
    (request : tlpTypeOf pkt = some .cr0 ∨ tlpTypeOf pkt = some .cw0) :
    ∃ invoked, invocation world.client pkt = .ok (some invoked) ∧
      handleTlp (deviceCallbacks table bars) world pkt =
        invoked.run (deviceCallbacks table bars) world pkt ∧
      (invoked.InHeader table world.app.space pkt ↔
        (tlpTypeOf pkt = some .cr0 → (requestStart pkt).toNat % 4 = 0 → tlpDataLengthBytes pkt = 4 →
          (requestStart pkt).toNat < 64)) := by
  rcases request with read | write
  · have found : invocation world.client pkt =
        .ok (some (.read config0ReadPtr (requestStart pkt) (tlpDataLengthBytes pkt))) := by
      simp only [invocation, readInvocation, readTarget, read, reads]
      rfl
    refine ⟨_, found, handleTlp_invokes _ found, ?_⟩
    rw [config0ReadCb_inHeader_iff]
    exact ⟨fun inside _ => inside, fun inside => inside read⟩
  · have found : invocation world.client pkt =
        .ok
          (some (.write config0WritePtr (requestStart pkt) (payloadOffset pkt + firstByteOffset pkt)
          (tlpDataLengthBytes pkt))) := by
      simp only [invocation, writeInvocation, writeTarget, write, writes]
      rfl
    refine ⟨_, found, handleTlp_invokes _ found, ?_⟩
    refine iff_of_true (config0WriteCb_inHeader ..) fun read => ?_
    rw [write] at read
    cases read

def mockDevice : MockDevice MockMemory where
  space := zeroSpace
  memory := zeroMemory
  devClient := 0
  fault := none

def configClient (packet : Bytes) : World (MockDevice MockMemory) where
  client := { (clientWith packet).client with
    cfg0ReadCb := some config0ReadPtr, cfg0WriteCb := some config0WritePtr }
  sock := (clientWith packet).sock
  app := mockDevice
  log := []

def configReadAt (addr : Byte) : Bytes :=
  3 :: pcieLcrc32 [0, 1, 0x04, 0, 0, 1, 0, 0, 0, 0x0f, 0, 0, 0, addr, 0, 0, 0, 0]

theorem last_dword_in_header : ∃ invoked,
    invocation (configClient []).client ((configReadAt 60).drop Transport.tTlp) =
        .ok (some invoked) ∧
      invoked.InHeader mockTable mockDevice.space ((configReadAt 60).drop Transport.tTlp) := by
  obtain ⟨invoked, found, -, inside⟩ := config_accesses_in_header_iff mockTable mockBars
    (show (configClient []).client.cfg0ReadCb = some config0ReadPtr from rfl) rfl
    (show tlpTypeOf ((configReadAt 60).drop Transport.tTlp) = some .cr0 ∨
      _ from .inl (by decide +kernel))
  exact ⟨invoked, found, inside.mpr fun _ _ _ => by decide +kernel⟩

/-- The next one: the callback reads four bytes behind the configuration space. -/
theorem next_dword_outside :
    (warppipeClientRead (deviceCallbacks mockTable mockBars) (configClient (configReadAt 64))).map
      (fun world => world.app.fault) = .ok (some .outOfBounds) := by
  decide +kernel

end WarpPipe
