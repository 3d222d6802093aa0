import WarpPipe.ReceiveBuffer

/-!
The heap block of `warppipe_write_imp`. Its size comes from the length in bytes; the place of the
LCRC and the length given to `send` come from the 10-bit length field, in which 0 means 1024 double
words.
-/

namespace WarpPipe

open ByteLayout

variable {σ : Type}

structure Region where
  start : Nat
  stop : Nat
  deriving DecidableEq, Repr

section

variable (junk : Nat → Byte) (addr : BitVec 64) (data : Bytes) (type : PcieTlpType)

def payloadStart : Nat :=
  Transport.tTlp + payloadOffset ((writeRequest junk addr data.length type).drop Transport.tTlp) +
    (addr &&& 3).toNat

def writeTotal : Int := tlpTotalLength ((writeBlock junk addr data type).drop Transport.tTlp)

/-- What `warppipe_write_imp` and the functions it calls write to the block, and what they send of
it: the header up to the end of `r_address64`, the payload, the LCRC, the packet. -/
def writeRegions : List Region :=
  [⟨0, Transport.tTlp + PcieTlp.rData64⟩,
    ⟨payloadStart junk addr data type, payloadStart junk addr data type + data.length⟩,
    ⟨Transport.tTlp + (writeTotal junk addr data type).toNat,
      Transport.tTlp + (writeTotal junk addr data type).toNat + 4⟩,
    ⟨0, headerSize + (writeTotal junk addr data type).toNat⟩]

def InsideBlock : Prop :=
  ∀ region ∈ writeRegions junk addr data type,
    region.stop ≤ writeAllocation (addr &&& 3).toNat data.length

end

theorem writeRegions_inside_iff (junk : Nat → Byte) {type : PcieTlpType} (isWrite : WriteType type)
    (addr : BitVec 64) (data : Bytes) :
    InsideBlock junk addr data type ↔ ¬(data = [] ∧ addr.toNat % 4 = 0) := by
  have total : writeTotal junk addr data type = _ := writeBlock_total junk addr data isWrite
  have size := writeAllocation_eq addr data
  have payload : payloadStart junk addr data type + data.length ≤ _ :=
    payload_fits junk addr data isWrite
  rw [length_writeRequest] at payload
  have header : headerSize = 7 := rfl
  have start : Transport.tTlp = 3 := rfl
  have address : PcieTlp.rData64 = 16 := rfl
  rw [← List.length_eq_zero_iff]
  simp only [InsideBlock, writeRegions, List.forall_mem_cons, header, start, address]
  constructor
  · rintro ⟨-, -, -, sent, -⟩ empty
    rw [total, size] at sent
    split at sent <;> omega
  · intro nonempty
    refine ⟨by omega, payload, ?_, ?_, List.forall_mem_nil _⟩
    · rw [total, size]
      split <;> omega
    · rw [total, size]
      split <;> omega

/-- The packet and everything written while it is made stay inside the block exactly when there is
a byte to send or a misaligned address; only the empty write to an aligned address leaves it. -/
theorem write_inside_block_iff (world : World σ) (junk : Nat → Byte) {type : PcieTlpType}
    (isWrite : WriteType type) (addr : BitVec 64) (data : Bytes) :
    (InsideBlock junk addr data type ↔ ¬(data = [] ∧ addr.toNat % 4 = 0)) ∧
      ((∃ result, warppipeWriteImp world junk addr data data.length type = .ok result) ↔
        ¬(data = [] ∧ addr.toNat % 4 = 0)) := by
  refine ⟨writeRegions_inside_iff junk isWrite addr data, ?_, ?_⟩
  · rintro ⟨result, ok⟩ ⟨rfl, aligned⟩
    rw [show (([] : Bytes).length : Int) = 0 from rfl,
      writeImp_empty world junk isWrite addr [] aligned] at ok
    cases ok
  · intro nonempty
    refine ⟨_, warppipeWriteImp_eq world junk isWrite addr data data.length (Nat.le_refl _) ?_⟩
    rw [← List.length_eq_zero_iff] at nonempty
    omega

theorem longest_write_inside_block :
    InsideBlock (fun _ => 0) 0x100000003 (List.replicate 4093 0) .mwr64 ∧
      ∃ result, warppipeWriteImp (clientWith []) (fun _ => 0) 0x100000003 (List.replicate 4093 0)
        (List.replicate 4093 (0 : Byte)).length .mwr64 = .ok result := by
  obtain ⟨regions, run⟩ := write_inside_block_iff (clientWith []) (fun _ => 0) (Or.inl rfl)
    0x100000003 (List.replicate 4093 0)
  exact ⟨regions.mpr (by simp), run.mpr (by simp)⟩

/-- An empty configuration write to address 0 announces 1024 double words from a block of 23
bytes. -/
theorem empty_write_overruns_block :
    writeAllocation 0 0 = 23 ∧
      writeRegions (fun _ => 0) 0 [] .cw0 = [⟨0, 19⟩, ⟨15, 15⟩, ⟨4111, 4115⟩, ⟨0, 4115⟩] ∧
      warppipeWriteImp (clientWith []) (fun _ => 0) 0 [] 0 .cw0 = .error .outOfBounds := by
  refine ⟨by decide, by decide, ?_⟩
  exact writeImp_empty (clientWith []) (fun _ => 0) (Or.inr rfl) 0 [] (by decide)

end WarpPipe
