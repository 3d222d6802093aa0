import WarpPipe.Library.Buffer

/-!
A byte-addressed memory whose addresses wrap around at their width, and copies into it.
-/

namespace ByteLayout

variable {w : Nat}

def copyTo (memory : BitVec w → Byte) (dest : BitVec w) (source : Nat → Byte) (bytes : Nat) :
    BitVec w → Byte :=
  fun addr => if (addr - dest).toNat < bytes then source (addr - dest).toNat else memory addr

variable {memory : BitVec w → Byte} {dest : BitVec w} {source : Nat → Byte} {bytes : Nat}

@[simp] theorem copyTo_zero : copyTo memory dest source 0 = memory := by
  funext addr
  simp [copyTo]

theorem toNat_offset {offset : Nat} (dest : BitVec w) (small : offset < 2 ^ w) :
    (dest + BitVec.ofNat w offset - dest).toNat = offset := by
  rw [BitVec.add_comm, BitVec.add_sub_cancel, BitVec.toNat_ofNat, Nat.mod_eq_of_lt small]

theorem copyTo_at {offset : Nat} (within : offset < bytes) (fits : bytes ≤ 2 ^ w) :
    copyTo memory dest source bytes (dest + BitVec.ofNat w offset) = source offset := by
  rw [copyTo, toNat_offset dest (by omega), if_pos within]

theorem copyTo_outside {addr : BitVec w}
    (outside : ∀ offset < bytes, addr ≠ dest + BitVec.ofNat w offset) :
    copyTo memory dest source bytes addr = memory addr := by
  apply if_neg
  intro within
  apply outside _ within
  rw [BitVec.ofNat_toNat, BitVec.setWidth_eq, BitVec.add_comm, BitVec.sub_add_cancel]

theorem copyTo_congr {other : Nat → Byte} (same : ∀ offset < bytes, source offset = other offset) :
    copyTo memory dest source bytes = copyTo memory dest other bytes := by
  funext addr
  unfold copyTo
  split
  · exact same _ (by assumption)
  · rfl

theorem copyTo_copyTo {first : Nat} {rest : Nat → Byte} (part : first ≤ bytes)
    (fits : bytes ≤ 2 ^ w)
    (continues : ∀ offset < bytes - first, rest offset = source (first + offset)) :
    copyTo (copyTo memory dest source first) (dest + BitVec.ofNat w first) rest (bytes - first) =
      copyTo memory dest source bytes := by
  funext addr
  obtain ⟨offset, small, rfl⟩ : ∃ offset < 2 ^ w, addr = dest + BitVec.ofNat w offset := by
    refine ⟨(addr - dest).toNat, BitVec.isLt _, ?_⟩
    rw [BitVec.ofNat_toNat, BitVec.setWidth_eq, BitVec.add_comm, BitVec.sub_add_cancel]
  by_cases before : offset < first
  · -- the second copy begins behind this byte, and does not come round to it again
    rw [copyTo_outside, copyTo_at before (by omega), copyTo_at (by omega) fits]
    intro other within same
    have equal : BitVec.ofNat w offset = BitVec.ofNat w (first + other) := by
      rw [BitVec.ofNat_add, ← BitVec.add_right_inj dest, ← BitVec.add_assoc]
      exact same
    have values := congrArg BitVec.toNat equal
    rw [BitVec.toNat_ofNat, BitVec.toNat_ofNat, Nat.mod_eq_of_lt small, Nat.mod_eq_of_lt (by omega)]
      at values
    omega
  · obtain ⟨behind, rfl⟩ : ∃ behind, offset = first + behind := ⟨offset - first, by omega⟩
    have address : dest + BitVec.ofNat w (first + behind) =
        dest + BitVec.ofNat w first + BitVec.ofNat w behind := by
      rw [BitVec.ofNat_add, BitVec.add_assoc]
    by_cases within : behind < bytes - first
    · rw [copyTo_at (by omega) fits, address, copyTo_at within (by omega), continues behind within]
    · have behindAll : (dest + BitVec.ofNat w (first + behind) - dest).toNat = first + behind :=
        toNat_offset dest small
      rw [address, copyTo, toNat_offset _ (by omega), if_neg within, ← address, copyTo, behindAll,
        if_neg (by omega), copyTo, behindAll, if_neg (by omega)]

end ByteLayout
