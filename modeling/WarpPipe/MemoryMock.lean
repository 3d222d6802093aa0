import WarpPipe.MemoryMockCore
import WarpPipe.Matching

/-!
What the memory mock is for: two plain byte arrays. Inside its BARs the callbacks of the device do
to its memory what the accesses do to the arrays.
-/

namespace WarpPipe

open ByteLayout

inductive MockBar where
  | bar0
  | bar1
  deriving DecidableEq, Repr

def MockBar.index : MockBar → Fin 6
  | .bar0 => 0
  | .bar1 => 1

def MockBar.size : MockBar → Nat
  | .bar0 => 128
  | .bar1 => 2048

def MockMemory.bytes (memory : MockMemory) : MockBar → Bytes
  | .bar0 => memory.bar0
  | .bar1 => memory.bar1

def MockMemory.write (memory : MockMemory) (offset : Nat) (data : Bytes) : MockMemory where
  bar0 := memory.bar0
  bar1 := memory.bar1.mapIdx fun index byte =>
    if offset ≤ index ∧ index < offset + data.length then getByte data (index - offset) else byte
  length_bar0 := memory.length_bar0
  length_bar1 := by rw [List.length_mapIdx, memory.length_bar1]

def MockMemory.read (memory : MockMemory) (bar : MockBar) (offset length : Nat) : Bytes :=
  (List.range length).map fun index => getByte (memory.bytes bar) (offset + index)

def MockMemory.after (memory : MockMemory) (writes : List (Nat × Bytes)) : MockMemory :=
  writes.foldl (fun memory access => memory.write access.1 access.2) memory

theorem MockMemory.after_concat (memory : MockMemory) (writes : List (Nat × Bytes)) (offset : Nat)
    (data : Bytes) :
    memory.after (writes ++ [(offset, data)]) = (memory.after writes).write offset data := by
  rw [MockMemory.after, List.foldl_append]
  rfl

theorem MockMemory.after_bar0 (memory : MockMemory) (writes : List (Nat × Bytes)) :
    (memory.after writes).bar0 = memory.bar0 := by
  induction writes generalizing memory with
  | nil => rfl
  | cons access rest ih => exact ih (memory.write access.1 access.2)

theorem MockMemory.length_bytes (memory : MockMemory) (bar : MockBar) :
    (memory.bytes bar).length = bar.size := by
  cases bar
  · exact memory.length_bar0
  · exact memory.length_bar1

theorem overwrite_eq_mapIdx {memory data : Bytes} {offset : Nat}
    (fits : offset + data.length ≤ memory.length) :
    overwrite memory offset data = memory.mapIdx fun index byte =>
      if offset ≤ index ∧ index < offset + data.length then getByte data (index - offset)
      else byte := by
  apply buffer_ext
  · rw [length_overwrite, List.length_mapIdx]
  intro index bound
  rw [length_overwrite] at bound
  rw [getByte_overwrite fits]
  simp [getByte, bound]

theorem MockMemory.slice_eq_read (memory : MockMemory) (bar : MockBar) {offset length : Nat}
    (inside : offset + length ≤ bar.size) :
    slice (memory.bytes bar) offset length = memory.read bar offset length := by
  have size := memory.length_bytes bar
  apply buffer_ext
  · rw [length_slice, MockMemory.read, List.length_map, List.length_range]
    omega
  intro index bound
  rw [length_slice] at bound
  have within : index < length := by omega
  rw [getByte_slice within]
  simp [MockMemory.read, getByte, within]

@[simp] theorem MockMemory.length_read (memory : MockMemory) (bar : MockBar) (offset length : Nat) :
    (memory.read bar offset length).length = length := by
  simp [MockMemory.read]

theorem MockBar.size_le (bar : MockBar) : bar.size ≤ 2048 := by
  cases bar <;> decide

theorem barsConfig_size (bar : MockBar) : (barsConfig bar.index).size.toNat = bar.size := by
  cases bar <;> rfl

theorem not_outside (bar : MockBar) {offset : Nat} (inside : offset ≤ bar.size) :
    ¬BitVec.ofNat 64 offset > (barsConfig bar.index).size.setWidth 64 := by
  have small := bar.size_le
  rw [gt_iff_lt, BitVec.lt_def, BitVec.toNat_setWidth_of_le (by decide), barsConfig_size,
    BitVec.toNat_ofNat]
  omega

theorem maxLen_eq (bar : MockBar) {offset : Nat} (inside : offset ≤ bar.size) :
    maxLen (barsConfig bar.index) (BitVec.ofNat 64 offset) = (bar.size - offset : Nat) := by
  have small := bar.size_le
  have size := barsConfig_size bar
  have fits := (barsConfig bar.index).size.isLt
  rw [maxLen, BitVec.toInt_eq_toNat_of_lt]
  · rw [BitVec.toNat_setWidth, BitVec.toNat_sub, BitVec.toNat_setWidth_of_le (by decide), size,
      BitVec.toNat_ofNat]
    omega
  · rw [BitVec.toNat_setWidth, BitVec.toNat_sub, BitVec.toNat_setWidth_of_le (by decide), size,
      BitVec.toNat_ofNat]
    omega

theorem copyLength_eq (bar : MockBar) {offset : Nat} (inside : offset ≤ bar.size) (length : Nat) :
    copyLength (barsConfig bar.index) (BitVec.ofNat 64 offset) length =
      .ok (some (min length (bar.size - offset))) := by
  simp only [copyLength, if_neg (not_outside bar inside), maxLen_eq bar inside]
  split
  · rw [if_neg (by omega), Int.toNat_natCast, Nat.min_eq_right (by omega)]
  · rw [if_neg (by omega), Int.toNat_natCast, Nat.min_eq_left (by omega)]

theorem readBar_inside (bar : MockBar) (memory : Bytes) {offset length : Nat}
    (inside : offset + length ≤ bar.size) :
    readBar (barsConfig bar.index) memory (BitVec.ofNat 64 offset) length =
      .ok (0, slice memory offset length) := by
  have small := bar.size_le
  have place : (BitVec.ofNat 64 offset).toNat = offset := by
    rw [BitVec.toNat_ofNat]
    omega
  rw [readBar, copyLength_eq bar (by omega), Nat.min_eq_left (by omega), Except.map, place]

theorem writeBar1_inside (memory : MockMemory) {offset : Nat} {data : Bytes}
    (inside : offset + data.length ≤ MockBar.bar1.size) :
    memory.writeBar1 (BitVec.ofNat 64 offset) data data.length =
      .ok (memory.write offset data) := by
  have size : MockBar.bar1.size = 2048 := rfl
  have place : (BitVec.ofNat 64 offset).toNat = offset := by
    rw [BitVec.toNat_ofNat]
    omega
  have copied : copyLength (barsConfig 1) (BitVec.ofNat 64 offset) data.length =
      .ok (some data.length) := by
    have eq := copyLength_eq .bar1 (show offset ≤ MockBar.bar1.size by omega) data.length
    rwa [Nat.min_eq_left (by omega)] at eq
  have fits : offset + data.length ≤ memory.bar1.length := by rwa [memory.length_bar1]
  simp only [MockMemory.writeBar1, copied, Except.map, writeBar, place, List.take_length,
    MockMemory.write, overwrite_eq_mapIdx fits]

theorem readCb_own (bar : MockBar) {cb : FnPtr}
    (registered : (barsConfig bar.index).readCb = some cb) :
    cb = readBarCb0 ∨ cb = readBarCb1 := by
  cases bar <;> cases registered <;> decide

theorem mockBars_read (memory : MockMemory) (bar : MockBar) {cb : FnPtr}
    (registered : (barsConfig bar.index).readCb = some cb) {offset length : Nat}
    (inside : offset + length ≤ bar.size) :
    mockBars.read cb memory (BitVec.ofNat 64 offset) length =
      .ok (0, memory.read bar offset length) := by
  rw [← memory.slice_eq_read bar inside]
  cases bar with
  | bar0 =>
      cases registered
      exact readBar_inside .bar0 memory.bar0 inside
  | bar1 =>
      cases registered
      exact readBar_inside .bar1 memory.bar1 inside

theorem mock_read (config : Callbacks MockMemory) (memory : MockMemory) (bar : MockBar) {cb : FnPtr}
    (registered : (barsConfig bar.index).readCb = some cb) {offset length : Nat}
    (inside : offset + length ≤ bar.size) :
    (mockCallbacks config).read cb memory (BitVec.ofNat 64 offset) length =
      { app := memory, error := 0, data := memory.read bar offset length, calls := [] } := by
  simp only [mockCallbacks, if_pos (readCb_own bar registered),
    mockBars_read memory bar registered inside]

theorem mock_write (config : Callbacks MockMemory) (memory : MockMemory) {offset : Nat}
    {data : Bytes} (inside : offset + data.length ≤ MockBar.bar1.size) :
    (mockCallbacks config).write writeBarCb1 memory (BitVec.ofNat 64 offset) data data.length =
      { app := memory.write offset data, calls := [] } := by
  simp only [mockCallbacks, mockBars, if_true, writeBar1_inside memory inside]

/-! A host and the device on one connection. -/

structure Wired (host device : Client) (windows : MockBar → Window) : Prop where
  hostHolds : ∀ bar : MockBar, Holds host bar.index (windows bar)
  deviceHolds : ∀ bar : MockBar, Holds device bar.index (windows bar)
  size : ∀ bar, (windows bar).size = bar.size
  base : ∀ bar, (windows bar).base ≠ 0
  disjoint : (windows .bar0).Disjoint (windows .bar1)
  readCb : ∀ bar : MockBar, device.barReadCb bar.index = (barsConfig bar.index).readCb
  writeCb : device.barWriteCb 1 = (barsConfig 1).writeCb

section

variable {host device : Client} {windows : MockBar → Window} (wired : Wired host device windows)

include wired

theorem Wired.decodes (bar : MockBar) : Decodes device bar.index (windows bar) := by
  refine ⟨wired.deviceHolds bar, fun other before => ?_⟩
  cases bar with
  | bar0 => exact absurd before (Fin.not_lt_zero other)
  | bar1 =>
      have first : MockBar.bar0.index = other :=
        Fin.ext (Nat.lt_one_iff.mp (Fin.lt_def.mp before)).symm
      exact ⟨windows .bar0, first ▸ wired.deviceHolds .bar0, wired.disjoint⟩

theorem Wired.order (bar : MockBar) : 2 ≤ (windows bar).order := by
  have words : 2 ^ 2 ≤ (windows bar).size := by
    rw [wired.size bar]
    cases bar <;> decide
  exact (Nat.pow_le_pow_iff_right (by decide)).mp words

theorem Wired.address (bar : MockBar) {offset length : Nat} (positive : 1 ≤ length)
    (inside : offset + length ≤ bar.size) :
    ((host.bar bar.index).setWidth 64 + BitVec.ofNat 64 offset).toNat =
        (windows bar).base + offset ∧
      Encodable ((host.bar bar.index).setWidth 64 + BitVec.ofNat 64 offset) length := by
  have small := bar.size_le
  obtain ⟨address, low⟩ := (wired.hostHolds bar).toNat_addr
    (show offset < (windows bar).size by rw [wired.size bar]; omega)
  exact ⟨address, by omega, positive, by omega⟩

theorem Wired.target (bar : MockBar) {addr : BitVec 64} {offset : Nat}
    (address : addr.toNat = (windows bar).base + offset) (inside : offset < bar.size)
    (cbOf : Fin 6 → Option FnPtr) :
    ∃ target, barTarget device cbOf (addr &&& ~~~3) = (cbOf bar.index, target) ∧
      target + misalignment addr = BitVec.ofNat 64 offset := by
  have size := wired.size bar
  obtain ⟨target, decoded, told⟩ := (wired.decodes bar).barTarget (wired.order bar) cbOf
    (show (windows bar).base ≤ addr.toNat by omega) (by omega)
  rw [address, Nat.add_sub_cancel_left] at told
  exact ⟨target, decoded, told⟩

theorem Wired.congr {nextHost nextDevice : Client} (hosts : nextHost.routes = host.routes)
    (devices : nextDevice.routes = device.routes) : Wired nextHost nextDevice windows := by
  simp only [Client.routes, Routes.mk.injEq] at hosts devices
  obtain ⟨-, hostBar, hostSize, -⟩ := hosts
  obtain ⟨-, bar, size, read, write, -⟩ := devices
  refine ⟨fun index => ⟨?_, ?_⟩, fun index => ⟨?_, ?_⟩, wired.size, wired.base,
    wired.disjoint, ?_, ?_⟩
  · rw [hostBar, (wired.hostHolds index).bar]
  · rw [hostSize, (wired.hostHolds index).barSize]
  · rw [bar, (wired.deviceHolds index).bar]
  · rw [size, (wired.deviceHolds index).barSize]
  · rw [read]
    exact wired.readCb
  · rw [write]
    exact wired.writeCb

end

end WarpPipe
