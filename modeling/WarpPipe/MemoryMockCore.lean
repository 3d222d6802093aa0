import WarpPipe.ClientCore

/-!
The device of `memory-mock/main.c`: a read-only BAR of 128 bytes and a BAR of 2048 bytes that can be
written. The two configuration callbacks of the device are a parameter.
-/

namespace WarpPipe

open ByteLayout

structure BarConfig where
  size : BitVec 32
  readCb : Option FnPtr
  writeCb : Option FnPtr

def readBarCb0 : FnPtr := 0

def readBarCb1 : FnPtr := 1

def writeBarCb1 : FnPtr := 2

def barsConfig : Fin 6 → BarConfig
  | 0 => { size := 128, readCb := some readBarCb0, writeCb := none }
  | 1 => { size := 2048, readCb := some readBarCb1, writeCb := some writeBarCb1 }
  | _ => { size := 0, readCb := none, writeCb := none }

structure MockMemory where
  bar0 : Bytes
  bar1 : Bytes
  length_bar0 : bar0.length = 128
  length_bar1 : bar1.length = 2048

def zeroMemory : MockMemory :=
  ⟨List.replicate 128 0, List.replicate 2048 0, List.length_replicate, List.length_replicate⟩

def maxLen (bar : BarConfig) (addr : BitVec 64) : Int :=
  ((bar.size.setWidth 64 - addr).setWidth 32).toInt

/-- The length that `read_bar` and `write_bar` give to `memcpy`, unless they return before. A
negative one is a `size_t` that no object has. -/
def copyLength (bar : BarConfig) (addr : BitVec 64) (length : Int) : Outcome (Option Nat) :=
  if addr > bar.size.setWidth 64 then .ok none
  else
    let length := if length > maxLen bar addr then maxLen bar addr else length
    if length < 0 then .error .outOfBounds else .ok (some length.toNat)

def readBar (bar : BarConfig) (memory : Bytes) (addr : BitVec 64) (length : Int) :
    Outcome (Int × Bytes) :=
  (copyLength bar addr length).map fun
    | none => (1, [])
    | some count => (0, slice memory addr.toNat count)

def writeBar (memory : Bytes) (addr : BitVec 64) (data : Bytes) : Option Nat → Bytes
  | none => memory
  | some count => overwrite memory addr.toNat (data.take count)

theorem length_writeBar (memory : Bytes) (addr : BitVec 64) (data : Bytes) (count : Option Nat) :
    (writeBar memory addr data count).length = memory.length := by
  cases count with
  | none => rfl
  | some count => exact length_overwrite ..

def MockMemory.writeBar1 (memory : MockMemory) (addr : BitVec 64) (data : Bytes) (length : Int) :
    Outcome MockMemory :=
  (copyLength (barsConfig 1) addr length).map fun count =>
    { bar0 := memory.bar0
      bar1 := writeBar memory.bar1 addr data count
      length_bar0 := memory.length_bar0
      length_bar1 := by rw [length_writeBar, memory.length_bar1] }

structure BarMemory (μ : Type) where
  read : FnPtr → μ → BitVec 64 → Int → Outcome (Int × Bytes)
  write : FnPtr → μ → BitVec 64 → Bytes → Int → Outcome μ

def mockBars : BarMemory MockMemory where
  read cb memory addr length :=
    if cb = readBarCb0 then readBar (barsConfig 0) memory.bar0 addr length
    else if cb = readBarCb1 then readBar (barsConfig 1) memory.bar1 addr length
    else .ok (1, [])
  write cb memory addr data length :=
    if cb = writeBarCb1 then memory.writeBar1 addr data length else .ok memory

/-- The device without its configuration space. What a fault leaves is open, like what `config`
does. -/
def mockCallbacks (config : Callbacks MockMemory) : Callbacks MockMemory where
  read cb memory addr length :=
    if cb = readBarCb0 ∨ cb = readBarCb1 then
      match mockBars.read cb memory addr length with
      | .ok (error, data) => { app := memory, error := error, data := data, calls := [] }
      | .error _ => { config.read cb memory addr length with calls := [] }
    else config.read cb memory addr length
  write cb memory addr data length :=
    if cb = writeBarCb1 then
      match mockBars.write cb memory addr data length with
      | .ok memory => { app := memory, calls := [] }
      | .error _ => { config.write cb memory addr data length with calls := [] }
    else config.write cb memory addr data length
  completion := config.completion

end WarpPipe
