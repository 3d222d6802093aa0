import WarpPipe.MemoryMockCore
import WarpPipe.ServerCore

/-!
The configuration space of `memory-mock/main.c` and the callbacks that serve it, for any table of
BARs. The mock serves all its connections from one configuration space, and makes its own requests
of the client in `mock_dev_client`.
-/

namespace WarpPipe

open ByteLayout

structure BarEntry extends BarConfig where
  config : BitVec 8

def mockTable : Fin 6 → BarEntry
  | 0 => { barsConfig 0 with config := 1 }
  | 1 => { barsConfig 1 with config := 1 }
  | index => { barsConfig index with config := 0 }

/-- `struct pcie_configuration_space_header_type0`, as a little-endian machine keeps it. -/
structure ConfigSpace where
  bytes : Bytes
  length_bytes : bytes.length = 64

def zeroSpace : ConfigSpace := ⟨List.ofFn fun _ : Fin 64 => 0, List.length_ofFn⟩

def barOffset : Nat := 0x10

def ConfigSpace.setBar (space : ConfigSpace) (barIdx : Fin 6) (value : BitVec 32) :
    ConfigSpace where
  bytes := overwrite space.bytes (barOffset + 4 * barIdx.val) (littleEndian 4 value)
  length_bytes := by rw [length_overwrite, space.length_bytes]

def barIdx? (addr : BitVec 64) : Option (Fin 6) :=
  if inside : barOffset ≤ addr.toNat ∧ addr.toNat < barOffset + 4 * 6 then
    some ⟨(addr.toNat - barOffset) / 4, by omega⟩
  else none

def barAddr (bar : BarConfig) (value : BitVec 32) : BitVec 32 := value &&& ~~~(bar.size - 1)

/-- The new configuration space, and the request made of `mock_dev_client`. That its BAR is not set
yet is the first test of `warppipe_register_bar` as well. -/
def handleConfigBarWrite (table : Fin 6 → BarEntry) (space : ConfigSpace) (barIdx : Fin 6)
    (value : BitVec 32) : ConfigSpace × List Call :=
  let bar := table barIdx
  let addr := barAddr bar.toBarConfig value
  (space.setBar barIdx (addr ||| bar.config.setWidth 32),
    if value ≠ 0xffffffff then
      [.registerBar (addr.setWidth 64) bar.size barIdx bar.readCb bar.writeCb]
    else [])

def config0ReadCb (space : ConfigSpace) (addr : BitVec 64) (length : Int) : Outcome (Int × Bytes) :=
  if addr &&& 3 ≠ 0 ∨ length ≠ 4 then .ok (1, [])
  else if addr.toNat + 4 ≤ 64 then .ok (0, slice space.bytes addr.toNat 4)
  else .error .outOfBounds

def config0WriteCb (table : Fin 6 → BarEntry) (space : ConfigSpace) (addr : BitVec 64)
    (data : Bytes) (length : Int) : ConfigSpace × List Call :=
  if addr &&& 3 ≠ 0 ∨ length ≠ 4 then (space, [])
  else
    match barIdx? addr with
    | some barIdx => handleConfigBarWrite table space barIdx (ofLittleEndian 32 4 data)
    | none => (space, [])

/-- The globals of the mock. `devClient` is `mock_dev_client`, whose NULL is 0; `fault` is set by an
access outside the configuration space or the BARs. -/
structure MockDevice (μ : Type) where
  space : ConfigSpace
  memory : μ
  devClient : Nat
  fault : Option Fault

def config0ReadPtr : FnPtr := 3

def config0WritePtr : FnPtr := 4

def serverClientAcceptPtr : FnPtr := 5

section

variable {μ : Type} (table : Fin 6 → BarEntry) (bars : BarMemory μ)

/-- The callbacks of the mock. The requests in `calls` are made of `mock_dev_client`. -/
def deviceCallbacks : Callbacks (MockDevice μ) where
  read cb device addr length :=
    let answer :=
      if cb = config0ReadPtr then config0ReadCb device.space addr length
      else bars.read cb device.memory addr length
    match answer with
    | .ok (error, data) => { app := device, error := error, data := data, calls := [] }
    | .error fault =>
        { app := { device with fault := some fault }, error := 0, data := [], calls := [] }
  write cb device addr data length :=
    if cb = config0WritePtr then
      let (space, calls) := config0WriteCb table device.space addr data length
      { app := { device with space := space }, calls := calls }
    else
      match bars.write cb device.memory addr data length with
      | .ok memory => { app := { device with memory := memory }, calls := [] }
      | .error fault => { app := { device with fault := some fault }, calls := [] }
  completion _ device _ _ _ := { app := device, calls := [] }

def resetBars (space : ConfigSpace) : ConfigSpace :=
  (List.finRange 6).foldl
    (fun space barIdx => space.setBar barIdx (((table barIdx).config &&& 0xf).setWidth 32)) space

def acceptCalls : List Call :=
  [.registerConfig0ReadCb (some config0ReadPtr), .registerConfig0WriteCb (some config0WritePtr)]

def serverClientAccept (device : MockDevice μ) (ptr : Nat) : MockDevice μ :=
  { device with devClient := ptr, space := resetBars table device.space }

def mockApplication : Application (MockDevice μ) where
  accept cb device ptr :=
    if cb = serverClientAcceptPtr then
      { app := serverClientAccept table device ptr,
        calls := acceptCalls.map fun call => (ptr, call) }
    else { app := device, calls := [] }
  read cb device _ addr length :=
    let ret := (deviceCallbacks table bars).read cb device addr length
    { app := ret.app, error := ret.error, data := ret.data
      calls := ret.calls.map fun call => (device.devClient, call) }
  write cb device _ addr data length :=
    let ret := (deviceCallbacks table bars).write cb device addr data length
    { app := ret.app, calls := ret.calls.map fun call => (device.devClient, call) }
  completion cb device _ errorCode data length :=
    let ret := (deviceCallbacks table bars).completion cb device errorCode data length
    { app := ret.app, calls := ret.calls.map fun call => (device.devClient, call) }

end

end WarpPipe
