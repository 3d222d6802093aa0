import WarpPipe.Duplex
import WarpPipe.MockConfigCore

/-!
`enumerate` of `zephyr-samples/common/common.c`: a host finds the BARs of the device behind its
connection, gives them addresses and registers them. The host is a program that makes requests of
its client and waits for completions; the memory mock answers on the other end of the connection.
-/

namespace WarpPipe

open ByteLayout

/-- `struct read_compl_data`; `buf` is the memory that its `buf` points to. -/
structure ReadComplData where
  finished : Bool
  buf : Bytes
  bufSize : Int
  ret : Int

def readCompl (readData : ReadComplData) (errorCode : Int) (data : Bytes) (length : Int) :
    ReadComplData :=
  if errorCode ≠ 0 then { readData with finished := true, ret := errorCode }
  else
    let length := if length > readData.bufSize then readData.bufSize else length
    { readData with
      finished := true
      ret := length
      buf := overwrite readData.buf 0 (data.take length.toNat) }

def readComplPtr : FnPtr := 6

/-- `readData` is what `client->private_data` points to: none while no function waits that it could
belong to. `fault` is set by a callback that is called nevertheless. -/
structure HostApp where
  readData : Option ReadComplData
  fault : Option Fault

def hostApplication : Application HostApp where
  accept _ app _ := { app := app, calls := [] }
  read _ app _ _ _ := { app := app, error := 1, data := [], calls := [] }
  write _ app _ _ _ _ := { app := app, calls := [] }
  completion cb app _ errorCode data length :=
    match app.readData with
    | some readData =>
      if cb = readComplPtr then
        { app := { app with readData := some (readCompl readData errorCode data
          length) }, calls := [] }
      else { app := { app with fault := some .outOfBounds }, calls := [] }
    | none => { app := { app with fault := some .outOfBounds }, calls := [] }

inductive HostProgram (α : Type) where
  | done (value : α)
  | expect (readData : ReadComplData) (next : HostProgram α)
  | call (request : Call) (next : Int → HostProgram α)
  /-- The loop of `wait_for_completion`. It ends with `server->quit` and the data. -/
  | wait (next : Bool → ReadComplData → HostProgram α)

variable {α β μ : Type}

def HostProgram.bind (program : HostProgram α) (next : α → HostProgram β) : HostProgram β :=
  match program with
  | .done value => next value
  | .expect readData rest => .expect readData (rest.bind next)
  | .call request rest => .call request fun code => (rest code).bind next
  | .wait rest => .wait fun quit readData => (rest quit readData).bind next

instance : Monad HostProgram where
  pure := .done
  bind := .bind

def makeRequest (call : Call) : HostProgram Int := .call call .done

def waitForCompletion : HostProgram (Int × ReadComplData) :=
  .wait fun quit readData => .done (if quit then -1 else 0, readData)

/-- The return value, and the bytes copied to `buf`. `junk` is what `aligned_buf` holds at first. -/
def readConfigHeaderField (junk : BitVec 32) (addr : BitVec 64) (length : Nat) :
    HostProgram (Int × Bytes) :=
  let alignedAddr := addr &&& ~~~3
  let offset := (addr &&& 3).toNat
  if length + offset > 4 then return (-1, [])
  else do
    HostProgram.expect { finished := false, buf := littleEndian 4 junk, bufSize := 4, ret := 0 }
      (pure ())
    let ret ← makeRequest (.config0Read alignedAddr 4 (some readComplPtr))
    if ret < 0 then return (ret, [])
    else do
      let (ret, readData) ← waitForCompletion
      if ret < 0 then return (ret, [])
      else return (readData.ret, slice readData.buf offset length)

structure Junk where
  vendorId : BitVec 32
  headerType : BitVec 32
  oldBar : Fin 6 → BitVec 32
  bar : Fin 6 → BitVec 32
  sizing : Fin 6 → Nat → Byte
  address : Fin 6 → Nat → Byte

def hostBarOffset (barIdx : Fin 6) : Nat := 0x10 + 4 * barIdx.val

def hostBarAddr (barIdx : Fin 6) : BitVec 32 := BitVec.ofNat 32 (hostBarOffset barIdx * 0x10000)

def enumerateBar (junk : Junk) (barIdx : Fin 6) : HostProgram Unit := do
  let barOffset := BitVec.ofNat 64 (hostBarOffset barIdx)
  let (ret, _) ← readConfigHeaderField (junk.oldBar barIdx) barOffset 4
  if ret < 0 then return ()
  else do
    let ret ← makeRequest
      (.config0Write (junk.sizing barIdx) barOffset (littleEndian 4 (0xFFFFFFFF : BitVec 32)) 4)
    if ret < 0 then return ()
    else do
      let (ret, buf) ← readConfigHeaderField (junk.bar barIdx) barOffset 4
      let bar := ofLittleEndian 32 4 buf
      if ret < 0 ∨ bar = 0 then return ()
      else do
        let size := -(bar &&& ~~~0xF)
        let barAddr := hostBarAddr barIdx
        let ret ← makeRequest (.registerBar (barAddr.setWidth 64) size barIdx none none)
        if ret < 0 then return ()
        else do
          let _ ← makeRequest
            (.config0Write (junk.address barIdx) barOffset (littleEndian 4 barAddr) 4)
          return ()

def enumerateBars (junk : Junk) : List (Fin 6) → HostProgram Unit
  | [] => return ()
  | barIdx :: rest => do
    enumerateBar junk barIdx
    enumerateBars junk rest

def enumerate (junk : Junk) : HostProgram Int := do
  let (ret, vendorId) ← readConfigHeaderField junk.vendorId 0x0 2
  if ret < 0 ∨ ofLittleEndian 16 2 vendorId = 0xFFFF then return -1
  else do
    let (ret, headerType) ← readConfigHeaderField junk.headerType 0xE 1
    if ret < 0 ∨ ofLittleEndian 8 1 headerType ≠ 0 then return -1
    else do
      enumerateBars junk (List.finRange 6)
      return 0

/-! The host and the mock on one connection. -/

abbrev HostAndMock (μ : Type) : Side → Type
  | .left => Shared HostApp
  | .right => Shared (MockDevice μ)

def hostAndMock (table : Fin 6 → BarEntry) (bars : BarMemory μ) :
    (side : Side) → Callbacks (HostAndMock μ side)
  | .left => hostApplication.callbacks
  | .right => (mockApplication table bars).callbacks

structure Setup (μ α : Type) where
  system : System (HostAndMock μ)
  quit : Bool
  program : HostProgram α

def Setup.setReadData (setup : Setup μ α) (readData : Option ReadComplData) :
    System (HostAndMock μ) :=
  Function.update setup.system .left
    { setup.system .left with app := { (setup.system .left).app with
        app := { (setup.system .left).app.app with readData := readData } } }

/-- One call of `warppipe_server_loop` of the host when its client is ready: see `serverLoop_turn`.
A server that loses the client it connected quits. -/
def hostLoop (table : Fin 6 → BarEntry) (bars : BarMemory μ) (setup : Setup μ α) :
    Outcome (Setup μ α) :=
  (systemStep (hostAndMock table bars) setup.system (.process .left)).map fun system =>
    { setup with system := system, quit := setup.quit || !(system .left).client.active }

/-- One step of the program; a host that is done serves its connection. There is no client once the
server has quit. -/
def hostStep (table : Fin 6 → BarEntry) (bars : BarMemory μ) (setup : Setup μ α) :
    Outcome (Setup μ α) :=
  match setup.program with
  | .done _ => if setup.quit then .ok setup else hostLoop table bars setup
  | .expect readData next =>
    if setup.quit then .error .outOfBounds
    else .ok { setup with system := setup.setReadData (some readData), program := next }
  | .call request next =>
    if setup.quit then .error .outOfBounds
    else (request.run (setup.system .left)).map fun (code, after) =>
      { setup with system := setup.system.moved .left after, program := next code }
  | .wait next =>
    match (setup.system .left).app.app.readData with
    | none => .error .outOfBounds
    | some readData =>
      if readData.finished ∨ setup.quit then
        .ok { setup with system := setup.setReadData none, program := next setup.quit readData }
      else hostLoop table bars setup

def mockStep (table : Fin 6 → BarEntry) (bars : BarMemory μ) (setup : Setup μ α) :
    Outcome (Setup μ α) :=
  if (setup.system .right).client.active then
    (systemStep (hostAndMock table bars) setup.system (.process .right)).map fun system =>
      { setup with system := system }
  else .ok setup

def setupStep (table : Fin 6 → BarEntry) (bars : BarMemory μ) (setup : Setup μ α) :
    Side → Outcome (Setup μ α)
  | .left => hostStep table bars setup
  | .right => mockStep table bars setup

end WarpPipe
