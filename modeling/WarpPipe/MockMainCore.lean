import WarpPipe.ServerRuns
import WarpPipe.YamlCore

/-!
`main` of `memory-mock/main.c`: the command line, the configuration file, and the loop that serves
the connections until the server is to quit.
-/

namespace WarpPipe

open ByteLayout

/-- What `getopt` finds for `"ca:p:46f:h"`, in the order of the command line. -/
inductive MockOption where
  | client
  | addr (optarg : CString)
  | port (optarg : CString)
  | inet
  | inet6
  | file (optarg : CString)
  | help
  | unknown
  deriving DecidableEq

inductive AddrFamily where
  | unspec
  | inet
  | inet6
  deriving DecidableEq

structure MockArgs where
  listen : Bool
  addrFamily : AddrFamily
  host : Option CString
  port : CString
  yamlPath : Option CString

def serverPortNum : CString := ⟨asciiBytes "2115", by decide +kernel⟩

def defaultArgs : MockArgs where
  listen := true
  addrFamily := .unspec
  host := none
  port := serverPortNum
  yamlPath := none

/-- The loop over the options. An error is the exit code of the program. -/
def parseOptions (args : MockArgs) : List MockOption → Except Int MockArgs
  | [] => .ok args
  | .client :: rest => parseOptions { args with listen := false } rest
  | .addr optarg :: rest => parseOptions { args with host := some optarg } rest
  | .port optarg :: rest => parseOptions { args with port := optarg } rest
  | .inet :: rest => parseOptions { args with addrFamily := .inet } rest
  | .inet6 :: rest => parseOptions { args with addrFamily := .inet6 } rest
  | .file optarg :: rest => parseOptions { args with yamlPath := some optarg } rest
  | .help :: _ => .error 0
  | .unknown :: _ => .error 1

/-- The events that libyaml delivers for a file, and none for a file that cannot be opened. -/
abbrev YamlFiles := CString → Option (List (Option YamlEvent))

def parseArgs (files : YamlFiles) (space : ConfigSpace) (options : List MockOption) :
    Except Int (MockArgs × ConfigSpace) := do
  let args ← parseOptions defaultArgs options
  match args.yamlPath with
  | none => return (args, space)
  | some path =>
    match files path with
    | none => .error 1
    | some events =>
      match pcieConfigurationSpaceHeaderFromYaml (some events) (some space) with
      | (0, some space) => return (args, space)
      | _ => .error 1

def verifyArgs (table : Fin 6 → BarEntry) : Int :=
  if ∀ barIdx, ((table barIdx).size - 1) &&& (table barIdx).size = 0 then 0 else 1

def configurationSpace : ConfigSpace := (zeroSpace.store 0x00 [0x1]).store 0x02 [0x2]

def memoryMockSetup (files : YamlFiles) (options : List MockOption) :
    Except Int (MockArgs × ConfigSpace) := do
  let parsed ← parseArgs files configurationSpace options
  if verifyArgs mockTable = 0 then return parsed else .error 1

def mockMemory : MockMemory :=
  { zeroMemory with
    bar0 := List.ofFn fun index : Fin 128 => BitVec.ofNat 8 (0x10 + index.val)
    length_bar0 := List.length_ofFn }

structure MockEnv where
  files : YamlFiles
  openFds : Finset Int
  addresses : MockArgs → Option (List AddrStep)
  connected : AcceptEnv

def mockProcess (openFds : Finset Int) (args : MockArgs) (space : ConfigSpace) :
    Process (MockDevice MockMemory) where
  openFds := openFds
  server :=
    { fd := 0, listen := args.listen, quit := false, maxFd := 0, readFds := ∅, clients := [],
      acceptCb := none }
  app := { space := space, memory := mockMemory, devClient := 0, fault := none }
  events := []

inductive MockTurn where
  | loop (env : LoopEnv)
  | network (ptr : Nat) (sock : Socket)

def MockTurn.input : MockTurn → ServerInput
  | .loop env => .loop env
  | .network ptr sock => .network ptr sock

def mockTurn (process : Process (MockDevice MockMemory)) (turn : MockTurn) :
    Outcome (Process (MockDevice MockMemory)) :=
  if process.server.quit then .ok process
  else do
    let process ← serverStep (mockApplication mockTable mockBars) process turn.input
    match process.app.fault with
    | none => return process
    | some fault => .error fault

def memoryMarkStart (env : MockEnv) (args : MockArgs) (space : ConfigSpace)
    (turns : List MockTurn) :
    Outcome (Option Int × Process (MockDevice MockMemory)) := do
  let process :=
    warppipeServerRegisterAcceptCb (mockProcess env.openFds args space) (some serverClientAcceptPtr)
  let (ret, process) ←
    warppipeServerCreate (mockApplication mockTable mockBars) process
      (env.addresses args) env.connected
  if ret = 0 then do
    let process ← Runs.run mockTurn process turns
    return (if process.server.quit then some 0 else none, process)
  else return (some 0, process)

inductive MockMain where
  | exited (code : Int)
  | serving (process : Process (MockDevice MockMemory))

def mockMain (env : MockEnv) (options : List MockOption) (turns : List MockTurn) :
    Outcome MockMain :=
  match memoryMockSetup env.files options with
  | .error code => .ok (.exited code)
  | .ok (args, space) => do
    match ← memoryMarkStart env args space turns with
    | (some code, _) => return .exited code
    | (none, process) => return .serving process

end WarpPipe
