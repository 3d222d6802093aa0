import WarpPipe.Library.Strtoul
import WarpPipe.MockConfigCore

/-!
The YAML reader of `src/yaml_configspace.c`: a state machine over the events of libyaml that fills a
configuration space header.
-/

namespace WarpPipe

open ByteLayout

inductive ConfigKey where
  | vendorId
  | deviceId
  | command
  | status
  | revisionId
  | classCode
  | cacheLineSize
  | latencyTimer
  | headerType
  | bist
  | cardbusCisPointer
  | subsystemVendorId
  | subsystemId
  | expansionRomBaseAddress
  | capabilitiesPointer
  | interruptLine
  | interruptPin
  | minGnt
  | maxLat
  deriving DecidableEq, Repr

inductive ParserState where
  | value (key : ConfigKey)
  | done
  | parseKey
  deriving DecidableEq, Repr

structure CString where
  bytes : Bytes
  terminated : 0 ∉ bytes
  deriving DecidableEq

def asciiBytes (text : String) : Bytes := text.toList.map fun char => BitVec.ofNat 8 char.toNat

def parserKeys : List String :=
  ["vendor_id", "device_id", "command", "status", "revision_id", "class_code", "cache_line_size",
    "latency_timer", "header_type", "bist", "cardbus_cis_pointer", "subsystem_vendor_id",
    "subsystem_id", "expansion_rom_base_address", "capabilities_pointer", "interrupt_line",
    "interrupt_pin", "min_gnt", "max_lat"]

def keyStates : List ConfigKey :=
  [.vendorId, .deviceId, .command, .status, .revisionId, .classCode, .cacheLineSize, .latencyTimer,
    .headerType, .bist, .cardbusCisPointer, .subsystemVendorId, .subsystemId,
    .expansionRomBaseAddress, .capabilitiesPointer, .interruptLine, .interruptPin, .minGnt, .maxLat]

def findKey (value : CString) : Option ConfigKey :=
  ((parserKeys.zip keyStates).find? fun entry => value.bytes = asciiBytes entry.1).map Prod.snd

/-- The types of event that libyaml delivers. Of a scalar only the C string `data.scalar.value` is
looked at. -/
inductive YamlEvent where
  | noEvent
  | streamStart
  | streamEnd
  | documentStart
  | documentEnd
  | aliasNode
  | scalar (value : CString)
  | sequenceStart
  | sequenceEnd
  | mappingStart
  | mappingEnd
  deriving DecidableEq

def split2 (number : BitVec 64) : Bytes := [(number &&& 0xff).setWidth 8, (number >>> 8).setWidth 8]

def split3 (number : BitVec 64) : Bytes :=
  [(number &&& 0xff).setWidth 8, ((number >>> 8) &&& 0xff).setWidth 8, (number >>> 16).setWidth 8]

/-- The parts of `GET_HI_OF_SPLIT4` to `GET_LO_OF_SPLIT4` put together again, in a `uint32_t` -/
def split4 (number : BitVec 64) : Bytes :=
  littleEndian 4 (((number >>> 24) <<< 24 ||| ((number >>> 16) &&& 0xff) <<< 16 |||
    ((number >>> 8) &&& 0xff) <<< 8 ||| (number &&& 0xff)).setWidth 32)

def single (number : BitVec 64) : Bytes := [number.setWidth 8]

def ConfigSpace.store (space : ConfigSpace) (offset : Nat) (bytes : Bytes) : ConfigSpace where
  bytes := overwrite space.bytes offset bytes
  length_bytes := by rw [length_overwrite, space.length_bytes]

def storeValue (space : ConfigSpace) (number : BitVec 64) : ConfigKey → ConfigSpace
  | .vendorId => space.store 0x00 (split2 number)
  | .deviceId => space.store 0x02 (split2 number)
  | .command => space.store 0x04 (split2 number)
  | .status => space.store 0x06 (split2 number)
  | .revisionId => space.store 0x08 (single number)
  | .classCode => space.store 0x09 (split3 number)
  | .cacheLineSize => space.store 0x0c (single number)
  | .latencyTimer => space.store 0x0d (single number)
  | .headerType => space.store 0x0e (single number)
  | .bist => space.store 0x0f (single number)
  | .cardbusCisPointer => space.store 0x28 (split4 number)
  | .subsystemVendorId => space.store 0x2c (split2 number)
  | .subsystemId => space.store 0x2e (split2 number)
  | .expansionRomBaseAddress => space.store 0x30 (split4 number)
  | .capabilitiesPointer => space.store 0x34 (single number)
  | .interruptLine => space.store 0x3c (single number)
  | .interruptPin => space.store 0x3d (single number)
  | .minGnt => space.store 0x3e (single number)
  | .maxLat => space.store 0x3f (single number)

def strtoulFailed (text : Bytes) : Bool :=
  (strtoul text).consumed = 0 || (strtoul text).consumed ≠ text.length ||
    ((strtoul text).value = BitVec.allOnes 64 && (strtoul text).erange)

/-- The return value (`-ERANGE` is -34), and the new header and state. The loop below passes no null
pointers. -/
def processEvent (event : YamlEvent) (result : ConfigSpace) (state : ParserState) :
    Int × ConfigSpace × ParserState :=
  match event with
  | .noEvent | .mappingEnd | .documentEnd | .streamEnd => (0, result, .done)
  | .scalar value =>
    let retval := if state ≠ .parseKey ∧ strtoulFailed value.bytes then -34 else 0
    match state with
    | .parseKey =>
      match findKey value with
      | some key => (retval, result, .value key)
      | none => (retval, result, .parseKey)
    | .value key => (retval, storeValue result (strtoul value.bytes).value key, .parseKey)
    | .done => (retval, result, .done)
  | _ => (0, result, state)

/-- The loop of `pcie_configuration_space_header_from_yaml`. A call of `yaml_parser_parse` fails
where `events` has `none`, and delivers `YAML_NO_EVENT` behind its end. -/
def parseLoop : List (Option YamlEvent) → ConfigSpace → ParserState → Int × ConfigSpace
  | [], result, state =>
    let (retval, result, _) := processEvent .noEvent result state
    (retval, result)
  | none :: _, result, _ => (-1, result)
  | some event :: events, result, state =>
    let (retval, result, state) := processEvent event result state
    if state ≠ .done ∧ retval = 0 then parseLoop events result state else (retval, result)

def pcieConfigurationSpaceHeaderFromYaml (data : Option (List (Option YamlEvent)))
    (result : Option ConfigSpace) : Int × Option ConfigSpace :=
  match result, data with
  | none, _ => (-22, none)
  | some result, none => (-2, some result)
  | some result, some events =>
    let (retval, result) := parseLoop events result .parseKey
    (retval, some result)

end WarpPipe
