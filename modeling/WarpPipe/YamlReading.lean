import Mathlib.Data.List.Nodup
import Mathlib.Data.List.Pairwise
import WarpPipe.Library.FieldTable
import WarpPipe.YamlCore

/-!
What the YAML reader makes of a stream of events. It looks at the scalars in front of the first
event that ends something, takes a known name and the scalar behind it for a setting, and carries
out the settings up to the first one whose value is not a number.
-/

namespace WarpPipe

open ByteLayout

def ConfigKey.name : ConfigKey → String
  | .vendorId => "vendor_id"
  | .deviceId => "device_id"
  | .command => "command"
  | .status => "status"
  | .revisionId => "revision_id"
  | .classCode => "class_code"
  | .cacheLineSize => "cache_line_size"
  | .latencyTimer => "latency_timer"
  | .headerType => "header_type"
  | .bist => "bist"
  | .cardbusCisPointer => "cardbus_cis_pointer"
  | .subsystemVendorId => "subsystem_vendor_id"
  | .subsystemId => "subsystem_id"
  | .expansionRomBaseAddress => "expansion_rom_base_address"
  | .capabilitiesPointer => "capabilities_pointer"
  | .interruptLine => "interrupt_line"
  | .interruptPin => "interrupt_pin"
  | .minGnt => "min_gnt"
  | .maxLat => "max_lat"

theorem mem_keyStates (key : ConfigKey) : key ∈ keyStates := by
  cases key <;> decide

theorem names_without_zero : ∀ key ∈ keyStates, 0 ∉ asciiBytes key.name := by
  decide +kernel

def ConfigKey.text (key : ConfigKey) : CString :=
  ⟨asciiBytes key.name, names_without_zero key (mem_keyStates key)⟩

theorem CString.ext {first second : CString} (same : first.bytes = second.bytes) :
    first = second := by
  cases first
  cases same
  rfl

theorem names_distinct : (keyStates.map fun key => asciiBytes key.name).Nodup := by
  decide +kernel

theorem findKey_iff {value : CString} {key : ConfigKey} :
    findKey value = some key ↔ value = key.text := by
  have table : parserKeys.zip keyStates = keyStates.map fun key => (key.name, key) := rfl
  have hit : ∀ other, findKey value = some other → value = other.text := by
    intro other found
    unfold findKey at found
    obtain ⟨entry, hit, rfl⟩ := Option.map_eq_some_iff.mp found
    have member := List.mem_of_find?_eq_some hit
    rw [table] at member
    obtain ⟨named, -, rfl⟩ := List.mem_map.mp member
    have bytes : value.bytes = asciiBytes named.name := by simpa using List.find?_some hit
    exact CString.ext bytes
  constructor
  · exact hit key
  · rintro rfl
    cases found : findKey key.text with
    | none =>
        unfold findKey at found
        rw [Option.map_eq_none_iff, table, List.find?_eq_none] at found
        have miss := found (key.name, key) (List.mem_map.mpr ⟨key, mem_keyStates key, rfl⟩)
        exact absurd (decide_eq_true rfl) miss
    | some other =>
        have same : asciiBytes key.name = asciiBytes other.name :=
          congrArg CString.bytes (hit other found)
        rw [List.inj_on_of_nodup_map names_distinct (mem_keyStates key) (mem_keyStates other) same]

theorem findKey_text (key : ConfigKey) : findKey key.text = some key := findKey_iff.mpr rfl

def ConfigKey.size : ConfigKey → Nat
  | .vendorId | .deviceId | .command | .status | .subsystemVendorId | .subsystemId => 2
  | .classCode => 3
  | .cardbusCisPointer | .expansionRomBaseAddress => 4
  | _ => 1

def ConfigKey.offset : ConfigKey → Nat
  | .vendorId => 0
  | .deviceId => 2
  | .command => 4
  | .status => 6
  | .revisionId => 8
  | .classCode => 9
  | .cacheLineSize => 12
  | .latencyTimer => 13
  | .headerType => 14
  | .bist => 15
  | .cardbusCisPointer => 40
  | .subsystemVendorId => 44
  | .subsystemId => 46
  | .expansionRomBaseAddress => 48
  | .capabilitiesPointer => 52
  | .interruptLine => 60
  | .interruptPin => 61
  | .minGnt => 62
  | .maxLat => 63

theorem offsets_apart : keyStates.Pairwise fun first second =>
    first.offset + first.size ≤ second.offset ∨ second.offset + second.size ≤ first.offset := by
  decide +kernel

def configFields : FieldTable ConfigKey 64 where
  offset := ConfigKey.offset
  size := ConfigKey.size
  nonempty key := by
    cases key <;> decide
  inside key := by
    cases key <;> decide
  apart first second different := by
    have symmetric : Std.Symm fun first second : ConfigKey =>
        first.offset + first.size ≤ second.offset ∨ second.offset + second.size ≤ first.offset :=
      ⟨fun _ _ => Or.symm⟩
    exact offsets_apart.forall (mem_keyStates first) (mem_keyStates second) different

theorem getLsbD_ff (index : Nat) : (0xff : BitVec 64).getLsbD index = decide (index < 8) := by
  have mask : (0xff : BitVec 64) = (BitVec.allOnes 8).setWidth 64 := by decide
  rw [mask, BitVec.getLsbD_setWidth, BitVec.getLsbD_allOnes]
  by_cases small : index < 8
  · simp [small]
    omega
  · simp [small]

theorem setWidth_and_ff (number : BitVec 64) :
    (number &&& 0xff).setWidth 8 = number.setWidth 8 := by
  apply BitVec.eq_of_getLsbD_eq
  intro index small
  simp only [BitVec.getLsbD_setWidth, BitVec.getLsbD_and, getLsbD_ff, small, decide_true,
    Bool.and_true]

theorem split2_eq (number : BitVec 64) : split2 number = littleEndian 2 number := by
  apply buffer_ext (by simp [split2])
  intro index bound
  rw [getByte_littleEndian (by simpa [split2] using bound)]
  match index, bound with
  | 0, _ => exact setWidth_and_ff number
  | 1, _ => rfl

theorem split3_eq (number : BitVec 64) : split3 number = littleEndian 3 number := by
  apply buffer_ext (by simp [split3])
  intro index bound
  rw [getByte_littleEndian (by simpa [split3] using bound)]
  match index, bound with
  | 0, _ => exact setWidth_and_ff number
  | 1, _ => exact setWidth_and_ff (number >>> 8)
  | 2, _ => rfl

theorem split4_eq (number : BitVec 64) : split4 number = littleEndian 4 number := by
  have whole : (number >>> 24) <<< 24 ||| ((number >>> 16) &&& 0xff) <<< 16 |||
      ((number >>> 8) &&& 0xff) <<< 8 ||| (number &&& 0xff) = number := by
    apply BitVec.eq_of_getLsbD_eq
    intro index bound
    simp only [BitVec.getLsbD_or, BitVec.getLsbD_shiftLeft, BitVec.getLsbD_ushiftRight,
      BitVec.getLsbD_and, getLsbD_ff, bound, decide_true, Bool.true_and]
    by_cases first : index < 8
    · simp [first, show index < 24 by omega, show index < 16 by omega]
    · by_cases second : index < 16
      · simp [first, second, show index < 24 by omega, show index - 8 < 8 by omega,
          show 8 + (index - 8) = index by omega]
      · by_cases third : index < 24
        · simp [first, second, third, show ¬index - 8 < 8 by omega, show index - 16 < 8 by omega,
            show 16 + (index - 16) = index by omega]
        · simp [first, second, third, show ¬index - 8 < 8 by omega, show ¬index - 16 < 8 by omega,
            show 24 + (index - 24) = index by omega]
  rw [split4, whole]
  apply buffer_ext (by simp)
  intro index bound
  rw [length_littleEndian] at bound
  rw [getByte_littleEndian bound, getByte_littleEndian bound]
  apply BitVec.eq_of_getLsbD_eq
  intro position small
  simp [small, show 8 * index + position < 32 by omega]

theorem single_eq (number : BitVec 64) : single number = littleEndian 1 number := by
  apply buffer_ext (by simp [single])
  intro index bound
  rw [getByte_littleEndian (by simpa [single] using bound)]
  match index, bound with
  | 0, _ => rfl

/-- Every case of the switch stores the low bytes of the number to the member of its state. -/
theorem storeValue_eq (space : ConfigSpace) (number : BitVec 64) (key : ConfigKey) :
    storeValue space number key = space.store (configFields.offset key)
      (littleEndian (configFields.size key) number) := by
  cases key <;> simp only [storeValue, split2_eq, split3_eq, split4_eq, single_eq] <;> rfl

theorem strtoulFailed_iff (text : Bytes) : strtoulFailed text = false ↔ Converts text := by
  have overflow : (strtoul text).erange = true → (strtoul text).value = BitVec.allOnes 64 := by
    unfold strtoul
    split
    · intro impossible
      cases impossible
    · split
      · intro impossible
        cases impossible
      · intro _
        rfl
  unfold strtoulFailed Converts
  cases range : (strtoul text).erange with
  | true => simp [overflow range]
  | false => simp

abbrev Setting := ConfigKey × CString

def carriedOut : List Setting → List Setting
  | [] => []
  | setting :: rest => setting :: if Converts setting.2.bytes then carriedOut rest else []

def Setting.bytes (setting : Setting) : Bytes :=
  littleEndian (configFields.size setting.1) (strtoul setting.2.bytes).value

def settingStores (settings : List Setting) : List (ConfigKey × Bytes) :=
  (carriedOut settings).map fun setting => (setting.1, setting.bytes)

theorem settingStores_sized (settings : List Setting) :
    configFields.Sized (settingStores settings) := by
  intro store member
  obtain ⟨setting, -, rfl⟩ := List.mem_map.mp member
  exact length_littleEndian ..

def AllConvert (settings : List Setting) : Prop := ∀ setting ∈ settings, Converts setting.2.bytes

instance (settings : List Setting) : Decidable (AllConvert settings) :=
  inferInstanceAs (Decidable (∀ setting ∈ settings, _))

def carryOut (settings : List Setting) (space : ConfigSpace) : Int × ConfigSpace :=
  (if AllConvert settings then 0 else -34,
    ⟨configFields.storeAll space.bytes (settingStores settings), by
      rw [FieldTable.length_storeAll, space.length_bytes]⟩)

theorem carryOut_cons (setting : Setting) (rest : List Setting) (space : ConfigSpace) :
    carryOut (setting :: rest) space =
      if Converts setting.2.bytes then
        carryOut rest (storeValue space (strtoul setting.2.bytes).value setting.1)
      else (-34, storeValue space (strtoul setting.2.bytes).value setting.1) := by
  rw [storeValue_eq]
  by_cases converts : Converts setting.2.bytes
  · rw [if_pos converts]
    simp only [carryOut, AllConvert, List.forall_mem_cons, converts, true_and,
      settingStores, carriedOut, if_true]
    rfl
  · rw [if_neg converts]
    simp only [carryOut, AllConvert, List.forall_mem_cons, converts, false_and,
      settingStores, carriedOut, if_false]
    rfl

/-- The settings that a row of scalars stands for, with the key that waits for its value. -/
def readScalars : Option ConfigKey → List CString → List Setting
  | _, [] => []
  | none, value :: rest => readScalars (findKey value) rest
  | some key, value :: rest => (key, value) :: readScalars none rest

def scalarsUntilEnd : List YamlEvent → List CString
  | [] => []
  | .noEvent :: _ | .mappingEnd :: _ | .documentEnd :: _ | .streamEnd :: _ => []
  | .scalar value :: rest => value :: scalarsUntilEnd rest
  | _ :: rest => scalarsUntilEnd rest

def waitingFor : Option ConfigKey → ParserState
  | none => .parseKey
  | some key => .value key

theorem waitingFor_ne_done (pending : Option ConfigKey) : waitingFor pending ≠ .done := by
  cases pending <;> simp [waitingFor]

theorem parseLoop_skip {event : YamlEvent}
    (skipped : event = .streamStart ∨ event = .documentStart ∨
    event = .aliasNode ∨ event = .sequenceStart ∨ event = .sequenceEnd ∨ event = .mappingStart)
    (events : List (Option YamlEvent)) (space : ConfigSpace) (pending : Option ConfigKey) :
    parseLoop (some event :: events) space (waitingFor pending) =
      parseLoop events space (waitingFor pending) := by
  rcases skipped with rfl | rfl | rfl | rfl | rfl | rfl <;>
    simp [parseLoop, processEvent, waitingFor_ne_done]

theorem parseLoop_scalar (value : CString) (events : List (Option YamlEvent))
    (space : ConfigSpace) :
    parseLoop (some (.scalar value) :: events) space .parseKey =
      parseLoop events space (waitingFor (findKey value)) := by
  cases found : findKey value <;> simp [parseLoop, processEvent, found, waitingFor]

theorem parseLoop_value (key : ConfigKey) (value : CString) (events : List (Option YamlEvent))
    (space : ConfigSpace) :
    parseLoop (some (.scalar value) :: events) space (.value key) =
      if Converts value.bytes then
        parseLoop events (storeValue space (strtoul value.bytes).value key) .parseKey
      else (-34, storeValue space (strtoul value.bytes).value key) := by
  have failed := strtoulFailed_iff value.bytes
  by_cases converts : Converts value.bytes
  · simp [parseLoop, processEvent, failed.mpr converts, converts]
  · have error : strtoulFailed value.bytes = true := by
      rw [← Bool.not_eq_false, failed]
      exact converts
    simp [parseLoop, processEvent, error, converts]

/-- The reader carries out the settings that the scalars up to the first end stand for. -/
theorem parseLoop_eq (events : List YamlEvent) (space : ConfigSpace) (pending : Option ConfigKey) :
    parseLoop (events.map some) space (waitingFor pending) =
      carryOut (readScalars pending (scalarsUntilEnd events)) space := by
  induction events generalizing space pending with
  | nil => cases pending <;> rfl
  | cons event events ih =>
      rw [List.map_cons]
      cases event with
      | noEvent | mappingEnd | documentEnd | streamEnd => cases pending <;> rfl
      | streamStart | documentStart | aliasNode | sequenceStart | sequenceEnd | mappingStart =>
          rw [parseLoop_skip (by simp), ih]
          rfl
      | scalar value =>
          rw [scalarsUntilEnd]
          cases pending with
          | none => rw [waitingFor, parseLoop_scalar, ih, readScalars]
          | some key =>
              have later : parseLoop (events.map some)
                  (storeValue space (strtoul value.bytes).value key) .parseKey = _ := ih _ none
              rw [waitingFor, parseLoop_value, later, readScalars, carryOut_cons]

end WarpPipe
