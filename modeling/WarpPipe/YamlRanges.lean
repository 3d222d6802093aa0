import WarpPipe.YamlFlat

/-!
Values that do not fit their fields. The reader checks that a value is a number of the type
`unsigned long`, but not that it fits the field it is stored to.
-/

namespace WarpPipe

open ByteLayout FieldTable

def settingPairs (settings : List Setting) : List ScalarPair :=
  settings.map fun setting => (setting.1.text, setting.2)

theorem pairSettings_settingPairs (settings : List Setting) :
    pairSettings (settingPairs settings) = settings := by
  induction settings with
  | nil => rfl
  | cons setting rest ih =>
      rw [settingPairs, List.map_cons, pairSettings_cons_of_known (setting.1.text, setting.2)
          (findKey_text setting.1),
        ← settingPairs, ih]

theorem settingPairs_flat (settings : List Setting) : FlatPairs (settingPairs settings) := by
  intro pair member unknown
  obtain ⟨setting, -, rfl⟩ := List.mem_map.mp member
  rw [findKey_text] at unknown
  cases unknown

def ConfigKey.Holds (key : ConfigKey) (value : Int) : Prop := 0 ≤ value ∧ value < 2 ^ (8 * key.size)

def fieldValue (space : ConfigSpace) (key : ConfigKey) : Nat :=
  (ofLittleEndian 64 key.size (configFields.read space.bytes key)).toNat

/-- If the file is accepted, every value fits its field, and the field holds it; and a file with a
value that does not fit is not accepted. -/
structure RangesChecked (settings : List Setting) (retval : Int) (header : ConfigSpace) : Prop where
  accepted : retval = 0 → ∀ setting ∈ settings, ∃ value, denoted setting.2.bytes = some value ∧
    setting.1.Holds value ∧ (fieldValue header setting.1 : Int) = value
  rejected : (∃ setting ∈ settings, ∃ value, denoted setting.2.bytes = some value ∧
    ¬setting.1.Holds value) → retval ≠ 0

theorem ConfigKey.Holds.small {key : ConfigKey} {value : Int} (holds : key.Holds value) :
    value.toNat < 2 ^ (8 * key.size) ∧ value.toNat < 2 ^ 64 := by
  obtain ⟨nonneg, below⟩ := holds
  cases key <;> simp only [ConfigKey.size] at below ⊢ <;> omega

theorem fieldValue_of_last {settings : List Setting} {space header : ConfigSpace}
    (set : FieldsSet settings space header) {key : ConfigKey} {text : CString} {value : Int}
    (given : last settings key = some text) (denotes : denoted text.bytes = some value)
    (holds : key.Holds value) : (fieldValue header key : Int) = value := by
  have nonneg := holds.1
  have small := holds.small
  have number : (strtoul text.bytes).value.toNat = value.toNat :=
    toNat_strtoul (by rw [denotes, Int.toNat_of_nonneg nonneg]) small.2
  have read : configFields.read header.bytes key =
      littleEndian key.size (strtoul text.bytes).value := set.field key text given
  rw [fieldValue, read, ofLittleEndian_littleEndian _ (by rw [number]; exact small.1), number,
    Int.toNat_of_nonneg nonneg]

/-- Values out of range are rejected, and all others are found in the header, exactly if `strtoul`
rejects one of the values, or if all of them fit their fields and those given for the same key
agree. -/
theorem out_of_range_rejected_iff (space : ConfigSpace) (settings : List Setting)
    (rest : List (Option YamlEvent)) :
    (∃ retval header,
      pcieConfigurationSpaceHeaderFromYaml (some (flatEvents (settingPairs settings) rest))
        (some space) = (retval, some header) ∧ RangesChecked settings retval header) ↔
    (∃ setting ∈ settings, ∀ value, denoted setting.2.bytes = some value → 2 ^ 64 ≤ value.natAbs) ∨
      ∀ setting ∈ settings, ∃ value, setting.1.Holds value ∧
        ∀ other ∈ settings, other.1 = setting.1 → denoted other.2.bytes = some value := by
  have result := fromYaml_flat (settingPairs_flat settings) rest space
  rw [pairSettings_settingPairs] at result
  rw [result]
  by_cases all : AllConvert settings
  · have zero := (carryOut_code_eq_zero settings space).mpr all
    have set := carryOut_fieldsSet all space
    constructor
    · rintro ⟨retval, header, same, checked⟩
      cases same
      have fits := checked.accepted zero
      refine Or.inr ?_
      intro setting member
      obtain ⟨value, denotes, holds, back⟩ := fits setting member
      refine ⟨value, holds, ?_⟩
      intro other otherMember sameKey
      obtain ⟨otherValue, otherDenotes, -, otherBack⟩ := fits other otherMember
      rw [sameKey, back] at otherBack
      rw [otherDenotes, otherBack]
    · rintro (⟨setting, member, large⟩ | fits)
      · obtain ⟨value, denotes, small⟩ := (converts_iff _).mp (all setting member)
        exact absurd (large value denotes) (by omega)
      · refine ⟨_, _, rfl, ?_, ?_⟩
        · intro _ setting member
          obtain ⟨value, holds, agree⟩ := fits setting member
          obtain ⟨text, given⟩ := exists_last_of_mem member
          refine ⟨value, agree setting member rfl, holds, ?_⟩
          exact fieldValue_of_last set given (agree _ (mem_of_last given) rfl) holds
        · rintro ⟨setting, member, value, denotes, outside⟩
          obtain ⟨other, holds, agree⟩ := fits setting member
          rw [agree setting member rfl] at denotes
          cases denotes
          exact absurd holds outside
  · have nonzero : (carryOut settings space).1 ≠ 0 :=
      fun zero => all ((carryOut_code_eq_zero settings space).mp zero)
    constructor
    · intro _
      simp only [AllConvert, not_forall] at all
      obtain ⟨setting, member, fails⟩ := all
      refine Or.inl ⟨setting, member, ?_⟩
      intro value denotes
      by_contra small
      exact fails ((converts_iff _).mpr ⟨value, denotes, by omega⟩)
    · intro _
      exact ⟨_, _, rfl, fun zero => absurd zero nonzero, fun _ => nonzero⟩

theorem single_setting_accepted {key : ConfigKey} {text : CString} {value : Int}
    (denotes : denoted text.bytes = some value) (fits : value.natAbs < 2 ^ 64)
    (outside : ¬key.Holds value) (space : ConfigSpace) :
    pcieConfigurationSpaceHeaderFromYaml (some (flatEvents (settingPairs [(key, text)]) []))
        (some space) = (0, some (carryOut [(key, text)] space).2) ∧
      ¬RangesChecked [(key, text)] 0 (carryOut [(key, text)] space).2 := by
  have all : AllConvert [(key, text)] := by
    intro setting member
    rw [List.mem_singleton.mp member]
    exact (converts_iff _).mpr ⟨value, denotes, fits⟩
  constructor
  · rw [fromYaml_flat (settingPairs_flat _), pairSettings_settingPairs,
      (carryOut_code_eq_zero _ space).mpr all]
  · intro checked
    exact checked.rejected ⟨(key, text), List.mem_singleton_self _, value, denotes, outside⟩ rfl

def wideText : CString := ⟨asciiBytes "0x12345", by decide +kernel⟩

def negativeText : CString := ⟨asciiBytes "-1", by decide +kernel⟩

/-- `vendor_id: 0x12345` is accepted and read as 0x2345, and `revision_id: -1` as 255. -/
theorem wide_values_accepted :
    (∃ header,
      pcieConfigurationSpaceHeaderFromYaml
        (some (flatEvents (settingPairs [(.vendorId, wideText)]) []))
        (some zeroSpace) = (0, some header) ∧
      denoted wideText.bytes = some 0x12345 ∧ fieldValue header .vendorId = 0x2345 ∧
      ¬RangesChecked [(.vendorId, wideText)] 0 header) ∧
    ∃ header,
      pcieConfigurationSpaceHeaderFromYaml
        (some (flatEvents (settingPairs [(.revisionId, negativeText)]) [])) (some zeroSpace) =
          (0, some header) ∧
      denoted negativeText.bytes = some (-1) ∧ fieldValue header .revisionId = 255 ∧
      ¬RangesChecked [(.revisionId, negativeText)] 0 header := by
  have wide : denoted wideText.bytes = some 0x12345 := by decide +kernel
  have negative : denoted negativeText.bytes = some (-1) := by decide +kernel
  have wideAccepted := single_setting_accepted wide (by decide)
    (show ¬ConfigKey.vendorId.Holds 0x12345 from fun holds => absurd holds.2 (by decide)) zeroSpace
  have negativeAccepted := single_setting_accepted negative (by decide)
    (show ¬ConfigKey.revisionId.Holds (-1) from fun holds => absurd holds.1 (by decide)) zeroSpace
  exact ⟨⟨_, wideAccepted.1, wide, by decide +kernel, wideAccepted.2⟩,
    _, negativeAccepted.1, negative, by decide +kernel, negativeAccepted.2⟩

end WarpPipe
