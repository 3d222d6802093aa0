import WarpPipe.YamlReading

/-!
Flat configuration files: one mapping from scalars to scalars. Each field gets the last value given
for it, reduced to its width, unless one of the values is not a number.
-/

namespace WarpPipe

open ByteLayout FieldTable

theorem parseLoop_mappingEnd (events : List YamlEvent) (rest : List (Option YamlEvent))
    (space : ConfigSpace) {state : ParserState} :
    parseLoop (events.map some ++ some YamlEvent.mappingEnd :: rest) space state =
      parseLoop ((events ++ [YamlEvent.mappingEnd]).map some) space state := by
  induction events generalizing space state with
  | nil => rfl
  | cons event events ih =>
      simp only [List.map_cons, List.cons_append, parseLoop]
      rw [ih]

abbrev ScalarPair := CString × CString

def pairScalars (pairs : List ScalarPair) : List CString :=
  pairs.flatMap fun pair => [pair.1, pair.2]

def openEvents (pairs : List ScalarPair) : List YamlEvent :=
  .streamStart :: .documentStart :: .mappingStart :: (pairScalars pairs).map .scalar

def flatEvents (pairs : List ScalarPair) (rest : List (Option YamlEvent)) :
    List (Option YamlEvent) :=
  (openEvents pairs).map some ++ some .mappingEnd :: rest

/-- No value of an unknown key is a known name. -/
def FlatPairs (pairs : List ScalarPair) : Prop :=
  ∀ pair ∈ pairs, findKey pair.1 = none → findKey pair.2 = none

def pairSettings (pairs : List ScalarPair) : List Setting :=
  pairs.filterMap fun pair => (findKey pair.1).map fun key => (key, pair.2)

theorem pairSettings_append (first second : List ScalarPair) :
    pairSettings (first ++ second) = pairSettings first ++ pairSettings second :=
  List.filterMap_append

theorem pairSettings_cons_of_known (pair : ScalarPair) {key : ConfigKey}
    (known : findKey pair.1 = some key) (rest : List ScalarPair) :
    pairSettings (pair :: rest) = (key, pair.2) :: pairSettings rest := by
  simp [pairSettings, known]

theorem readScalars_pairs {pairs : List ScalarPair} (flat : FlatPairs pairs)
    (behind : List CString) :
    readScalars none (pairScalars pairs ++ behind) =
      pairSettings pairs ++ readScalars none behind := by
  induction pairs with
  | nil => rfl
  | cons pair rest ih =>
      have later := ih fun other member => flat other (List.mem_cons_of_mem _ member)
      have scalars : pairScalars (pair :: rest) ++ behind =
          pair.1 :: pair.2 :: (pairScalars rest ++ behind) := rfl
      rw [scalars, readScalars]
      cases known : findKey pair.1 with
      | some key => rw [readScalars, later, pairSettings_cons_of_known pair known, List.cons_append]
      | none =>
          rw [readScalars, flat pair List.mem_cons_self known, later]
          simp [pairSettings, known]

theorem scalarsUntilEnd_scalars (scalars : List CString) (rest : List YamlEvent) :
    scalarsUntilEnd (scalars.map .scalar ++ .mappingEnd :: rest) = scalars := by
  induction scalars with
  | nil => rfl
  | cons scalar scalars ih => rw [List.map_cons, List.cons_append, scalarsUntilEnd, ih]

theorem fromYaml_flatEvents (pairs : List ScalarPair) (rest : List (Option YamlEvent))
    (space : ConfigSpace) :
    pcieConfigurationSpaceHeaderFromYaml (some (flatEvents pairs rest)) (some space) =
      ((carryOut (readScalars none (pairScalars pairs)) space).1,
        some (carryOut (readScalars none (pairScalars pairs)) space).2) := by
  have scalars : scalarsUntilEnd (openEvents pairs ++ [.mappingEnd]) = pairScalars pairs :=
    scalarsUntilEnd_scalars _ _
  have read := parseLoop_eq (openEvents pairs ++ [.mappingEnd]) space none
  rw [scalars] at read
  rw [pcieConfigurationSpaceHeaderFromYaml, flatEvents, parseLoop_mappingEnd, ← read]
  rfl

theorem fromYaml_flat {pairs : List ScalarPair} (flat : FlatPairs pairs)
    (rest : List (Option YamlEvent)) (space : ConfigSpace) :
    pcieConfigurationSpaceHeaderFromYaml (some (flatEvents pairs rest)) (some space) =
      ((carryOut (pairSettings pairs) space).1, some (carryOut (pairSettings pairs) space).2) := by
  have settings := readScalars_pairs flat []
  rw [List.append_nil, readScalars, List.append_nil] at settings
  rw [fromYaml_flatEvents, settings]

theorem carriedOut_of_allConvert {settings : List Setting} (all : AllConvert settings) :
    carriedOut settings = settings := by
  induction settings with
  | nil => rfl
  | cons setting rest ih =>
      rw [carriedOut, if_pos (all setting List.mem_cons_self),
        ih fun other member => all other (List.mem_cons_of_mem _ member)]

theorem carryOut_of_bad {before : List Setting} (bad : Setting) (all : AllConvert before)
    (fails : ¬Converts bad.2.bytes) (after : List Setting) (space : ConfigSpace) :
    carryOut (before ++ bad :: after) space = (-34, (carryOut (before ++ [bad]) space).2) := by
  induction before generalizing space with
  | nil =>
      rw [List.nil_append, List.nil_append, carryOut_cons, carryOut_cons,
        if_neg fails, if_neg fails]
  | cons setting rest ih =>
      have converts := all setting List.mem_cons_self
      rw [List.cons_append, List.cons_append, carryOut_cons, carryOut_cons, if_pos converts,
        if_pos converts, ih fun other member => all other (List.mem_cons_of_mem _ member)]

theorem carryOut_code_eq_zero (settings : List Setting) (space : ConfigSpace) :
    (carryOut settings space).1 = 0 ↔ AllConvert settings := by
  unfold carryOut
  by_cases all : AllConvert settings
  · simp [all]
  · simp [all]

/-- The fields that are set hold the last value given for them, low byte first and reduced to the
width of the field, and all other bytes are as they were. -/
structure FieldsSet (settings : List Setting) (before after : ConfigSpace) : Prop where
  field : ∀ key value, last settings key = some value →
    configFields.read after.bytes key =
      littleEndian (configFields.size key) (strtoul value.bytes).value
  others : ∀ index, (∀ setting ∈ settings, index < configFields.offset setting.1 ∨
      configFields.offset setting.1 + configFields.size setting.1 ≤ index) →
    getByte after.bytes index = getByte before.bytes index

theorem carryOut_fieldsSet {settings : List Setting} (all : AllConvert settings)
    (space : ConfigSpace) :
    FieldsSet settings space (carryOut settings space).2 := by
  have stores : settingStores settings = settings.map fun setting =>
      (setting.1, setting.bytes) := by
    rw [settingStores, carriedOut_of_allConvert all]
  constructor
  · intro key value given
    have stored : last (settingStores settings) key = some (Setting.bytes (key, value)) := by
      rw [stores, last_map, given, Option.map_some]
    exact (read_storeAll space.length_bytes (settingStores_sized settings) key).trans
      (by rw [stored, Option.getD_some]; rfl)
  · intro index outside
    refine getByte_storeAll_outside space.length_bytes (settingStores_sized settings) ?_
    intro store member
    rw [stores] at member
    obtain ⟨setting, given, rfl⟩ := List.mem_map.mp member
    exact outside setting given

theorem carryOut_swap (first second : Setting) (different : first.1 ≠ second.1)
    (before after : List Setting) (space : ConfigSpace) :
    (carryOut (before ++ first :: second :: after) space).1 =
        (carryOut (before ++ second :: first :: after) space).1 ∧
      ((carryOut (before ++ first :: second :: after) space).1 = 0 →
        carryOut (before ++ first :: second :: after) space =
          carryOut (before ++ second :: first :: after) space) := by
  have perm : (before ++ first :: second :: after).Perm (before ++ second :: first :: after) :=
    List.Perm.append_left _ (List.Perm.swap second first after)
  have codes : (carryOut (before ++ first :: second :: after) space).1 =
      (carryOut (before ++ second :: first :: after) space).1 := by
    have same : AllConvert (before ++ first :: second :: after) ↔
        AllConvert (before ++ second :: first :: after) :=
      ⟨fun all setting member => all setting (perm.mem_iff.mpr member),
        fun all setting member => all setting (perm.mem_iff.mp member)⟩
    simp only [carryOut, same]
  refine ⟨codes, ?_⟩
  intro zero
  have all := (carryOut_code_eq_zero _ space).mp zero
  have others := (carryOut_code_eq_zero _ space).mp (codes.symm.trans zero)
  apply Prod.ext codes
  simp only [carryOut, ConfigSpace.mk.injEq]
  apply storeAll_congr space.length_bytes (settingStores_sized _) (settingStores_sized _)
  intro key
  rw [settingStores, settingStores, carriedOut_of_allConvert all, carriedOut_of_allConvert others,
    last_map, last_map, last_swap different]

theorem allConvert_pairSettings (pairs : List ScalarPair) :
    AllConvert (pairSettings pairs) ↔ ∀ pair ∈ pairs, findKey pair.1 ≠ none →
    Converts pair.2.bytes := by
  constructor
  · intro all pair member known
    obtain ⟨key, found⟩ := Option.ne_none_iff_exists'.mp known
    exact all (key, pair.2) (List.mem_filterMap.mpr ⟨pair, member, by rw [found, Option.map_some]⟩)
  · intro all setting member
    obtain ⟨pair, given, found⟩ := List.mem_filterMap.mp member
    obtain ⟨key, known, rfl⟩ := Option.map_eq_some_iff.mp found
    exact all pair given (by simp [known])

/-- The meaning of a flat configuration file, whatever follows the mapping end. -/
theorem flat_configuration_meaning (space : ConfigSpace) (pairs : List ScalarPair)
    (flat : FlatPairs pairs) :
    ∃ retval header,
      (∀ rest, pcieConfigurationSpaceHeaderFromYaml (some (flatEvents pairs rest)) (some space) =
        (retval, some header)) ∧
      (retval = 0 ↔ ∀ pair ∈ pairs, findKey pair.1 ≠ none → Converts pair.2.bytes) ∧
      (retval = 0 → FieldsSet (pairSettings pairs) space header) ∧
      (∀ before bad after, pairs = before ++ bad :: after →
        (∀ pair ∈ before, findKey pair.1 ≠ none → Converts pair.2.bytes) →
        findKey bad.1 ≠ none → ¬Converts bad.2.bytes →
        retval = -34 ∧ ∀ otherAfter otherRest,
          pcieConfigurationSpaceHeaderFromYaml
            (some (flatEvents (before ++ bad :: otherAfter) otherRest)) (some space) =
              (retval, some header)) ∧
      (∀ before first second after, pairs = before ++ first :: second :: after →
        findKey first.1 ≠ none → findKey second.1 ≠ none → findKey first.1 ≠ findKey second.1 →
        ∃ swapped,
          (∀ rest, pcieConfigurationSpaceHeaderFromYaml
            (some (flatEvents (before ++ second :: first :: after) rest)) (some space) =
              (retval, some swapped)) ∧
          (retval = 0 → swapped = header)) := by
  have flatBefore : ∀ {before after}, pairs = before ++ after → FlatPairs before :=
    fun same pair member => flat pair (by rw [same]; exact List.mem_append_left _ member)
  refine ⟨_, _, fun rest => fromYaml_flat flat rest space, ?_, ?_, ?_, ?_⟩
  · rw [carryOut_code_eq_zero, allConvert_pairSettings]
  · rw [carryOut_code_eq_zero]
    exact fun all => carryOut_fieldsSet all space
  · intro before bad after same good known fails
    obtain ⟨key, found⟩ := Option.ne_none_iff_exists'.mp known
    have stops : ∀ otherAfter otherRest, pcieConfigurationSpaceHeaderFromYaml
        (some (flatEvents (before ++ bad :: otherAfter) otherRest)) (some space) =
          (-34, some (carryOut (pairSettings before ++ [(key, bad.2)]) space).2) := by
      intro otherAfter otherRest
      have scalars : pairScalars (before ++ bad :: otherAfter) =
          pairScalars before ++ bad.1 :: bad.2 :: pairScalars otherAfter := by
        simp [pairScalars]
      rw [fromYaml_flatEvents, scalars, readScalars_pairs (flatBefore same), readScalars, found,
        readScalars, carryOut_of_bad (key, bad.2) ((allConvert_pairSettings before).mpr good) fails]
    have result := stops after []
    rw [← same, fromYaml_flat flat] at result
    refine ⟨congrArg Prod.fst result, ?_⟩
    intro otherAfter otherRest
    rw [stops, result]
  · rintro before first second after rfl firstKnown secondKnown different
    obtain ⟨firstKey, foundFirst⟩ := Option.ne_none_iff_exists'.mp firstKnown
    obtain ⟨secondKey, foundSecond⟩ := Option.ne_none_iff_exists'.mp secondKnown
    have perm : (before ++ second :: first :: after).Perm (before ++ first :: second :: after) :=
      List.Perm.append_left _ (List.Perm.swap first second after)
    have swappedFlat : FlatPairs (before ++ second :: first :: after) :=
      fun pair member => flat pair (perm.mem_iff.mp member)
    have differentKeys : firstKey ≠ secondKey := by
      rintro rfl
      exact different (foundFirst.trans foundSecond.symm)
    have given : pairSettings (before ++ first :: second :: after) =
        pairSettings before ++ (firstKey, first.2) :: (secondKey, second.2) ::
          pairSettings after := by
      rw [pairSettings_append, pairSettings_cons_of_known first foundFirst,
        pairSettings_cons_of_known second foundSecond]
    have swapped : pairSettings (before ++ second :: first :: after) =
        pairSettings before ++ (secondKey, second.2) :: (firstKey, first.2) ::
          pairSettings after := by
      rw [pairSettings_append, pairSettings_cons_of_known second foundSecond,
        pairSettings_cons_of_known first foundFirst]
    obtain ⟨codes, same⟩ := carryOut_swap (firstKey, first.2) (secondKey, second.2) differentKeys
      (pairSettings before) (pairSettings after) space
    rw [← given, ← swapped] at codes same
    refine ⟨(carryOut (pairSettings (before ++ second :: first :: after)) space).2, ?_, ?_⟩
    · intro rest
      rw [fromYaml_flat swappedFlat, codes]
    · intro zero
      rw [same zero]

def idText : CString := ⟨asciiBytes "0x144d", by decide +kernel⟩

def unknownText : CString := ⟨asciiBytes "comment", by decide +kernel⟩

def samplePairs : List ScalarPair := [(ConfigKey.vendorId.text, idText), (unknownText, unknownText)]

theorem samplePairs_flat : FlatPairs samplePairs := by
  have unknown : findKey unknownText = none := by decide +kernel
  intro pair member
  rcases List.mem_pair.mp member with rfl | rfl
  · simp [findKey_text]
  · exact fun _ => unknown

theorem samplePairs_read : ∃ retval header,
    (∀ rest, pcieConfigurationSpaceHeaderFromYaml (some (flatEvents samplePairs rest))
      (some zeroSpace) = (retval, some header)) ∧ retval = 0 ∧
    configFields.read header.bytes .vendorId = [0x4d, 0x14] := by
  have unknown : findKey unknownText = none := by decide +kernel
  have settings : pairSettings samplePairs = [(.vendorId, idText)] := by
    simp [pairSettings, samplePairs, findKey_text, unknown]
  obtain ⟨retval, header, result, accepted, set, -⟩ :=
    flat_configuration_meaning zeroSpace samplePairs samplePairs_flat
  have zero : retval = 0 := by
    rw [accepted, ← allConvert_pairSettings, settings]
    decide +kernel
  refine ⟨retval, header, result, zero, ?_⟩
  have field := (set zero).field .vendorId idText (by rw [settings]; rfl)
  rw [field]
  decide +kernel

end WarpPipe
