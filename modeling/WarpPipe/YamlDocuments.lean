import WarpPipe.YamlRanges

/-!
Documents with entries whose keys are not known. The reader has no state for the value of such an
entry and does not count how deep it is, so it takes the scalars of the value for keys, and the end
of a nested mapping for the end of the file.
-/

namespace WarpPipe

open ByteLayout FieldTable

/-- A node of a document. An alias comes with the text it stands for if that is a scalar, and a
mapping with its keys and values in turn. -/
inductive YamlNode where
  | scalar (text : CString)
  | aliasTo (text : Option CString)
  | sequence (items : List YamlNode)
  | mapping (contents : List YamlNode)

mutual

def YamlNode.events : YamlNode → List YamlEvent
  | .scalar text => [.scalar text]
  | .aliasTo _ => [.aliasNode]
  | .sequence items => .sequenceStart :: (nodeListEvents items ++ [.sequenceEnd])
  | .mapping contents => .mappingStart :: (nodeListEvents contents ++ [.mappingEnd])

def nodeListEvents : List YamlNode → List YamlEvent
  | [] => []
  | node :: rest => node.events ++ nodeListEvents rest

end

abbrev YamlEntries := List (YamlNode × YamlNode)

def entryEvents (entries : YamlEntries) : List YamlEvent :=
  entries.flatMap fun entry => entry.1.events ++ entry.2.events

def documentEvents (entries : YamlEntries) : List YamlEvent :=
  .streamStart :: .documentStart :: .mappingStart ::
    (entryEvents entries ++ [.mappingEnd, .documentEnd, .streamEnd])

def YamlNode.keyText : YamlNode → Option CString
  | .scalar text => some text
  | .aliasTo text => text
  | .sequence _ | .mapping _ => none

def knownEntry (entry : YamlNode × YamlNode) : Bool := (entry.1.keyText.bind findKey).isSome

def knownEntries (entries : YamlEntries) : YamlEntries := entries.filter knownEntry

def readDocument (entries : YamlEntries) (space : ConfigSpace) : Int × Option ConfigSpace :=
  pcieConfigurationSpaceHeaderFromYaml (some ((documentEvents entries).map some)) (some space)

def contentEvents (entries : YamlEntries) : List YamlEvent :=
  entryEvents entries ++ [.mappingEnd, .documentEnd, .streamEnd]

theorem readDocument_eq (entries : YamlEntries) (space : ConfigSpace) :
    readDocument entries space =
      ((parseLoop ((contentEvents entries).map some) space .parseKey).1,
        some (parseLoop ((contentEvents entries).map some) space .parseKey).2) := rfl

theorem readDocument_congr_iff {first second : YamlEntries} {space : ConfigSpace} :
    readDocument first space = readDocument second space ↔
      parseLoop ((contentEvents first).map some) space .parseKey =
        parseLoop ((contentEvents second).map some) space .parseKey := by
  rw [readDocument_eq, readDocument_eq, Prod.mk.injEq, Option.some.injEq, Prod.ext_iff]

theorem contentEvents_append (before behind : YamlEntries) :
    (contentEvents (before ++ behind)).map some =
      (entryEvents before).map some ++ (contentEvents behind).map some := by
  rw [← List.map_append, contentEvents, entryEvents, List.flatMap_append, List.append_assoc]
  rfl

theorem contentEvents_cons (entry : YamlNode × YamlNode) (rest : YamlEntries) :
    (contentEvents (entry :: rest)).map some =
      (entry.1.events ++ entry.2.events).map some ++ (contentEvents rest).map some := by
  rw [← List.map_append, contentEvents, entryEvents, List.flatMap_cons, List.append_assoc]
  rfl

/-- The key that waits for its value behind these events. There is no such state if the loop ends
before: at the end of a mapping, or at a value that is not a number. -/
def stateBehind : Option ConfigKey → List YamlEvent → Option (Option ConfigKey)
  | pending, [] => some pending
  | pending, event :: rest =>
    match event, pending with
    | .scalar value, none => stateBehind (findKey value) rest
    | .scalar value, some _ => if Converts value.bytes then stateBehind none rest else none
    | .noEvent, _ | .mappingEnd, _ | .documentEnd, _ | .streamEnd, _ => none
    | _, pending => stateBehind pending rest

theorem parseLoop_append (events : List YamlEvent) (pending : Option ConfigKey)
    (space : ConfigSpace) :
    (∃ behind after, stateBehind pending events = some behind ∧ ∀ rest,
      parseLoop (events.map some ++ rest) space (waitingFor pending) =
        parseLoop rest after (waitingFor behind)) ∨
    stateBehind pending events = none ∧ ∃ result, ∀ rest,
      parseLoop (events.map some ++ rest) space (waitingFor pending) = result := by
  induction events generalizing space pending with
  | nil => exact .inl ⟨pending, space, rfl, fun _ => rfl⟩
  | cons event events ih =>
      simp only [List.map_cons, List.cons_append]
      cases event with
      | noEvent | mappingEnd | documentEnd | streamEnd =>
          cases pending <;> exact .inr ⟨rfl, _, fun _ => rfl⟩
      | streamStart | documentStart | aliasNode | sequenceStart | sequenceEnd | mappingStart =>
          have later := ih pending space
          cases pending <;> exact later
      | scalar value =>
          cases pending with
          | none =>
              simp only [waitingFor, parseLoop_scalar]
              exact ih (findKey value) space
          | some key =>
              simp only [waitingFor, parseLoop_value, stateBehind]
              by_cases converts : Converts value.bytes
              · simp only [if_pos converts]
                exact ih none _
              · simp only [if_neg converts]
                exact .inr ⟨trivial, _, fun _ => rfl⟩

theorem parseLoop_congr (events : List YamlEvent) {first second : List (Option YamlEvent)}
    {pending : Option ConfigKey}
    (same : ∀ behind, stateBehind pending events = some behind → ∀ space,
      parseLoop first space (waitingFor behind) = parseLoop second space (waitingFor behind))
    (space : ConfigSpace) :
    parseLoop (events.map some ++ first) space (waitingFor pending) =
      parseLoop (events.map some ++ second) space (waitingFor pending) := by
  rcases parseLoop_append events pending space with ⟨behind, after, reached, read⟩ |
    ⟨-, result, read⟩
  · rw [read, read, same behind reached]
  · rw [read, read]

def YamlEvent.quiet : YamlEvent → Bool
  | .scalar value => (findKey value).isNone
  | .noEvent | .mappingEnd | .documentEnd | .streamEnd => false
  | _ => true

def YamlNode.quiet (node : YamlNode) : Bool := node.events.all YamlEvent.quiet

theorem parseLoop_quiet {events : List YamlEvent} (quiet : events.all YamlEvent.quiet = true)
    (behind : List (Option YamlEvent)) (space : ConfigSpace) :
    parseLoop (events.map some ++ behind) space .parseKey = parseLoop behind space .parseKey := by
  induction events with
  | nil => rfl
  | cons event events ih =>
      rw [List.all_cons, Bool.and_eq_true] at quiet
      rw [List.map_cons, List.cons_append, ← ih quiet.2]
      cases event with
      | noEvent | mappingEnd | documentEnd | streamEnd => exact absurd quiet.1 Bool.noConfusion
      | streamStart | documentStart | aliasNode | sequenceStart | sequenceEnd | mappingStart => rfl
      | scalar value =>
          have unknown : findKey value = none := Option.isNone_iff_eq_none.mp quiet.1
          rw [parseLoop_scalar, unknown]
          rfl

/-- Every unknown entry that the reader gets to is quiet, and begins where it looks for a key. -/
def InertEntries : Option ConfigKey → YamlEntries → Prop
  | _, [] => True
  | pending, entry :: rest =>
    if knownEntry entry then
      ∀ behind, stateBehind pending (entry.1.events ++ entry.2.events) = some behind →
        InertEntries behind rest
    else pending = none ∧ entry.1.quiet = true ∧ entry.2.quiet = true ∧ InertEntries none rest

theorem parseLoop_inert {entries : YamlEntries} {pending : Option ConfigKey}
    (inert : InertEntries pending entries) (space : ConfigSpace) :
    parseLoop ((contentEvents entries).map some) space (waitingFor pending) =
      parseLoop ((contentEvents (knownEntries entries)).map some) space (waitingFor pending) := by
  induction entries generalizing pending space with
  | nil => rfl
  | cons entry rest ih =>
      rw [InertEntries] at inert
      rw [contentEvents_cons]
      split at inert
      · rename_i known
        rw [knownEntries, List.filter_cons_of_pos known, contentEvents_cons]
        exact parseLoop_congr _ (fun behind reached => ih (inert behind reached)) space
      · rename_i unknown
        obtain ⟨rfl, quietKey, quietValue, later⟩ := inert
        rw [knownEntries, List.filter_cons_of_neg unknown]
        have quiet : (entry.1.events ++ entry.2.events).all YamlEvent.quiet = true := by
          rw [List.all_append, Bool.and_eq_true]
          exact ⟨quietKey, quietValue⟩
        exact (parseLoop_quiet quiet _ space).trans (ih later space)

/-! Unknown entries that are not quiet. -/

def settingEntries (settings : List Setting) : YamlEntries :=
  settings.map fun setting => (.scalar setting.1.text, .scalar setting.2)

theorem readScalars_pending {events : List YamlEvent} {key : ConfigKey}
    (reached : stateBehind (some key) events = some none) (behind : List YamlEvent) :
    readScalars (some key) (scalarsUntilEnd (events ++ behind)) ≠ [] := by
  induction events with
  | nil => cases reached
  | cons event events ih =>
      cases event with
      | noEvent | mappingEnd | documentEnd | streamEnd => cases reached
      | streamStart | documentStart | aliasNode | sequenceStart | sequenceEnd | mappingStart =>
          exact ih reached
      | scalar value => exact List.cons_ne_nil _ _

theorem readScalars_loud {events : List YamlEvent} (loud : events.all YamlEvent.quiet = false)
    (reached : stateBehind none events = some none) (behind : List YamlEvent) :
    readScalars none (scalarsUntilEnd (events ++ behind)) ≠ [] := by
  induction events with
  | nil => cases loud
  | cons event events ih =>
      rw [List.all_cons] at loud
      cases event with
      | noEvent | mappingEnd | documentEnd | streamEnd => cases reached
      | streamStart | documentStart | aliasNode | sequenceStart | sequenceEnd | mappingStart =>
          exact ih loud reached
      | scalar value =>
          rw [stateBehind] at reached
          rw [List.cons_append, scalarsUntilEnd, readScalars]
          cases found : findKey value with
          | none =>
              rw [found] at reached
              rw [YamlEvent.quiet, found] at loud
              exact ih loud reached
          | some key =>
              rw [found] at reached
              exact readScalars_pending reached behind

/-- Both lists have a value that is not a number or none has, and up to it they leave every field
with the same bytes. -/
structure SameEffect (first second : List Setting) : Prop where
  converts : AllConvert first ↔ AllConvert second
  stores : ∀ key, last (settingStores first) key = last (settingStores second) key

theorem carryOut_eq_iff (first second : List Setting) :
    (∀ space, carryOut first space = carryOut second space) ↔ SameEffect first second := by
  constructor
  · intro same
    constructor
    · rw [← carryOut_code_eq_zero first zeroSpace, ← carryOut_code_eq_zero second zeroSpace,
        same zeroSpace]
    · apply last_eq_of_storeAll (settingStores_sized first) (settingStores_sized second)
      intro buffer long
      exact congrArg (fun result => result.2.bytes) (same ⟨buffer, long⟩)
  · intro effect space
    simp only [carryOut, effect.converts]
    rw [Prod.mk.injEq, ConfigSpace.mk.injEq]
    exact ⟨rfl, storeAll_congr space.length_bytes (settingStores_sized first)
      (settingStores_sized second) effect.stores⟩

theorem carryOut_ne_nil {settings : List Setting} (some : settings ≠ []) :
    ¬∀ space, carryOut settings space = carryOut [] space := by
  intro same
  cases settings with
  | nil => exact some rfl
  | cons setting rest =>
      have first : (setting.1, setting.bytes) ∈ settingStores (setting :: rest) :=
        List.mem_cons_self
      obtain ⟨bytes, stored⟩ := exists_last_of_mem first
      have effect := ((carryOut_eq_iff _ _).mp same).stores setting.1
      rw [stored] at effect
      cases effect

theorem stateBehind_settings {settings : List Setting} {behind : Option ConfigKey}
    (reached : stateBehind none (entryEvents (settingEntries settings)) = some behind) :
    behind = none := by
  induction settings with
  | nil =>
      cases reached
      rfl
  | cons setting rest ih =>
      have read : stateBehind none (entryEvents (settingEntries (setting :: rest))) =
          if Converts setting.2.bytes then stateBehind none (entryEvents (settingEntries rest))
          else none := by
        rw [settingEntries, List.map_cons, entryEvents, List.flatMap_cons]
        simp only [YamlNode.events, List.cons_append, stateBehind, findKey_text]
        rfl
      rw [read] at reached
      split at reached
      · exact ih reached
      · cases reached

def oneText : CString := ⟨asciiBytes "1", by decide +kernel⟩

def vendorEvents : List (Option YamlEvent) :=
  (contentEvents (settingEntries [(.vendorId, oneText)])).map some

theorem vendorEvents_read : (parseLoop vendorEvents zeroSpace .parseKey).1 = 0 ∧
    fieldValue (parseLoop vendorEvents zeroSpace .parseKey).2 .vendorId = 1 := by
  decide +kernel

theorem vendorEvents_missed (key : ConfigKey) (space : ConfigSpace) :
    (parseLoop vendorEvents space (waitingFor (some key))).1 = -34 := by
  have name : ¬Converts ConfigKey.vendorId.text.bytes := by decide +kernel
  rw [show vendorEvents = some (.scalar ConfigKey.vendorId.text) :: _ from rfl, waitingFor,
    parseLoop_value, if_neg name]

theorem quiet_of_inert {events : List YamlEvent} (inert : ∀ behind space,
      parseLoop (events.map some ++ (contentEvents (settingEntries behind)).map some) space
        (waitingFor none) =
        parseLoop ((contentEvents (settingEntries behind)).map some) space (waitingFor none)) :
    events.all YamlEvent.quiet = true := by
  by_contra loud
  rw [Bool.not_eq_true] at loud
  have vendor : parseLoop (events.map some ++ vendorEvents) zeroSpace (waitingFor none) =
      parseLoop vendorEvents zeroSpace (waitingFor none) := inert [(.vendorId, oneText)] zeroSpace
  rcases parseLoop_append events none zeroSpace with ⟨behind, after, reached, read⟩ |
    ⟨-, result, read⟩
  · cases behind with
    | some key =>
        have missed := vendorEvents_missed key after
        rw [← read, vendor] at missed
        exact absurd (missed.symm.trans vendorEvents_read.1) (by decide)
    | none =>
        refine carryOut_ne_nil (readScalars_loud loud reached (contentEvents [])) fun space => ?_
        rw [← parseLoop_eq, List.map_append]
        exact inert [] space
  · have alone := inert [] zeroSpace
    rw [read] at vendor alone
    have unset : fieldValue result.2 .vendorId = 0 := by
      rw [alone]
      decide +kernel
    have given := vendorEvents_read.2
    rw [show ParserState.parseKey = waitingFor none from rfl, ← vendor, unset] at given
    cases given

/-- Removing the unknown entries of a document changes nothing if each one that the reader gets to
is quiet and begins where a key is expected. An entry can be removed from between any settings
exactly if neither a mapping nor a known name is in it. -/
theorem unknown_entries_inert (entries : YamlEntries) :
    (InertEntries none entries →
      ∀ space, readDocument entries space = readDocument (knownEntries entries) space) ∧
    ∀ entry, (∀ before behind space,
      readDocument (settingEntries before ++ entry :: settingEntries behind) space =
        readDocument (settingEntries before ++ settingEntries behind) space) ↔
      entry.1.quiet = true ∧ entry.2.quiet = true := by
  refine ⟨fun inert space => ?_, fun entry => ?_⟩
  · rw [readDocument_congr_iff]
    exact parseLoop_inert inert space
  · rw [YamlNode.quiet, YamlNode.quiet, ← Bool.and_eq_true, ← List.all_append]
    constructor
    · intro harmless
      refine quiet_of_inert fun behind space => ?_
      have shown := harmless [] behind space
      rw [readDocument_congr_iff] at shown
      rw [← contentEvents_cons]
      exact shown
    · intro quiet before behind space
      rw [readDocument_congr_iff, contentEvents_append, contentEvents_append]
      change parseLoop _ space (waitingFor none) = parseLoop _ space (waitingFor none)
      refine parseLoop_congr _ (fun state reached space => ?_) space
      rw [stateBehind_settings reached, contentEvents_cons]
      exact parseLoop_quiet quiet _ space

def otherName : YamlNode := .scalar ⟨asciiBytes "other", by decide +kernel⟩

def numberNode (text : String) (terminated : 0 ∉ asciiBytes text) : YamlNode :=
  .scalar ⟨_, terminated⟩

def nestedEntries : YamlEntries :=
  [(otherName, .mapping [otherName, otherName]),
    (.scalar ConfigKey.vendorId.text, numberNode "0x1234" (by decide +kernel))]

def namingEntries : YamlEntries :=
  [(otherName, .scalar ConfigKey.vendorId.text),
    (.scalar ConfigKey.deviceId.text, numberNode "1" (by decide +kernel))]

/-- A nested mapping under an unknown key hides the entries behind it, and a known name as the value
of an unknown key makes the reader fail on the next key. -/
theorem unknown_entries_disturb :
    ((readDocument nestedEntries zeroSpace).1 = 0 ∧
      (readDocument nestedEntries zeroSpace).2.map (fieldValue · .vendorId) = some 0 ∧
      (readDocument (knownEntries nestedEntries) zeroSpace).1 = 0 ∧
      (readDocument (knownEntries nestedEntries) zeroSpace).2.map (fieldValue · .vendorId) =
        some 0x1234) ∧
    (readDocument namingEntries zeroSpace).1 = -34 ∧
      (readDocument (knownEntries namingEntries) zeroSpace).1 = 0 := by
  decide +kernel

end WarpPipe
