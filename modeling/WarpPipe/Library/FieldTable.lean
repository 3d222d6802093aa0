import WarpPipe.Library.Buffer

/-!
A buffer with named fields that do not overlap, and lists of stores to them. Of all the stores to a
field the last one counts, and two lists of stores are the same to every buffer exactly if their
last stores to every field are the same.
-/

namespace ByteLayout

structure FieldTable (Key : Type) (length : Nat) where
  offset : Key → Nat
  size : Key → Nat
  nonempty : ∀ key, 0 < size key
  inside : ∀ key, offset key + size key ≤ length
  apart : ∀ first second, first ≠ second →
    offset first + size first ≤ offset second ∨ offset second + size second ≤ offset first

namespace FieldTable

variable {Key Value : Type} [DecidableEq Key] {length : Nat}

def last : List (Key × Value) → Key → Option Value
  | [], _ => none
  | given :: rest, key =>
    match last rest key with
    | some value => some value
    | none => if given.1 = key then some given.2 else none

section

variable {given : Key × Value} {list rest : List (Key × Value)} {key : Key} {value : Value}

theorem last_cons_of_some (later : last rest key = some value) :
    last (given :: rest) key = some value := by
  rw [last, later]

theorem last_cons_of_none (never : last rest key = none) :
    last (given :: rest) key = if given.1 = key then some given.2 else none := by
  rw [last, never]

theorem last_append (first second : List (Key × Value)) (key : Key) :
    last (first ++ second) key = (last second key).or (last first key) := by
  induction first with
  | nil => cases found : last second key <;> simp [last, found]
  | cons given rest ih =>
      rw [List.cons_append, last, ih]
      cases last second key with
      | some value => rfl
      | none => rfl

theorem mem_of_last (found : last list key = some value) : (key, value) ∈ list := by
  induction list with
  | nil => cases found
  | cons given rest ih =>
      cases later : last rest key with
      | some other =>
          rw [last_cons_of_some later] at found
          cases found
          exact List.mem_cons_of_mem _ (ih later)
      | none =>
          rw [last_cons_of_none later] at found
          by_cases same : given.1 = key
          · rw [if_pos same] at found
            cases found
            rw [← same]
            exact List.mem_cons_self
          · rw [if_neg same] at found
            cases found

theorem exists_last_of_mem (member : given ∈ list) : ∃ value, last list given.1 = some value := by
  induction list with
  | nil => cases member
  | cons first rest ih =>
      cases later : last rest given.1 with
      | some value => exact ⟨value, last_cons_of_some later⟩
      | none =>
          rcases List.mem_cons.mp member with rfl | member
          · exact ⟨given.2, by rw [last_cons_of_none later, if_pos rfl]⟩
          · obtain ⟨value, found⟩ := ih member
            rw [later] at found
            cases found

theorem last_map {Other : Type} (change : Key × Value → Other) (list : List (Key × Value))
    (key : Key) :
    last (list.map fun given => (given.1, change given)) key =
      (last list key).map fun value => change (key, value) := by
  induction list with
  | nil => rfl
  | cons given rest ih =>
      rw [List.map_cons, last, ih]
      cases later : last rest key with
      | some value => rw [last_cons_of_some later, Option.map_some]
      | none =>
          rw [last_cons_of_none later, Option.map_none]
          by_cases same : given.1 = key
          · rw [if_pos same, if_pos same, Option.map_some, ← same]
          · rw [if_neg same, if_neg same, Option.map_none]

theorem last_swap {first second : Key × Value} (different : first.1 ≠ second.1)
    (before after : List (Key × Value)) (key : Key) :
    last (before ++ first :: second :: after) key =
      last (before ++ second :: first :: after) key := by
  rw [last_append, last_append]
  congr 1
  cases later : last after key with
  | some value =>
      rw [last_cons_of_some (last_cons_of_some later), last_cons_of_some (last_cons_of_some later)]
  | none =>
      simp only [last, later]
      by_cases isFirst : first.1 = key
      · rw [if_neg fun isSecond => different (isFirst.trans isSecond.symm), if_pos isFirst]
      · rw [if_neg isFirst]
        by_cases isSecond : second.1 = key
        · rw [if_pos isSecond]
        · rw [if_neg isSecond]

end

variable (table : FieldTable Key length)

def read (buffer : Bytes) (key : Key) : Bytes := slice buffer (table.offset key) (table.size key)

def storeAll (buffer : Bytes) (stores : List (Key × Bytes)) : Bytes :=
  stores.foldl (fun buffer store => overwrite buffer (table.offset store.1) store.2) buffer

def Sized (stores : List (Key × Bytes)) : Prop :=
  ∀ store ∈ stores, store.2.length = table.size store.1

variable {table} {buffer : Bytes} {stores : List (Key × Bytes)}

omit [DecidableEq Key] in
@[simp] theorem length_storeAll : (table.storeAll buffer stores).length = buffer.length := by
  induction stores generalizing buffer with
  | nil => rfl
  | cons store rest ih =>
      rw [storeAll, List.foldl_cons, ← storeAll, ih, length_overwrite]

omit [DecidableEq Key] in
theorem getByte_storeAll_outside (long : buffer.length = length) (sized : table.Sized stores)
    {index : Nat} (outside : ∀ store ∈ stores,
      index < table.offset store.1 ∨ table.offset store.1 + table.size store.1 ≤ index) :
    getByte (table.storeAll buffer stores) index = getByte buffer index := by
  induction stores generalizing buffer with
  | nil => rfl
  | cons store rest ih =>
      have size := sized store List.mem_cons_self
      have fits := table.inside store.1
      rw [storeAll, List.foldl_cons, ← storeAll,
        ih (by rw [length_overwrite, long])
          (fun other member => sized other (List.mem_cons_of_mem _ member))
          (fun other member => outside other (List.mem_cons_of_mem _ member)),
        getByte_overwrite_outside (by omega)]
      rw [size]
      exact outside store List.mem_cons_self

theorem read_storeAll (long : buffer.length = length) (sized : table.Sized stores) (key : Key) :
    table.read (table.storeAll buffer stores) key =
      (last stores key).getD (table.read buffer key) := by
  induction stores generalizing buffer with
  | nil => rfl
  | cons store rest ih =>
      have size := sized store List.mem_cons_self
      have fits := table.inside store.1
      rw [storeAll, List.foldl_cons, ← storeAll,
        ih (by rw [length_overwrite, long]) fun other member =>
          sized other (List.mem_cons_of_mem _ member)]
      cases later : last rest key with
      | some bytes => rw [last_cons_of_some later, Option.getD_some, Option.getD_some]
      | none =>
          rw [last_cons_of_none later, Option.getD_none]
          by_cases same : store.1 = key
          · rw [if_pos same, Option.getD_some, read, ← same, ← size]
            exact slice_overwrite _ _ _ (by omega)
          · rw [if_neg same, Option.getD_none]
            have here := table.inside key
            apply slice_congr
            · rw [length_overwrite]
              omega
            · omega
            intro index within
            apply getByte_overwrite_outside (by omega)
            have apart := table.apart store.1 key same
            omega

omit [DecidableEq Key] in
/-- Two buffers are the same if their fields are, and the bytes in none of the fields. -/
theorem ext_of_read {other : Bytes} (long : buffer.length = length)
    (otherLong : other.length = length)
    (fields : ∀ key, table.read buffer key = table.read other key)
    (gaps : ∀ index, (∀ key, index < table.offset key ∨ table.offset key + table.size key ≤ index) →
      getByte buffer index = getByte other index) : buffer = other := by
  apply buffer_ext (by omega)
  intro index _
  by_cases gap : ∀ key, index < table.offset key ∨ table.offset key + table.size key ≤ index
  · exact gaps index gap
  · rw [not_forall] at gap
    obtain ⟨key, within⟩ := gap
    have byte := congrArg (fun bytes => getByte bytes (index - table.offset key)) (fields key)
    simp only [read] at byte
    rw [getByte_slice (by omega), getByte_slice (by omega)] at byte
    rwa [show table.offset key + (index - table.offset key) = index by omega] at byte

theorem storeAll_congr {others : List (Key × Bytes)} (long : buffer.length = length)
    (sized : table.Sized stores) (otherSized : table.Sized others)
    (same : ∀ key, last stores key = last others key) :
    table.storeAll buffer stores = table.storeAll buffer others := by
  apply table.ext_of_read (by rw [length_storeAll, long]) (by rw [length_storeAll, long])
  · intro key
    rw [read_storeAll long sized, read_storeAll long otherSized, same]
  · intro index gap
    rw [getByte_storeAll_outside long sized fun store _ => gap store.1,
      getByte_storeAll_outside long otherSized fun store _ => gap store.1]

/-- A store to a field shows in a buffer of zeroes or in a buffer of ones. -/
theorem last_eq_of_storeAll {others : List (Key × Bytes)} (sized : table.Sized stores)
    (otherSized : table.Sized others)
    (same : ∀ buffer : Bytes, buffer.length = length →
      table.storeAll buffer stores = table.storeAll buffer others) (key : Key) :
    last stores key = last others key := by
  have fields : ∀ byte : Byte, (last stores key).getD (List.replicate (table.size key) byte) =
      (last others key).getD (List.replicate (table.size key) byte) := by
    intro byte
    have long : (List.replicate length byte).length = length := List.length_replicate
    have plain : table.read (List.replicate length byte) key =
        List.replicate (table.size key) byte := by
      have inside := table.inside key
      rw [read, slice, List.drop_replicate, List.take_replicate, Nat.min_eq_left (by omega)]
    have stored := congrArg (fun buffer => table.read buffer key) (same _ long)
    simp only [read_storeAll long sized, read_storeAll long otherSized, plain] at stored
    exact stored
  have different : List.replicate (table.size key) (0 : Byte) ≠
      List.replicate (table.size key) 1 := by
    intro equal
    have bytes := List.replicate_right_injective (Nat.ne_of_gt (table.nonempty key)) equal
    cases bytes
  have zeroes := fields 0
  have ones := fields 1
  cases first : last stores key with
  | some bytes =>
      cases second : last others key with
      | some others =>
          rw [first, second] at zeroes
          exact congrArg some zeroes
      | none =>
          rw [first, second] at zeroes ones
          exact absurd (zeroes.symm.trans ones) different
  | none =>
      cases second : last others key with
      | some others =>
          rw [first, second] at zeroes ones
          exact absurd (zeroes.trans ones.symm) different
      | none => rfl

end FieldTable

end ByteLayout
