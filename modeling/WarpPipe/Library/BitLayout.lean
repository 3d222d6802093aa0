import WarpPipe.Library.BitField
import Mathlib.Data.List.Pairwise
import Mathlib.Data.List.Perm.Basic

/-!
Layouts of structures whose members are bit-fields of bytes. A compiler packs the members in the
order of their declaration and starts a new byte when one does not fit into the rest of the last;
inside a byte it counts from the least or from the most significant bit. Two layouts store the
same bytes when they give each byte the same fields.
-/

namespace ByteLayout

inductive BitOrder where
  | leastFirst
  | mostFirst
  deriving DecidableEq, Repr

def BitOrder.place (order : BitOrder) (byte used width : Nat) : Field :=
  match order with
  | .leastFirst => ⟨byte, used, width⟩
  | .mostFirst => ⟨byte, 8 - used - width, width⟩

variable {Member : Type}

abbrev Layout (Member : Type) := List (Member × Field)

/-- Place declared members of the given widths, when `used` bits of `byte` are taken. -/
def allocateFrom (order : BitOrder) : Nat → Nat → List (Member × Nat) → Layout Member
  | _, _, [] => []
  | byte, used, (member, width) :: rest =>
    if used + width ≤ 8 then
      (member, order.place byte used width) :: allocateFrom order byte (used + width) rest
    else (member, order.place (byte + 1) 0 width) :: allocateFrom order (byte + 1) width rest

def allocate (order : BitOrder) (members : List (Member × Nat)) : Layout Member :=
  allocateFrom order 0 0 members

/-- The field of a member; a structure without it gives a field of no bits. -/
def Layout.field [DecidableEq Member] (layout : Layout Member) (member : Member) : Field :=
  (layout.lookup member).getD ⟨0, 0, 0⟩

def Layout.store (layout : Layout Member) (values : Member → Nat) (buffer : Bytes) : Bytes :=
  layout.foldl (fun buffer entry => entry.2.set (values entry.1) buffer) buffer

instance : Std.Symm fun entry other : Member × Field => entry.2.Disjoint other.2 :=
  ⟨fun _ _ disjoint => disjoint.imp Ne.symm Or.symm⟩

def Layout.Separate (layout : Layout Member) : Prop :=
  layout.Pairwise fun entry other => entry.2.Disjoint other.2

instance (layout : Layout Member) : Decidable layout.Separate :=
  inferInstanceAs (Decidable (List.Pairwise _ _))

def Layout.within (layout : Layout Member) (byte : Nat) : Layout Member :=
  layout.filter fun entry => entry.2.byte = byte

def Layout.pack (layout : Layout Member) (values : Member → Nat) (byte : Byte) : Byte :=
  layout.foldl (fun byte entry => insertBits byte entry.2.shift entry.2.width (values entry.1)) byte

theorem insertBits_mod (byte : Byte) (shift width value : Nat) :
    insertBits byte shift width (value % 2 ^ width) = insertBits byte shift width value := by
  rw [insertBits, Nat.mod_mod, ← insertBits]

theorem insertBits_comm (byte : Byte) {shift width other otherWidth : Nat} (value otherValue : Nat)
    (disjoint : shift + width ≤ other ∨ other + otherWidth ≤ shift) :
    insertBits (insertBits byte shift width value) other otherWidth otherValue =
      insertBits (insertBits byte other otherWidth otherValue) shift width value := by
  apply BitVec.eq_of_getLsbD_eq
  intro index bound
  simp only [getLsbD_insertBits _ _ _ _ _ bound]
  by_cases inside : shift ≤ index ∧ index < shift + width
  · rw [if_neg (by omega), if_pos inside, if_pos inside]
  · rw [if_neg inside, if_neg inside]

theorem Layout.store_cons (entry : Member × Field) (layout : Layout Member) (values : Member → Nat)
    (buffer : Bytes) :
    Layout.store (entry :: layout) values buffer =
      layout.store values (entry.2.set (values entry.1) buffer) := rfl

@[simp] theorem Layout.length_store (layout : Layout Member) (values : Member → Nat)
    (buffer : Bytes) :
    (layout.store values buffer).length = buffer.length := by
  induction layout generalizing buffer with
  | nil => rfl
  | cons entry rest ih => rw [store_cons, ih, Field.length_set]

/-- A byte depends on the members that lie in it, and on what it held before. -/
theorem Layout.getByte_store (layout : Layout Member) (values : Member → Nat) {buffer : Bytes}
    {byte : Nat} (bound : byte < buffer.length) :
    getByte (layout.store values buffer) byte =
      (layout.within byte).pack values (getByte buffer byte) := by
  induction layout generalizing buffer with
  | nil => rfl
  | cons entry rest ih =>
      rw [store_cons, ih (by simpa using bound)]
      by_cases here : entry.2.byte = byte
      · rw [within, within, List.filter_cons_of_pos (by simpa using here), Field.set, here,
          getByte_set bound, if_pos rfl]
        rfl
      · rw [within, within, List.filter_cons_of_neg (by simpa using here),
          Field.getByte_set_ne (Ne.symm here)]

theorem Layout.pack_perm {layout other : Layout Member} (perm : layout.Perm other) {byte : Nat}
    (inside : ∀ entry ∈ layout, entry.2.byte = byte) (separate : layout.Separate)
    (values : Member → Nat) (before : Byte) :
    layout.pack values before = other.pack values before := by
  apply perm.foldl_eq'
  intro first firstMember second secondMember middle
  by_cases same : first = second
  · rw [same]
  · have disjoint := separate.forall firstMember secondMember same
    have sameByte := (inside first firstMember).trans (inside second secondMember).symm
    exact insertBits_comm _ _ _ (disjoint.resolve_left fun different => different sameByte)

theorem Layout.getByte_store_perm {layout other : Layout Member} {byte : Nat}
    (perm : (layout.within byte).Perm (other.within byte)) (separate : layout.Separate)
    (values : Member → Nat) {buffer : Bytes} (bound : byte < buffer.length) :
    getByte (layout.store values buffer) byte = getByte (other.store values buffer) byte := by
  have inside : ∀ entry ∈ layout.within byte, entry.2.byte = byte := fun entry member =>
    of_decide_eq_true (List.mem_filter.mp member).2
  rw [layout.getByte_store values bound, other.getByte_store values bound,
    pack_perm perm inside (separate.filter _)]

theorem Layout.store_perm {layout other : Layout Member} (perm : layout.Perm other)
    (separate : layout.Separate) (values : Member → Nat) (buffer : Bytes) :
    layout.store values buffer = other.store values buffer := by
  apply buffer_ext (by simp)
  intro byte bound
  exact getByte_store_perm (perm.filter _) separate values (by simpa using bound)

/-- Layouts that put the same fields into all bytes but one store the same bytes if that one
comes out the same. -/
theorem Layout.store_eq_iff {layout other : Layout Member} (separate : layout.Separate)
    {size special : Nat} (bound : special < size)
    (perms : ∀ byte < size, byte ≠ special → (layout.within byte).Perm (other.within byte))
    (values : Member → Nat) {buffer : Bytes} (length : buffer.length = size) :
    layout.store values buffer = other.store values buffer ↔
      (layout.within special).pack values (getByte buffer special) =
        (other.within special).pack values (getByte buffer special) := by
  subst length
  rw [← getByte_store _ _ bound, ← getByte_store _ _ bound]
  constructor
  · intro same
    rw [same]
  · intro same
    apply buffer_ext (by simp)
    intro byte inside
    rw [length_store] at inside
    by_cases here : byte = special
    · rw [here, same]
    · exact getByte_store_perm (perms byte inside here) separate values inside

end ByteLayout
