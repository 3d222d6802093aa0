import Mathlib.Data.List.Nodup
import Mathlib.Data.Nat.ModEq
import Mathlib.Logic.Function.Basic

/-!
A table of slots that is written in order, with tags that are taken round a ring. Writes to
different tags do not disturb each other, and any `count` tags taken one after the other are
different as long as the ring has that many.
-/

namespace SlotTable

section

variable {Tag Entry : Type} [DecidableEq Tag]

def storeAll (table : Tag → Entry) (writes : List (Tag × Entry)) : Tag → Entry :=
  writes.foldl (fun table write => Function.update table write.1 write.2) table

theorem storeAll_append (table : Tag → Entry) (first second : List (Tag × Entry)) :
    storeAll table (first ++ second) = storeAll (storeAll table first) second :=
  List.foldl_append

theorem storeAll_of_notMem {table : Tag → Entry} {writes : List (Tag × Entry)} {tag : Tag}
    (absent : tag ∉ writes.map Prod.fst) : storeAll table writes tag = table tag := by
  induction writes generalizing table with
  | nil => rfl
  | cons write rest ih =>
      rw [List.map_cons, List.mem_cons, not_or] at absent
      rw [storeAll, List.foldl_cons, ← storeAll, ih absent.2, Function.update_of_ne absent.1]

theorem storeAll_of_mem {table : Tag → Entry} {writes : List (Tag × Entry)} {tag : Tag}
    {entry : Entry} (distinct : (writes.map Prod.fst).Nodup) (member : (tag, entry) ∈ writes) :
    storeAll table writes tag = entry := by
  induction writes generalizing table with
  | nil => cases member
  | cons write rest ih =>
      rw [List.map_cons, List.nodup_cons] at distinct
      rw [storeAll, List.foldl_cons, ← storeAll]
      rcases List.mem_cons.mp member with rfl | later
      · rw [storeAll_of_notMem distinct.1, Function.update_self]
      · exact ih distinct.2 later

def takeAll (table : Tag → Option Entry) : List Tag → List (Option Entry)
  | [] => []
  | tag :: rest => table tag :: takeAll (Function.update table tag none) rest

@[simp] theorem length_takeAll (table : Tag → Option Entry) (tags : List Tag) :
    (takeAll table tags).length = tags.length := by
  induction tags generalizing table with
  | nil => rfl
  | cons tag rest ih => rw [takeAll, List.length_cons, List.length_cons, ih]

theorem takeAll_distinct {table : Tag → Option Entry} {tags : List Tag} (distinct : tags.Nodup) :
    takeAll table tags = tags.map table := by
  induction tags generalizing table with
  | nil => rfl
  | cons tag rest ih =>
      rw [List.nodup_cons] at distinct
      rw [takeAll, List.map_cons, ih distinct.2]
      congr 1
      apply List.map_congr_left
      intro other member
      rw [Function.update_of_ne]
      rintro rfl
      exact distinct.1 member

theorem none_mem_takeAll {table : Tag → Option Entry} {tags : List Tag} {tag : Tag}
    (empty : table tag = none) (member : tag ∈ tags) : none ∈ takeAll table tags := by
  induction tags generalizing table with
  | nil => cases member
  | cons first rest ih =>
      rw [takeAll, List.mem_cons]
      rcases List.mem_cons.mp member with rfl | later
      · exact Or.inl empty.symm
      · refine Or.inr (ih ?_ later)
        by_cases same : tag = first
        · rw [same, Function.update_self]
        · rw [Function.update_of_ne same, empty]

theorem distinct_of_takeAll {table : Tag → Option Entry} {tags : List Tag}
    (found : none ∉ takeAll table tags) : tags.Nodup := by
  induction tags generalizing table with
  | nil => exact List.nodup_nil
  | cons tag rest ih =>
      rw [takeAll, List.mem_cons, not_or] at found
      refine List.nodup_cons.mpr ⟨fun member => ?_, ih found.2⟩
      exact found.2 (none_mem_takeAll (Function.update_self ..) member)

end

variable {capacity : Nat}

def tagAt (first : Fin capacity) (index : Nat) : Fin capacity :=
  ⟨(first.val + index) % capacity, Nat.mod_lt _ first.pos⟩

theorem tagAt_zero (first : Fin capacity) : tagAt first 0 = first :=
  Fin.ext (Nat.mod_eq_of_lt first.isLt)

theorem tagAt_tagAt (first : Fin capacity) (index more : Nat) :
    tagAt (tagAt first index) more = tagAt first (index + more) := by
  apply Fin.ext
  simp only [tagAt, Nat.mod_add_mod, Nat.add_assoc]

theorem tagAt_injective {first : Fin capacity} {index other : Nat} (near : index < other + capacity)
    (otherNear : other < index + capacity) (same : tagAt first index = tagAt first other) :
    index = other := by
  have values : first.val + index ≡ first.val + other [MOD capacity] := Fin.mk.inj same
  apply (Nat.ModEq.add_left_cancel' _ values).eq_of_abs_lt
  rw [abs_lt]
  omega

def tagsFrom (first : Fin capacity) (count : Nat) : List (Fin capacity) :=
  (List.range count).map (tagAt first)

theorem tagsFrom_add (first : Fin capacity) (count more : Nat) :
    tagsFrom first (count + more) = tagsFrom first count ++ tagsFrom (tagAt first count) more := by
  rw [tagsFrom, List.range_add, List.map_append, List.map_map]
  refine congrArg _ (List.map_congr_left fun index _ => ?_)
  exact (tagAt_tagAt first count index).symm

theorem tagsFrom_drop (first : Fin capacity) (count skipped : Nat) :
    (tagsFrom first count).drop skipped = tagsFrom (tagAt first skipped) (count - skipped) := by
  by_cases inside : skipped ≤ count
  · obtain ⟨more, rfl⟩ := Nat.exists_eq_add_of_le inside
    rw [tagsFrom_add, Nat.add_sub_cancel_left]
    exact List.drop_left' (by simp [tagsFrom])
  · rw [List.drop_of_length_le (by simp [tagsFrom]; omega), Nat.sub_eq_zero_of_le (by omega)]
    rfl

theorem tagsFrom_nodup (first : Fin capacity) {count : Nat} (enough : count ≤ capacity) :
    (tagsFrom first count).Nodup := by
  apply List.Nodup.map_on _ List.nodup_range
  intro index inside other otherInside same
  rw [List.mem_range] at inside otherInside
  exact tagAt_injective (by omega) (by omega) same

end SlotTable
