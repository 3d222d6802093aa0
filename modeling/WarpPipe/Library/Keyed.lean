import Mathlib.Data.List.Nodup

/-!
Lists of entries with distinct keys: finding, changing and removing the entry of a key, and a
traversal that removes entries from the list it runs over.
-/

namespace Keyed

variable {κ α β : Type} [DecidableEq κ] (key : α → κ)

def find (entries : List α) (k : κ) : Option α := entries.find? fun entry => key entry = k

def update (entries : List α) (k : κ) (change : α → α) : List α :=
  entries.map fun entry => if key entry = k then change entry else entry

def remove (entries : List α) (k : κ) : List α := entries.filter fun entry => key entry ≠ k

variable {key} {entries : List α} {k : κ}

theorem find_some {entry : α} (found : find key entries k = some entry) :
    entry ∈ entries ∧ key entry = k := by
  refine ⟨List.mem_of_find?_eq_some found, ?_⟩
  simpa using List.find?_some found

omit [DecidableEq κ] in
theorem eq_of_key (distinct : (entries.map key).Nodup) {left right : α} (inLeft : left ∈ entries)
    (inRight : right ∈ entries) (same : key left = key right) : left = right :=
  List.inj_on_of_nodup_map distinct inLeft inRight same

theorem map_update {view : α → β} {change : α → α}
    (same : ∀ entry ∈ entries, key entry = k → view (change entry) = view entry) :
    (update key entries k change).map view = entries.map view := by
  rw [update, List.map_map]
  refine List.map_congr_left fun entry member => ?_
  by_cases hit : key entry = k
  · simp only [Function.comp_apply, if_pos hit, same entry member hit]
  · simp only [Function.comp_apply, if_neg hit]

theorem find_update {change : α → α} (keeps : ∀ entry, key (change entry) = key entry) (other : κ) :
    find key (update key entries k change) other =
      if other = k then (find key entries k).map change else find key entries other := by
  have through : find key (update key entries k change) other =
      (find key entries other).map fun entry => if key entry = k then change entry else entry := by
    rw [find, update, List.find?_map, find]
    congr 2
    funext entry
    by_cases hit : key entry = k
    · simp only [Function.comp_apply, if_pos hit, keeps]
    · simp only [Function.comp_apply, if_neg hit]
  rw [through]
  split
  · rename_i same
    subst same
    refine Option.map_congr fun entry found => if_pos (find_some found).2
  · rename_i apart
    refine (Option.map_congr fun entry found => if_neg ?_).trans Option.map_id'
    rwa [(find_some found).2]

theorem mem_remove {entry : α} :
    entry ∈ remove key entries k ↔ entry ∈ entries ∧ key entry ≠ k := by
  simp [remove]

theorem find_of_remove {other : κ} {entry : α}
    (found : find key (remove key entries k) other = some entry) :
    find key entries other = some entry := by
  rw [find, remove, List.find?_filter] at found
  by_cases same : other = k
  · subst same
    have hit := List.find?_some found
    simp at hit
  · rw [← found, find]
    congr 1
    funext entry
    by_cases hit : key entry = other
    · simp [hit, same]
    · simp [hit]

theorem nodup_map_remove {view : α → β} (distinct : (entries.map view).Nodup) :
    ((remove key entries k).map view).Nodup :=
  distinct.sublist (List.filter_sublist.map view)

theorem foldl_remove_eq (discard : α → Bool) (nodes left : List α) :
    nodes.foldl (fun left node => if discard node then remove key left (key node) else left) left =
      left.filter fun entry => !nodes.any fun node => discard node && key node = key entry := by
  induction nodes generalizing left with
  | nil => simp
  | cons node rest ih =>
      rw [List.foldl_cons, ih]
      cases gone : discard node with
      | false => simp [gone]
      | true =>
          simp only [if_true, remove, List.filter_filter]
          refine List.filter_congr fun entry _ => ?_
          simp [gone, Bool.and_comm, eq_comm]

/-- Removing entries while the list is traversed keeps the others, in order. -/
theorem foldl_remove (discard : α → Bool) (distinct : (entries.map key).Nodup) :
    entries.foldl (fun left entry => if discard entry then remove key left (key entry) else left)
      entries = entries.filter fun entry => !discard entry := by
  rw [foldl_remove_eq]
  refine List.filter_congr fun entry member => congrArg _ ?_
  rw [Bool.eq_iff_iff, List.any_eq_true]
  constructor
  · rintro ⟨node, inside, hit⟩
    simp only [Bool.and_eq_true, decide_eq_true_eq] at hit
    rw [← eq_of_key distinct inside member hit.2]
    exact hit.1
  · intro gone
    exact ⟨entry, member, by simp [gone]⟩

end Keyed
