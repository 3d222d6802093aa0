import Mathlib.Data.Set.Finite.Basic
import Mathlib.Logic.Relation
import Mathlib.Order.WellFounded

/-!
Chains of links: every element has at most one next one. Following the links from an element comes
to an end inside a finite set exactly if every element in reach is in the set and none is on a
cycle.
-/

namespace LinkChain

open Relation

variable {α : Type}

def Link (next : α → Option α) (element other : α) : Prop := next element = some other

/-- The elements visited from `element` on, if the chain ends after at most `fuel` of them. -/
def follow (next : α → Option α) : Nat → α → Option (List α)
  | 0, _ => none
  | fuel + 1, element =>
    match next element with
    | none => some [element]
    | some other => (follow next fuel other).map (element :: ·)

variable {next : α → Option α} {element : α}

theorem follow_end (last : next element = none) (fuel : Nat) :
    follow next (fuel + 1) element = some [element] := by
  rw [follow, last]

theorem follow_link {other : α} (link : next element = some other) (fuel : Nat) :
    follow next (fuel + 1) element = (follow next fuel other).map (element :: ·) := by
  rw [follow, link]

theorem mem_follow {fuel : Nat} {visited : List α} (ends : follow next fuel element = some visited)
    (other : α) : other ∈ visited ↔ ReflTransGen (Link next) element other := by
  induction fuel generalizing element visited with
  | zero => cases ends
  | succ fuel ih =>
      rw [ReflTransGen.cases_head_iff]
      cases link : next element with
      | none =>
          rw [follow_end link] at ends
          cases ends
          constructor
          · intro member
            exact Or.inl (List.mem_singleton.mp member).symm
          · rintro (rfl | ⟨after, linked, -⟩)
            · exact List.mem_singleton_self _
            · rw [Link, link] at linked
              cases linked
      | some after =>
          rw [follow_link link] at ends
          obtain ⟨rest, endsRest, rfl⟩ := Option.map_eq_some_iff.mp ends
          rw [List.mem_cons, ih endsRest]
          constructor
          · rintro (rfl | reached)
            · exact Or.inl rfl
            · exact Or.inr ⟨after, link, reached⟩
          · rintro (rfl | ⟨other, linked, reached⟩)
            · exact Or.inl rfl
            · rw [Link, link] at linked
              cases linked
              exact Or.inr reached

theorem acc_of_follow {fuel : Nat} {visited : List α}
    (ends : follow next fuel element = some visited) :
    Acc (Function.swap (Link next)) element := by
  induction fuel generalizing element visited with
  | zero => cases ends
  | succ fuel ih =>
      constructor
      intro other linked
      rw [follow_link linked] at ends
      obtain ⟨rest, endsRest, -⟩ := Option.map_eq_some_iff.mp ends
      exact ih endsRest

theorem follow_of_acc (ends : Acc (Function.swap (Link next)) element) :
    ∃ fuel visited, follow next fuel element = some visited := by
  induction ends with
  | intro element _ ih =>
      cases link : next element with
      | none => exact ⟨1, [element], follow_end link 0⟩
      | some other =>
          obtain ⟨fuel, visited, ends⟩ := ih other link
          exact ⟨fuel + 1, element :: visited, by rw [follow_link link, ends, Option.map_some]⟩

theorem not_cycle_of_acc {relation : α → α → Prop} (ends : Acc (Function.swap relation) element) :
    ¬TransGen relation element element := by
  have transitive := ends.transGen
  induction transitive with
  | intro element _ ih =>
      intro cycle
      exact ih element (transGen_swap.mpr cycle) ends cycle

theorem nodup_follow {fuel : Nat} {visited : List α}
    (ends : follow next fuel element = some visited) :
    visited.Nodup := by
  induction fuel generalizing element visited with
  | zero => cases ends
  | succ fuel ih =>
      have acyclic := not_cycle_of_acc (acc_of_follow ends)
      cases link : next element with
      | none =>
          rw [follow_end link] at ends
          cases ends
          exact List.nodup_singleton _
      | some other =>
          rw [follow_link link] at ends
          obtain ⟨rest, endsRest, rfl⟩ := Option.map_eq_some_iff.mp ends
          refine List.nodup_cons.mpr ⟨fun member => acyclic ?_, ih endsRest⟩
          exact .head' link ((mem_follow endsRest element).mp member)

theorem acc_of_reached {other : α} (ends : Acc (Function.swap (Link next)) element)
    (reached : ReflTransGen (Link next) element other) : Acc (Function.swap (Link next)) other := by
  induction reached with
  | refl => exact ends
  | tail _ link ih => exact ih.inv link

/-- On the finitely many elements in reach the links are well founded, because their transitive
closure is irreflexive there. -/
theorem acc_of_no_cycle {inside : Set α} (finite : inside.Finite)
    (within : ∀ other, ReflTransGen (Link next) element other → other ∈ inside)
    (acyclic : ∀ other, ReflTransGen (Link next) element other →
      ¬TransGen (Link next) other other) :
    Acc (Function.swap (Link next)) element := by
  let Reached := { other : α // ReflTransGen (Link next) element other }
  let later : Reached → Reached → Prop := fun first second => TransGen (Link next) second.1 first.1
  have finiteReached : Finite Reached := (finite.subset within).to_subtype
  have transitive : IsTrans Reached later := ⟨fun _ _ _ first second => second.trans first⟩
  have irreflexive : Std.Irrefl later := ⟨fun other => acyclic other.1 other.2⟩
  have wellFounded : WellFounded later := Finite.wellFounded_of_trans_of_irrefl later
  have all : ∀ other : Reached, Acc (Function.swap (Link next)) other.1 := by
    intro other
    induction other using wellFounded.induction with
    | _ other ih =>
        constructor
        intro after link
        exact ih ⟨after, other.2.tail link⟩ (TransGen.single link)
  exact all ⟨element, .refl⟩

theorem follow_within_iff {inside : Set α} (finite : inside.Finite) :
    (∃ fuel visited, follow next fuel element = some visited ∧ ∀ other ∈ visited, other ∈ inside) ↔
      ∀ other, ReflTransGen (Link next) element other →
        other ∈ inside ∧ ¬TransGen (Link next) other other := by
  constructor
  · rintro ⟨fuel, visited, ends, within⟩ other reached
    refine ⟨within other ((mem_follow ends other).mpr reached), ?_⟩
    exact not_cycle_of_acc (acc_of_reached (acc_of_follow ends) reached)
  · intro all
    obtain ⟨fuel, visited, ends⟩ := follow_of_acc
      (acc_of_no_cycle finite (fun other reached => (all other reached).1)
        (fun other reached => (all other reached).2))
    exact ⟨fuel, visited, ends, fun other member =>
      (all other ((mem_follow ends other).mp member)).1⟩

end LinkChain
