import Mathlib.Data.List.Nodup
import Mathlib.Logic.Function.Basic

/-!
Requests and answers that are matched by tags. A requester keeps a table of the requests that are
under way, by tag, and believes what the table says when an answer with that tag comes back. Both
queues are FIFO; a request may be dropped, and then holds its tag forever.
-/

namespace Exchange

variable {Tag Id Answer : Type}

/-- A request or an answer on its way: its tag, and the request it really belongs to. -/
abbrev Token (Tag Id : Type) := Tag × Id

structure Result (Id Answer : Type) where
  held : Id
  asked : Id
  answer : Answer

structure State (Tag Id Answer : Type) where
  table : Tag → Option Id
  requests : List (Token Tag Id)
  answers : List (Token Tag Id × Answer)
  issued : List Id
  dropped : List Id
  results : List (Result Id Answer)

def State.start : State Tag Id Answer := ⟨fun _ => none, [], [], [], [], []⟩

def State.tokens (state : State Tag Id Answer) : List (Token Tag Id) :=
  state.requests ++ state.answers.map Prod.fst

def State.finished (state : State Tag Id Answer) : List Id := state.results.map Result.held

variable [DecidableEq Tag]

inductive Step (before : State Tag Id Answer) : State Tag Id Answer → Prop where
  | issue (tag : Tag) (id : Id) (free : before.table tag = none) (fresh : id ∉ before.issued) :
      Step before { before with
        table := Function.update before.table tag (some id)
        requests := before.requests ++ [(tag, id)]
        issued := before.issued ++ [id] }
  | serve (token : Token Tag Id) (rest : List (Token Tag Id)) (answer : Answer)
      (next : before.requests = token :: rest) :
      Step before { before with requests := rest, answers := before.answers ++ [(token, answer)] }
  | drop (token : Token Tag Id) (rest : List (Token Tag Id))
      (next : before.requests = token :: rest) :
      Step before { before with requests := rest, dropped := before.dropped ++ [token.2] }
  | finish (token : Token Tag Id) (answer : Answer) (rest : List (Token Tag Id × Answer))
      (held : Id) (next : before.answers = (token, answer) :: rest)
      (found : before.table token.1 = some held) :
      Step before { before with
        table := Function.update before.table token.1 none
        answers := rest
        results := before.results ++ [⟨held, token.2, answer⟩] }

/-- Every token holds its tag alone, and every request is finished once or still in the table. -/
structure Sound (state : State Tag Id Answer) : Prop where
  pending : ∀ token ∈ state.tokens, state.table token.1 = some token.2
  distinct : (state.tokens.map Prod.fst).Nodup
  listed : ∀ tag id, state.table tag = some id → id ∈ state.issued
  unique : ∀ left right id, state.table left = some id → state.table right = some id → left = right
  unfinished : ∀ tag id, state.table tag = some id → id ∉ state.finished
  ended : ∀ id ∈ state.finished, id ∈ state.issued
  once : state.finished.Nodup
  matched : ∀ result ∈ state.results, result.held = result.asked
  kept : ∀ id ∈ state.issued, id ∈ state.finished ∨ ∃ tag, state.table tag = some id
  traced : ∀ id ∈ state.issued,
    id ∈ state.finished ∨ id ∈ state.dropped ∨ ∃ token ∈ state.tokens, token.2 = id

omit [DecidableEq Tag] in
theorem sound_start : Sound (State.start : State Tag Id Answer) where
  pending := nofun
  distinct := List.nodup_nil
  listed := nofun
  unique := nofun
  unfinished := nofun
  ended := nofun
  once := List.nodup_nil
  matched := nofun
  kept := nofun
  traced := nofun

omit [DecidableEq Tag] in
theorem Sound.move {state next : State Tag Id Answer} (sound : Sound state)
    (table : next.table = state.table) (issued : next.issued = state.issued)
    (results : next.results = state.results) (known : ∀ token ∈ next.tokens, token ∈ state.tokens)
    (distinct : (next.tokens.map Prod.fst).Nodup) (more : state.dropped ⊆ next.dropped)
    (lost : ∀ token ∈ state.tokens, token ∈ next.tokens ∨ token.2 ∈ next.dropped) : Sound next := by
  have finished : next.finished = state.finished := congrArg (List.map Result.held) results
  refine ⟨fun token member => ?_, distinct, ?_, ?_, ?_, ?_, ?_, ?_, ?_, fun id member => ?_⟩
  · rw [table]
    exact sound.pending token (known token member)
  · rw [table, issued]
    exact sound.listed
  · rw [table]
    exact sound.unique
  · rw [table, finished]
    exact sound.unfinished
  · rw [finished, issued]
    exact sound.ended
  · rw [finished]
    exact sound.once
  · rw [results]
    exact sound.matched
  · rw [issued, finished, table]
    exact sound.kept
  · rw [issued] at member
    rw [finished]
    rcases sound.traced id member with done | gone | ⟨token, present, rfl⟩
    · exact Or.inl done
    · exact Or.inr (Or.inl (more gone))
    · rcases lost token present with still | gone
      · exact Or.inr (Or.inr ⟨token, still, rfl⟩)
      · exact Or.inr (Or.inl gone)

theorem update_eq_some {table : Tag → Option Id} {tag other : Tag} {value : Option Id} {id : Id}
    (found : Function.update table tag value other = some id) :
    other = tag ∧ value = some id ∨ other ≠ tag ∧ table other = some id := by
  by_cases same : other = tag
  · subst same
    rw [Function.update_self] at found
    exact Or.inl ⟨rfl, found⟩
  · rw [Function.update_of_ne same] at found
    exact Or.inr ⟨same, found⟩

theorem update_none_eq_some {table : Tag → Option Id} {tag other : Tag} {id : Id}
    (found : Function.update table tag none other = some id) :
    other ≠ tag ∧ table other = some id := by
  rcases update_eq_some found with ⟨-, clash⟩ | old
  · cases clash
  · exact old

theorem Sound.issue {state : State Tag Id Answer} (sound : Sound state) {tag : Tag} {id : Id}
    (free : state.table tag = none) (fresh : id ∉ state.issued) :
    Sound { state with
      table := Function.update state.table tag (some id)
      requests := state.requests ++ [(tag, id)]
      issued := state.issued ++ [id] } := by
  have elsewhere (other : Tag) (held : Id) (found : state.table other = some held) :
      other ≠ tag := by
    rintro rfl
    rw [free] at found
    cases found
  have updated (other : Tag) (held : Id)
      (found : Function.update state.table tag (some id) other = some held) :
      other = tag ∧ held = id ∨ other ≠ tag ∧ state.table other = some held :=
    (update_eq_some found).imp_left fun new => ⟨new.1, (Option.some.inj new.2).symm⟩
  have unused : id ∉ state.finished := fun member => fresh (sound.ended id member)
  have tokens : ∀ token, token ∈ (state.requests ++ [(tag, id)]) ++ state.answers.map Prod.fst ↔
      token = (tag, id) ∨ token ∈ state.tokens := by
    intro token
    simp only [State.tokens, List.mem_append, List.mem_singleton]
    tauto
  refine ⟨fun token member => ?_, ?_, fun other held found => ?_,
    fun left right held first second => ?_,
    fun other held found => ?_, fun other member => ?_, sound.once, sound.matched,
      fun other member => ?_,
    fun other member => ?_⟩
  · rcases (tokens token).mp member with rfl | old
    · exact Function.update_self ..
    · have found := sound.pending token old
      exact (Function.update_of_ne (elsewhere _ _ found) ..).trans found
  · have absent : tag ∉ state.tokens.map Prod.fst := by
      intro member
      obtain ⟨token, old, rfl⟩ := List.mem_map.mp member
      exact elsewhere _ _ (sound.pending token old) rfl
    have order : ((state.requests ++ [(tag, id)]) ++ state.answers.map Prod.fst).Perm
        ((tag, id) :: state.tokens) := by
      rw [List.append_assoc]
      exact List.perm_middle
    refine ((order.map Prod.fst).nodup_iff).mpr ?_
    exact List.nodup_cons.mpr ⟨absent, sound.distinct⟩
  · rcases updated other held found with ⟨-, rfl⟩ | ⟨-, old⟩
    · simp
    · exact List.mem_append_left _ (sound.listed other held old)
  · rcases updated left held first with ⟨rfl, rfl⟩ | ⟨-, oldLeft⟩
    · rcases updated right held second with ⟨rfl, -⟩ | ⟨-, oldRight⟩
      · rfl
      · exact absurd (sound.listed right held oldRight) fresh
    · rcases updated right held second with ⟨-, rfl⟩ | ⟨-, oldRight⟩
      · exact absurd (sound.listed left held oldLeft) fresh
      · exact sound.unique left right held oldLeft oldRight
  · rcases updated other held found with ⟨-, rfl⟩ | ⟨-, old⟩
    · exact unused
    · exact sound.unfinished other held old
  · exact List.mem_append_left _ (sound.ended other member)
  · rcases List.mem_append.mp member with old | new
    · rcases sound.kept other old with done | ⟨holder, found⟩
      · exact Or.inl done
      · exact Or.inr ⟨holder, (Function.update_of_ne (elsewhere _ _ found) ..).trans found⟩
    · rw [List.mem_singleton.mp new]
      exact Or.inr ⟨tag, Function.update_self ..⟩
  · rcases List.mem_append.mp member with old | new
    · rcases sound.traced other old with done | gone | ⟨token, present, same⟩
      · exact Or.inl done
      · exact Or.inr (Or.inl gone)
      · exact Or.inr (Or.inr ⟨token, (tokens token).mpr (Or.inr present), same⟩)
    · exact Or.inr
        (Or.inr ⟨(tag, id), (tokens _).mpr (Or.inl rfl), (List.mem_singleton.mp new).symm⟩)

theorem Sound.finish {state : State Tag Id Answer} (sound : Sound state) {token : Token Tag Id}
    {answer : Answer} {rest : List (Token Tag Id × Answer)} {held : Id}
    (next : state.answers = (token, answer) :: rest) (found : state.table token.1 = some held) :
    Sound { state with
      table := Function.update state.table token.1 none
      answers := rest
      results := state.results ++ [⟨held, token.2, answer⟩] } := by
  have updated (other : Tag) (id : Id)
      (still : Function.update state.table token.1 none other = some id) :
      other ≠ token.1 ∧ state.table other = some id := update_none_eq_some still
  have order : state.tokens.Perm (token :: (state.requests ++ rest.map Prod.fst)) := by
    rw [State.tokens, next]
    exact List.perm_middle
  have distinct := ((order.map Prod.fst).nodup_iff).mp sound.distinct
  rw [List.map_cons, List.nodup_cons] at distinct
  have mine := sound.pending token (order.mem_iff.mpr (List.mem_cons_self ..))
  have finished : (state.results ++ [Result.mk held token.2 answer]).map Result.held =
      state.finished ++ [held] := by
    rw [List.map_append]
    rfl
  refine ⟨fun other member => ?_, distinct.2, fun other id still => ?_,
    fun left right id first second => ?_,
    fun other id still => ?_, ?_, ?_, ?_, fun id member => ?_, fun id member => ?_⟩
  · have apart : other.1 ≠ token.1 := fun same =>
      distinct.1 (same ▸ List.mem_map_of_mem member)
    exact (Function.update_of_ne apart ..).trans
      (sound.pending other (order.mem_iff.mpr (List.mem_cons_of_mem _ member)))
  · exact sound.listed other id (updated other id still).2
  · exact sound.unique left right id (updated left id first).2 (updated right id second).2
  · rw [State.finished, finished, List.mem_append, List.mem_singleton]
    obtain ⟨apart, old⟩ := updated other id still
    rintro (done | rfl)
    · exact sound.unfinished other id old done
    · exact apart (sound.unique other token.1 id old found)
  · rw [State.finished, finished]
    intro id member
    rcases List.mem_append.mp member with done | last
    · exact sound.ended id done
    · rw [List.mem_singleton.mp last]
      exact sound.listed token.1 held found
  · rw [State.finished, finished]
    refine List.nodup_append.mpr ⟨sound.once, List.nodup_singleton _, fun id done other last => ?_⟩
    rw [List.mem_singleton.mp last]
    rintro rfl
    exact sound.unfinished token.1 id found done
  · intro result member
    rcases List.mem_append.mp member with old | last
    · exact sound.matched result old
    · rw [List.mem_singleton.mp last]
      exact Option.some.inj (found.symm.trans mine)
  · rw [State.finished, finished, List.mem_append, List.mem_singleton]
    rcases sound.kept id member with done | ⟨tag, still⟩
    · exact Or.inl (Or.inl done)
    · by_cases same : tag = token.1
      · subst same
        exact Or.inl (Or.inr (Option.some.inj (still.symm.trans found)))
      · exact Or.inr ⟨tag, (Function.update_of_ne same ..).trans still⟩
  · rw [State.finished, finished, List.mem_append, List.mem_singleton]
    rcases sound.traced id member with done | gone | ⟨other, present, rfl⟩
    · exact Or.inl (Or.inl done)
    · exact Or.inr (Or.inl gone)
    · rcases List.mem_cons.mp (order.mem_iff.mp present) with rfl | still
      · exact Or.inl (Or.inr (Option.some.inj (mine.symm.trans found)))
      · exact Or.inr (Or.inr ⟨other, still, rfl⟩)

theorem Sound.step {before after : State Tag Id Answer} (sound : Sound before)
    (step : Step before after) :
    Sound after := by
  cases step with
  | issue tag id free fresh => exact sound.issue free fresh
  | serve token rest answer next =>
      have order : State.tokens
          { before with requests := rest, answers := before.answers ++ [(token, answer)] }
          |>.Perm before.tokens := by
        simp only [State.tokens, next, List.map_append, List.map_cons, List.map_nil,
          List.cons_append]
        rw [← List.append_assoc]
        exact List.perm_append_singleton token (rest ++ before.answers.map Prod.fst)
      exact sound.move rfl rfl rfl (fun other member => order.mem_iff.mp member)
        (((order.map Prod.fst).nodup_iff).mpr sound.distinct) (List.Subset.refl _)
        fun other member => Or.inl (order.mem_iff.mpr member)
  | drop token rest next =>
      have split : before.tokens = token :: (rest ++ before.answers.map Prod.fst) := by
        rw [State.tokens, next]
        rfl
      have distinct := sound.distinct
      rw [split, List.map_cons, List.nodup_cons] at distinct
      refine sound.move rfl rfl rfl (fun other member => ?_) distinct.2
        (List.subset_append_left _ _) fun other member => ?_
      · rw [split]
        exact List.mem_cons_of_mem _ member
      · rw [split] at member
        rcases List.mem_cons.mp member with rfl | still
        · exact Or.inr (List.mem_append_right _ (List.mem_singleton.mpr rfl))
        · exact Or.inl still
  | finish token answer rest held next found => exact sound.finish next found

end Exchange
