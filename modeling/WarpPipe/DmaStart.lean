import WarpPipe.DmaChannels
import WarpPipe.Library.LinkChain

/-!
The loop of `dma_emul_start` follows the links between channels. Configurations are checked one at a
time and their links not at all, so it depends on all of them together whether the loop ends.
-/

namespace WarpPipe

open LinkChain Relation

variable {w channels requests : Nat}

def DmaDevice.linked (device : DmaDevice w channels requests) (channel : Nat) : Option Nat :=
  match device.xferAt channel with
  | .ok desc =>
    if desc.config.sourceChainingEn || desc.config.destChainingEn
      then some desc.config.linkedChannel
    else none
  | .error _ => none

variable {device : DmaDevice w channels requests}

theorem DmaDevice.config_withState (channel : Fin channels) (state : DmaChannelState)
    (other : Fin channels) :
    ((device.withState channel state).xfer other).config = (device.xfer other).config := by
  unfold withState
  dsimp only
  by_cases same : other = channel
  · rw [same, Function.update_self]
  · rw [Function.update_of_ne same]

theorem DmaDevice.linked_withState (channel : Fin channels) (state : DmaChannelState) :
    (device.withState channel state).linked = device.linked := by
  funext other
  unfold linked xferAt
  by_cases inside : other < channels
  · simp only [dif_pos inside, config_withState]
  · simp only [dif_neg inside]

theorem markStarted_succ (asserts : Bool) (fuel : Nat) {channel : Nat}
    (inside : channel < channels) :
    markStarted asserts (fuel + 1) device channel =
      match device.linked channel with
      | none => .ok (device.withState ⟨channel, inside⟩ .started, [channel])
      | some other =>
        (markStarted asserts fuel (device.withState ⟨channel, inside⟩ .started) other).map
          fun result => (result.1, channel :: result.2) := by
  rw [markStarted, dmaEmulSetChannelState_eq inside]
  have desc : (device.withState ⟨channel, inside⟩ .started).xferAt channel =
      .ok ⟨(device.xfer ⟨channel, inside⟩).config, .started⟩ := by
    simp only [DmaDevice.xferAt_of_lt inside, DmaDevice.withState, Function.update_self]
  have linked : device.linked channel =
      if (device.xfer ⟨channel, inside⟩).config.sourceChainingEn ||
          (device.xfer ⟨channel, inside⟩).config.destChainingEn then
        some (device.xfer ⟨channel, inside⟩).config.linkedChannel
      else none := by
    simp only [DmaDevice.linked, DmaDevice.xferAt_of_lt inside]
  simp only [Bind.bind, Except.bind, desc, linked]
  split
  · simp only [Except.map]
    split <;> simp_all [Pure.pure, Except.pure]
  · rfl

theorem markStarted_outside (asserts : Bool) (fuel : Nat) {channel : Nat}
    (outside : ¬channel < channels) (result : DmaDevice w channels requests × List Nat) :
    markStarted asserts fuel device channel ≠ .ok result := by
  cases fuel with
  | zero =>
      intro impossible
      cases impossible
  | succ fuel =>
      cases asserts <;>
        simp [markStarted, dmaEmulSetChannelState, assertNoMsg, outside,
          DmaDevice.xferAt, Bind.bind, Except.bind]

theorem markStarted_ok_iff (asserts : Bool) (fuel channel : Nat) (visited : List Nat) :
    (∃ marked, markStarted asserts fuel device channel = .ok (marked, visited)) ↔
      follow device.linked fuel channel = some visited ∧ ∀ other ∈ visited, other < channels := by
  induction fuel generalizing device channel visited with
  | zero =>
      constructor
      · rintro ⟨marked, impossible⟩
        cases impossible
      · rintro ⟨impossible, -⟩
        cases impossible
  | succ fuel ih =>
      by_cases inside : channel < channels
      · rw [markStarted_succ asserts fuel inside]
        cases link : device.linked channel with
        | none =>
            rw [follow_end link]
            constructor
            · rintro ⟨marked, ok⟩
              cases ok
              exact ⟨rfl, by simpa using inside⟩
            · rintro ⟨ends, -⟩
              cases ends
              exact ⟨_, rfl⟩
        | some other =>
            have later : ∀ rest, (∃ marked, markStarted asserts fuel
                (device.withState ⟨channel, inside⟩ .started) other = .ok (marked, rest)) ↔
                follow device.linked fuel other = some rest ∧
                  ∀ element ∈ rest, element < channels := by
              intro rest
              rw [ih, DmaDevice.linked_withState]
            rw [follow_link link]
            simp only
            constructor
            · rintro ⟨marked, ok⟩
              obtain ⟨after, result, same⟩ := ok_of_map_ok ok
              cases same
              obtain ⟨ends, within⟩ := (later after.2).mp ⟨after.1, result⟩
              refine ⟨by rw [ends, Option.map_some], ?_⟩
              intro element member
              rcases List.mem_cons.mp member with rfl | member
              · exact inside
              · exact within element member
            · rintro ⟨ends, within⟩
              obtain ⟨rest, endsRest, rfl⟩ := Option.map_eq_some_iff.mp ends
              obtain ⟨marked, ok⟩ := (later rest).mpr
                ⟨endsRest, fun element member => within element (List.mem_cons_of_mem _ member)⟩
              exact ⟨marked, by rw [ok]; rfl⟩
      · constructor
        · rintro ⟨marked, ok⟩
          exact absurd ok (markStarted_outside asserts _ inside _)
        · rintro ⟨ends, within⟩
          have first : channel ∈ visited := (mem_follow ends channel).mpr .refl
          exact absurd (within channel first) inside

/-- The loop ends inside the array exactly if every channel in reach is one of the device and on no
cycle of links. -/
theorem markStarted_ends_iff (asserts : Bool) (channel : Nat) :
    (∃ fuel marked visited, markStarted asserts fuel device channel = .ok (marked, visited) ∧
      ∀ other ∈ visited, other < channels) ↔
    ∀ other, ReflTransGen (Link device.linked) channel other →
      other < channels ∧ ¬TransGen (Link device.linked) other other := by
  have all : (∃ fuel visited, follow device.linked fuel channel = some visited ∧
      ∀ other ∈ visited, other < channels) ↔ _ := follow_within_iff (Set.finite_lt_nat channels)
  refine Iff.trans ?_ all
  constructor
  · rintro ⟨fuel, marked, visited, ok, -⟩
    exact ⟨fuel, visited, (markStarted_ok_iff asserts fuel channel visited).mp ⟨marked, ok⟩⟩
  · rintro ⟨fuel, visited, ends⟩
    obtain ⟨marked, ok⟩ := (markStarted_ok_iff asserts fuel channel visited).mpr ends
    exact ⟨fuel, marked, visited, ok, ends.2⟩

def DmaDevice.StartsLoop (device : DmaDevice w channels requests) (created : Int) (channel : Nat) :
    Prop :=
  created ≠ -1 ∧
    ∃ desc, device.xferAt channel = .ok desc ∧ (desc.state = .loaded ∨ desc.state = .stopped)

theorem dmaEmulStart_loop (asserts : Bool) (fuel : Nat) {created : Int} (submitted : Int)
    {channel : Nat} (starts : device.StartsLoop created channel) :
    dmaEmulStart asserts fuel created submitted device channel =
      (markStarted asserts fuel device channel).map fun marked =>
        ⟨if submitted < 0 then submitted else 0, marked.1, marked.2, some channel⟩ := by
  obtain ⟨connected, desc, found, ready⟩ := starts
  by_cases inside : channel < channels
  · rw [device.xferAt_of_lt inside] at found
    cases found
    rw [dmaEmulStart, if_neg (by omega), if_neg connected, dmaEmulGetChannelState_eq inside]
    rcases ready with state | state
    all_goals
      simp only [Bind.bind, Except.bind, state]
      cases markStarted asserts fuel device channel <;> rfl
  · rw [DmaDevice.xferAt, dif_neg inside] at found
    cases found

theorem dmaEmulStart_returns (asserts : Bool) (fuel : Nat) {created : Int} (submitted : Int)
    {channel : Nat} (skips : ¬device.StartsLoop created channel) :
    ∃ code, dmaEmulStart asserts fuel created submitted device channel =
      .ok ⟨code, device, [], none⟩ := by
  by_cases inside : channel < channels
  · by_cases failed : created = -1
    · exact ⟨-1, by rw [dmaEmulStart, if_neg (by omega), if_pos failed]⟩
    · have desc : device.xferAt channel = .ok (device.xfer ⟨channel, inside⟩) :=
        device.xferAt_of_lt inside
      rw [dmaEmulStart, if_neg (by omega), if_neg failed, dmaEmulGetChannelState_eq inside]
      cases state : (device.xfer ⟨channel, inside⟩).state with
      | unused => exact ⟨-5, rfl⟩
      | started => exact ⟨0, rfl⟩
      | loaded => exact absurd ⟨failed, _, desc, Or.inl state⟩ skips
      | stopped => exact absurd ⟨failed, _, desc, Or.inr state⟩ skips
  · exact ⟨-22, by rw [dmaEmulStart, if_pos (by omega)]⟩

/-- Starting a channel ends, and visits no other channels than those of the device, exactly if the
loop is not run, or if no channel in reach is missing or on a cycle of links. -/
theorem start_chain_ends_iff (asserts : Bool) (created submitted : Int)
    (device : DmaDevice w channels requests) (channel : Nat) :
    (∃ fuel result, dmaEmulStart asserts fuel created submitted device channel = .ok result ∧
      ∀ other ∈ result.visited, other < channels) ↔
    (device.StartsLoop created channel →
      ∀ other, ReflTransGen (Link device.linked) channel other →
        other < channels ∧ ¬TransGen (Link device.linked) other other) := by
  by_cases starts : device.StartsLoop created channel
  · rw [← markStarted_ends_iff asserts]
    constructor
    · rintro ⟨fuel, result, ok, within⟩ -
      rw [dmaEmulStart_loop asserts fuel submitted starts] at ok
      obtain ⟨final, marked, rfl⟩ := ok_of_map_ok ok
      exact ⟨fuel, final.1, final.2, marked, within⟩
    · intro ends
      obtain ⟨fuel, marked, visited, ok, within⟩ := ends starts
      exact ⟨fuel, _, by rw [dmaEmulStart_loop asserts fuel submitted starts, ok]; rfl, within⟩
  · constructor
    · intro _ impossible
      exact absurd impossible starts
    · intro _
      obtain ⟨code, ok⟩ := dmaEmulStart_returns asserts 0 submitted starts
      exact ⟨0, _, ok, by simp⟩

inductive DmaReachable : DmaDevice w channels requests → Prop where
  | init : DmaReachable DmaDevice.init
  | configure {device : DmaDevice w channels requests} {asserts : Bool}
      {heap : Nat → DmaBlockConfig w} {channel : Nat} {config : DmaConfig}
      {result : DmaConfigured w channels requests} :
      DmaReachable device → dmaEmulConfigure asserts heap device channel config = .ok result →
      result.code = 0 → DmaReachable result.device

def linkTo (channel : Nat) : DmaConfig :=
  { plainConfig 0 4 0 none with sourceChainingEn := true, linkedChannel := channel }

/-- An accepted configuration may link a channel to itself, and starting that channel does not end;
or it may link to a channel that the device does not have. -/
theorem linked_start_fails :
    (DmaReachable ((DmaDevice.init : DmaDevice 32 1 1).configured 0 (linkTo 0) []) ∧
      ¬∃ fuel result, dmaEmulStart true fuel 0 1
        ((DmaDevice.init : DmaDevice 32 1 1).configured 0 (linkTo 0) []) 0 = .ok result) ∧
    DmaReachable ((DmaDevice.init : DmaDevice 32 1 1).configured 0 (linkTo 5) []) ∧
      dmaEmulStart false 2 0 1 ((DmaDevice.init : DmaDevice 32 1 1).configured 0 (linkTo 5) []) 0 =
        .error .outOfBounds := by
  have accepted : ∀ channel, DmaReachable
      ((DmaDevice.init : DmaDevice 32 1 1).configured 0 (linkTo channel) []) := by
    intro channel
    have ok : dmaEmulConfigure true pairHeap (DmaDevice.init : DmaDevice 32 1 1) 0
        (linkTo channel) = .ok ⟨0, DmaDevice.init.configured 0 (linkTo channel) [], []⟩ :=
      dmaEmulConfigure_free (by rfl) (by decide) (Or.inl rfl) rfl
    exact .configure .init ok rfl
  refine ⟨⟨accepted 0, ?_⟩, accepted 5, rfl⟩
  rintro ⟨fuel, result, ok⟩
  have starts : DmaDevice.StartsLoop
      ((DmaDevice.init : DmaDevice 32 1 1).configured 0 (linkTo 0) []) 0 0 :=
    ⟨by decide, _, rfl, Or.inl rfl⟩
  rw [dmaEmulStart_loop true fuel 1 starts] at ok
  obtain ⟨final, marked, -⟩ := ok_of_map_ok ok
  have ends := (markStarted_ok_iff true fuel 0 final.2).mp ⟨final.1, marked⟩
  have noCycle := not_cycle_of_acc (acc_of_follow ends.1)
  exact noCycle (.single rfl)

end WarpPipe
