import WarpPipe.Registrations
import WarpPipe.SentRequests
import WarpPipe.BarDecoding

/-!
A registration over the life of a client. The 32 bits that `warppipe_register_bar` keeps of the base
also say whether the index is in use.
-/

namespace WarpPipe

open ByteLayout

variable {σ : Type}

theorem Registry.after_bar {registry : Registry} {index : Fin 6} (used : registry.bar index ≠ 0)
    (call : Call) :
    (registry.after call).bar index = registry.bar index := by
  cases call with
  | registerBar bar barSize barIdx readCb writeCb =>
      rw [Registry.after]
      split
      · rfl
      · rename_i free
        split
        · rfl
        · refine Function.update_of_ne (fun same => ?_) ..
          rw [same] at used
          exact free used
  | _ => rfl

theorem Registry.foldl_bar {registry : Registry} {index : Fin 6} (used : registry.bar index ≠ 0)
    (calls : List Call) :
    (calls.foldl Registry.after registry).bar index = registry.bar index := by
  induction calls generalizing registry with
  | nil => rfl
  | cons call rest ih =>
      have same := Registry.after_bar used call
      rw [List.foldl_cons, ih (by rwa [same]), same]

theorem clientStep_bar {cbs : Callbacks σ} {world next : World σ} {index : Fin 6}
    (used : world.client.bar index ≠ 0) {action : Action}
    (stepped : clientStep cbs world action = .ok next) :
    next.client.bar index = world.client.bar index := by
  cases action with
  | call call =>
      obtain ⟨rc, ran⟩ := clientStep_call_run stepped
      have registry := Call.run_registry ran
      exact (congrArg (Registry.bar · index) registry).trans (Registry.after_bar used call)
  | receive arrived =>
      rcases clientRead_reregistered stepped with ⟨-, registry⟩ | ⟨calls, -, registry⟩
      · exact congrArg (Registry.bar · index) registry
      · exact (congrArg (Registry.bar · index) registry).trans (Registry.foldl_bar used calls)

theorem run_bar {cbs : Callbacks σ} {world final : World σ} {index : Fin 6}
    (used : world.client.bar index ≠ 0) {actions : List Action}
    (ran : Runs.run (clientStep cbs) world actions = .ok final) :
    final.client.bar index = world.client.bar index := by
  have keeps (state : World σ) (action : Action) (next : World σ)
      (same : state.client.bar index = world.client.bar index) (_ : True)
      (stepped : clientStep cbs state action = .ok next) : next.client.bar index =
        world.client.bar index :=
    (clientStep_bar (by rwa [same]) stepped).trans same
  exact Runs.run_invariant keeps rfl (Runs.along_of_forall _ fun _ _ => trivial) ran

/-- The index is taken, and its requests go to the base that was asked for. -/
structure Registered (world : World σ) (index : Fin 6) (base : BitVec 64) : Prop where
  taken : ∀ bar barSize readCb writeCb,
    warppipeRegisterBar world.client bar barSize index readCb writeCb = (-1, world.client)
  read : ∀ offset length cb, ∃ rc next packet, warppipeRead world index offset length cb =
      .ok (rc, next) ∧
    sentPackets world next = [packet] ∧ tlpReqGetAddr (packet.drop Transport.tTlp) =
      (base + offset) &&& ~~~3
  write : ∀ junk offset (data : Bytes) (length : Nat), length ≤ data.length →
    1 ≤ (base + offset).toNat % 4 + length →
    ∃ rc next packet, warppipeWrite world junk index offset data length = .ok (rc, next) ∧
      sentPackets world next = [packet] ∧ tlpReqGetAddr (packet.drop Transport.tTlp) =
        (base + offset) &&& ~~~3

theorem registered_of_bar {world : World σ} {index : Fin 6} {base : BitVec 64}
    (held : world.client.bar index = base.setWidth 32) (used : 0 < base.toNat)
    (low : base.toNat < 2 ^ 32) :
    Registered world index base := by
  have extended : (world.client.bar index).setWidth 64 = base := by
    apply BitVec.eq_of_toNat_eq
    rw [held, BitVec.toNat_setWidth, BitVec.toNat_setWidth, Nat.mod_eq_of_lt low,
      Nat.mod_eq_of_lt base.isLt]
  have set : world.client.bar index ≠ 0 := by
    rw [held]
    exact setWidth_ne_zero used low
  refine ⟨fun bar barSize readCb writeCb => if_pos set, fun offset length cb => ?_,
    fun junk offset data length available nonempty => ?_⟩
  · rw [warppipeRead, if_neg set, extended]
    obtain ⟨rc, next, ran, sends⟩ := readImp_sends world (.inl rfl) (base + offset) length cb
    exact ⟨rc, next, _, ran, sends.packets,
      (requests_readPacketOf world (.inl rfl) (base + offset) length).address⟩
  · rw [warppipeWrite, if_neg set, extended]
    obtain ⟨rc, next, ran, sends⟩ :=
      writeImp_sends world junk (.inl rfl) (base + offset) data available nonempty
    have requests := requests_sealedWrite (world.client.seqno + 1) junk (.inl rfl) (base + offset)
      (show 1 ≤ (base + offset).toNat % 4 + (data.take length).length by
        rwa [List.length_take, Nat.min_eq_left available])
    exact ⟨rc, next, _, ran, sends.packets, requests.address⟩

theorem base_of_registered {world : World σ} {index : Fin 6} {base : BitVec 64}
    (held : world.client.bar index = base.setWidth 32) (registered : Registered world index base) :
    0 < base.toNat ∧ base.toNat < 2 ^ 32 := by
  have set : world.client.bar index ≠ 0 := by
    intro zero
    have again := registered.taken 0 4 none none
    rw [warppipeRegisterBar, if_neg (not_not.mpr zero), if_neg (by decide)] at again
    have clash : (0 : Int) = -1 := congrArg Prod.fst again
    exact absurd clash (by decide)
  have extended : ((world.client.bar index).setWidth 64).toNat = base.toNat % 2 ^ 32 := by
    rw [held, BitVec.toNat_setWidth, BitVec.toNat_setWidth]
    omega
  -- a read at offset 0 shows the bits of the base that were kept
  obtain ⟨rc, next, packet, ran, packets, address⟩ := registered.read 0 1 none
  obtain ⟨otherRc, other, same, sends⟩ :=
    readImp_sends world (.inl rfl) ((world.client.bar index).setWidth 64 + 0) 1 none
  rw [warppipeRead, if_neg set, same] at ran
  cases ran
  rw [sends.packets] at packets
  cases packets
  rw [(requests_readPacketOf world (.inl rfl) _ 1).address, add_zero, add_zero] at address
  have rounded := congrArg BitVec.toNat address
  rw [toNat_and_not_three, toNat_and_not_three, extended] at rounded
  have low : base.toNat < 2 ^ 32 := by omega
  refine ⟨Nat.pos_of_ne_zero fun zero => set ?_, low⟩
  rw [held, BitVec.eq_of_toNat_eq (show base.toNat = (0 : BitVec 64).toNat from zero)]
  rfl

theorem accepted_bar {client after : Client} {base : BitVec 64} {barSize : BitVec 32}
    {index : Fin 6} {readCb writeCb : Option FnPtr}
    (accepted : warppipeRegisterBar client base barSize index readCb writeCb = (0, after)) :
    after.bar index = base.setWidth 32 := by
  rcases registerBar_cases client base barSize index readCb writeCb with refused | ⟨-, -, changed⟩
  · cases refused.symm.trans accepted
  · cases changed.symm.trans accepted
    exact Function.update_self ..

/-- A registration that returned 0 is exact and final, whatever the client does later, iff its base
is not 0 and has 32 bits. -/
theorem registration_final_iff {world : World σ} {base : BitVec 64} {barSize : BitVec 32}
    {index : Fin 6} {readCb writeCb : Option FnPtr} {client : Client}
    (accepted : warppipeRegisterBar world.client base barSize index readCb writeCb = (0, client)) :
    (∀ (cbs : Callbacks σ) (actions : List Action) (final : World σ),
        Runs.run (clientStep cbs) { world with client := client } actions = .ok final →
        Registered final index base) ↔
      0 < base.toNat ∧ base.toNat < 2 ^ 32 := by
  have held := accepted_bar accepted
  constructor
  · intro always
    exact base_of_registered held (always silentCallbacks [] _ rfl)
  · rintro ⟨used, low⟩ cbs actions final ran
    have set : client.bar index ≠ 0 := by
      rw [held]
      exact setWidth_ne_zero used low
    exact registered_of_bar ((run_bar set ran).trans held) used low

theorem low_base_final :
    (warppipeRegisterBar (clientWith []).client 0x1000 0x1000 0 (some 7) (some 8)).1 = 0 ∧
      Registered (withBars [barAt 0x1000 0] []) 0 0x1000 := by
  have accepted : warppipeRegisterBar (clientWith []).client 0x1000 0x1000 0 (some 7) (some 8) =
      (0, (withBars [barAt 0x1000 0] []).client) := rfl
  exact ⟨congrArg Prod.fst accepted,
    (registration_final_iff accepted).mpr (by decide) silentCallbacks [] _ rfl⟩

/-- Of a base of 4 GiB nothing is kept: the BAR can be registered again, and cannot be read. Of a
base above it the lower bits are kept, and the BAR is read 4 GiB too low. -/
theorem high_base_lost :
    (warppipeRegisterBar (clientWith []).client 0x100000000 0x1000 0 (some 7) (some 8)).1 = 0 ∧
    (warppipeRegisterBar (withBars [barAt 0x100000000 0] []).client 0x2000 0x1000 0 (some 7)
      (some 8)).1 = 0 ∧
    (warppipeRead (withBars [barAt 0x100000000 0] []) 0 0 4 (some 9)).map Prod.fst = .ok (-1) ∧
    (warppipeRead (withBars [barAt 0x100001000 0] []) 0 0 4 (some 9)).map (fun result =>
      (result.1, (sentPackets (withBars [barAt 0x100001000 0] []) result.2).map fun packet =>
        tlpReqGetAddr (packet.drop Transport.tTlp))) = .ok (0, [0x1000]) := by
  decide +kernel

end WarpPipe
