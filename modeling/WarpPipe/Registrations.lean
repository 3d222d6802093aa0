import WarpPipe.Trace

/-!
What a client has registered, and how it changes: by the registrations among its requests, and by
nothing else that a client does.
-/

namespace WarpPipe

open ByteLayout

variable {σ : Type}

structure Registry where
  bar : Fin 6 → BitVec 32
  barSize : Fin 6 → BitVec 32
  barReadCb : Fin 6 → Option FnPtr
  barWriteCb : Fin 6 → Option FnPtr
  cfg0ReadCb : Option FnPtr
  cfg0WriteCb : Option FnPtr

def Client.registry (client : Client) : Registry where
  bar := client.bar
  barSize := client.barSize
  barReadCb := client.barReadCb
  barWriteCb := client.barWriteCb
  cfg0ReadCb := client.cfg0ReadCb
  cfg0WriteCb := client.cfg0WriteCb

def Registry.after (registry : Registry) : Call → Registry
  | .registerBar bar barSize barIdx readCb writeCb =>
    if registry.bar barIdx ≠ 0 then registry
    else if barSize = 0 ∨ barSize &&& (barSize - 1) ≠ 0 then registry
    else { registry with
      bar := Function.update registry.bar barIdx (bar.setWidth 32)
      barSize := Function.update registry.barSize barIdx barSize
      barReadCb := Function.update registry.barReadCb barIdx readCb
      barWriteCb := Function.update registry.barWriteCb barIdx writeCb }
  | .registerConfig0ReadCb readCb => { registry with cfg0ReadCb := readCb }
  | .registerConfig0WriteCb writeCb => { registry with cfg0WriteCb := writeCb }
  | _ => registry

theorem registry_registerBar (client : Client) (bar : BitVec 64) (barSize : BitVec 32)
    (barIdx : Fin 6) (readCb writeCb : Option FnPtr) :
    (warppipeRegisterBar client bar barSize barIdx readCb writeCb).2.registry =
      client.registry.after (.registerBar bar barSize barIdx readCb writeCb) := by
  by_cases used : client.bar barIdx ≠ 0
  · rw [warppipeRegisterBar, if_pos used]
    exact (if_pos used).symm
  · by_cases odd : barSize = 0 ∨ barSize &&& (barSize - 1) ≠ 0
    · rw [warppipeRegisterBar, if_neg used, if_pos odd]
      exact ((if_neg used).trans (if_pos odd)).symm
    · rw [warppipeRegisterBar, if_neg used, if_neg odd]
      exact ((if_neg used).trans (if_neg odd)).symm

theorem registry_push (world : World σ) (packet : Bytes) :
    (push world packet).2.client.registry = world.client.registry := by
  rw [push_client]
  split <;> rfl

theorem registry_readImp {world next : World σ} {type : PcieTlpType} (isRead : ReadType type)
    {addr : BitVec 64} {length rc : Int} {cb : Option FnPtr}
    (ok : warppipeReadImp world addr length cb type = .ok (rc, next)) :
    next.client.registry = world.client.registry := by
  rw [warppipeReadImp_eq world isRead, Except.ok.injEq] at ok
  have same := (afterRead_world world type addr length cb).symm.trans (congrArg Prod.snd ok)
  rw [← show _ = next from same, sentRead]
  split <;> exact registry_push _ _

theorem registry_writeImp {world next : World σ} {junk : Nat → Byte} {type : PcieTlpType}
    (isWrite : WriteType type) {addr : BitVec 64} {data : Bytes} {length rc : Int}
    (ok : warppipeWriteImp world junk addr data length type = .ok (rc, next)) :
    next.client.registry = world.client.registry := by
  obtain ⟨tport, -, rfl⟩ := writeImp_pushes isWrite ok
  exact registry_push _ _

theorem Call.run_registry {world next : World σ} {call : Call} {rc : Int}
    (ok : call.run world = .ok (rc, next)) :
    next.client.registry = world.client.registry.after call := by
  cases call with
  | registerBar bar barSize barIdx readCb writeCb =>
      cases ok
      exact registry_registerBar ..
  | registerConfig0ReadCb readCb =>
      cases ok
      rfl
  | registerConfig0WriteCb writeCb =>
      cases ok
      rfl
  | read barIdx addr length cb =>
      simp only [Call.run, warppipeRead] at ok
      split at ok
      · cases ok
        rfl
      · exact registry_readImp (Or.inl rfl) ok
  | config0Read addr length cb => exact registry_readImp (Or.inr rfl) ok
  | write junk barIdx addr data length =>
      simp only [Call.run, warppipeWrite] at ok
      split at ok
      · cases ok
        rfl
      · exact registry_writeImp (Or.inl rfl) ok
  | config0Write junk addr data length => exact registry_writeImp (Or.inr rfl) ok

theorem runCalls_registry {world final : World σ} {calls : List Call}
    (ok : runCalls world calls = .ok final) :
    final.client.registry = calls.foldl Registry.after world.client.registry := by
  induction calls generalizing world with
  | nil =>
      cases ok
      rfl
  | cons call rest ih =>
      simp only [runCalls, bind, Except.bind] at ok
      split at ok
      · cases ok
      · rename_i result ran
        rw [ih ok, Call.run_registry ran]
        rfl

/-- A callback was invoked: the requests it made and the application it left. A callback for reads
or writes is one of a BAR, or the one for the configuration space. -/
inductive Invoked (cbs : Callbacks σ) (registry : Registry) (pkt : Bytes) (app : σ) :
    List Call → σ → Prop where
  | read (cb : FnPtr) (addr : BitVec 64) (length : Int)
      (routed : (∃ barIdx, registry.barReadCb barIdx = some cb) ∨
        tlpTypeOf pkt = some .cr0 ∧ registry.cfg0ReadCb = some cb) :
      Invoked cbs registry pkt app (cbs.read cb app addr length).calls
        (cbs.read cb app addr length).app
  | write (cb : FnPtr) (addr : BitVec 64) (data : Bytes) (length : Int)
      (routed : (∃ barIdx, registry.barWriteCb barIdx = some cb) ∨
        (tlpTypeOf pkt = some .cw0 ∧ length = tlpDataLengthBytes pkt) ∧
          registry.cfg0WriteCb = some cb) :
      Invoked cbs registry pkt app (cbs.write cb app addr data length).calls
        (cbs.write cb app addr data length).app
  | completion (cb : FnPtr) (data : Bytes) (length : Int) :
      Invoked cbs registry pkt app (cbs.completion cb app 0 data length).calls
        (cbs.completion cb app 0 data length).app

def Reregistered (cbs : Callbacks σ) (pkt : Bytes) (world final : World σ) : Prop :=
  (final.app = world.app ∧ final.client.registry = world.client.registry) ∨
    ∃ calls, Invoked cbs world.client.registry pkt world.app calls final.app ∧
      final.client.registry = calls.foldl Registry.after world.client.registry

theorem readTarget_routed {client : Client} {pkt : Bytes} {cb : FnPtr}
    (target : (readTarget client pkt).1 = some cb) :
    (∃ barIdx, client.registry.barReadCb barIdx = some cb) ∨
      tlpTypeOf pkt = some .cr0 ∧ client.registry.cfg0ReadCb = some cb := by
  have bar (addr : BitVec 64) (hit : (barTarget client client.barReadCb addr).1 = some cb) :
      ∃ barIdx, client.registry.barReadCb barIdx = some cb := by
    simp only [barTarget] at hit
    split at hit
    · exact ⟨_, hit⟩
    · cases hit
  simp only [readTarget] at target
  split at target
  · exact .inl (bar _ target)
  · exact .inl (bar _ target)
  · exact .inl (bar _ target)
  · rename_i config
    exact .inr ⟨config, target⟩
  · cases target

theorem writeTarget_routed {client : Client} {pkt : Bytes} {cb : FnPtr}
    (target : (writeTarget client pkt).1 = some cb) :
    (∃ barIdx, client.registry.barWriteCb barIdx = some cb) ∨
      tlpTypeOf pkt = some .cw0 ∧ client.registry.cfg0WriteCb = some cb := by
  have bar (addr : BitVec 64) (hit : (barTarget client client.barWriteCb addr).1 = some cb) :
      ∃ barIdx, client.registry.barWriteCb barIdx = some cb := by
    simp only [barTarget] at hit
    split at hit
    · exact ⟨_, hit⟩
    · cases hit
  simp only [writeTarget] at target
  split at target
  · exact .inl (bar _ target)
  · exact .inl (bar _ target)
  · exact .inl (bar _ target)
  · rename_i config
    exact .inr ⟨config, target⟩
  · cases target

theorem Dispatched.reregistered {cbs : Callbacks σ} {world final : World σ} {pkt : Bytes}
    (handled : Dispatched cbs world pkt final) : Reregistered cbs pkt world final := by
  cases handled with
  | ignored => exact .inl ⟨rfl, rfl⟩
  | read cb addr length middle target ran =>
      have app := (CallSteps.undisturbed (runCalls_ok ran)).app
      have registry := runCalls_registry ran
      refine .inr ⟨_, ?_, (registry_push _ _).trans registry⟩
      rw [push_app, show (bumpSeqno middle).app = middle.app from rfl, app]
      exact .read cb addr length (readTarget_routed target)
  | write cb addr data length final target size ran =>
      have app := (CallSteps.undisturbed (runCalls_ok ran)).app
      have registry := runCalls_registry ran
      refine .inr ⟨_, ?_, registry⟩
      rw [app]
      refine .write cb addr data length ((writeTarget_routed target).imp_right fun config => ?_)
      exact ⟨⟨config.1, size⟩, config.2⟩
  | completion tag cb data length middle stored ran =>
      have app := (CallSteps.undisturbed (runCalls_ok ran)).app
      have registry := runCalls_registry ran
      refine .inr ⟨_, ?_, registry⟩
      rw [show (clearSlot middle tag).app = middle.app from rfl, app]
      exact .completion cb data length

theorem Invoked.congr {cbs : Callbacks σ} {registry : Registry} {pkt other : Bytes} {app after : σ}
    {calls : List Call} (agree : AgreeBelow 8 pkt other)
    (invoked : Invoked cbs registry pkt app calls after) :
    Invoked cbs registry other app calls after := by
  cases invoked with
  | read cb addr length routed =>
      rw [tlpTypeOf_congr (agree.mono (by decide))] at routed
      exact .read cb addr length routed
  | write cb addr data length routed =>
      rw [tlpTypeOf_congr (agree.mono (by decide)), tlpDataLengthBytes_congr agree] at routed
      exact .write cb addr data length routed
  | completion cb data length => exact .completion cb data length

theorem clientRead_reregistered {cbs : Callbacks σ} {world final : World σ}
    (ok : warppipeClientRead cbs world = .ok final) :
    Reregistered cbs (world.sock.incoming.drop Transport.tTlp) world final := by
  rcases clientRead_cases ok with ⟨incoming, recvs, buf, packet, head, handled⟩ |
    ⟨-, app, buf, active, client⟩
  · have result := (handleTlp_dispatched handled).reregistered
    have long := head.complete.long
    have start : Transport.tTlp = 3 := rfl
    have agree := head.stream.drop Transport.tTlp
    rw [Reregistered, push_app, registry_push] at result
    exact result.imp_right fun ⟨calls, invoked, registry⟩ =>
      ⟨calls, invoked.congr (agree.mono (by omega)), registry⟩
  · exact .inl ⟨app, by rw [client]; rfl⟩

end WarpPipe
