import WarpPipe.Handlers

/-!
What a step adds to the log of a client: the packets it sent, the bytes that reached the peer, and
the callbacks it invoked.
-/

namespace WarpPipe

open ByteLayout

variable {σ : Type}

def Event.isInvocation : Event → Bool
  | .readCb .. | .writeCb .. | .completion .. => true
  | _ => false

def Event.output : Event → Bytes
  | .sent bytes count => bytes.take count.toNat
  | _ => []

def Event.sentPacket? : Event → Option Bytes
  | .sent bytes _ => some bytes
  | _ => none

def fresh (before after : World σ) : List Event := after.log.drop before.log.length

def invocations (before after : World σ) : List Event :=
  (fresh before after).filter Event.isInvocation

def transferred (before after : World σ) : Bytes := (fresh before after).flatMap Event.output

def sentPackets (before after : World σ) : List Bytes :=
  (fresh before after).filterMap Event.sentPacket?

theorem fresh_eq {before after : World σ} {events : List Event}
    (log : after.log = before.log ++ events) : fresh before after = events := by
  rw [fresh, log, List.drop_left']
  rfl

def Socket.SendsAll (sock : Socket) : Prop := ∀ step ∈ sock.sends, step = .all

theorem Socket.SendsAll.send {sock : Socket} (sends : sock.SendsAll) (packet : Bytes) :
    (sock.send packet).1 = packet.length ∧ (sock.send packet).2.SendsAll := by
  cases schedule : sock.sends with
  | nil => exact ⟨by rw [Socket.send, schedule], by rwa [Socket.send, schedule]⟩
  | cons step rest =>
      have all : step = .all := sends step (by rw [schedule]; simp)
      subst step
      refine ⟨by rw [Socket.send, schedule], ?_⟩
      rw [Socket.send, schedule]
      intro other member
      exact sends other (by rw [schedule]; exact List.mem_cons_of_mem _ member)

section

variable {world : World σ} (sends : world.sock.SendsAll)

include sends

theorem push_all (packet : Bytes) :
    push world packet = ((packet.length : Int),
      { world with sock := (world.sock.send packet).2 }.emit (.sent packet packet.length)) := by
  have sent := (sends.send packet).1
  simp only [push, sent, if_true]

theorem sentRead_all (tport : Bytes) (cb : Option FnPtr) :
    sentRead world tport cb =
      storeSlot (push (bumpSeqno (bumpTag world)) (sealTlp (world.client.seqno + 1) tport)).2
        world.client.readTag cb := by
  rw [sentRead, if_neg]
  rw [push_failed_iff, not_not]
  exact (sends.send _).1

end

/-! Requests: they send packets, and leave alone what receiving and callbacks own. -/

structure Undisturbed (before after : World σ) : Prop where
  app : after.app = before.app
  buf : after.client.buf = before.client.buf
  incoming : after.sock.incoming = before.sock.incoming
  recvs : after.sock.recvs = before.sock.recvs
  log : ∃ events, after.log = before.log ++ events ∧
    ∀ event ∈ events, (∃ packet count, event = .sent packet count) ∨
      ∃ tag cb, event = .stored tag cb

theorem Undisturbed.refl (world : World σ) : Undisturbed world world :=
  ⟨rfl, rfl, rfl, rfl, [], by simp, by simp⟩

theorem Undisturbed.trans {first second third : World σ} (left : Undisturbed first second)
    (right : Undisturbed second third) : Undisturbed first third := by
  obtain ⟨early, earlyLog, earlyKinds⟩ := left.log
  obtain ⟨late, lateLog, lateKinds⟩ := right.log
  refine ⟨right.app.trans left.app, right.buf.trans left.buf, right.incoming.trans left.incoming,
    right.recvs.trans left.recvs, early ++ late, by rw [lateLog, earlyLog, List.append_assoc], ?_⟩
  intro event member
  rcases List.mem_append.mp member with inEarly | inLate
  · exact earlyKinds event inEarly
  · exact lateKinds event inLate

theorem undisturbed_push (world : World σ) (packet : Bytes) :
    Undisturbed world (push world packet).2 := by
  have sock := send_incoming world.sock packet
  refine ⟨push_app .., ?_, by rw [push_sock, sock.1], by rw [push_sock, sock.2], _, push_log .., ?_⟩
  · rw [push_client]
    split <;> rfl
  · intro event member
    exact Or.inl ⟨_, _, List.mem_singleton.mp member⟩

theorem undisturbed_storeSlot (world : World σ) (tag : Fin 32) (cb : Option FnPtr) :
    Undisturbed world (storeSlot world tag cb) :=
  ⟨rfl, rfl, rfl, rfl, [.stored tag cb], rfl, fun _ member =>
    Or.inr ⟨_, _, List.mem_singleton.mp member⟩⟩

theorem CallStep.undisturbed {world next : World σ} (step : CallStep world next) :
    Undisturbed world next := by
  have tagged (world : World σ) : Undisturbed world (bumpSeqno (bumpTag world)) :=
    ⟨rfl, rfl, rfl, rfl, [], by simp [bumpSeqno, bumpTag], by simp⟩
  have counted (world : World σ) : Undisturbed world (bumpSeqno world) :=
    ⟨rfl, rfl, rfl, rfl, [], by simp [bumpSeqno], by simp⟩
  cases step with
  | registered client same => exact ⟨rfl, same.buf, rfl, rfl, [], by simp, by simp⟩
  | sentWrite tport block => exact (counted world).trans (undisturbed_push _ _)
  | sentRead tport cb block =>
      have sent := (tagged world).trans
        (undisturbed_push (bumpSeqno (bumpTag world)) (sealTlp (world.client.seqno + 1) tport))
      simp only [WarpPipe.sentRead]
      split
      · exact sent
      · exact sent.trans (undisturbed_storeSlot _ _ _)

theorem CallSteps.undisturbed {world final : World σ} (steps : CallSteps world final) :
    Undisturbed world final := by
  induction steps with
  | refl => exact .refl world
  | tail _ step ih => exact ih.trans step.undisturbed

theorem CallStep.active {world next : World σ} (step : CallStep world next)
    (sends : world.sock.SendsAll) :
    next.client.active = world.client.active ∧ next.sock.SendsAll := by
  cases step with
  | registered client same => exact ⟨same.active, sends⟩
  | sentWrite tport block =>
      have pushed : (bumpSeqno world).sock.SendsAll := sends
      rw [push_all pushed]
      exact ⟨rfl, (sends.send _).2⟩
  | sentRead tport cb block =>
      have pushed : (bumpSeqno (bumpTag world)).sock.SendsAll := sends
      rw [sentRead_all sends, push_all pushed]
      exact ⟨rfl, (sends.send _).2⟩

theorem CallSteps.active {world final : World σ} (steps : CallSteps world final)
    (sends : world.sock.SendsAll) :
    final.client.active = world.client.active ∧ final.sock.SendsAll := by
  induction steps with
  | refl => exact ⟨rfl, sends⟩
  | tail _ step ih =>
      obtain ⟨same, still⟩ := step.active ih.2
      exact ⟨same.trans ih.1, still⟩

theorem Undisturbed.grows {before after : World σ} (calls : Undisturbed before after) :
    before.log <+: after.log := by
  obtain ⟨events, log, -⟩ := calls.log
  exact ⟨events, log.symm⟩

theorem Served.grows {world final : World σ} {pkt : Bytes}
    (served : Served world pkt final) :
    world.log <+: final.log := by
  cases served with
  | ignored => exact List.prefix_rfl
  | read cb addr length error data app middle calls =>
      refine ((List.prefix_append _ _).trans (CallSteps.undisturbed calls).grows).trans ?_
      exact (undisturbed_push (bumpSeqno middle) _).grows
  | write cb addr data length app final calls =>
      exact (List.prefix_append _ _).trans (CallSteps.undisturbed calls).grows
  | completion tag cb data length app middle stored calls =>
      exact (List.prefix_append _ _).trans (CallSteps.undisturbed calls).grows

theorem ReadStep.grows {cbs : Callbacks σ} {world final : World σ}
    (step : ReadStep cbs world final) :
    world.log <+: final.log := by
  have pushed (incoming : Bytes) (recvs : List RecvStep) (buf : RecvBuffer) (packet : Bytes) :
      world.log <+:
        (push ((world.refill incoming recvs buf).emit (.packet packet)) (ackOf packet)).2.log :=
    (show world.log <+: ((world.refill incoming recvs buf).emit (.packet packet)).log from
      List.prefix_append _ _).trans (undisturbed_push _ _).grows
  cases step with
  | idle => exact List.prefix_rfl
  | dropped => exact List.prefix_rfl
  | dllp => exact (List.prefix_append _ _).trans (List.prefix_append _ _)
  | corrupted => exact List.prefix_append _ _
  | rejected => exact pushed ..
  | accepted incoming recvs buf packet final handled => exact (pushed ..).trans handled.served.grows

theorem fresh_append {before after : World σ} (grows : before.log <+: after.log) :
    after.log = before.log ++ fresh before after := by
  obtain ⟨events, log⟩ := grows
  rw [fresh_eq log.symm, log]

theorem fresh_trans {first second third : World σ} (left : first.log <+: second.log)
    (right : second.log <+: third.log) :
    fresh first third = fresh first second ++ fresh second third := by
  apply fresh_eq
  rw [fresh_append right, fresh_append left, List.append_assoc]

theorem invocations_trans {first second third : World σ} (left : first.log <+: second.log)
    (right : second.log <+: third.log) :
    invocations first third = invocations first second ++ invocations second third := by
  rw [invocations, fresh_trans left right, List.filter_append]
  rfl

end WarpPipe
