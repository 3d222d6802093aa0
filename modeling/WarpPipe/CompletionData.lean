import WarpPipe.Invocations

/-!
The data of a completion: the byte count that the completer sent, the double words that came with
it, and the receive buffer that all packets share.
-/

namespace WarpPipe

open ByteLayout

variable {σ : Type}

structure IsCpld (packet : Bytes) (tag : Fin 32) : Prop where
  complete : CompleteTlp packet
  crc : pcieLcrc32Valid (packet.drop Transport.tUnion) = true
  type : tlpTypeOf (packet.drop Transport.tTlp) = some .cpld
  tag : PcieTlp.cTag.get (packet.drop Transport.tTlp) = tag

/-- `warppipe_client_read` takes the next packet, a completion, to `cb` with these arguments,
whatever the callbacks do. -/
def Hands (world : World σ) (tag : Fin 32) (cb : FnPtr) (data : Bytes) (length : Int) : Prop :=
  ∃ acked : World σ, ∀ cbs : Callbacks σ, warppipeClientRead cbs world =
    (invokeCompletion cbs acked tag cb 0 data length).map fun after => clearSlot after tag

theorem Hands.unique {world : World σ} {tag : Fin 32} {cb : FnPtr} {data other : Bytes}
    {length count : Int} (left : Hands world tag cb data length)
    (right : Hands world tag cb other count) :
    data = other ∧ length = count := by
  obtain ⟨first, reads⟩ := left
  obtain ⟨second, same⟩ := right
  have equal := (reads silentCallbacks).symm.trans (same silentCallbacks)
  have logs := congrArg World.log (Except.ok.inj equal)
  have last := (List.append_inj' (show first.log ++ [_] = second.log ++ [_] from logs) rfl).2
  cases last
  exact ⟨rfl, rfl⟩

theorem byteCount_lt (pkt : Bytes) : byteCount pkt < 4096 := by
  have hi : PcieTlp.cByteCountHi.get pkt < 16 := PcieTlp.cByteCountHi.get_lt pkt
  have lo : PcieTlp.cByteCountLo.get pkt < 256 := PcieTlp.cByteCountLo.get_lt pkt
  rw [byteCount, lengthField_eq _ _ lo]
  omega

section

variable {packet : Bytes} {tag : Fin 32} (cpld : IsCpld packet tag)

include cpld

theorem IsCpld.length : packet.length = 19 + 4 * tlpDataLength (packet.drop Transport.tTlp) := by
  have announced := cpld.complete.length
  have fmt : PcieTlp.tlpFmt.get (packet.drop Transport.tTlp) = 2 := tlpFmt_of_type cpld.type
  have cases := tlpTotalLength_cases (packet.drop Transport.tTlp)
  have seven : headerSize = 7 := rfl
  omega

theorem IsCpld.arrives {sock : Socket} {rest : Bytes} {later : List RecvStep}
    (next : Next sock packet rest later) :
    Arrives sock packet rest later := by
  have length := cpld.length
  have most := tlpDataLength_le (packet.drop Transport.tTlp)
  have seven : headerSize = 7 := rfl
  have size : clientBufferSize = 4117 := rfl
  exact ⟨next.stream, by omega, by omega, next.schedule⟩

theorem IsCpld.hands {world : World σ} {rest : Bytes} {later : List RecvStep}
    (next : Next world.sock packet rest later) {cb : FnPtr}
    (slot : world.client.completionCb tag = some cb) :
    Hands world tag cb
      (slice ((packet ++ world.client.buf.bytes.drop packet.length).drop Transport.tTlp)
        PcieTlp.cData (byteCount (packet.drop Transport.tTlp)))
      (byteCount (packet.drop Transport.tTlp)) := by
  have arrives := cpld.arrives next
  have length := cpld.length
  have start : Transport.tTlp = 3 := rfl
  have agree :
      AgreeBelow 12 ((packet ++ world.client.buf.bytes.drop packet.length).drop Transport.tTlp)
      (packet.drop Transport.tTlp) :=
    ((agreeBelow_append packet _).drop Transport.tTlp).mono (by omega)
  have kept : (push (world.received packet rest later) (ackOf packet)).2.client.completionCb =
      world.client.completionCb := by
    rw [push_client]
    split <;> rfl
  have count :
      byteCount ((packet ++ world.client.buf.bytes.drop packet.length).drop Transport.tTlp) =
      byteCount (packet.drop Transport.tTlp) := by
    rw [byteCount, byteCount, agree.get PcieTlp.cByteCountHi (by decide),
      agree.get PcieTlp.cByteCountLo (by decide)]
  have own :
      PcieTlp.cTag.get ((packet ++ world.client.buf.bytes.drop packet.length).drop Transport.tTlp) =
        tag := by
    rw [agree.get PcieTlp.cTag (by decide), cpld.tag]
  refine ⟨(push (world.received packet rest later) (ackOf packet)).2, fun cbs => ?_⟩
  rw [clientRead_tlp arrives cbs cpld.complete, if_pos cpld.crc,
    arrives.bytes_received, handleTlp_eq,
    invocation_completion (by rw [tlpTypeOf_congr (agree.mono (by decide))]; exact cpld.type),
    completionInvocation_of_tag own, kept, slot, count]
  rfl

theorem IsCpld.slice_own (old : Bytes) {count : Nat}
    (own : count ≤ 4 * tlpDataLength (packet.drop Transport.tTlp) + 4) :
    slice ((packet ++ old).drop Transport.tTlp) PcieTlp.cData count =
      slice (packet.drop Transport.tTlp) PcieTlp.cData count := by
  have length := cpld.length
  have start : Transport.tTlp = 3 := rfl
  have data : PcieTlp.cData = 12 := rfl
  refine slice_congr ?_ ?_ fun index bound => ?_
  · rw [List.length_drop, List.length_append]
    omega
  · rw [List.length_drop]
    omega
  · rw [getByte_drop, getByte_drop, getByte_append_left (by omega)]

end

def Reached (world : World σ) : Prop :=
  ∃ memory fd sock app, ∃ cbs : Callbacks σ, ∃ actions,
    Runs.run (clientStep cbs) (createdWorld memory fd sock app) actions = .ok world

theorem config0Read_stores (cbs : Callbacks σ) {world : World σ} (sock : world.sock = ⟨[], [], []⟩)
    (cb : FnPtr) :
    ∃ next, clientStep cbs world (.call (.config0Read 0 4 (some cb))) = .ok next ∧
      next.sock = ⟨[], [], []⟩ ∧ next.client.readTag = world.client.readTag + 1 ∧
      next.client.completionCb = Function.update world.client.completionCb world.client.readTag
        (some cb) := by
  have sends : world.sock.SendsAll := by
    rw [sock]
    exact List.forall_mem_nil _
  have pushed : (bumpSeqno (bumpTag world)).sock.SendsAll := sends
  refine ⟨sentRead world (readBlock world.client.readTag .cr0 0 4) (some cb), ?_, ?_⟩
  · rw [clientStep, Call.run, warppipeConfig0Read, warppipeReadImp_eq world (.inr rfl)]
    exact congrArg Except.ok (afterRead_world ..)
  · rw [sentRead_all sends, push_all pushed]
    refine ⟨?_, rfl, rfl⟩
    change (world.sock.send _).2 = _
    rw [sock]
    rfl

theorem config0Reads_store (cbs : Callbacks σ) (memory : Client) (fd : Int) (app : σ) (cb : FnPtr)
    (count : Nat) (few : count ≤ 32) :
    ∃ world, Runs.run (clientStep cbs) (createdWorld memory fd ⟨[], [], []⟩ app)
        (List.replicate count (.call (.config0Read 0 4 (some cb)))) = .ok world ∧
      world.sock = ⟨[], [], []⟩ ∧ world.client.readTag.val = count % 32 ∧
      ∀ tag : Fin 32, tag.val < count → world.client.completionCb tag = some cb := by
  induction count with
  | zero => exact ⟨_, rfl, rfl, rfl, fun tag early => absurd early (Nat.not_lt_zero _)⟩
  | succ count ih =>
      obtain ⟨world, ran, sock, tags, slots⟩ := ih (by omega)
      obtain ⟨next, stepped, still, bumped, stored⟩ := config0Read_stores cbs sock cb
      refine ⟨next, ?_, still, ?_, fun tag early => ?_⟩
      · rw [List.replicate_succ', Runs.run_append, ran]
        change Runs.run _ _ _ = _
        rw [Runs.run_cons stepped]
        rfl
      · rw [bumped, Fin.val_add, tags]
        omega
      · rw [stored]
        by_cases own : tag = world.client.readTag
        · rw [own, Function.update_self]
        · rw [Function.update_of_ne own]
          refine slots tag ?_
          have apart : tag.val ≠ world.client.readTag.val := fun same => own (Fin.ext same)
          omega

def fillBlock (byte : Byte) : Bytes := [3, 0, 0, 0x45, 0, 0, 0] ++ List.replicate 4108 byte

def fillPacket (byte : Byte) : Bytes := sealTlp 1 (fillBlock byte)

theorem fillBlock_header (byte : Byte) :
    AgreeBelow 4 ((fillBlock byte).drop Transport.tTlp) [0x45, 0, 0, 0] :=
  agreeBelow_append [0x45, 0, 0, 0] (List.replicate 4108 byte)

theorem fillBlock_total (byte : Byte) :
    tlpTotalLength ((fillBlock byte).drop Transport.tTlp) = 4108 := by
  rw [tlpTotalLength_congr (fillBlock_header byte)]
  decide

theorem tlpBlock_fillBlock (byte : Byte) : TlpBlock (fillBlock byte) := by
  have length : (fillBlock byte).length = 4115 := by
    rw [fillBlock, List.length_append, List.length_replicate]
    rfl
  refine ⟨rfl, ?_, ?_⟩
  · rw [fillBlock_total]
    decide
  · rw [fillBlock_total, length]
    decide

theorem length_fillPacket (byte : Byte) : (fillPacket byte).length = 4115 := by
  have length := (tlpBlock_fillBlock byte).length_sealTlp 1
  rw [fillBlock_total] at length
  exact_mod_cast length

theorem getByte_fillPacket (byte : Byte) {index : Nat} (low : 7 ≤ index) (high : index < 4111) :
    getByte (fillPacket byte) index = byte := by
  have total := fillBlock_total byte
  have header : ([3, 0, 0, 0x45, 0, 0, 0] : Bytes).length = 7 := rfl
  have behind : index - 7 < (List.replicate 4108 byte).length := by
    rw [List.length_replicate]
    omega
  rw [fillPacket, (tlpBlock_fillBlock byte).getByte_sealTlp 1 index (by omega) (.inr (by omega)),
    fillBlock, getByte_append_right (by omega), header, getByte_eq_getElem behind,
    List.getElem_replicate]

theorem fillPacket_type (byte : Byte) :
    tlpTypeOf ((fillPacket byte).drop Transport.tTlp) = some .cw1 := by
  have agree := (tlpBlock_fillBlock byte).agree_sealTlp 1
  rw [fillBlock_total] at agree
  rw [fillPacket, tlpTypeOf_congr (agree.mono (by decide)), tlpTypeOf_congr (fillBlock_header byte)]
  decide

theorem ignored_received (cbs : Callbacks σ) {world : World σ} (sock : world.sock = ⟨[], [], []⟩)
    {ignored : Bytes} (complete : CompleteTlp ignored)
    (crc : pcieLcrc32Valid (ignored.drop Transport.tUnion) = true)
    (kind : tlpTypeOf (ignored.drop Transport.tTlp) = some .cw1)
    (fits : ignored.length ≤ clientBufferSize) (packet : Bytes) :
    ∃ next, clientStep cbs world (.receive (ignored ++ packet)) = .ok next ∧
      next.sock = ⟨packet, [], []⟩ ∧ next.client.completionCb = world.client.completionCb ∧
      AgreeBelow ignored.length next.client.buf.bytes ignored := by
  have announced := complete.length
  have least := tlpTotalLength_ge complete.known
  have seven : headerSize = 7 := rfl
  have start : Transport.tTlp = 3 := rfl
  have arrives : Arrives (world.arrive (ignored ++ packet)).sock ignored packet [] := by
    refine ⟨?_, by omega, fits, ?_⟩
    · rw [World.arrive, sock]
      rfl
    · rw [World.arrive, sock]
      rfl
  have agree := (arrives.agree_received.drop Transport.tTlp).mono (show 4 ≤ _ by omega)
  refine ⟨(push ((world.arrive (ignored ++ packet)).received ignored packet []) (ackOf ignored)).2,
    ?_, ?_, ?_, ?_⟩
  · rw [clientStep, clientRead_tlp arrives cbs complete, if_pos crc, handleTlp_eq, invocation,
      tlpTypeOf_congr agree, kind]
    rfl
  · rw [push_sock]
    change (Socket.send ⟨packet, [], world.sock.sends⟩ _).2 = _
    rw [sock]
    rfl
  · rw [push_client]
    split <;> rfl
  · rw [(undisturbed_push _ _).buf]
    exact arrives.agree_received

theorem filled_reached (memory : Client) (app : σ) (byte : Byte) (packet : Bytes) (tag : Fin 32)
    (cb : FnPtr) :
    ∃ world : World σ, Reached world ∧ world.sock = ⟨packet, [], []⟩ ∧
      world.client.completionCb tag = some cb ∧
      ∀ index, 7 ≤ index → index < 4111 → getByte world.client.buf.bytes index = byte := by
  obtain ⟨asked, ran, sock, -, slots⟩ :=
    config0Reads_store silentCallbacks memory 3 app cb (tag.val + 1) (by omega)
  have length := length_fillPacket byte
  have complete : CompleteTlp (fillPacket byte) := (tlpBlock_fillBlock byte).complete_sealTlp 1
  have crc : pcieLcrc32Valid ((fillPacket byte).drop Transport.tUnion) = true :=
    (tlpBlock_fillBlock byte).lcrc_sealTlp 1
  obtain ⟨world, stepped, left, kept, filled⟩ := ignored_received silentCallbacks sock complete crc
    (fillPacket_type byte) (by rw [length]; decide) packet
  refine ⟨world, ⟨memory, 3, ⟨[], [], []⟩, app, silentCallbacks,
    List.replicate (tag.val + 1) (.call (.config0Read 0 4 (some cb))) ++
      [.receive (fillPacket byte ++ packet)], ?_⟩,
    left, ?_, fun index low high => ?_⟩
  · rw [Runs.run_append, ran]
    change Runs.run _ _ _ = _
    rw [Runs.run_cons stepped]
    rfl
  · rw [kept]
    exact slots tag (Nat.lt_succ_self _)
  · rw [filled index (by omega)]
    exact getByte_fillPacket byte low high

structure SameCompletion (packet : Bytes) (tag : Fin 32) (cb : FnPtr) (left right : World σ) :
    Prop where
  reached : Reached left ∧ Reached right
  slot : left.client.completionCb tag = some cb ∧ right.client.completionCb tag = some cb
  next : (∃ rest later, Next left.sock packet rest later) ∧
  ∃ rest later, Next right.sock packet rest later

theorem filled_same (memory : Client) (app : σ) (packet : Bytes) (tag : Fin 32) :
    ∃ left right : World σ, SameCompletion packet tag 0 left right ∧
      (∃ rest later, Next left.sock packet rest later) ∧
      ∀ index, 7 ≤ index → index < 4111 →
        getByte left.client.buf.bytes index = 0 ∧ getByte right.client.buf.bytes index = 1 := by
  obtain ⟨left, reachedLeft, sockLeft, slotLeft, zeros⟩ := filled_reached memory app 0 packet tag 0
  obtain ⟨right, reachedRight, sockRight, slotRight, ones⟩ :=
    filled_reached memory app 1 packet tag 0
  have next {sock : Socket} (same : sock = ⟨packet, [], []⟩) : Next sock packet [] [] := by
    rw [same]
    exact ⟨(List.append_nil _).symm, rfl⟩
  refine ⟨left, right, ⟨⟨reachedLeft, reachedRight⟩, ⟨slotLeft, slotRight⟩, ⟨_, _, next sockLeft⟩,
    ⟨_, _, next sockRight⟩⟩, ⟨_, _, next sockLeft⟩, fun index low high => ?_⟩
  exact ⟨zeros index low high, ones index low high⟩

/-- Two clients with different histories hand the same bytes of a completion to their callbacks iff
the byte count stays inside the packet, whose LCRC follows its data; they are bytes of the data
alone iff it stays inside the double words that came with it. -/
theorem completion_data_own_iff (memory : Client) (app : σ) {packet : Bytes} {tag : Fin 32}
    (cpld : IsCpld packet tag) :
    ((∀ (cb : FnPtr) (left right : World σ), SameCompletion packet tag cb left right →
        ∃ data length, Hands left tag cb data length ∧ Hands right tag cb data length ∧
          length ≤ 4 * tlpDataLength (packet.drop Transport.tTlp)) ↔
      byteCount (packet.drop Transport.tTlp) ≤ 4 * tlpDataLength (packet.drop Transport.tTlp)) ∧
    ((∀ (cb : FnPtr) (left right : World σ), SameCompletion packet tag cb left right →
        ∃ data length, Hands left tag cb data length ∧ Hands right tag cb data length) ↔
      byteCount (packet.drop Transport.tTlp) ≤
        4 * tlpDataLength (packet.drop Transport.tTlp) + 4) := by
  have length := cpld.length
  have start : Transport.tTlp = 3 := rfl
  have offset : PcieTlp.cData = 12 := rfl
  have own {cb : FnPtr} {left right : World σ} (same : SameCompletion packet tag cb left right)
      (inside : byteCount (packet.drop Transport.tTlp) ≤
        4 * tlpDataLength (packet.drop Transport.tTlp) + 4) :
      ∃ data, Hands left tag cb data (byteCount (packet.drop Transport.tTlp)) ∧
        Hands right tag cb data (byteCount (packet.drop Transport.tTlp)) := by
    obtain ⟨⟨rest, later, next⟩, others, steps, follows⟩ := same.next
    have leftHands := cpld.hands next same.slot.1
    have rightHands := cpld.hands follows same.slot.2
    rw [cpld.slice_own _ inside] at leftHands rightHands
    exact ⟨_, leftHands, rightHands⟩
  obtain ⟨left, right, same, ⟨rest, later, next⟩, stale⟩ := filled_same memory app packet tag
  refine ⟨⟨fun alike => ?_, fun inside cb left right same => ?_⟩,
    fun alike => ?_, fun inside cb left right same => ?_⟩
  · obtain ⟨data, count, hands, -, bound⟩ := alike 0 left right same
    have counted := (hands.unique (cpld.hands next same.slot.1)).2
    rw [counted] at bound
    exact_mod_cast bound
  · obtain ⟨data, hands⟩ := own same (by omega)
    exact ⟨data, _, hands.1, hands.2, by exact_mod_cast inside⟩
  · by_contra outside
    obtain ⟨data, count, hands, others⟩ := alike 0 left right same
    obtain ⟨-, followRest, followLater, follows⟩ := same.next
    have leftData := (hands.unique (cpld.hands next same.slot.1)).1
    have rightData := (others.unique (cpld.hands follows same.slot.2)).1
    -- the first byte behind the packet comes from the buffer
    have behind (old : Bytes) :
        getByte (slice ((packet ++ old.drop packet.length).drop Transport.tTlp) PcieTlp.cData
          (byteCount (packet.drop Transport.tTlp))) (4 *
            tlpDataLength (packet.drop Transport.tTlp) + 4) = getByte old packet.length := by
      rw [getByte_slice (by omega), getByte_drop, getByte_append_right (by omega), getByte_drop]
      congr 1
      omega
    have fewBytes := byteCount_lt (packet.drop Transport.tTlp)
    obtain ⟨zero, one⟩ := stale packet.length (by omega) (by omega)
    have clash := (behind left.client.buf.bytes).symm.trans
      ((congrArg (fun data => getByte data _) (leftData.symm.trans rightData)).trans
        (behind right.client.buf.bytes))
    rw [zero, one] at clash
    exact absurd clash (by decide)
  · obtain ⟨data, hands⟩ := own same inside
    exact ⟨data, _, hands⟩

theorem completionOf_isCpld : IsCpld (completionOf 4 0) 0 :=
  ⟨⟨by decide +kernel, by decide +kernel, by decide +kernel⟩, by decide +kernel, by decide +kernel,
    by decide +kernel⟩

theorem counted_completion_own :
    IsCpld (completionOf 4 0) 0 ∧
    ∀ (cb : FnPtr) (left right : World Unit), SameCompletion (completionOf 4 0) 0 cb left right →
      ∃ data length, Hands left 0 cb data length ∧ Hands right 0 cb data length ∧
        length ≤ 4 * tlpDataLength ((completionOf 4 0).drop Transport.tTlp) :=
  ⟨completionOf_isCpld,
    (completion_data_own_iff (clientWith []).client () completionOf_isCpld).1.mpr
      (by decide +kernel)⟩

/-- The bytes that the callback of tag 0 gets for twelve bytes of a completion with four, after a
type 1 configuration write of four double words filled with `byte`. -/
def staleCompletion (byte : Byte) : Outcome (List Event) :=
  let write :=
    3 :: pcieLcrc32 ([0, 1, 0x45, 0, 0, 4, 0, 0, 0, 0xff, 0, 0, 0, 0] ++ List.replicate 20 byte)
  (Runs.run (clientStep silentCallbacks) (clientWith [])
    [.call (.config0Read 0 4 (some 7)), .receive write, .receive (completionOf 12 0)]).map
      (invocations (clientWith []))

theorem stale_bytes_handed :
    staleCompletion 0x11 = .ok [.completion 0 7 0
      [0xaa, 0xbb, 0xcc, 0xdd, 0xf2, 0xbc, 0x22, 0x75, 0x11, 0x11, 0x11, 0x11] 12] ∧
    staleCompletion 0x22 = .ok [.completion 0 7 0
      [0xaa, 0xbb, 0xcc, 0xdd, 0xf2, 0xbc, 0x22, 0x75, 0x22, 0x22, 0x22, 0x22] 12] := by
  decide +kernel

/-! The byte count of a reply. -/

theorem CompletionFields.byteCount {pkt tlp : Bytes} (fields : CompletionFields pkt tlp) :
    (byteCount tlp : Int) = tlpDataLengthBytes pkt % 4096 := by
  have low : PcieTlp.cByteCountLo.get tlp < 256 := PcieTlp.cByteCountLo.get_lt tlp
  rw [WarpPipe.byteCount, lengthField_eq _ _ low, fields.countHi, fields.countLo,
    Int.shiftRight_eq_div_pow]
  push_cast
  omega

theorem sealed_completion (seqno : BitVec 32) (pkt data : Bytes) :
    CompletionFields pkt ((sealTlp seqno (completionPacket pkt 0 data)).drop Transport.tTlp) := by
  have fields := completionFields_filledTlp pkt data
  have drop := drop_completionPacket pkt data 0
  rw [if_neg (by decide)] at drop
  have agree := (tlpBlock_completionPacket pkt data 0).agree_sealTlp seqno
  rw [drop, fields.total] at agree
  exact fields.congr (agree.mono (by omega))

theorem readInvocation_replies {cbs : Callbacks σ} {world final : World σ} {pkt : Bytes}
    {cb : FnPtr} {addr : BitVec 64} {length : Int}
    (succeeds : (cbs.read cb world.app addr length).error = 0)
    (ran : Invocation.run cbs world pkt (.read cb addr length) = .ok final) :
    ∃ seqno data, (sentPackets world final).getLast? =
      some (sealTlp seqno (completionPacket pkt 0 data)) := by
  simp only [Invocation.run, invokeRead, succeeds, bind, Except.bind, pure, Except.pure] at ran
  split at ran
  · cases ran
  · rename_i served invoked
    split at invoked
    · cases invoked
    · rename_i middle calls
      cases invoked
      simp only [clientSend_tlp middle (tlpBlock_completionPacket pkt _ 0), Except.ok.injEq] at ran
      have grows : world.log <+: middle.log :=
        (List.prefix_append _ _).trans (CallSteps.undisturbed (runCalls_ok calls)).grows
      have log :=
        push_log (bumpSeqno middle) (sealTlp (middle.client.seqno + 1) (completionPacket pkt 0
        (fillBuffer length (cbs.read cb world.app addr length).data)))
      rw [ran] at log
      have sent : final.log = middle.log ++ _ := log
      refine ⟨middle.client.seqno + 1, fillBuffer length (cbs.read cb world.app addr length).data,
        ?_⟩
      rw [sentPackets, fresh_trans grows ⟨_, sent.symm⟩, fresh_eq sent, List.filterMap_append,
        List.getLast?_append]
      rfl

theorem isCpld_reply (seqno : BitVec 32) {pkt : Bytes} (data : Bytes) {tag : Fin 32}
    (own : PcieTlp.rTag.get pkt = tag) :
    IsCpld (sealTlp seqno (completionPacket pkt 0 data)) tag := by
  have block := tlpBlock_completionPacket pkt data 0
  have fields := sealed_completion seqno pkt data
  refine ⟨block.complete_sealTlp seqno, block.lcrc_sealTlp seqno, ?_, fields.tag.trans own⟩
  rw [tlpTypeOf, fields.fmt, fields.type]
  rfl

theorem invocation_read_length {client : Client} {pkt : Bytes} {cb : FnPtr} {addr : BitVec 64}
    {length : Int} (found : invocation client pkt = .ok (some (.read cb addr length))) :
    length = tlpDataLengthBytes pkt := by
  have read (invokes : readInvocation client pkt = some (.read cb addr length)) :
      length = tlpDataLengthBytes pkt := by
    obtain ⟨_, -, same⟩ := Option.map_eq_some_iff.mp invokes
    cases same
    rfl
  have write (invokes : writeInvocation client pkt = some (.read cb addr length)) : False := by
    obtain ⟨_, -, clash⟩ := Option.map_eq_some_iff.mp invokes
    cases clash
  have completion (invokes : completionInvocation client pkt = .ok (some (.read cb addr length))) :
      False := by
    rw [completionInvocation] at invokes
    split at invokes
    · obtain ⟨_, -, clash⟩ := Option.map_eq_some_iff.mp (Except.ok.inj invokes)
      cases clash
    · cases invokes
  rw [invocation] at found
  cases kind : tlpTypeOf pkt with
  | none => simp [kind] at found
  | some type =>
      simp only [kind] at found
      cases type with
      | iord | mrd32 | mrd64 | cr0 => exact read (Except.ok.inj found)
      | iowr | mwr32 | mwr64 | cw0 => exact (write (Except.ok.inj found)).elim
      | cpld => exact (completion found).elim
      | _ => cases found

theorem reply_counted {τ : Type} {cbs : Callbacks σ} {completer final : World σ} {pkt : Bytes}
    {cb : FnPtr} {addr : BitVec 64} {length : Int}
    (found : invocation completer.client pkt = .ok (some (.read cb addr length)))
    (succeeds : (cbs.read cb completer.app addr length).error = 0)
    (handled : handleTlp cbs completer pkt = .ok final) :
    ∃ reply, (sentPackets completer final).getLast? = some reply ∧
      ∀ (requester : World τ) (tag : Fin 32) (asked : FnPtr) (rest : Bytes) (later : List RecvStep),
        PcieTlp.rTag.get pkt = tag → requester.client.completionCb tag = some asked →
        Next requester.sock reply rest later →
        ∃ data, Hands requester tag asked data (length % 4096) := by
  rw [handleTlp_invokes cbs found] at handled
  obtain ⟨seqno, data, sent⟩ := readInvocation_replies succeeds handled
  refine ⟨_, sent, fun requester tag asked rest later own slot next => ?_⟩
  have hands := (isCpld_reply seqno data own).hands next slot
  rw [(sealed_completion seqno pkt data).byteCount, ← invocation_read_length found] at hands
  exact ⟨_, hands⟩

theorem tlpDataLengthBytes_le (pkt : Bytes) : tlpDataLengthBytes pkt ≤ 4096 := by
  by_cases proper : ProperEnables pkt
  · have range := tlpDataLengthBytes_proper proper
    have most := tlpDataLength_le pkt
    omega
  · rw [tlpDataLengthBytes_improper proper]
    decide

/-- The requester is told how many bytes the completer read iff they are not the 4096 of a request
for 1024 double words, which a count of twelve bits cannot tell from none. -/
theorem byte_count_survives_iff {τ : Type} {cbs : Callbacks σ} {completer final : World σ}
    {pkt : Bytes} {cb : FnPtr} {addr : BitVec 64} {length : Int}
    (found : invocation completer.client pkt = .ok (some (.read cb addr length)))
    (asks : 1 ≤ length) (succeeds : (cbs.read cb completer.app addr length).error = 0)
    (handled : handleTlp cbs completer pkt = .ok final) :
    length ≤ 4096 ∧ ∃ reply, (sentPackets completer final).getLast? = some reply ∧
      ∀ (requester : World τ) (tag : Fin 32) (asked : FnPtr) (rest : Bytes) (later : List RecvStep),
        PcieTlp.rTag.get pkt = tag → requester.client.completionCb tag = some asked →
        Next requester.sock reply rest later →
        ∃ data count, Hands requester tag asked data count ∧ (count = length ↔ length ≤ 4095) := by
  have most : length ≤ 4096 := by
    rw [invocation_read_length found]
    exact tlpDataLengthBytes_le pkt
  obtain ⟨reply, sent, counted⟩ := reply_counted found succeeds handled
  refine ⟨most, reply, sent, fun requester tag asked rest later own slot next => ?_⟩
  obtain ⟨data, hands⟩ := counted requester tag asked rest later own slot next
  refine ⟨data, _, hands, ?_⟩
  omega

theorem silentRead_runs (world : World Unit) (pkt : Bytes) (cb : FnPtr) (addr : BitVec 64)
    (length : Int) :
    ∃ final, Invocation.run silentCallbacks world pkt (.read cb addr length) = .ok final := by
  simp only [Invocation.run, invokeRead, silentCallbacks, runCalls, bind, Except.bind,
    pure, Except.pure]
  rw [clientSend_tlp _ (tlpBlock_completionPacket pkt _ 0)]
  exact ⟨_, rfl⟩

theorem eight_bytes_counted :
    ∃ final reply, handleTlp silentCallbacks (configReader [])
        ((configReadOf 2 0xff).drop Transport.tTlp) =
        .ok final ∧ (sentPackets (configReader []) final).getLast? = some reply ∧
      ∀ (requester : World Unit) (rest : Bytes) (later : List RecvStep),
        requester.client.completionCb 0 = some 9 → Next requester.sock reply rest later →
        ∃ data, Hands requester 0 9 data 8 := by
  have found : invocation (configReader []).client ((configReadOf 2 0xff).drop Transport.tTlp) =
      .ok (some (.read 7 0 8)) := by decide +kernel
  obtain ⟨final, ran⟩ :=
    silentRead_runs (configReader []) ((configReadOf 2 0xff).drop Transport.tTlp) 7 0 8
  have handled := (handleTlp_invokes silentCallbacks found).trans ran
  obtain ⟨-, reply, sent, counted⟩ := byte_count_survives_iff found (by decide) rfl handled
  refine ⟨final, reply, handled, sent, fun requester rest later slot next => ?_⟩
  obtain ⟨data, count, hands, same⟩ :=
    counted requester 0 9 rest later (by decide +kernel) slot next
  rw [same.mpr (by decide)] at hands
  exact ⟨data, hands⟩

/-- The read callback fills 4096 bytes, the completion callback is told that there are none. -/
theorem full_read_counted_zero :
    ∃ final reply, handleTlp silentCallbacks (configReader [])
        ((configReadOf 0 0xff).drop Transport.tTlp) = .ok final ∧
      invocation (configReader []).client ((configReadOf 0 0xff).drop Transport.tTlp) =
        .ok (some (.read 7 0 4096)) ∧
      (sentPackets (configReader []) final).getLast? = some reply ∧
      ∀ (requester : World Unit) (rest : Bytes) (later : List RecvStep),
        requester.client.completionCb 0 = some 9 → Next requester.sock reply rest later →
        ∃ data, Hands requester 0 9 data 0 := by
  have found : invocation (configReader []).client ((configReadOf 0 0xff).drop Transport.tTlp) =
      .ok (some (.read 7 0 4096)) := by decide +kernel
  obtain ⟨final, ran⟩ :=
    silentRead_runs (configReader []) ((configReadOf 0 0xff).drop Transport.tTlp) 7 0 4096
  have handled := (handleTlp_invokes silentCallbacks found).trans ran
  obtain ⟨reply, sent, counted⟩ := reply_counted found rfl handled
  exact ⟨final, reply, handled, found, sent, fun requester rest later slot next =>
    counted requester 0 9 rest later (by decide +kernel) slot next⟩

end WarpPipe
