import WarpPipe.Framing

/-!
Segmentation. `warppipe_client_read` gives a connection up when the first seven bytes of a packet
do not arrive together, and when a non-blocking socket has no byte ready in the middle of a TLP.
Exactly on the streams where neither happens does delivery not depend on the pieces.
-/

namespace WarpPipe

open ByteLayout

variable {σ : Type}

def Working (recvs : List RecvStep) : Prop :=
  ∀ step ∈ recvs, step = .again ∨ ∃ more, step = .deliver more

/-- The header of each packet arrives in one piece, and no `EAGAIN` interrupts a packet. -/
def Unbroken : List RecvStep → List Bytes → Prop
  | _, [] => True
  | recvs, packet :: rest =>
    ∃ later, packetSchedule (recvs.dropWhile (· == .again))
        (packet.length - headerSize) = some later ∧
      Unbroken later rest

structure SameDelivery (cbs : Callbacks σ) (first second : World σ) : Prop where
  firstActive : ∀ count final, clientReads cbs count first = .ok final → final.client.active = true
  secondActive : ∀ count final, clientReads cbs count second = .ok final →
  final.client.active = true
  same : ∃ enough, ∀ count ≥ enough, ∃ firstFinal secondFinal,
    clientReads cbs count first = .ok firstFinal ∧ clientReads cbs count second = .ok secondFinal ∧
      receivedPackets first firstFinal = receivedPackets second secondFinal

theorem recvInto_again (world : World σ) (offset count : Nat) (rest : List RecvStep)
    (next : world.sock.recvs = .again :: rest) :
    recvInto world offset count =
      .ok (.again, { world with sock := { world.sock with recvs := rest } }) := by
  rw [recvInto, Socket.recv, next]

theorem receiveLoop_broken (fuel : Nat) (world : World σ) (len total : Nat)
    (broken : delivers world.sock.recvs (total - len) = none)
    (available : total - len ≤ world.sock.incoming.length) (enough : total - len ≤ fuel)
    (inside : total ≤ clientBufferSize) (working : Working world.sock.recvs) :
    ∃ next, receiveLoop fuel world len total = .ok (false, next) ∧ next.client.active = false := by
  induction fuel generalizing world len with
  | zero =>
      rw [show total - len = 0 by omega, delivers] at broken
      cases broken
  | succ fuel ih =>
      by_cases more : len < total
      · obtain ⟨count, remaining⟩ : ∃ count, total - len = count + 1 := ⟨total - len - 1, by omega⟩
        rw [receiveLoop, if_pos more]
        cases recvs : world.sock.recvs with
        | nil =>
            rw [recvs, remaining, delivers] at broken
            cases broken
        | cons step rest =>
            rcases working step (by rw [recvs]; simp) with rfl | ⟨extra, rfl⟩
            · simp only [recvInto_again world len (total - len) rest recvs]
              exact ⟨_, rfl, rfl⟩
            · rw [recvs, remaining, delivers] at broken
              simp only [recvInto_deliver world len (total - len) extra rest recvs (by omega)
                (by omega) (by omega)]
              have taken : (world.sock.incoming.take (min (total - len) (extra + 1))).length =
                  min (total - len) (extra + 1) := by
                rw [List.length_take]
                omega
              rw [taken]
              apply ih
              · rw [show total - (len + min (total - len) (extra + 1)) = count - extra by omega]
                exact broken
              · simp only [World.absorb, List.length_drop]
                omega
              · omega
              · intro other member
                exact working other (by rw [recvs]; exact List.mem_cons_of_mem _ member)
      · rw [show total - len = 0 by omega, delivers] at broken
        cases broken

section

variable (cbs : Callbacks σ) {world : World σ} {packet rest : Bytes} {more : Nat}
  {recvs : List RecvStep}
variable (wire : WirePacket packet) (fits : packet.length ≤ clientBufferSize)
variable (stream : world.sock.incoming = packet ++ rest)
variable (next : world.sock.recvs = .deliver more :: recvs)

include wire stream next

theorem clientRead_shortHeader (short : more + 1 < headerSize) :
    ∃ final, warppipeClientRead cbs world = .ok final ∧ final.client.active = false := by
  have header := wire.header
  have length := congrArg List.length stream
  have seven : headerSize = 7 := rfl
  rw [List.length_append] at length
  rw [warppipeClientRead, recvInto_deliver world 0 headerSize more recvs next (by omega)
    (by omega) (by decide)]
  simp only [List.length_take]
  rw [if_neg (by omega)]
  exact ⟨_, rfl, rfl⟩

include fits

theorem clientRead_brokenBody (whole : headerSize ≤ more + 1) (working : Working recvs)
    (broken : delivers recvs (packet.length - headerSize) = none) :
    ∃ final, warppipeClientRead cbs world = .ok final ∧ final.client.active = false := by
  have header := wire.header
  have length := congrArg List.length stream
  have seven : headerSize = 7 := rfl
  rw [List.length_append] at length
  cases wire with
  | dllp complete crc =>
      rw [complete.length, Nat.sub_self, delivers] at broken
      cases broken
  | tlp complete crc =>
      have received :=
        recvInto_deliver world 0 headerSize more recvs next (by omega) (by omega) (by decide)
      rw [Nat.min_eq_left whole] at received
      have agree := take_absorb_header stream header recvs
      have proto : PcieProto.ofCode?
          (Transport.tProto.get (world.absorb 0 headerSize recvs).client.buf.bytes) =
            some .tlp := by
        rw [agree.get Transport.tProto (by decide), complete.proto]
        rfl
      have total : tlpTotalLength
          ((world.absorb 0 headerSize recvs).client.buf.bytes.drop Transport.tTlp) =
            ((packet.length - headerSize : Nat) : Int) := by
        rw [tlpTotalLength_congr (agree.drop Transport.tTlp)]
        have announced := complete.length
        omega
      obtain ⟨final, looped, inactive⟩ := receiveLoop_broken (packet.length - headerSize)
        (world.absorb 0 headerSize recvs) headerSize packet.length broken
        (by simp only [World.absorb, List.length_drop]; omega) (Nat.le_refl _) fits working
      refine ⟨final, ?_, inactive⟩
      rw [warppipeClientRead, received]
      simp only [List.length_take]
      rw [if_pos (by omega), readPacket, proto]
      simp only [readTlp, total, Int.toNat_natCast, Nat.sub_add_cancel header]
      rw [if_neg (by omega), if_pos fits, looped]
      rfl

end

theorem delivers_suffix {recvs later : List RecvStep} {count : Nat}
    (schedule : delivers recvs count = some later) : later <:+ recvs := by
  induction recvs generalizing count with
  | nil =>
      cases count <;> cases schedule <;> exact List.suffix_rfl
  | cons step rest ih =>
      cases count with
      | zero =>
          cases schedule
          exact List.suffix_rfl
      | succ count =>
          cases step with
          | deliver more => exact (ih schedule).trans (List.suffix_cons _ _)
          | again => cases schedule
          | failed => cases schedule
          | closed => cases schedule

theorem packetSchedule_suffix {recvs later : List RecvStep} {count : Nat}
    (schedule : packetSchedule recvs count = some later) : later <:+ recvs := by
  cases recvs with
  | nil =>
      cases schedule
      exact List.suffix_rfl
  | cons step rest =>
      cases step with
      | deliver more =>
          rw [packetSchedule] at schedule
          split at schedule
          · exact (delivers_suffix schedule).trans (List.suffix_cons _ _)
          · cases schedule
      | again => cases schedule
      | failed => cases schedule
      | closed => cases schedule

theorem Working.suffix {recvs later : List RecvStep} (working : Working recvs)
    (suffix : later <:+ recvs) : Working later :=
  fun step member => working step (suffix.subset member)

theorem clientRead_again (cbs : Callbacks σ) {world : World σ} {rest : List RecvStep}
    (next : world.sock.recvs = .again :: rest) :
    warppipeClientRead cbs world = .ok
      { world with sock := { world.sock with recvs := rest } } := by
  rw [warppipeClientRead, recvInto_again world 0 headerSize rest next]

theorem recv_empty {sock : Socket} (empty : sock.incoming = []) (working : Working sock.recvs)
    (count : Nat) :
    sock.recv count = (.again, { sock with recvs := sock.recvs.tail }) := by
  cases recvs : sock.recvs with
  | nil => simp [Socket.recv, Socket.take, recvs, empty]
  | cons step rest =>
      rcases working step (by rw [recvs]; simp) with rfl | ⟨more, rfl⟩ <;>
        simp [Socket.recv, Socket.take, recvs, empty]

theorem clientRead_empty (cbs : Callbacks σ) {world : World σ} (empty : world.sock.incoming = [])
    (working : Working world.sock.recvs) :
    warppipeClientRead cbs world =
      .ok { world with sock := { world.sock with recvs := world.sock.recvs.tail } } := by
  rw [warppipeClientRead, recvInto, recv_empty empty working]

theorem clientRead_idle (cbs : Callbacks σ) {world : World σ} (empty : world.sock.incoming = [])
    (prompt : world.sock.recvs = []) : warppipeClientRead cbs world = .ok world := by
  obtain ⟨client, ⟨incoming, recvs, sends⟩, app, log⟩ := world
  cases prompt
  exact clientRead_empty cbs empty nofun

/-! A run over an unbroken stream. -/

structure Boundary (start world : World σ) (packets todo : List Bytes) : Prop where
  received : receivedPackets start world ++ todo = packets
  grows : start.log <+: world.log
  incoming : world.sock.incoming = todo.flatten
  sends : world.sock.SendsAll
  active : world.client.active = true
  working : Working world.sock.recvs
  unbroken : Unbroken world.sock.recvs todo

theorem Unbroken.tail {recvs : List RecvStep} {packets : List Bytes}
    (unbroken : Unbroken (.again :: recvs) packets) : Unbroken recvs packets := by
  cases packets with
  | nil => trivial
  | cons packet rest => simpa [Unbroken] using unbroken

theorem Boundary.step {cbs : Callbacks σ} (valid : cbs.Valid) {start world : World σ}
    {packets todo : List Bytes} (sound : ∀ packet ∈ packets, Sound packet)
    (boundary : Boundary start world packets todo) :
    ∃ next left, warppipeClientRead cbs world = .ok next ∧ Boundary start next packets left ∧
      (todo = [] → left = []) ∧
      (todo = [] ∨ left.length + next.sock.recvs.length <
        todo.length + world.sock.recvs.length) := by
  cases todo with
  | nil =>
      have empty : world.sock.incoming = [] := boundary.incoming
      refine ⟨_, [], clientRead_empty cbs empty boundary.working, ?_, fun _ => rfl, Or.inl rfl⟩
      exact ⟨boundary.received, boundary.grows, empty, boundary.sends, boundary.active,
        boundary.working.suffix (List.tail_suffix _), trivial⟩
  | cons packet rest =>
      have packetSound : Sound packet := sound packet (by rw [← boundary.received]; simp)
      have stream : world.sock.incoming = packet ++ rest.flatten := by
        rw [boundary.incoming, List.flatten_cons]
      by_cases waits : ∃ later, world.sock.recvs = .again :: later
      · obtain ⟨later, recvs⟩ := waits
        have unbroken := boundary.unbroken
        rw [recvs] at unbroken
        refine ⟨_, packet :: rest, clientRead_again cbs recvs, ?_, nofun, Or.inr ?_⟩
        · exact ⟨boundary.received, boundary.grows, boundary.incoming, boundary.sends,
            boundary.active, boundary.working.suffix (by rw [recvs]; exact List.suffix_cons _ _),
            unbroken.tail⟩
        · rw [recvs]
          simp
      · obtain ⟨later, schedule, unbroken⟩ := boundary.unbroken
        have ready : world.sock.recvs.dropWhile (· == .again) = world.sock.recvs := by
          cases recvs : world.sock.recvs with
          | nil => rfl
          | cons step others =>
              have other : step ≠ .again := fun same => waits ⟨others, by rw [recvs, same]⟩
              simp [other]
        rw [ready] at schedule
        have suffix := packetSchedule_suffix schedule
        obtain ⟨next, read, consumed⟩ :=
          clientRead_sound valid boundary.sends packetSound stream schedule
        refine ⟨next, rest, read, ?_, nofun, Or.inr ?_⟩
        · refine ⟨?_, boundary.grows.trans consumed.grows, consumed.incoming, consumed.sends,
            consumed.active.trans boundary.active, ?_, ?_⟩
          · rw [receivedPackets_trans boundary.grows consumed.grows, consumed.received,
              List.append_assoc]
            exact boundary.received
          · rw [consumed.recvs]
            exact boundary.working.suffix suffix
          · rw [consumed.recvs]
            exact unbroken
        · rw [consumed.recvs, List.length_cons]
          have shorter := suffix.length_le
          omega

theorem Boundary.reads {cbs : Callbacks σ} (valid : cbs.Valid) {start world : World σ}
    {packets todo : List Bytes} (sound : ∀ packet ∈ packets, Sound packet)
    (boundary : Boundary start world packets todo) (count : Nat) :
    ∃ final left, clientReads cbs count world = .ok final ∧ Boundary start final packets left ∧
      (todo = [] ∨ todo.length + world.sock.recvs.length ≤ count → left = []) := by
  induction count generalizing world todo with
  | zero =>
      refine ⟨world, todo, rfl, boundary, fun enough => ?_⟩
      rcases enough with finished | short
      · exact finished
      · exact List.eq_nil_of_length_eq_zero (by omega)
  | succ count ih =>
      obtain ⟨next, left, read, nextBoundary, stays, shrinks⟩ := boundary.step valid sound
      obtain ⟨final, last, reads, finalBoundary, done⟩ := ih nextBoundary
      refine ⟨final, last, by rw [clientReads, read]; exact reads, finalBoundary,
        fun enough => done ?_⟩
      rcases enough with finished | short
      · exact Or.inl (stays finished)
      · rcases shrinks with finished | less
        · exact Or.inl (stays finished)
        · exact Or.inr (by omega)

theorem inactive_later {cbs : Callbacks σ} {world next : World σ}
    (read : warppipeClientRead cbs world = .ok next)
    (breaks : ∃ count final, clientReads cbs count next = .ok final ∧ final.client.active = false) :
    ∃ count final, clientReads cbs count world = .ok final ∧ final.client.active = false := by
  obtain ⟨count, final, reads, inactive⟩ := breaks
  exact ⟨count + 1, final, by rw [clientReads, read]; exact reads, inactive⟩

theorem reads_broken {cbs : Callbacks σ} (valid : cbs.Valid) {packets : List Bytes}
    (sound : ∀ packet ∈ packets, Sound packet) (recvs : List RecvStep) {world : World σ}
    (schedule : world.sock.recvs = recvs) (incoming : world.sock.incoming = packets.flatten)
    (sends : world.sock.SendsAll) (working : Working recvs) (broken : ¬Unbroken recvs packets) :
    ∃ count final, clientReads cbs count world = .ok final ∧ final.client.active = false := by
  induction packets generalizing world recvs with
  | nil => exact absurd trivial broken
  | cons packet rest ih =>
      have packetSound := sound packet (by simp)
      have restSound : ∀ other ∈ rest, Sound other :=
        fun other member => sound other (List.mem_cons_of_mem _ member)
      have stream : world.sock.incoming = packet ++ rest.flatten := by
        rw [incoming, List.flatten_cons]
      -- inside one packet the induction is on the schedule: an EAGAIN in front of it only delays it
      induction recvs generalizing world with
      | nil =>
          obtain ⟨next, read, consumed⟩ := clientRead_sound valid sends packetSound stream
            (by rw [schedule]; rfl)
          have further : ¬Unbroken [] rest := fun unbroken => broken ⟨[], rfl, unbroken⟩
          exact inactive_later read
            (ih restSound [] consumed.recvs consumed.incoming consumed.sends nofun further)
      | cons step later recvsIh =>
          have laterWorking : Working later := working.suffix (List.suffix_cons _ _)
          rcases working step (by simp) with rfl | ⟨more, rfl⟩
          · have read := clientRead_again cbs schedule
            have further : ¬Unbroken later (packet :: rest) := by
              intro unbroken
              apply broken
              simpa [Unbroken] using unbroken
            have paused :
                ({ world with sock := { world.sock with recvs := later } } : World σ).sock.recvs =
                later := rfl
            exact inactive_later read (recvsIh paused incoming sends laterWorking further stream)
          · by_cases whole : headerSize ≤ more + 1
            · cases body : delivers later (packet.length - headerSize) with
              | none =>
                  obtain ⟨final, read, inactive⟩ := clientRead_brokenBody cbs packetSound.wire
                    packetSound.fits stream schedule whole laterWorking body
                  exact inactive_later read ⟨0, final, rfl, inactive⟩
              | some after =>
                  have fine : packetSchedule (.deliver more :: later) (packet.length - headerSize) =
                      some after := by
                    rw [packetSchedule, if_pos whole, body]
                  obtain ⟨next, read, consumed⟩ := clientRead_sound valid sends packetSound stream
                    (by rw [schedule]; exact fine)
                  have further : ¬Unbroken after rest := fun unbroken =>
                    broken ⟨after, by simpa using fine, unbroken⟩
                  exact inactive_later read (ih restSound after consumed.recvs consumed.incoming
                    consumed.sends (laterWorking.suffix (delivers_suffix body)) further)
            · obtain ⟨final, read, inactive⟩ := clientRead_shortHeader cbs packetSound.wire stream
                schedule (by omega)
              exact inactive_later read ⟨0, final, rfl, inactive⟩

def World.over (world : World σ) (packets : List Bytes) (recvs : List RecvStep) : World σ :=
  { world with sock := { world.sock with incoming := packets.flatten, recvs := recvs } }

section

variable {cbs : Callbacks σ} (valid : cbs.Valid) {packets : List Bytes}
variable (sound : ∀ packet ∈ packets, Sound packet) {world : World σ} (sends : world.sock.SendsAll)

include valid sound sends

theorem boundary_over (active : world.client.active = true) {recvs : List RecvStep}
    (working : Working recvs) (unbroken : Unbroken recvs packets) (count : Nat) :
    ∃ final, clientReads cbs count (world.over packets recvs) = .ok final ∧
      final.client.active = true ∧
      (packets.length + recvs.length ≤ count →
        receivedPackets (world.over packets recvs) final = packets) := by
  have start : Boundary (world.over packets recvs) (world.over packets recvs) packets packets :=
    ⟨by simp [receivedPackets, fresh], List.prefix_rfl, rfl, sends, active, working, unbroken⟩
  obtain ⟨final, left, reads, boundary, done⟩ := start.reads valid sound count
  refine ⟨final, reads, boundary.active, fun enough => ?_⟩
  have received := boundary.received
  rwa [done (Or.inr enough), List.append_nil] at received

theorem unbroken_of_active {recvs : List RecvStep} (working : Working recvs)
    (active : ∀ count final, clientReads cbs count (world.over packets recvs) = .ok final →
      final.client.active = true) : Unbroken recvs packets := by
  by_contra broken
  obtain ⟨count, final, reads, inactive⟩ :=
    reads_broken valid sound recvs (show (world.over packets recvs).sock.recvs = recvs from rfl) rfl
      sends working broken
  have contrary := active count final reads
  rw [inactive] at contrary
  cases contrary

/-- Two runs over the same packets handle the same packets and stay active exactly when, in both,
each header arrives in one piece and no `EAGAIN` interrupts a packet. -/
theorem delivery_independent_iff (active : world.client.active = true)
    {first second : List RecvStep} (firstWorking : Working first) (secondWorking : Working second) :
    SameDelivery cbs (world.over packets first) (world.over packets second) ↔
      Unbroken first packets ∧ Unbroken second packets := by
  constructor
  · intro same
    exact ⟨unbroken_of_active valid sound sends firstWorking same.firstActive,
      unbroken_of_active valid sound sends secondWorking same.secondActive⟩
  · rintro ⟨firstUnbroken, secondUnbroken⟩
    have always {recvs : List RecvStep} (working : Working recvs)
        (unbroken : Unbroken recvs packets) (count : Nat) (final : World σ)
        (reads : clientReads cbs count (world.over packets recvs) = .ok final) :
        final.client.active = true := by
      obtain ⟨other, ran, stays, -⟩ := boundary_over valid sound sends active working unbroken count
      rw [reads] at ran
      cases ran
      exact stays
    refine ⟨always firstWorking firstUnbroken, always secondWorking secondUnbroken,
      packets.length + first.length + second.length, fun count enough => ?_⟩
    obtain ⟨firstFinal, firstRan, -, firstAll⟩ :=
      boundary_over valid sound sends active firstWorking firstUnbroken count
    obtain ⟨secondFinal, secondRan, -, secondAll⟩ :=
      boundary_over valid sound sends active secondWorking secondUnbroken count
    exact ⟨firstFinal, secondFinal, firstRan, secondRan,
      (firstAll (by omega)).trans (secondAll (by omega)).symm⟩

end

theorem sound_sampleRead : Sound sampleRead :=
  emitted_sampleRead.sound (by rw [length_sampleRead]; decide)

theorem split_packet_disconnects :
    (∃ final, warppipeClientRead silentCallbacks ((clientWith []).over [sampleRead] [.deliver 3]) =
        .ok final ∧ final.client.active = false) ∧
    (∃ final,
        warppipeClientRead silentCallbacks
          ((clientWith []).over [sampleRead] [.deliver 6, .again]) =
        .ok final ∧ final.client.active = false) ∧
    (∃ final,
      warppipeClientRead silentCallbacks ((clientWith []).over [sampleRead] []) = .ok final ∧
      final.client.active = true ∧
      receivedPackets ((clientWith []).over [sampleRead] []) final = [sampleRead]) := by
  have stream (recvs : List RecvStep) :
      ((clientWith []).over [sampleRead] recvs).sock.incoming = sampleRead ++ [] := rfl
  refine ⟨clientRead_shortHeader _ sound_sampleRead.wire (stream _) rfl (by decide),
    clientRead_brokenBody _ sound_sampleRead.wire sound_sampleRead.fits (stream _) rfl (by decide)
      (by simp [Working]) (by rw [length_sampleRead]; rfl), ?_⟩
  have sends : ((clientWith []).over [sampleRead] []).sock.SendsAll := nofun
  obtain ⟨final, read, consumed⟩ :=
    clientRead_sound silent_valid sends sound_sampleRead (stream []) rfl
  exact ⟨final, read, consumed.active, consumed.received⟩

theorem waiting_read_delivered :
    SameDelivery silentCallbacks
      ((clientWith []).over [sampleRead] [.again, .deliver 6, .deliver 3, .deliver 7])
      ((clientWith []).over [sampleRead] []) :=
  (delivery_independent_iff silent_valid (by simp [sound_sampleRead])
    (show (clientWith []).sock.SendsAll from nofun) rfl (by simp [Working])
    (show Working [] from nofun)).mpr
      ⟨⟨[], by rw [length_sampleRead]; rfl, trivial⟩, ⟨[], rfl, trivial⟩⟩

end WarpPipe
