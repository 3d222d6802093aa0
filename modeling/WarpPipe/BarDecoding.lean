import Mathlib.Data.List.Pairwise
import WarpPipe.Windows
import WarpPipe.Invocations

/-!
Which BAR a request reaches, after any calls of `warppipe_register_bar`. An index that nothing was
registered for holds a size of 0, whose mask lets every address through.
-/

namespace WarpPipe

open ByteLayout

variable {σ : Type}

structure Registration where
  bar : BitVec 64
  barSize : BitVec 32
  barIdx : Fin 6
  readCb : Option FnPtr
  writeCb : Option FnPtr

def Registration.apply (client : Client) (registration : Registration) : Client :=
  (warppipeRegisterBar client registration.bar registration.barSize registration.barIdx
    registration.readCb registration.writeCb).2

def registerAll (client : Client) (registrations : List Registration) : Client :=
  registrations.foldl Registration.apply client

structure Registration.Aligned (registration : Registration) : Prop where
  low : registration.bar.toNat < 2 ^ 32
  aligned : registration.barSize.toNat ∣ registration.bar.toNat

def Covers (client : Client) (index : Fin 6) (addr : Nat) : Prop :=
  (client.bar index).toNat ≤ addr ∧ addr < (client.bar index).toNat + (client.barSize index).toNat

instance (client : Client) (index : Fin 6) (addr : Nat) : Decidable (Covers client index addr) :=
  inferInstanceAs (Decidable (_ ∧ _))

structure Unset (client : Client) (index : Fin 6) : Prop where
  bar : client.bar index = 0
  barSize : client.barSize index = 0
  readCb : client.barReadCb index = none
  writeCb : client.barWriteCb index = none

def WellFormed (client : Client) : Prop :=
  ∀ index, Unset client index ∨ ∃ window, Holds client index window

theorem accepted_iff (barSize : BitVec 32) :
    ¬(barSize = 0 ∨ barSize &&& (barSize - 1) ≠ 0) ↔ ∃ order, barSize.toNat = 2 ^ order := by
  by_cases zero : barSize = 0
  · subst zero
    refine iff_of_false (not_not.mpr (.inl rfl)) ?_
    rintro ⟨order, size⟩
    exact (Nat.two_pow_pos order).ne size
  · have positive : barSize.toNat ≠ 0 := fun same => zero (BitVec.eq_of_toNat_eq same)
    have one : (1 : BitVec 32) ≤ barSize := by
      rw [BitVec.le_def]
      exact Nat.one_le_iff_ne_zero.mpr positive
    have masked : barSize &&& (barSize - 1) = 0 ↔ barSize.toNat &&& (barSize.toNat - 1) = 0 := by
      rw [← BitVec.toNat_inj, BitVec.toNat_and, BitVec.toNat_sub_of_le one]
      rfl
    rw [not_or, not_not, masked, Nat.and_sub_one_eq_zero_iff_isPowerOfTwo positive]
    exact ⟨fun power => power.2, fun power => ⟨zero, power⟩⟩

theorem apply_cases (client : Client) (registration : Registration) :
    registration.apply client = client ∨
      client.bar registration.barIdx = 0 ∧ (∃ order, registration.barSize.toNat = 2 ^ order) ∧
        registration.apply client = { client with
          bar := Function.update client.bar registration.barIdx (registration.bar.setWidth 32)
          barSize := Function.update client.barSize registration.barIdx registration.barSize
          barReadCb := Function.update client.barReadCb registration.barIdx registration.readCb
          barWriteCb :=
            Function.update client.barWriteCb registration.barIdx registration.writeCb } := by
  rcases registerBar_cases client registration.bar registration.barSize registration.barIdx
    registration.readCb registration.writeCb with same | ⟨free, accepted, changed⟩
  · exact .inl (congrArg Prod.snd same)
  · exact .inr ⟨free, (accepted_iff _).mp accepted, congrArg Prod.snd changed⟩

structure SameEntry (left right : Client) (index : Fin 6) : Prop where
  bar : left.bar index = right.bar index
  barSize : left.barSize index = right.barSize index
  readCb : left.barReadCb index = right.barReadCb index
  writeCb : left.barWriteCb index = right.barWriteCb index

structure Entry (client : Client) (registration : Registration) : Prop where
  bar : client.bar registration.barIdx = registration.bar.setWidth 32
  barSize : client.barSize registration.barIdx = registration.barSize
  readCb : client.barReadCb registration.barIdx = registration.readCb
  writeCb : client.barWriteCb registration.barIdx = registration.writeCb

theorem apply_other (client : Client) {registration : Registration} {index : Fin 6}
    (other : index ≠ registration.barIdx) : SameEntry (registration.apply client) client index := by
  rcases apply_cases client registration with same | ⟨-, -, changed⟩
  · rw [same]
    exact ⟨rfl, rfl, rfl, rfl⟩
  · rw [changed]
    exact ⟨Function.update_of_ne other .., Function.update_of_ne other ..,
      Function.update_of_ne other .., Function.update_of_ne other ..⟩

theorem SameEntry.unset {left right : Client} {index : Fin 6} (same : SameEntry left right index)
    (unset : Unset right index) : Unset left index :=
  ⟨same.bar.trans unset.bar, same.barSize.trans unset.barSize, same.readCb.trans unset.readCb,
    same.writeCb.trans unset.writeCb⟩

theorem SameEntry.holds {left right : Client} {index : Fin 6} {window : Window}
    (same : SameEntry left right index) (holds : Holds right index window) :
    Holds left index window :=
  ⟨by rw [same.bar, holds.bar], by rw [same.barSize, holds.barSize]⟩

theorem Entry.holds {client : Client} {registration : Registration}
    (entry : Entry client registration) (aligned : registration.Aligned) {order : Nat}
    (size : registration.barSize.toNat = 2 ^ order) :
    ∃ window, Holds client registration.barIdx window ∧ window.base = registration.bar.toNat := by
  refine ⟨⟨registration.bar.toNat, order, size ▸ aligned.aligned, aligned.low⟩, ⟨?_, ?_⟩, rfl⟩
  · rw [entry.bar, BitVec.toNat_setWidth, Nat.mod_eq_of_lt aligned.low]
  · exact (congrArg BitVec.toNat entry.barSize).trans size

theorem WellFormed.apply {client : Client} (formed : WellFormed client)
    {registration : Registration} (aligned : registration.Aligned) :
    WellFormed (registration.apply client) := by
  intro index
  by_cases other : index = registration.barIdx
  · subst other
    rcases apply_cases client registration with same | ⟨-, ⟨order, size⟩, changed⟩
    · rw [same]
      exact formed _
    · have entry : Entry (registration.apply client) registration := by
        rw [changed]
        exact ⟨Function.update_self .., Function.update_self .., Function.update_self ..,
          Function.update_self ..⟩
      obtain ⟨window, holds, -⟩ := entry.holds aligned size
      exact .inr ⟨window, holds⟩
  · have same := apply_other client other
    rcases formed index with unset | ⟨window, holds⟩
    · exact .inl (same.unset unset)
    · exact .inr ⟨window, same.holds holds⟩

theorem wellFormed_create (memory : Client) (fd : Int) :
    WellFormed (warppipeClientCreate memory fd) :=
  fun _ => .inl ⟨rfl, rfl, rfl, rfl⟩

theorem WellFormed.registerAll {client : Client} (formed : WellFormed client)
    {registrations : List Registration}
    (aligned : ∀ registration ∈ registrations, registration.Aligned) :
    WellFormed (registerAll client registrations) := by
  induction registrations generalizing client with
  | nil => exact formed
  | cons registration rest ih =>
      rw [List.forall_mem_cons] at aligned
      exact ih (formed.apply aligned.1) aligned.2

theorem Unset.matches {client : Client} {index : Fin 6} (unset : Unset client index)
    (addr : BitVec 64) :
    MatchesBar client addr index := by
  rw [MatchesBar, unset.bar, unset.barSize]
  exact BitVec.and_zero

theorem Holds.covers_iff {client : Client} {index : Fin 6} {window : Window}
    (holds : Holds client index window) (addr : Nat) :
    Covers client index addr ↔ window.base ≤ addr ∧ addr < window.base + window.size := by
  rw [Covers, holds.bar, holds.barSize]

theorem Unset.not_covers {client : Client} {index : Fin 6} (unset : Unset client index)
    (addr : Nat) :
    ¬Covers client index addr := by
  rw [Covers, unset.bar, unset.barSize]
  exact fun covered => Nat.lt_irrefl addr (Nat.lt_of_lt_of_le covered.2 (Nat.zero_le addr))

section

variable {client : Client} (formed : WellFormed client)

include formed

theorem WellFormed.matches_iff (addr : BitVec 64) (index : Fin 6) :
    MatchesBar client addr index ↔ Unset client index ∨
    Covers client index (addr.toNat % 2 ^ 32) := by
  rcases formed index with unset | ⟨window, holds⟩
  · exact ⟨fun _ => .inl unset, fun _ => unset.matches addr⟩
  · rw [holds.matches_iff, holds.covers_iff]
    constructor
    · exact .inr
    · rintro (unset | covered)
      · have size := holds.barSize
        rw [unset.barSize] at size
        exact absurd size.symm (Nat.one_le_iff_ne_zero.mp window.size_pos)
      · exact covered

theorem WellFormed.covers_lt {index : Fin 6} {addr : Nat} (covered : Covers client index addr) :
    addr < 2 ^ 32 := by
  rcases formed index with unset | ⟨window, holds⟩
  · exact absurd covered (unset.not_covers addr)
  · have inside := (holds.covers_iff addr).mp covered
    exact Nat.lt_of_lt_of_le inside.2 (window.end_le (Nat.le_of_lt holds.order_lt))

end

structure ServesAt (client : Client) (index : Fin 6) (addr : Nat) : Prop where
  covers : Covers client index addr
  before : ∀ other < index, ¬Unset client other ∧ ¬Covers client other addr

theorem WellFormed.getBarIdx_iff {client : Client} (formed : WellFormed client) {addr : BitVec 64}
    {index : Fin 6} :
    getBarIdx client addr = some index ↔
      (Unset client index ∨ Covers client index (addr.toNat % 2 ^ 32)) ∧
      ∀ other < index, ¬Unset client other ∧ ¬Covers client other (addr.toNat % 2 ^ 32) := by
  simp only [getBarIdx_eq_some_iff, formed.matches_iff, not_or]

/-- With all six BARs set, the test of the masked address is containment in the window. -/
theorem mask_test_contains {client : Client}
    (sizes : ∀ index, ∃ order, (client.barSize index).toNat = 2 ^ order)
    (aligned : ∀ index, (client.barSize index).toNat ∣ (client.bar index).toNat) {addr : BitVec 64}
    (low : addr.toNat < 2 ^ 32) :
    (∀ index, getBarIdx client addr = some index ↔
      Covers client index addr.toNat ∧ ∀ other < index, ¬Covers client other addr.toNat) ∧
    (getBarIdx client addr = none ↔ ∀ index, ¬Covers client index addr.toNat) ∧
    ∀ index, getBarIdx client addr = some index →
      (addr &&& (client.barSize index - 1).setWidth 64).toNat =
        addr.toNat - (client.bar index).toNat := by
  have holds : ∀ index, ∃ window, Holds client index window := by
    intro index
    obtain ⟨order, size⟩ := sizes index
    exact ⟨⟨(client.bar index).toNat, order, size ▸ aligned index, (client.bar index).isLt⟩, rfl,
      size⟩
  have contains : ∀ index, MatchesBar client addr index ↔ Covers client index addr.toNat := by
    intro index
    obtain ⟨window, held⟩ := holds index
    rw [held.matches_iff, held.covers_iff, Nat.mod_eq_of_lt low]
  refine ⟨fun index => ?_, ?_, fun index found => ?_⟩
  · simp only [getBarIdx_eq_some_iff, contains]
  · simp only [getBarIdx_eq_none_iff, contains]
  · obtain ⟨window, held⟩ := holds index
    have covered := (contains index).mp (getBarIdx_eq_some_iff.mp found).1
    rw [held.covers_iff] at covered
    rw [held.offset covered.1 covered.2, held.bar]

def sixBars : Client :=
  { (clientWith []).client with
    bar := fun index => if index = 5 then 0xfffff000 else 0x1000 * BitVec.ofNat 32 index.val
    barSize := fun index => if index = 1 then 0x800 else 0x1000 }

theorem last_window_contains : getBarIdx sixBars 0xfffffffc = some 5 ∧
    ((0xfffffffc : BitVec 64) &&& (sixBars.barSize 5 - 1).setWidth 64).toNat = 0xffc := by
  have sizes : ∀ index, ∃ order, (sixBars.barSize index).toNat = 2 ^ order := by
    intro index
    by_cases second : index = 1
    · exact ⟨11, by rw [second]; rfl⟩
    · exact ⟨12, by simp [sixBars, second]⟩
  have contained :=
    mask_test_contains sizes (by decide) (show (0xfffffffc : BitVec 64).toNat < 2 ^ 32 by decide)
  have found : getBarIdx sixBars 0xfffffffc = some 5 := (contained.1 5).mpr (by decide)
  exact ⟨found, contained.2.2 5 found⟩

def BarRequest (pkt : Bytes) : Prop :=
  ∃ type ∈ [PcieTlpType.iord, .mrd32, .mrd64, .iowr, .mwr32, .mwr64], tlpTypeOf pkt = some type

def barCb (client : Client) (pkt : Bytes) : Fin 6 → Option FnPtr :=
  match tlpTypeOf pkt with
  | some .iord | some .mrd32 | some .mrd64 => client.barReadCb
  | _ => client.barWriteCb

def barInvocation (pkt : Bytes) (addr : BitVec 64) (cb : FnPtr) : Invocation :=
  match tlpTypeOf pkt with
  | some .iord | some .mrd32 | some .mrd64 =>
    .read cb (addr + BitVec.ofNat 64 (firstByteOffset pkt)) (tlpDataLengthBytes pkt)
  | _ =>
      .write cb (addr + BitVec.ofNat 64 (firstByteOffset pkt))
        (payloadOffset pkt + firstByteOffset pkt) (tlpDataLengthBytes pkt)

def Invocation.cb : Invocation → FnPtr
  | .read cb _ _ => cb
  | .write cb _ _ _ => cb
  | .completion _ cb _ => cb

theorem invocation_bar (client : Client) {pkt : Bytes} (request : BarRequest pkt) :
    invocation client pkt = .ok ((barTarget client (barCb client pkt) (tlpReqGetAddr pkt)).1.map
      (barInvocation pkt (barTarget client (barCb client pkt) (tlpReqGetAddr pkt)).2)) := by
  obtain ⟨type, member, found⟩ := request
  simp only [List.mem_cons, List.not_mem_nil, or_false] at member
  rcases member with rfl | rfl | rfl | rfl | rfl | rfl <;>
    simp only [invocation, readInvocation, writeInvocation, readTarget, writeTarget,
      barCb, found] <;>
    congr 2 <;> funext cb <;> simp only [barInvocation, found]

theorem invocation_found {client : Client} {pkt : Bytes} (request : BarRequest pkt) {index : Fin 6}
    (found : getBarIdx client (tlpReqGetAddr pkt) = some index) :
    invocation client pkt = .ok ((barCb client pkt index).map
      (barInvocation pkt (tlpReqGetAddr pkt &&& (client.barSize index - 1).setWidth 64))) := by
  rw [invocation_bar client request, barTarget, found]

theorem invocation_missed {client : Client} {pkt : Bytes} (request : BarRequest pkt)
    (missed : getBarIdx client (tlpReqGetAddr pkt) = none) : invocation client pkt = .ok none := by
  rw [invocation_bar client request, barTarget, missed]
  rfl

theorem barInvocation_cb (pkt : Bytes) (addr : BitVec 64) (cb : FnPtr) :
    (barInvocation pkt addr cb).cb = cb := by
  rw [barInvocation]
  split <;> rfl

theorem Unset.barCb {client : Client} {index : Fin 6} (unset : Unset client index) (pkt : Bytes) :
    barCb client pkt index = none := by
  have table : WarpPipe.barCb client pkt = client.barReadCb ∨
      WarpPipe.barCb client pkt = client.barWriteCb := by
    rw [WarpPipe.barCb]
    split <;> simp
  rcases table with reads | writes
  · rw [reads, unset.readCb]
  · rw [writes, unset.writeCb]

/-- A request outside all BARs invokes nothing; one inside a single BAR invokes nothing else than
the callback of that BAR. -/
structure Confined (client : Client) (pkt : Bytes) (invoked : Option Invocation) : Prop where
  outside : (∀ index, ¬Covers client index (tlpReqGetAddr pkt).toNat) → invoked = none
  inside : ∀ index, Covers client index (tlpReqGetAddr pkt).toNat →
    (∀ other, Covers client other (tlpReqGetAddr pkt).toNat → other = index) →
    ∀ called, invoked = some called → barCb client pkt index = some called.cb

/-- What the request invokes, and where its BAR is found: by the lower 32 bits of the address. -/
theorem WellFormed.invokes {client : Client} (formed : WellFormed client) {pkt : Bytes}
    (request : BarRequest pkt) :
    ∃ invoked, invocation client pkt = .ok invoked ∧
      ∀ called, invoked = some called ↔
        ∃ index cb, ServesAt client index ((tlpReqGetAddr pkt).toNat % 2 ^ 32) ∧
        barCb client pkt index = some cb ∧
        called =
          barInvocation pkt (tlpReqGetAddr pkt &&& (client.barSize index - 1).setWidth 64) cb := by
  cases found : getBarIdx client (tlpReqGetAddr pkt) with
  | none =>
      refine ⟨none, invocation_missed request found, fun called =>
        ⟨fun clash => (by cases clash), ?_⟩⟩
      rintro ⟨index, cb, serves, -, -⟩
      rw [formed.getBarIdx_iff.mpr ⟨.inr serves.covers, serves.before⟩] at found
      cases found
  | some index =>
      refine ⟨_, invocation_found request found, fun called => ?_⟩
      rw [Option.map_eq_some_iff]
      constructor
      · rintro ⟨cb, stored, rfl⟩
        obtain ⟨hit, before⟩ := formed.getBarIdx_iff.mp found
        rcases hit with unset | covered
        · rw [unset.barCb] at stored
          cases stored
        · exact ⟨index, cb, ⟨covered, before⟩, stored, rfl⟩
      · rintro ⟨other, cb, serves, stored, rfl⟩
        rw [formed.getBarIdx_iff.mpr ⟨.inr serves.covers, serves.before⟩] at found
        cases found
        exact ⟨cb, stored, rfl⟩

def Configured (client : Client) : Prop :=
  ∃ memory fd registrations, (∀ registration ∈ registrations, Registration.Aligned registration) ∧
    client = registerAll (warppipeClientCreate memory fd) registrations

theorem Configured.wellFormed {client : Client} (configured : Configured client) :
    WellFormed client := by
  obtain ⟨memory, fd, registrations, aligned, rfl⟩ := configured
  exact (wellFormed_create memory fd).registerAll aligned

/-- Requests stay with the BAR that covers their address iff the address has no upper 32 bits, or no
BAR with a callback is found without them. -/
theorem bar_requests_confined_iff (cbs : Callbacks σ) {world : World σ}
    (configured : Configured world.client) {pkt : Bytes} (request : BarRequest pkt) :
    ∃ invoked, invocation world.client pkt = .ok invoked ∧
      handleTlp cbs world pkt = runInvocation cbs world pkt invoked ∧
      (Confined world.client pkt invoked ↔
        (tlpReqGetAddr pkt).toNat < 2 ^ 32 ∨
          ∀ index, ServesAt world.client index ((tlpReqGetAddr pkt).toNat % 2 ^ 32) →
            barCb world.client pkt index = none) := by
  have formed := configured.wellFormed
  obtain ⟨invoked, invokes, calls⟩ := formed.invokes request
  refine ⟨invoked, invokes, by rw [handleTlp_eq, invokes]; rfl, ?_⟩
  constructor
  · intro confined
    by_contra aliased
    push Not at aliased
    -- no window reaches that far, so nothing may be invoked, and the callback of the aliased BAR is
    obtain ⟨high, index, serves, stored⟩ := aliased
    obtain ⟨cb, stored⟩ := Option.ne_none_iff_exists'.mp stored
    have none := confined.outside fun other covered =>
      absurd (formed.covers_lt covered) (Nat.not_lt.mpr high)
    have some := (calls _).mpr ⟨index, cb, serves, stored, rfl⟩
    rw [none] at some
    cases some
  · rintro (low | silent)
    · rw [Nat.mod_eq_of_lt low] at calls
      refine ⟨fun outside => ?_, fun index covered only called called_eq => ?_⟩
      · rw [Option.eq_none_iff_forall_ne_some]
        intro called some
        obtain ⟨index, -, serves, -, -⟩ := (calls called).mp some
        exact outside index serves.covers
      · obtain ⟨other, cb, serves, stored, rfl⟩ := (calls called).mp called_eq
        rw [barInvocation_cb, ← only other serves.covers, stored]
    · have none : invoked = none := by
        rw [Option.eq_none_iff_forall_ne_some]
        intro called some
        obtain ⟨index, cb, serves, stored, -⟩ := (calls called).mp some
        rw [silent index serves] at stored
        cases stored
      exact ⟨fun _ => none, fun _ _ _ called some => by rw [none] at some; cases some⟩

def barAt (base : BitVec 64) (index : Fin 6) : Registration := ⟨base, 0x1000, index, some 7, some 8⟩

def withBars (registrations : List Registration) (packet : Bytes) : World Unit :=
  { clientWith packet with
    client := registerAll (warppipeClientCreate (clientWith packet).client 3) registrations }

def memoryReadAt (high : Byte) : Bytes :=
  3 :: pcieLcrc32 [0, 1, 0x20, 0, 0, 1, 0, 0, 0, 0x0f, 0, 0, 0, high, 0, 0, 0x10, 0, 0, 0, 0, 0]

theorem configured_barAt : Configured (withBars [barAt 0x1000 0] []).client := by
  refine ⟨(clientWith []).client, 3, [barAt 0x1000 0], fun registration only => ?_, rfl⟩
  rw [List.mem_singleton.mp only]
  exact ⟨by decide, by decide⟩

theorem low_request_confined :
    ∃ invoked,
      invocation (withBars [barAt 0x1000 0] []).client
        ((memoryReadAt 0).drop Transport.tTlp) = .ok invoked ∧
      Confined (withBars [barAt 0x1000 0] []).client
        ((memoryReadAt 0).drop Transport.tTlp) invoked := by
  obtain ⟨invoked, invokes, -, confined⟩ :=
    bar_requests_confined_iff silentCallbacks configured_barAt
    (show BarRequest ((memoryReadAt 0).drop Transport.tTlp)
      from ⟨.mrd64, by decide, by decide +kernel⟩)
  exact ⟨invoked, invokes, confined.mpr (.inl (by decide +kernel))⟩

/-- The address is 4 GiB above the BAR, and the callback of the BAR is told that it was hit at
offset 0. -/
theorem high_request_aliased :
    (∀ index, ¬Covers (withBars [barAt 0x1000 0] []).client index
      (tlpReqGetAddr ((memoryReadAt 1).drop Transport.tTlp)).toNat) ∧
    (warppipeClientRead silentCallbacks (withBars [barAt 0x1000 0] (memoryReadAt 1))).map
        (invocations (withBars [barAt 0x1000 0] (memoryReadAt 1))) =
      .ok [.readCb 7 0 4 0 [0, 0, 0, 0]] := by
  decide +kernel

structure Registration.Proper (registration : Registration) :
    Prop extends registration.Aligned where
  base : registration.bar ≠ 0
  size : ∃ order, 2 ≤ order ∧ registration.barSize.toNat = 2 ^ order

structure Registration.Apart (left right : Registration) : Prop where
  index : left.barIdx ≠ right.barIdx
  disjoint : left.bar.toNat + left.barSize.toNat ≤ right.bar.toNat ∨
    right.bar.toNat + right.barSize.toNat ≤ left.bar.toNat

instance : Std.Symm Registration.Apart where
  symm _ _ apart := ⟨apart.index.symm, apart.disjoint.symm⟩

theorem Registration.Proper.accepted {registration : Registration} (proper : registration.Proper) :
    ¬(registration.barSize = 0 ∨ registration.barSize &&& (registration.barSize - 1) ≠ 0) := by
  obtain ⟨order, -, size⟩ := proper.size
  exact (accepted_iff _).mpr ⟨order, size⟩

theorem Registration.Proper.apply_free {registration : Registration} (proper : registration.Proper)
    {client : Client} (free : client.bar registration.barIdx = 0) :
    Entry (registration.apply client) registration := by
  rw [Registration.apply, warppipeRegisterBar, if_neg (not_not.mpr free), if_neg proper.accepted]
  exact ⟨Function.update_self .., Function.update_self .., Function.update_self ..,
    Function.update_self ..⟩

theorem Registration.Proper.bar_ne_zero {registration : Registration}
    (proper : registration.Proper) :
    registration.bar.setWidth 32 ≠ 0 :=
  setWidth_ne_zero (Nat.pos_of_ne_zero fun zero => proper.base (BitVec.eq_of_toNat_eq zero))
    proper.low

theorem registerAll_other (client : Client) {registrations : List Registration} {index : Fin 6}
    (others : ∀ registration ∈ registrations, registration.barIdx ≠ index) :
    SameEntry (registerAll client registrations) client index := by
  induction registrations generalizing client with
  | nil => exact ⟨rfl, rfl, rfl, rfl⟩
  | cons registration rest ih =>
      rw [List.forall_mem_cons] at others
      have first := apply_other client others.1.symm
      have later := ih (registration.apply client) others.2
      exact ⟨later.bar.trans first.bar, later.barSize.trans first.barSize,
        later.readCb.trans first.readCb, later.writeCb.trans first.writeCb⟩

theorem Entry.of_same {left right : Client} {registration : Registration}
    (same : SameEntry left right registration.barIdx) (entry : Entry right registration) :
    Entry left registration :=
  ⟨same.bar.trans entry.bar, same.barSize.trans entry.barSize, same.readCb.trans entry.readCb,
    same.writeCb.trans entry.writeCb⟩

theorem registerAll_entry {client : Client} {registrations : List Registration}
    (proper : ∀ registration ∈ registrations, registration.Proper)
    (apart : registrations.Pairwise Registration.Apart)
    (free : ∀ registration ∈ registrations, client.bar registration.barIdx = 0) :
    ∀ registration ∈ registrations, Entry (registerAll client registrations) registration := by
  induction registrations generalizing client with
  | nil => exact fun registration none => absurd none List.not_mem_nil
  | cons first rest ih =>
      rw [List.forall_mem_cons] at proper free
      rw [List.pairwise_cons] at apart
      intro registration member
      rcases List.mem_cons.mp member with rfl | later
      · have kept := registerAll_other (registration.apply client) fun other after =>
          (apart.1 other after).index.symm
        exact Entry.of_same kept (proper.1.apply_free free.1)
      · refine ih proper.2 apart.2 (fun other after => ?_) registration later
        rw [(apply_other client (apart.1 other after).index.symm).bar]
        exact free.2 other after

def Registration.cb (registration : Registration) (pkt : Bytes) : Option FnPtr :=
  match tlpTypeOf pkt with
  | some .iord | some .mrd32 | some .mrd64 => registration.readCb
  | _ => registration.writeCb

section

variable {registrations : List Registration}
  (proper : ∀ registration ∈ registrations, registration.Proper)
  (apart : registrations.Pairwise Registration.Apart)

include proper apart

theorem created_entry (memory : Client) (fd : Int) {registration : Registration}
    (member : registration ∈ registrations) :
    Entry (registerAll (warppipeClientCreate memory fd) registrations) registration :=
  registerAll_entry proper apart (fun _ _ => rfl) registration member

theorem created_unset_iff (memory : Client) (fd : Int) (index : Fin 6) :
    Unset (registerAll (warppipeClientCreate memory fd) registrations) index ↔
      ¬∃ registration ∈ registrations, registration.barIdx = index := by
  constructor
  · rintro unset ⟨registration, member, rfl⟩
    have entry := created_entry proper apart memory fd member
    exact (proper registration member).bar_ne_zero (entry.bar.symm.trans unset.bar)
  · intro others
    have same : SameEntry (registerAll (warppipeClientCreate memory fd) registrations) _ index :=
      registerAll_other _ fun registration member own => others ⟨registration, member, own⟩
    exact same.unset ⟨rfl, rfl, rfl, rfl⟩

theorem created_covers (memory : Client) (fd : Int) {registration : Registration}
    (member : registration ∈ registrations) {addr : Nat} (start : registration.bar.toNat ≤ addr)
    (stop : addr < registration.bar.toNat + registration.barSize.toNat) (index : Fin 6) :
    Covers (registerAll (warppipeClientCreate memory fd) registrations) index addr ↔
      index = registration.barIdx := by
  have covers {own : Registration} (present : own ∈ registrations) :
      Covers (registerAll (warppipeClientCreate memory fd) registrations) own.barIdx addr ↔
        own.bar.toNat ≤ addr ∧ addr < own.bar.toNat + own.barSize.toNat := by
    have entry := created_entry proper apart memory fd present
    rw [Covers, entry.bar, entry.barSize, BitVec.toNat_setWidth,
      Nat.mod_eq_of_lt (proper own present).low]
  constructor
  · intro covered
    have set : ¬Unset (registerAll (warppipeClientCreate memory fd) registrations) index :=
      fun unset => unset.not_covers addr covered
    rw [created_unset_iff proper apart, not_not] at set
    obtain ⟨own, present, rfl⟩ := set
    by_contra other
    have inside := (covers present).mp covered
    have disjoint := (apart.forall member present fun same => other (congrArg _ same.symm)).disjoint
    omega
  · rintro rfl
    exact (covers member).mpr ⟨start, stop⟩

theorem created_serves_iff (memory : Client) (fd : Int) {registration : Registration}
    (member : registration ∈ registrations) {addr : Nat} (start : registration.bar.toNat ≤ addr)
    (stop : addr < registration.bar.toNat + registration.barSize.toNat) (index : Fin 6) :
    ServesAt (registerAll (warppipeClientCreate memory fd) registrations) index addr ↔
      index = registration.barIdx ∧
        ∀ lower < registration.barIdx, ∃ other ∈ registrations, other.barIdx = lower := by
  have covers := created_covers proper apart memory fd member start stop
  constructor
  · intro serves
    have same := (covers index).mp serves.covers
    refine ⟨same, fun lower before => ?_⟩
    have set := (serves.before lower (same ▸ before)).1
    rwa [created_unset_iff proper apart, not_not] at set
  · rintro ⟨rfl, registered⟩
    refine ⟨(covers _).mpr rfl, fun other before => ?_⟩
    rw [created_unset_iff proper apart, not_not, covers]
    exact ⟨registered other before, before.ne⟩

end

theorem Entry.barCb {client : Client} {registration : Registration}
    (entry : Entry client registration) (pkt : Bytes) :
    barCb client pkt registration.barIdx = registration.cb pkt := by
  simp only [WarpPipe.barCb, Registration.cb]
  cases kind : tlpTypeOf pkt with
  | none => exact entry.writeCb
  | some type =>
      cases type with
      | iord | mrd32 | mrd64 => exact entry.readCb
      | _ => exact entry.writeCb

/-- An address of a BAR leads to it iff all BARs with a lower index are registered too; then the
BAR's own callbacks serve the request, at the offset inside the BAR. -/
theorem registered_bar_reached_iff (memory : Client) (fd : Int) {registrations : List Registration}
    (proper : ∀ registration ∈ registrations, registration.Proper)
    (apart : registrations.Pairwise Registration.Apart) {registration : Registration}
    (member : registration ∈ registrations) {addr : BitVec 64}
    (start : registration.bar.toNat ≤ addr.toNat)
    (stop : addr.toNat < registration.bar.toNat + registration.barSize.toNat) :
    (getBarIdx (registerAll (warppipeClientCreate memory fd) registrations) addr =
      some registration.barIdx ↔
      ∀ lower < registration.barIdx, ∃ other ∈ registrations, other.barIdx = lower) ∧
    ∀ pkt, BarRequest pkt → tlpReqGetAddr pkt = addr →
      invocation (registerAll (warppipeClientCreate memory fd) registrations) pkt =
        .ok (if ∀ lower < registration.barIdx, ∃ other ∈ registrations, other.barIdx = lower then
            (registration.cb pkt).map
              (barInvocation pkt (BitVec.ofNat 64 (addr.toNat - registration.bar.toNat)))
          else none) := by
  have formed := (wellFormed_create memory fd).registerAll fun own present =>
    (proper own present).toAligned
  have entry := created_entry proper apart memory fd member
  obtain ⟨order, -, size⟩ := (proper registration member).size
  obtain ⟨window, holds, base⟩ := entry.holds (proper registration member).toAligned size
  have inside : window.base ≤ addr.toNat ∧ addr.toNat < window.base + window.size := by
    rw [← holds.barSize, base, entry.barSize]
    exact ⟨start, stop⟩
  have low : addr.toNat % 2 ^ 32 = addr.toNat :=
    Nat.mod_eq_of_lt (formed.covers_lt ((holds.covers_iff _).mpr inside))
  have serves := created_serves_iff proper apart memory fd member start stop
  have reached : getBarIdx (registerAll (warppipeClientCreate memory fd) registrations) addr =
      some registration.barIdx ↔ ∀ lower < registration.barIdx, ∃ other ∈ registrations,
      other.barIdx = lower := by
    rw [formed.getBarIdx_iff, low]
    constructor
    · rintro ⟨-, before⟩
      exact ((serves registration.barIdx).mp ⟨(holds.covers_iff _).mpr inside, before⟩).2
    · intro registered
      have own := (serves registration.barIdx).mpr ⟨rfl, registered⟩
      exact ⟨.inr own.covers, own.before⟩
  refine ⟨reached, ?_⟩
  rintro pkt request rfl
  split
  · rename_i registered
    rw [invocation_found request (reached.mpr registered), entry.barCb]
    have offset := holds.offset inside.1 inside.2
    rw [base] at offset
    rw [← offset, BitVec.ofNat_toNat, BitVec.setWidth_eq]
  · -- the lowest unset index answers, and has no callback
    rename_i missing
    obtain ⟨invoked, invokes, calls⟩ := formed.invokes request
    rw [low] at calls
    rw [invokes]
    cases invoked with
    | none => rfl
    | some called =>
        obtain ⟨index, cb, own, -, -⟩ := (calls called).mp rfl
        exact absurd ((serves index).mp own).2 missing

theorem second_bar_reached :
    getBarIdx (withBars [barAt 0x2000 1, barAt 0x1000 0] []).client 0x2004 = some 1 := by
  have proper : ∀ registration ∈ [barAt 0x2000 1, barAt 0x1000 0], registration.Proper := by
    simp only [List.forall_mem_cons, List.not_mem_nil, false_implies, implies_true, and_true]
    exact ⟨⟨⟨by decide, by decide⟩, by decide, 12, by decide, rfl⟩,
      ⟨⟨by decide, by decide⟩, by decide, 12, by decide, rfl⟩⟩
  have apart : [barAt 0x2000 1, barAt 0x1000 0].Pairwise Registration.Apart :=
    List.pairwise_pair.mpr ⟨by decide, by decide⟩
  exact (registered_bar_reached_iff (clientWith []).client 3 proper apart (List.mem_cons_self ..)
    (by decide) (by decide)).1.mpr (by decide)

/-- Nothing is registered for BAR 0, and it takes the requests of BAR 1. -/
theorem lone_bar_unreachable :
    getBarIdx (withBars [barAt 0x1000 1] []).client 0x1000 = some 0 ∧
    (warppipeClientRead silentCallbacks (withBars [barAt 0x1000 1] (memoryReadAt 0))).map
      (invocations (withBars [barAt 0x1000 1] (memoryReadAt 0))) = .ok [] := by
  decide +kernel

end WarpPipe
