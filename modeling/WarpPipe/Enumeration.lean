import WarpPipe.DirectAccess

/-!
Enumeration of the memory mock: with direct access the host finds every BAR of the table, and so it
does over a connection.
-/

namespace WarpPipe

open ByteLayout

variable {μ : Type}

def ConfigSpace.dword (space : ConfigSpace) (index : Nat) : Bytes := slice space.bytes (4 * index) 4

def ConfigSpace.vendorId (space : ConfigSpace) : BitVec 16 :=
  ofLittleEndian 16 2 (slice space.bytes 0x0 2)

def ConfigSpace.headerType (space : ConfigSpace) : BitVec 8 :=
  ofLittleEndian 8 1 (slice space.bytes 0xE 1)

theorem slice_dword (space : ConfigSpace) {index offset count : Nat} (inside : offset + count ≤ 4) :
    slice (space.dword index) offset count = slice space.bytes (4 * index + offset) count := by
  rw [ConfigSpace.dword, slice, slice, slice, List.drop_take, List.take_take, List.drop_drop]
  congr 1
  omega

theorem dword_setBar (space : ConfigSpace) (barIdx : Fin 6) (value : BitVec 32) (index : Nat) :
    (space.setBar barIdx value).dword index =
      if index = 4 + barIdx.val then littleEndian 4 value else space.dword index := by
  have length := space.length_bytes
  have fits : barOffset + 4 * barIdx.val + (littleEndian 4 value).length ≤ space.bytes.length := by
    rw [length_littleEndian, barOffset]
    omega
  split
  · rename_i hit
    have place : 4 * index = barOffset + 4 * barIdx.val := by
      rw [barOffset]
      omega
    have read := slice_overwrite space.bytes (littleEndian 4 value) _ fits
    rw [length_littleEndian] at read
    rw [ConfigSpace.dword, place]
    exact read
  · rename_i miss
    apply buffer_ext
    · simp only [ConfigSpace.dword, ConfigSpace.setBar, length_slice, length_overwrite]
    · intro position bound
      simp only [ConfigSpace.dword, length_slice] at bound
      simp only [ConfigSpace.dword]
      rw [getByte_slice (by omega), getByte_slice (by omega)]
      refine getByte_overwrite_outside fits ?_
      rw [length_littleEndian, barOffset]
      omega

theorem config0ReadCb_dword (space : ConfigSpace) {addr : BitVec 64} {index : Nat}
    (place : addr.toNat = 4 * index) (inside : index < 16) :
    config0ReadCb space addr 4 = .ok (0, space.dword index) := by
  have aligned : addr &&& 3 = 0 := by
    apply BitVec.eq_of_toNat_eq
    rw [toNat_and_three, place]
    exact Nat.mul_mod_right 4 index
  have accepted : ¬(addr &&& 3 ≠ 0 ∨ (4 : Int) ≠ 4) := by
    rintro (odd | short)
    · exact odd aligned
    · exact short rfl
  rw [config0ReadCb, if_neg accepted, if_pos (by omega), place]
  rfl

section

variable {table : Fin 6 → BarEntry} {direct : Direct μ} (idle : direct.readData = none)

include idle

theorem exec_readConfigHeaderField (junk : BitVec 32) {addr : BitVec 64} {length index : Nat}
    (place : addr.toNat / 4 = index) (inside : index < 16) (fits : addr.toNat % 4 + length ≤ 4) :
    Exec table (readConfigHeaderField junk addr length) direct 3
      (4, slice (direct.mock.1.space.dword index) (addr.toNat % 4) length) direct := by
  have aligned : (addr &&& ~~~3).toNat = 4 * index := by
    rw [toNat_and_not_three, place, Nat.mul_comm]
  have answer := config0ReadCb_dword direct.mock.1.space aligned inside
  have full := length_of_config0Read answer
  have access : Encodable (addr &&& ~~~3) 4 := ⟨by omega, by omega, by omega⟩
  have short : ¬length + addr.toNat % 4 > 4 := by omega
  generalize started : ReadComplData.mk false (littleEndian 4 junk) 4 0 = waiting
  have copied : readCompl waiting 0 (direct.mock.1.space.dword index) 4 =
      { finished := true, buf := direct.mock.1.space.dword index, bufSize := 4, ret := 4 } := by
    rw [← started, readCompl, if_neg (by decide)]
    simp only [gt_iff_lt, Int.lt_irrefl, if_false]
    rw [overwrite_zero _ _ (by simp), List.take_of_length_le (by rw [full]; decide),
      List.drop_of_length_le (by rw [full]; simp), List.append_nil]
  have unfinished : waiting.finished = false := by rw [← started]
  have expected : ({ direct with readData := some waiting } : Direct μ).readData =
    some waiting := rfl
  have same : { direct with readData := none } = direct := by rw [← idle]
  simp only [readConfigHeaderField, toNat_and_three]
  rw [if_neg short, started]
  refine .expect idle unfinished (.read access expected unfinished answer ?_)
  rw [copied]
  refine .wait rfl rfl ?_
  rw [show ({ direct with readData := none } : Direct μ) = direct from same]
  exact .done _ _

end

theorem toNat_hostBarOffset (barIdx : Fin 6) :
    (BitVec.ofNat 64 (hostBarOffset barIdx)).toNat = 0x10 + 4 * barIdx.val := by
  rw [BitVec.toNat_ofNat, hostBarOffset]
  omega

theorem config0WriteCb_bar (table : Fin 6 → BarEntry) (space : ConfigSpace) (barIdx : Fin 6)
    (value : BitVec 32) :
    config0WriteCb table space (BitVec.ofNat 64 (hostBarOffset barIdx)) (littleEndian 4 value)
        (littleEndian 4 value).length =
      handleConfigBarWrite table space barIdx value := by
  have place := toNat_hostBarOffset barIdx
  have index : barIdx? (BitVec.ofNat 64 (hostBarOffset barIdx)) = some barIdx := by
    rw [barIdx?, dif_pos (by rw [place, barOffset]; omega), Option.some.injEq]
    apply Fin.ext
    simp only [place, barOffset]
    omega
  have aligned : BitVec.ofNat 64 (hostBarOffset barIdx) &&& 3 = 0 := by
    apply BitVec.eq_of_toNat_eq
    rw [toNat_and_three, place]
    exact Nat.mod_eq_zero_of_dvd ⟨4 + barIdx.val, by omega⟩
  have accepted : ¬(BitVec.ofNat 64 (hostBarOffset barIdx) &&& 3 ≠ 0 ∨
      ((littleEndian 4 value).length : Int) ≠ 4) := by
    rintro (odd | short)
    · exact odd aligned
    · exact short (by rw [length_littleEndian]; rfl)
  rw [config0WriteCb, if_neg accepted, index]
  simp only
  rw [ofLittleEndian_littleEndian value value.isLt]

/-- An entry that enumeration can handle: no BAR, or one whose size is a power of two between the
smallest that a BAR can say and the distance of the addresses that the host gives out. -/
def Enumerable (entry : BarEntry) : Prop :=
  (entry.size = 0 ∧ entry.config = 0) ∨
    (∃ order, 4 ≤ order ∧ order ≤ 18 ∧ entry.size.toNat = 2 ^ order) ∧ entry.config.toNat ≤ 0xF

def sizingValue (entry : BarEntry) : BitVec 32 :=
  barAddr entry.toBarConfig 0xffffffff ||| entry.config.setWidth 32

structure Active (entry : BarEntry) : Prop where
  sized : sizingValue entry ≠ 0 ∧ -(sizingValue entry &&& ~~~0xF) = entry.size
  power : ¬(entry.size = 0 ∨ entry.size &&& (entry.size - 1) ≠ 0)
  kept : ∀ barIdx, barAddr entry.toBarConfig (hostBarAddr barIdx) = hostBarAddr barIdx
  divides : ∀ barIdx, entry.size.toNat ∣ (hostBarAddr barIdx).toNat
  bounded : entry.size.toNat ≤ 0x40000

theorem sizing_order : ∀ (order : Fin 15) (config : BitVec 8), config.toNat ≤ 0xF →
    (0xffffffff &&& ~~~(BitVec.ofNat 32 (2 ^ (order.val + 4)) - 1)) ||| config.setWidth 32 ≠ 0 ∧
    -(((0xffffffff &&& ~~~(BitVec.ofNat 32 (2 ^ (order.val + 4)) - 1)) ||| config.setWidth 32) &&&
      ~~~0xF) = BitVec.ofNat 32 (2 ^ (order.val + 4)) := by
  decide +kernel

theorem address_order : ∀ (order : Fin 15) (barIdx : Fin 6),
    hostBarAddr barIdx &&& ~~~(BitVec.ofNat 32 (2 ^ (order.val + 4)) - 1) = hostBarAddr barIdx ∧
    2 ^ (order.val + 4) ∣ (hostBarAddr barIdx).toNat := by
  decide +kernel

theorem power_order : ∀ order : Fin 15,
    ¬(BitVec.ofNat 32 (2 ^ (order.val + 4)) = 0 ∨
      BitVec.ofNat 32 (2 ^ (order.val + 4)) &&& (BitVec.ofNat 32 (2 ^ (order.val + 4)) - 1) ≠ 0) ∧
    2 ^ (order.val + 4) ≤ 0x40000 := by
  decide +kernel

theorem Enumerable.active {entry : BarEntry} (enumerable : Enumerable entry)
    (used : entry.size ≠ 0) :
    Active entry := by
  rcases enumerable with ⟨unused, -⟩ | ⟨⟨order, least, most, size⟩, config⟩
  · exact absurd unused used
  obtain ⟨index, rfl⟩ : ∃ index : Fin 15, order = index.val + 4 :=
    ⟨⟨order - 4, by omega⟩, by simp only; omega⟩
  have same : entry.size = BitVec.ofNat 32 (2 ^ (index.val + 4)) := by
    rw [← size, BitVec.ofNat_toNat, BitVec.setWidth_eq]
  obtain ⟨power, bounded⟩ := power_order index
  refine ⟨?_, by rwa [same], fun barIdx => ?_, fun barIdx => ?_, by rwa [size]⟩
  · rw [sizingValue, barAddr, same]
    exact sizing_order index entry.config config
  · rw [barAddr, same]
    exact (address_order index barIdx).1
  · rw [size]
    exact (address_order index barIdx).2

theorem Enumerable.sizingValue_unused {entry : BarEntry} (enumerable : Enumerable entry)
    (unused : entry.size = 0) :
    sizingValue entry = 0 := by
  rcases enumerable with ⟨-, config⟩ | ⟨⟨order, -, -, size⟩, -⟩
  · rw [sizingValue, barAddr, unused, config]
    decide
  · rw [unused] at size
    exact absurd size.symm (Nat.two_pow_pos order).ne'

def barsAfter (table : Fin 6 → BarEntry) (found : List (Fin 6)) (barIdx : Fin 6) : BitVec 32 :=
  if barIdx ∈ found ∧ (table barIdx).size ≠ 0 then hostBarAddr barIdx else 0

def sizesAfter (table : Fin 6 → BarEntry) (found : List (Fin 6)) (barIdx : Fin 6) : BitVec 32 :=
  if barIdx ∈ found then (table barIdx).size else 0

structure Enumerated (table : Fin 6 → BarEntry) (before : ConfigSpace) (found : List (Fin 6))
    (direct : Direct μ) : Prop where
  idle : direct.readData = none
  hostBars : direct.hostRegistry.bar = barsAfter table found ∧
  direct.hostRegistry.barSize = sizesAfter table found
  mockBars : direct.mock.2.bar = barsAfter table found ∧
  direct.mock.2.barSize = sizesAfter table found
  header : ∀ index < 16, index < 4 ∨ 10 ≤ index →
  direct.mock.1.space.dword index = before.dword index

section

variable {table : Fin 6 → BarEntry} {found : List (Fin 6)} {barIdx : Fin 6}

theorem after_unused (unused : (table barIdx).size = 0) :
    barsAfter table (barIdx :: found) = barsAfter table found ∧
      sizesAfter table (barIdx :: found) = sizesAfter table found := by
  refine ⟨funext fun other => ?_, funext fun other => ?_⟩
  · by_cases same : other = barIdx
    · subst same
      simp [barsAfter, unused]
    · simp [barsAfter, same]
  · by_cases same : other = barIdx
    · subst same
      simp [sizesAfter, unused]
    · simp [sizesAfter, same]

theorem after_used (used : (table barIdx).size ≠ 0) :
    Function.update (barsAfter table found) barIdx (hostBarAddr barIdx) =
        barsAfter table (barIdx :: found) ∧
      Function.update (sizesAfter table found) barIdx (table barIdx).size =
        sizesAfter table (barIdx :: found) := by
  refine ⟨funext fun other => ?_, funext fun other => ?_⟩
  · by_cases same : other = barIdx
    · subst same
      rw [Function.update_self, barsAfter, if_pos ⟨List.mem_cons_self .., used⟩]
    · simp [barsAfter, same]
  · by_cases same : other = barIdx
    · subst same
      simp [sizesAfter]
    · simp [sizesAfter, same]

theorem barsAfter_new (new : barIdx ∉ found) : barsAfter table found barIdx = 0 := by
  simp [barsAfter, new]

theorem registered_after {registry : Registry} {size : BitVec 32} (readCb writeCb : Option FnPtr)
    (bars : registry.bar = barsAfter table found ∧ registry.barSize = sizesAfter table found)
    (new : barIdx ∉ found) (used : (table barIdx).size ≠ 0) (same : size = (table barIdx).size)
    (power : ¬(size = 0 ∨ size &&& (size - 1) ≠ 0)) :
    let next :=
      registry.after (.registerBar ((hostBarAddr barIdx).setWidth 64) size barIdx readCb writeCb)
    next.bar = barsAfter table (barIdx :: found) ∧
    next.barSize = sizesAfter table (barIdx :: found) := by
  have unset : ¬registry.bar barIdx ≠ 0 := by
    rw [bars.1, barsAfter_new new]
    exact fun differs => differs rfl
  have narrow : ((hostBarAddr barIdx).setWidth 64).setWidth 32 = hostBarAddr barIdx := by
    rw [BitVec.setWidth_setWidth_of_le _ (by decide), BitVec.setWidth_eq]
  simp only [Registry.after]
  rw [if_neg unset, if_neg power]
  simp only [bars.1, bars.2, narrow, same]
  exact after_used used

theorem dword_bar {space : ConfigSpace} {value : BitVec 32} :
    (space.setBar barIdx value).dword (4 + barIdx.val) = littleEndian 4 value := by
  rw [dword_setBar, if_pos rfl]

theorem header_setBar {space before : ConfigSpace} {value : BitVec 32}
    (header : ∀ index < 16, index < 4 ∨ 10 ≤ index → space.dword index = before.dword index) :
    ∀ index < 16, index < 4 ∨ 10 ≤ index → (space.setBar barIdx value).dword index =
      before.dword index := by
  intro index inside outside
  rw [dword_setBar, if_neg (by omega)]
  exact header index inside outside

theorem hostBarAddr_ne : ∀ barIdx, hostBarAddr barIdx ≠ 0xffffffff := by
  decide

theorem configWrite_sizing (table : Fin 6 → BarEntry) (mock : MockDevice μ × Registry)
    (barIdx : Fin 6) :
    configWrite table mock (BitVec.ofNat 64 (hostBarOffset barIdx),
      littleEndian 4 (0xFFFFFFFF : BitVec 32)) =
      ({ mock.1 with space := mock.1.space.setBar barIdx (sizingValue (table barIdx)) },
        mock.2) := by
  simp only [configWrite, config0WriteCb_bar, handleConfigBarWrite, ne_eq,
    not_true_eq_false, if_false, List.foldl_nil]
  rfl

theorem configWrite_address (table : Fin 6 → BarEntry) (mock : MockDevice μ × Registry)
    {barIdx : Fin 6} (active : Active (table barIdx)) :
    configWrite table mock (BitVec.ofNat 64 (hostBarOffset barIdx),
      littleEndian 4 (hostBarAddr barIdx)) =
      ({ mock.1 with space :=
          mock.1.space.setBar barIdx (hostBarAddr barIdx ||| (table barIdx).config.setWidth 32) },
        mock.2.after (.registerBar ((hostBarAddr barIdx).setWidth 64) (table barIdx).size barIdx
          (table barIdx).readCb (table barIdx).writeCb)) := by
  have address := hostBarAddr_ne barIdx
  simp only [configWrite, config0WriteCb_bar, handleConfigBarWrite, if_pos address, active.kept,
    List.foldl_cons, List.foldl_nil]

theorem exec_barField {direct : Direct μ} (idle : direct.readData = none) (junk : BitVec 32)
    (barIdx : Fin 6) :
    Exec table (readConfigHeaderField junk (BitVec.ofNat 64 (hostBarOffset barIdx)) 4) direct 3
      (4, direct.mock.1.space.dword (4 + barIdx.val)) direct := by
  have place := toNat_hostBarOffset barIdx
  have start : (BitVec.ofNat 64 (hostBarOffset barIdx)).toNat % 4 = 0 := by omega
  have read : Exec table (readConfigHeaderField junk (BitVec.ofNat 64 (hostBarOffset barIdx)) 4)
      direct 3 _ direct :=
    exec_readConfigHeaderField idle junk
      (show (BitVec.ofNat 64 (hostBarOffset barIdx)).toNat / 4 = 4 + barIdx.val by omega)
        (by omega) (by omega)
  have whole : slice (direct.mock.1.space.dword (4 + barIdx.val)) 0 4 =
      direct.mock.1.space.dword (4 + barIdx.val) := by
    rw [slice, List.drop_zero,
      List.take_of_length_le (by rw [ConfigSpace.dword, length_slice]; omega)]
  rwa [start, whole] at read

def Direct.sized (direct : Direct μ) (table : Fin 6 → BarEntry) (barIdx : Fin 6) : Direct μ :=
  { direct with mock := ({ direct.mock.1 with
      space := direct.mock.1.space.setBar barIdx (sizingValue (table barIdx)) }, direct.mock.2) }

def Direct.addressed (direct : Direct μ) (table : Fin 6 → BarEntry) (barIdx : Fin 6) :
    Direct μ where
  mock := ({ direct.mock.1 with
      space := direct.mock.1.space.setBar barIdx
        (hostBarAddr barIdx ||| (table barIdx).config.setWidth 32) },
    direct.mock.2.after (.registerBar ((hostBarAddr barIdx).setWidth 64) (table barIdx).size barIdx
      (table barIdx).readCb (table barIdx).writeCb))
  hostRegistry := direct.hostRegistry.after
    (.registerBar ((hostBarAddr barIdx).setWidth 64) (table barIdx).size barIdx none none)
  readData := direct.readData

theorem Exec.of_code {α : Type} {failed next : HostProgram α} {direct final : Direct μ}
    {steps : Nat} {value : α} (later : Exec table next direct steps value final) :
    Exec table ((HostProgram.done (0 : Int)).bind fun code => if code < 0 then failed else next)
      direct steps value final := by
  change Exec table (if (0 : Int) < 0 then failed else next) direct steps value final
  rwa [if_neg (by decide)]

/-- One BAR: the host sizes it and, if there is one, gives it an address and registers it. -/
theorem exec_enumerateBar (junk : Junk) (enumerable : Enumerable (table barIdx))
    {before : ConfigSpace} {direct : Direct μ} (enumerated : Enumerated table before found direct)
    (new : barIdx ∉ found) :
    ∃ steps final, steps ≤ 9 ∧ Exec table (enumerateBar junk barIdx) direct steps () final ∧
      Enumerated table before (barIdx :: found) final := by
  obtain ⟨idle, hostBars, mockBars, header⟩ := enumerated
  have place := toNat_hostBarOffset barIdx
  have access : Encodable (BitVec.ofNat 64 (hostBarOffset barIdx)) 4 :=
    ⟨by omega, by omega, by omega⟩
  have sizing : { direct with
      mock := configWrite table direct.mock
        (BitVec.ofNat 64 (hostBarOffset barIdx), littleEndian 4 (0xFFFFFFFF : BitVec 32)) } =
        direct.sized table barIdx := by
    rw [configWrite_sizing]
    rfl
  have answer :
      ofLittleEndian 32 4 ((direct.sized table barIdx).mock.1.space.dword (4 + barIdx.val)) =
      sizingValue (table barIdx) := by
    rw [Direct.sized, dword_bar, ofLittleEndian_littleEndian (sizingValue _) (BitVec.isLt _)]
  have still : (direct.sized table barIdx).readData = none := idle
  by_cases unused : (table barIdx).size = 0
  · obtain ⟨bars, sizes⟩ : barsAfter table (barIdx :: found) = barsAfter table found ∧ _ :=
      after_unused unused
    refine ⟨3 + (3 + 0 + 1), direct.sized table barIdx, by omega, ?_, idle, ?_, ?_,
      header_setBar header⟩
    · refine Exec.bind (exec_barField idle _ barIdx)
        (.write access (length_littleEndian ..) idle ?_)
      rw [sizing]
      refine Exec.of_code ?_
      change Exec table _ _ (3 + 0) _ _
      refine Exec.bind (exec_barField still _ barIdx) ?_
      simp only [answer]
      rw [if_pos (.inr (enumerable.sizingValue_unused unused))]
      exact .done _ _
    · rw [bars, sizes]
      exact hostBars
    · rw [bars, sizes]
      exact mockBars
  · have active := enumerable.active unused
    have unset : (direct.sized table barIdx).hostRegistry.bar barIdx = 0 :=
      (congrFun hostBars.1 barIdx).trans (barsAfter_new new)
    have addressing : Direct.mk
        (configWrite table (direct.sized table barIdx).mock
          (BitVec.ofNat 64 (hostBarOffset barIdx), littleEndian 4 (hostBarAddr barIdx)))
        ((direct.sized table barIdx).hostRegistry.after
          (.registerBar ((hostBarAddr barIdx).setWidth 64)
          (-(sizingValue (table barIdx) &&& ~~~0xF)) barIdx none none))
        (direct.sized table barIdx).readData =
          (direct.sized table barIdx).addressed table barIdx := by
      rw [configWrite_address table _ active, active.sized.2]
      rfl
    refine ⟨3 + (3 + 2 + 1), (direct.sized table barIdx).addressed table barIdx, by omega, ?_,
      idle, ?_, ?_, ?_⟩
    · refine Exec.bind (exec_barField idle _ barIdx)
        (.write access (length_littleEndian ..) idle ?_)
      rw [sizing]
      refine Exec.of_code ?_
      refine Exec.bind (exec_barField still _ barIdx) ?_
      simp only [answer]
      rw [if_neg (not_or.mpr ⟨by decide, active.sized.1⟩)]
      refine .register unset (by rw [active.sized.2]; exact active.power) still (Exec.of_code ?_)
      refine .write access (length_littleEndian ..) still ?_
      rw [addressing]
      exact .done _ _
    · exact registered_after none none hostBars new unused rfl active.power
    · exact registered_after _ _ mockBars new unused rfl active.power
    · exact header_setBar (header_setBar header)

theorem exec_enumerateBars (junk : Junk) (enumerable : ∀ barIdx, Enumerable (table barIdx))
    {before : ConfigSpace} {direct : Direct μ} {rest : List (Fin 6)}
    (enumerated : Enumerated table before found direct) (distinct : rest.Nodup)
    (new : ∀ barIdx ∈ rest, barIdx ∉ found) :
    ∃ steps final, steps ≤ 9 * rest.length ∧
      Exec table (enumerateBars junk rest) direct steps () final ∧
      Enumerated table before (rest.reverse ++ found) final := by
  induction rest generalizing found direct with
  | nil => exact ⟨0, direct, Nat.le_refl _, .done _ _, enumerated⟩
  | cons barIdx rest ih =>
      obtain ⟨absent, apart⟩ := List.nodup_cons.mp distinct
      obtain ⟨first, middle, few, head, one⟩ :=
        exec_enumerateBar junk (enumerable barIdx) enumerated (new barIdx (by simp))
      obtain ⟨second, final, more, tail, all⟩ := ih one apart fun other member => by
        rw [List.mem_cons, not_or]
        exact ⟨fun same => absent (same ▸ member), new other (List.mem_cons_of_mem _ member)⟩
      refine ⟨first + second, final, ?_, head.bind tail, ?_⟩
      · rw [List.length_cons]
        omega
      · rw [List.reverse_cons, List.append_assoc]
        exact all

theorem exec_enumerate (junk : Junk) (enumerable : ∀ barIdx, Enumerable (table barIdx))
    {direct : Direct μ} (vendor : direct.mock.1.space.vendorId ≠ 0xFFFF)
    (type : direct.mock.1.space.headerType = 0)
    (enumerated : Enumerated table direct.mock.1.space [] direct) :
    ∃ steps final, steps ≤ 60 ∧ Exec table (enumerate junk) direct steps 0 final ∧
      Enumerated table direct.mock.1.space (List.finRange 6).reverse final := by
  obtain ⟨steps, final, few, bars, all⟩ := exec_enumerateBars junk enumerable enumerated
    (List.nodup_finRange 6) fun _ _ => List.not_mem_nil
  rw [List.length_finRange] at few
  rw [List.append_nil] at all
  refine ⟨3 + (3 + (steps + 0)), final, by omega, ?_, all⟩
  have first : Exec table (readConfigHeaderField junk.vendorId 0x0 2) direct 3 _ direct :=
    exec_readConfigHeaderField enumerated.idle junk.vendorId
      (show (0x0 : BitVec 64).toNat / 4 = 0 from rfl) (by decide) (by decide)
  have second : Exec table (readConfigHeaderField junk.headerType 0xE 1) direct 3 _ direct :=
    exec_readConfigHeaderField enumerated.idle junk.headerType
      (show (0xE : BitVec 64).toNat / 4 = 3 from rfl) (by decide) (by decide)
  rw [slice_dword _ (by decide)] at first second
  have known : ¬((4 : Int) < 0 ∨ direct.mock.1.space.vendorId = 0xFFFF) :=
    not_or.mpr ⟨by decide, vendor⟩
  have plain : ¬((4 : Int) < 0 ∨ direct.mock.1.space.headerType ≠ 0) :=
    not_or.mpr ⟨by decide, not_not.mpr type⟩
  refine first.bind ?_
  change Exec table (if (4 : Int) < 0 ∨ direct.mock.1.space.vendorId = 0xFFFF then _ else _) _ _ _ _
  rw [if_neg known]
  refine second.bind ?_
  change Exec table (if (4 : Int) < 0 ∨ direct.mock.1.space.headerType ≠ 0 then _ else _) _ _ _ _
  rw [if_neg plain]
  exact bars.bind (.done _ _)

end

/-! A fresh connection. -/

section

variable {σ : Type} {application : Application σ} {process next : Process σ} {env : AcceptEnv}

theorem serverAccept_created (ok : serverAccept application process env = .ok (0, next)) :
    ∃ opened fd, insertClient application opened fd env = .ok (0, next) ∧
      opened.server = process.server ∧ opened.app = process.app := by
  simp only [serverAccept] at ok
  split at ok
  · split at ok
    · cases ok
    · split at ok
      · exact ⟨_, _, ok, rfl, rfl⟩
      · cases ok
  · split at ok
    · exact ⟨_, _, ok, rfl, rfl⟩
    · cases ok

theorem insertClient_created {fd : Int}
    (ok : insertClient application process fd env = .ok (0, next)) :
    ∃ ptr memory, env.client = some (ptr, memory) ∧
      ((process.server.acceptCb = none ∧ next.app = process.app ∧
        next.server.clients = process.server.clients ++
          [⟨ptr, warppipeClientCreate memory fd, env.sock⟩]) ∨
      ∃ cb, process.server.acceptCb = some cb ∧
        next.app = (application.accept cb process.app ptr).app ∧
        callsOn (process.server.clients ++ [⟨ptr, warppipeClientCreate memory fd, env.sock⟩])
          (application.accept cb process.app ptr).calls = .ok next.server.clients) := by
  simp only [insertClient] at ok
  split at ok
  · cases ok
  · rename_i ptr memory allocated
    refine ⟨ptr, memory, allocated, ?_⟩
    split at ok
    · simp only [bind, Except.bind, pure, Except.pure] at ok
      cases callback : process.server.acceptCb with
      | none =>
          simp only [callback] at ok
          cases ok
          exact .inl ⟨rfl, rfl, rfl⟩
      | some cb =>
          simp only [callback] at ok
          split at ok
          · cases ok
          · rename_i clients called
            cases ok
            exact .inr ⟨cb, rfl, rfl, called⟩
    · cases ok

end

theorem findAt_callOn {clients next : List ClientNode} {ptr : Nat} {node : ClientNode} {call : Call}
    (found : findAt clients ptr = some node) (ok : callOn clients ptr call = .ok next) :
    ∃ rc world, call.run (node.world ()) = .ok (rc, world) ∧
      findAt next ptr = some (node.update world) := by
  simp only [callOn, found] at ok
  split at ok
  · rename_i rc world ran
    cases ok
    refine ⟨rc, world, ran, ?_⟩
    rw [findAt_updateAt, if_pos rfl, found, Option.map_some]
  · cases ok

theorem callsOn_acceptCalls {clients next : List ClientNode} {ptr : Nat} {node : ClientNode}
    (found : findAt clients ptr = some node)
    (ok : callsOn clients (acceptCalls.map fun call => (ptr, call)) = .ok next) :
    findAt next ptr = some { node with client := { node.client with
      cfg0ReadCb := some config0ReadPtr, cfg0WriteCb := some config0WritePtr } } := by
  simp only [acceptCalls, List.map_cons, List.map_nil, callsOn] at ok
  split at ok
  · rename_i served first
    obtain ⟨_, _, ⟨⟩, reads⟩ := findAt_callOn found first
    split at ok
    · rename_i both second
      obtain ⟨_, _, ⟨⟩, writes⟩ := findAt_callOn reads second
      cases ok
      exact writes
    · cases ok
  · cases ok

theorem mockApplication_accept (table : Fin 6 → BarEntry) (bars : BarMemory μ) (mock : MockDevice μ)
    (ptr : Nat) :
    (mockApplication table bars).accept serverClientAcceptPtr mock ptr =
      { app := serverClientAccept table mock ptr, calls := acceptCalls.map fun call => (ptr,
        call) } := by
  simp only [mockApplication, if_true]

structure Socket.Reliable (sock : Socket) : Prop where
  incoming : sock.incoming = []
  recvs : sock.recvs = []
  sends : sock.SendsAll

/-- The host has connected, and the mock has accepted the connection; the other connections of the
mock stay idle. -/
structure FreshConnection (table : Fin 6 → BarEntry) (bars : BarMemory μ) (host : Process HostApp)
    (device : Process (MockDevice μ)) (hostNode deviceNode : ClientNode) : Prop where
  connected : ∃ before env, before.server.clients = [] ∧ before.server.acceptCb = none ∧
    before.app = ⟨none, none⟩ ∧ env.sock.Reliable ∧
    serverAccept hostApplication before env = .ok (0, host)
  accepted : ∃ before env,
    (∀ ptr memory, env.client = some (ptr, memory) → findAt before.server.clients ptr = none) ∧
    before.server.acceptCb = some serverClientAcceptPtr ∧ before.app.fault = none ∧
    env.sock.Reliable ∧ serverAccept (mockApplication table bars) before env = .ok (0, device)
  hostListed : host.server.clients = [hostNode]
  deviceListed : findAt device.server.clients device.app.devClient = some deviceNode

def connection (host : Process HostApp) (device : Process (MockDevice μ))
    (hostNode deviceNode : ClientNode) :
    System (HostAndMock μ)
  | .left => hostNode.world (host.shared hostNode.ptr)
  | .right => deviceNode.world (device.shared deviceNode.ptr)

section

variable {table : Fin 6 → BarEntry} {bars : BarMemory μ} {host : Process HostApp}
  {device : Process (MockDevice μ)} {hostNode deviceNode : ClientNode}
  (fresh : FreshConnection table bars host device hostNode deviceNode)

include fresh

theorem FreshConnection.host_created :
    ∃ memory fd, hostNode.client = warppipeClientCreate memory fd ∧ hostNode.sock.Reliable ∧
      host.app = ⟨none, none⟩ := by
  obtain ⟨before, env, first, plain, app, reliable, ok⟩ := fresh.connected
  obtain ⟨opened, fd, inserted, server, same⟩ := serverAccept_created ok
  obtain ⟨ptr, memory, -, ⟨-, kept, clients⟩ | ⟨cb, registered, -⟩⟩ := insertClient_created inserted
  · rw [fresh.hostListed, server, first] at clients
    cases clients
    exact ⟨memory, fd, rfl, reliable, by rw [kept, same, app]⟩
  · rw [server, plain] at registered
    cases registered

theorem FreshConnection.device_created :
    ∃ memory fd, deviceNode.client = { warppipeClientCreate memory fd with
        cfg0ReadCb := some config0ReadPtr, cfg0WriteCb := some config0WritePtr } ∧
      deviceNode.sock.Reliable ∧ device.app.devClient = deviceNode.ptr ∧
      device.app.fault = none := by
  obtain ⟨before, env, unused, serves, sane, reliable, ok⟩ := fresh.accepted
  obtain ⟨opened, fd, inserted, server, same⟩ := serverAccept_created ok
  obtain ⟨ptr, memory, allocated, ⟨unset, -⟩ | ⟨cb, registered, app, called⟩⟩ :=
    insertClient_created inserted
  · rw [server, serves] at unset
    cases unset
  · rw [server, serves] at registered
    cases registered
    rw [mockApplication_accept] at app called
    rw [server] at called
    have created :
        findAt (before.server.clients ++ [⟨ptr, warppipeClientCreate memory fd, env.sock⟩]) ptr =
        some ⟨ptr, warppipeClientCreate memory fd, env.sock⟩ :=
      findAt_append (unused ptr memory allocated)
    have listed := fresh.deviceListed
    rw [show device.app.devClient = ptr from congrArg MockDevice.devClient app,
      callsOn_acceptCalls created called, Option.some.injEq] at listed
    rw [← listed, app]
    refine ⟨memory, fd, rfl, reliable, rfl, ?_⟩
    simp only [serverClientAccept, same, sane]

omit fresh in
def startDirect (device : Process (MockDevice μ)) (hostNode deviceNode : ClientNode) :
    Direct μ where
  mock := (device.app, deviceNode.client.registry)
  hostRegistry := hostNode.client.registry
  readData := none

theorem FreshConnection.coupled {α : Type} (program : HostProgram α) :
    Coupled table ⟨connection host device hostNode deviceNode, false, program⟩ (fun _ => [])
      (startDirect device hostNode deviceNode) := by
  obtain ⟨hostMemory, hostFd, hostClient, hostSock, hostApp⟩ := fresh.host_created
  obtain ⟨memory, fd, client, sock, latest, sane⟩ := fresh.device_created
  refine ⟨⟨fun side => ?_, fun side => ?_, fun side => ?_⟩, rfl, ⟨?_, rfl, ?_⟩,
    ⟨?_, sane, latest, ?_, ?_⟩, ?_⟩
  · cases side
    · exact hostSock.incoming
    · exact sock.incoming
  · cases side
    · exact hostSock.recvs
    · exact sock.recvs
  · cases side
    · exact hostSock.sends
    · exact sock.sends
  · exact congrArg Client.active hostClient
  · exact congrArg HostApp.fault hostApp
  · exact congrArg Client.active client
  · exact congrArg Client.cfg0ReadCb client
  · exact congrArg Client.cfg0WriteCb client
  · exact .steady [] rfl (congrArg HostApp.readData hostApp)

theorem FreshConnection.enumerated :
    Enumerated table device.app.space [] (startDirect device hostNode deviceNode) := by
  obtain ⟨hostMemory, hostFd, hostClient, -, -⟩ := fresh.host_created
  obtain ⟨memory, fd, client, -, -, -⟩ := fresh.device_created
  have none : barsAfter table [] = fun _ => 0 :=
    funext fun _ => if_neg fun held => List.not_mem_nil held.1
  have zero : sizesAfter table [] = fun _ => 0 := funext fun _ => if_neg List.not_mem_nil
  refine ⟨rfl, ?_, ?_, fun _ _ _ => rfl⟩
  · rw [none, zero]
    exact ⟨congrArg Client.bar hostClient, congrArg Client.barSize hostClient⟩
  · rw [none, zero]
    exact ⟨congrArg Client.bar client, congrArg Client.barSize client⟩

end

/-- What enumeration leaves: both clients hold every BAR of the table, at the same aligned address
and with its size, and no other; the BARs do not overlap, and the rest of the header is as it
was. -/
structure Agreed (table : Fin 6 → BarEntry) (before after : ConfigSpace) (host device : Client) :
    Prop where
  registered : ∀ barIdx, (table barIdx).size ≠ 0 →
    host.bar barIdx = device.bar barIdx ∧ host.bar barIdx ≠ 0 ∧
    host.barSize barIdx = (table barIdx).size ∧ device.barSize barIdx = (table barIdx).size ∧
    (table barIdx).size.toNat ∣ (host.bar barIdx).toNat
  unregistered : ∀ barIdx, (table barIdx).size = 0 →
    host.bar barIdx = 0 ∧ device.bar barIdx = 0 ∧ host.barSize barIdx = 0 ∧
    device.barSize barIdx = 0
  disjoint : ∀ first second, first ≠ second → (table first).size ≠ 0 → (table second).size ≠ 0 →
    (host.bar first).toNat + (host.barSize first).toNat ≤ (host.bar second).toNat ∨
      (host.bar second).toNat + (host.barSize second).toNat ≤ (host.bar first).toNat
  header : ∀ index < 16, index < 4 ∨ 10 ≤ index → after.dword index = before.dword index

theorem toNat_hostBarAddr (barIdx : Fin 6) :
    (hostBarAddr barIdx).toNat = 0x40000 * (4 + barIdx.val) := by
  rw [hostBarAddr, BitVec.toNat_ofNat, hostBarOffset]
  omega

theorem Enumerated.agreed {table : Fin 6 → BarEntry}
    (enumerable : ∀ barIdx, Enumerable (table barIdx)) {before : ConfigSpace} {direct : Direct μ}
    (enumerated : Enumerated table before (List.finRange 6).reverse direct) {host device : Client}
    (hostSame : host.registry = direct.hostRegistry)
    (deviceSame : device.registry = direct.mock.2) :
    Agreed table before direct.mock.1.space host device := by
  have found (barIdx : Fin 6) : barIdx ∈ (List.finRange 6).reverse := by simp
  have hostBar (barIdx : Fin 6) : host.bar barIdx =
      barsAfter table (List.finRange 6).reverse barIdx :=
    (congrFun (congrArg Registry.bar hostSame) barIdx).trans (congrFun enumerated.hostBars.1 barIdx)
  have hostSize (barIdx : Fin 6) : host.barSize barIdx = (table barIdx).size :=
    ((congrFun (congrArg Registry.barSize hostSame) barIdx).trans
      (congrFun enumerated.hostBars.2 barIdx)).trans (if_pos (found barIdx))
  have deviceBar (barIdx : Fin 6) : device.bar barIdx =
      barsAfter table (List.finRange 6).reverse barIdx :=
    (congrFun (congrArg Registry.bar deviceSame) barIdx).trans
      (congrFun enumerated.mockBars.1 barIdx)
  have deviceSize (barIdx : Fin 6) : device.barSize barIdx = (table barIdx).size :=
    ((congrFun (congrArg Registry.barSize deviceSame) barIdx).trans
      (congrFun enumerated.mockBars.2 barIdx)).trans (if_pos (found barIdx))
  have used {barIdx : Fin 6} (size : (table barIdx).size ≠ 0) :
      barsAfter table (List.finRange 6).reverse barIdx = hostBarAddr barIdx :=
        if_pos ⟨found barIdx, size⟩
  have unused {barIdx : Fin 6} (size : (table barIdx).size = 0) :
      barsAfter table (List.finRange 6).reverse barIdx = 0 := if_neg fun held => held.2 size
  refine ⟨fun barIdx size => ?_, fun barIdx size => ?_, fun first second apart left right => ?_,
    enumerated.header⟩
  · rw [hostBar, deviceBar, used size]
    refine ⟨rfl, fun zero => ?_, hostSize barIdx, deviceSize barIdx,
      ((enumerable barIdx).active size).divides barIdx⟩
    have place := toNat_hostBarAddr barIdx
    rw [zero] at place
    simp at place
  · rw [hostBar, deviceBar, hostSize, deviceSize, unused size]
    exact ⟨rfl, rfl, size, size⟩
  · rw [hostBar, hostBar, hostSize, hostSize, used left, used right, toNat_hostBarAddr,
      toNat_hostBarAddr]
    have firstBound := ((enumerable first).active left).bounded
    have secondBound := ((enumerable second).active right).bounded
    have order : first.val < second.val ∨ second.val < first.val :=
      Nat.lt_or_gt_of_ne fun same => apart (Fin.ext same)
    omega

/-- Enumeration over a connection returns 0 and leaves both sides in agreement, whatever turns they
take: no turn fails, the host returns nothing else, and turns that leave no side out get it there
with no packet left under way. -/
theorem enumeration_agrees {table : Fin 6 → BarEntry}
    (enumerable : ∀ barIdx, Enumerable (table barIdx)) {bars : BarMemory μ} {host : Process HostApp}
    {device : Process (MockDevice μ)} {hostNode deviceNode : ClientNode}
    (fresh : FreshConnection table bars host device hostNode deviceNode)
    (vendor : device.app.space.vendorId ≠ 0xFFFF) (type : device.app.space.headerType = 0)
    (junk : Junk) :
    (∀ schedule, ∃ last,
      Runs.run (setupStep table bars) ⟨connection host device hostNode deviceNode, false,
        enumerate junk⟩ schedule = .ok last ∧
      (∀ result, last.program = .done result → result = 0)) ∧
    ∀ rounds : List (List Side), (∀ round ∈ rounds, ∀ side, side ∈ round) → 300 ≤ rounds.length →
      ∃ last, Runs.run (setupStep table bars)
          ⟨connection host device hostNode deviceNode, false, enumerate junk⟩
          rounds.flatten = .ok last ∧
        last.program = .done 0 ∧ (∀ side, (last.system side).sock.incoming = []) ∧
        Agreed table device.app.space (last.system .right).app.app.space (last.system .left).client
          (last.system .right).client ∧
        (last.system .left).app.app.fault = none ∧ (last.system .right).app.app.fault = none := by
  obtain ⟨steps, final, few, exec, found⟩ := exec_enumerate junk enumerable
    (show (startDirect device hostNode deviceNode).mock.1.space.vendorId ≠ 0xFFFF from vendor) type
      fresh.enumerated
  have track :
      OnTrack table 0 final ⟨connection host device hostNode deviceNode, false, enumerate junk⟩
      ⟨steps, _, fun _ => []⟩ := ⟨rfl, _, fresh.coupled _, exec⟩
  refine ⟨fun schedule => ?_, fun rounds fair enough => ?_⟩
  · obtain ⟨last, later, ran, still⟩ := track.runs schedule
    exact ⟨last, ran, fun result => still.returned⟩
  · obtain ⟨last, ran, ended, drained⟩ := track.ends fair (by
      change 5 * steps + 0 ≤ rounds.length
      omega)
    have mock : (last.system .right).app.app = final.mock.1 := congrArg Prod.fst ended.mock
    have agreed := found.agreed enumerable ended.host (congrArg Prod.snd ended.mock)
    refine ⟨last, ran, ended.program, drained, ?_, ended.faults⟩
    rw [mock]
    exact agreed

theorem mockTable_enumerable (barIdx : Fin 6) : Enumerable (mockTable barIdx) := by
  match barIdx with
  | 0 => exact .inr ⟨⟨7, by decide, by decide, rfl⟩, by decide⟩
  | 1 => exact .inr ⟨⟨11, by decide, by decide, rfl⟩, by decide⟩
  | 2 | 3 | 4 | 5 => exact .inl ⟨rfl, rfl⟩

def connectingHost : Process HostApp where
  openFds := {3}
  server :=
    { fd := 3, listen := false, quit := false, maxFd := 3, readFds := ∅
      clients := [], acceptCb := none }
  app := ⟨none, none⟩
  events := []

def blankJunk : Junk where
  vendorId := 0
  headerType := 0
  oldBar _ := 0
  bar _ := 0
  sizing _ _ := 0
  address _ _ := 0

theorem acceptAt_reliable (fd : Int) (ptr : Nat) : (acceptAt fd ptr).sock.Reliable :=
  ⟨rfl, rfl, List.forall_mem_nil _⟩

theorem mock_enumerated :
    ∃ host device hostNode deviceNode last,
      FreshConnection mockTable mockBars host device hostNode deviceNode ∧
      Runs.run (setupStep mockTable mockBars)
        ⟨connection host device hostNode deviceNode, false, enumerate blankJunk⟩
        (List.replicate 300 [.left, .right]).flatten = .ok last ∧
      last.program = .done 0 ∧
      (last.system .left).client.bar 1 = (last.system .right).client.bar 1 ∧
      (last.system .left).client.barSize 1 = 2048 := by
  obtain ⟨host, hostNode, connected, hostListed⟩ : ∃ host hostNode,
      serverAccept hostApplication connectingHost (acceptAt 3 1) = .ok (0, host) ∧
      host.server.clients = [hostNode] := ⟨_, _, rfl, rfl⟩
  obtain ⟨device, deviceNode, accepted, deviceListed, space⟩ : ∃ device deviceNode,
      serverAccept (mockApplication mockTable mockBars) mockServer.process (acceptAt 4 1) =
        .ok (0, device) ∧
      findAt device.server.clients device.app.devClient = some deviceNode ∧
      device.app.space = resetBars mockTable mockServer.process.app.space := ⟨_, _, rfl, rfl, rfl⟩
  have fresh : FreshConnection mockTable mockBars host device hostNode deviceNode :=
    ⟨⟨_, _, rfl, rfl, rfl, acceptAt_reliable 3 1, connected⟩,
      ⟨_, _, fun _ _ _ => rfl, rfl, rfl, acceptAt_reliable 4 1, accepted⟩, hostListed, deviceListed⟩
  have vendor : device.app.space.vendorId ≠ 0xFFFF := by
    rw [space]
    decide +kernel
  have type : device.app.space.headerType = 0 := by
    rw [space]
    decide +kernel
  have fair : ∀ round ∈ List.replicate 300 [Side.left, Side.right], ∀ side, side ∈ round := by
    intro round member side
    rw [List.eq_of_mem_replicate member]
    cases side <;> simp
  obtain ⟨last, ran, done, -, agreed, -⟩ :=
    (enumeration_agrees mockTable_enumerable fresh vendor type blankJunk).2 _
    fair List.length_replicate.ge
  obtain ⟨same, -, size, -⟩ := agreed.registered 1 (by decide)
  exact ⟨host, device, hostNode, deviceNode, last, fresh, ran, done, same, size⟩

end WarpPipe
