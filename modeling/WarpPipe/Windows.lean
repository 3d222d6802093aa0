import WarpPipe.Handlers

/-!
BAR decoding. A BAR is a window of the address space; an access inside the window of a BAR reaches
the callback of that BAR, with the offset inside the window as its address.
-/

namespace WarpPipe

open ByteLayout

/-- A range of the 32-bit address space whose size is a power of two and divides its base. -/
structure Window where
  base : Nat
  order : Nat
  aligned : 2 ^ order ∣ base
  low : base < 2 ^ 32

def Window.size (window : Window) : Nat := 2 ^ window.order

def Window.Disjoint (left right : Window) : Prop :=
  left.base + left.size ≤ right.base ∨ right.base + right.size ≤ left.base

instance (left right : Window) : Decidable (left.Disjoint right) :=
  inferInstanceAs (Decidable (_ ∨ _))

structure Holds (client : Client) (index : Fin 6) (window : Window) : Prop where
  bar : (client.bar index).toNat = window.base
  barSize : (client.barSize index).toNat = window.size

theorem Window.size_pos (window : Window) : 1 ≤ window.size := Nat.one_le_two_pow

theorem Window.end_le (window : Window) (small : window.order ≤ 32) :
    window.base + window.size ≤ 2 ^ 32 := by
  obtain ⟨count, base⟩ := window.aligned
  obtain ⟨blocks, space⟩ := Nat.pow_dvd_pow 2 small
  have low := window.low
  have positive : 0 < 2 ^ window.order := Nat.two_pow_pos _
  rw [base, space] at low
  have below : count < blocks := Nat.lt_of_mul_lt_mul_left low
  calc window.base + window.size = 2 ^ window.order * (count + 1) := by
        rw [base, Window.size, Nat.mul_add, Nat.mul_one]
    _ ≤ 2 ^ window.order * blocks := Nat.mul_le_mul_left _ below
    _ = 2 ^ 32 := space.symm

theorem Window.round_eq_iff (window : Window) (addr : Nat) :
    addr / window.size * window.size = window.base ↔
      window.base ≤ addr ∧ addr < window.base + window.size := by
  have positive := window.size_pos
  obtain ⟨count, base⟩ := window.aligned
  rw [Window.size] at *
  rw [base, Nat.mul_comm _ count]
  constructor
  · intro rounded
    have quotient : addr / 2 ^ window.order = count := Nat.eq_of_mul_eq_mul_right positive rounded
    have parts := Nat.div_add_mod addr (2 ^ window.order)
    have remainder := Nat.mod_lt addr positive
    rw [quotient, Nat.mul_comm] at parts
    omega
  · intro inside
    have quotient : addr / 2 ^ window.order = count :=
      Nat.div_eq_of_lt_le inside.1 (by rw [Nat.add_mul, Nat.one_mul]; exact inside.2)
    rw [quotient]

theorem Window.mod_eq (window : Window) {addr : Nat} (start : window.base ≤ addr)
    (stop : addr < window.base + window.size) : addr % window.size = addr - window.base := by
  have rounded := (window.round_eq_iff addr).mpr ⟨start, stop⟩
  have parts := Nat.div_add_mod addr window.size
  rw [Nat.mul_comm, rounded] at parts
  omega

def MatchesBar (client : Client) (addr : BitVec 64) (index : Fin 6) : Prop :=
  addr &&& (~~~(client.barSize index - 1)).setWidth 64 = (client.bar index).setWidth 64

theorem getBarIdx_eq_some_iff {client : Client} {addr : BitVec 64} {index : Fin 6} :
    getBarIdx client addr = some index ↔
      MatchesBar client addr index ∧ ∀ other < index, ¬MatchesBar client addr other := by
  rw [getBarIdx, List.find?_eq_some_iff_getElem]
  constructor
  · rintro ⟨found, place, bound, here, before⟩
    have same : place = index.val := by simpa using congrArg Fin.val here
    subst same
    have hit := of_decide_eq_true found
    refine ⟨hit, fun other lower => ?_⟩
    simpa [MatchesBar] using before other.val lower
  · rintro ⟨found, before⟩
    refine ⟨decide_eq_true found, index.val, by simp, by simp, fun other lower => ?_⟩
    simpa [MatchesBar] using before ⟨other, by omega⟩ lower

theorem getBarIdx_eq_none_iff {client : Client} {addr : BitVec 64} :
    getBarIdx client addr = none ↔ ∀ index, ¬MatchesBar client addr index := by
  simp [getBarIdx, List.find?_eq_none, MatchesBar]

section

variable {client : Client} {index : Fin 6} {window : Window} (holds : Holds client index window)

include holds

theorem Holds.order_lt : window.order < 32 := by
  have bound := (client.barSize index).isLt
  rw [holds.barSize, Window.size] at bound
  exact (Nat.pow_lt_pow_iff_right (by decide)).mp bound

theorem Holds.mask : (client.barSize index - 1).toNat = 2 ^ window.order - 1 := by
  have positive := window.size_pos
  have size := holds.barSize
  have one : (1 : BitVec 32) ≤ client.barSize index := by
    rw [BitVec.le_def, size]
    exact positive
  rw [BitVec.toNat_sub_of_le one, size]
  rfl

theorem Holds.matches_iff (addr : BitVec 64) :
    MatchesBar client addr index ↔
      window.base ≤ addr.toNat % 2 ^ 32 ∧ addr.toNat % 2 ^ 32 < window.base + window.size := by
  rw [MatchesBar, ← BitVec.toNat_inj, toNat_and_highMask _ _ _ (by decide) holds.mask,
    BitVec.toNat_setWidth_of_le (by decide), holds.bar]
  exact window.round_eq_iff (addr.toNat % 2 ^ 32)

theorem Holds.offset {addr : BitVec 64} (start : window.base ≤ addr.toNat)
    (stop : addr.toNat < window.base + window.size) :
    (addr &&& (client.barSize index - 1).setWidth 64).toNat = addr.toNat - window.base := by
  have extended : ((client.barSize index - 1).setWidth 64).toNat = 2 ^ window.order - 1 := by
    rw [BitVec.toNat_setWidth_of_le (by decide), holds.mask]
  rw [toNat_and_lowMask _ _ _ extended]
  exact window.mod_eq start stop

end

/-- A completer that decodes `window` as BAR `index`: no BAR before it claims an address there. -/
structure Decodes (client : Client) (index : Fin 6) (window : Window) : Prop where
  holds : Holds client index window
  before : ∀ other < index, ∃ lower, Holds client other lower ∧ lower.Disjoint window

theorem Decodes.getBarIdx {client : Client} {index : Fin 6} {window : Window}
    (decodes : Decodes client index window) {addr : BitVec 64} (start : window.base ≤ addr.toNat)
    (stop : addr.toNat < window.base + window.size) : getBarIdx client addr = some index := by
  have holds := decodes.holds
  have low : addr.toNat % 2 ^ 32 = addr.toNat :=
    Nat.mod_eq_of_lt (Nat.lt_of_lt_of_le stop (window.end_le (Nat.le_of_lt holds.order_lt)))
  rw [getBarIdx_eq_some_iff, holds.matches_iff, low]
  refine ⟨⟨start, stop⟩, fun other before => ?_⟩
  obtain ⟨lower, lowerHolds, disjoint⟩ := decodes.before other before
  rw [lowerHolds.matches_iff, low]
  rcases disjoint with left | right <;> omega

/-- An access inside the window of a BAR goes to that BAR; its callback is told the offset. -/
theorem Decodes.barTarget {client : Client} {index : Fin 6} {window : Window}
    (decodes : Decodes client index window) (words : 2 ≤ window.order) (cbOf : Fin 6 → Option FnPtr)
    {addr : BitVec 64} (start : window.base ≤ addr.toNat)
    (stop : addr.toNat < window.base + window.size) :
    ∃ target, barTarget client cbOf (addr &&& ~~~3) = (cbOf index, target) ∧
      target + misalignment addr = BitVec.ofNat 64 (addr.toNat - window.base) := by
  have rounded := toNat_and_not_three addr
  -- base and size are multiples of 4, so rounding down stays inside the window
  have baseWords : 4 ∣ window.base := (Nat.pow_dvd_pow 2 words).trans window.aligned
  have inside : window.base ≤ (addr &&& ~~~3).toNat ∧
      (addr &&& ~~~3).toNat < window.base + window.size := by
    omega
  have offset := decodes.holds.offset inside.1 inside.2
  refine ⟨_, by rw [WarpPipe.barTarget, decodes.getBarIdx inside.1 inside.2], ?_⟩
  apply BitVec.eq_of_toNat_eq
  have bound := addr.isLt
  rw [BitVec.toNat_add, offset, rounded, misalignment, BitVec.toNat_ofNat, BitVec.toNat_ofNat]
  rw [rounded] at inside
  omega

end WarpPipe
