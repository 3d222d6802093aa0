import WarpPipe.Library.Buffer

/-!
The function `strtoul` of the C library with base 0, for an `unsigned long` of 64 bits. A text is
the bytes of a C string in front of its terminator.
-/

namespace ByteLayout

def isSpace (byte : Byte) : Bool := byte = 0x20 || (0x09 ≤ byte && byte ≤ 0x0d)

def digitValue (byte : Byte) : Nat :=
  if 0x30 ≤ byte ∧ byte ≤ 0x39 then byte.toNat - 0x30
  else if 0x61 ≤ byte ∧ byte ≤ 0x7a then byte.toNat - 0x61 + 10
  else if 0x41 ≤ byte ∧ byte ≤ 0x5a then byte.toNat - 0x41 + 10
  else 36

def takeSign : Bytes → Bool × Bytes
  | [] => (false, [])
  | byte :: rest =>
    if byte = 0x2d then (true, rest)
    else if byte = 0x2b then (false, rest)
    else (false, byte :: rest)

/-- The base of the text, and its digits with what follows them. A prefix `0x` counts only in front
of a hexadecimal digit. -/
def takeBase (text : Bytes) : Nat × Bytes :=
  match text with
  | first :: second :: third :: rest =>
    if first = 0x30 then
      if (second = 0x78 ∨ second = 0x58) ∧ digitValue third < 16 then (16, third :: rest)
      else (8, text)
    else (10, text)
  | first :: _ => if first = 0x30 then (8, text) else (10, text)
  | [] => (10, [])

structure IntegerText where
  negative : Bool
  magnitude : Nat
  rest : Bytes
  deriving DecidableEq

def scanInteger (text : Bytes) : Option IntegerText :=
  let (negative, unsigned) := takeSign (text.dropWhile isSpace)
  let (base, body) := takeBase unsigned
  let digits := body.takeWhile fun byte => digitValue byte < base
  if digits = [] then none
  else some
    { negative
      magnitude := digits.foldl (fun value byte => value * base + digitValue byte) 0
      rest := body.drop digits.length }

structure StrtoulResult where
  value : BitVec 64
  /-- How far `endptr` is behind the start of the text. -/
  consumed : Nat
  erange : Bool
  deriving DecidableEq

def strtoul (text : Bytes) : StrtoulResult :=
  match scanInteger text with
  | none => ⟨0, 0, false⟩
  | some scanned =>
    if scanned.magnitude < 2 ^ 64 then
      ⟨if scanned.negative then -BitVec.ofNat 64 scanned.magnitude
        else BitVec.ofNat 64 scanned.magnitude, text.length - scanned.rest.length, false⟩
    else ⟨BitVec.allOnes 64, text.length - scanned.rest.length, true⟩

/-- The integer that the text denotes, if it is a number and nothing else. -/
def denoted (text : Bytes) : Option Int :=
  match scanInteger text with
  | none => none
  | some scanned =>
    if scanned.rest = [] then
      some (if scanned.negative then -(scanned.magnitude : Int) else scanned.magnitude)
    else none

theorem length_takeSign (text : Bytes) : (takeSign text).2.length ≤ text.length := by
  unfold takeSign
  split
  · exact Nat.le_refl _
  · split
    · simp
    · split <;> simp

theorem length_takeBase (text : Bytes) : (takeBase text).2.length ≤ text.length := by
  unfold takeBase
  split
  · split
    · split <;> simp
    · simp
  · split <;> simp
  · simp

theorem length_rest_scanInteger {text : Bytes} {scanned : IntegerText}
    (found : scanInteger text = some scanned) : scanned.rest.length < text.length := by
  unfold scanInteger at found
  dsimp only at found
  split at found
  · cases found
  · rename_i some
    cases found
    have spaces : (text.dropWhile isSpace).length ≤ text.length :=
      (List.dropWhile_suffix _).length_le
    have sign := length_takeSign (text.dropWhile isSpace)
    have base := length_takeBase (takeSign (text.dropWhile isSpace)).2
    have digits := List.length_pos_iff.mpr some
    have within : (List.takeWhile
        (fun byte => decide (digitValue byte < (takeBase (takeSign (text.dropWhile isSpace)).2).1))
        (takeBase (takeSign (text.dropWhile isSpace)).2).2).length ≤
        (takeBase (takeSign (text.dropWhile isSpace)).2).2.length :=
      (List.takeWhile_prefix _).length_le
    simp only [List.length_drop]
    omega

def Converts (text : Bytes) : Prop :=
  (strtoul text).consumed ≠ 0 ∧ (strtoul text).consumed = text.length ∧
  (strtoul text).erange = false

instance (text : Bytes) : Decidable (Converts text) := inferInstanceAs (Decidable (_ ∧ _))

/-- A text is converted exactly if it denotes an integer whose magnitude fits the type. -/
theorem converts_iff (text : Bytes) :
    Converts text ↔ ∃ value, denoted text = some value ∧ value.natAbs < 2 ^ 64 := by
  unfold Converts strtoul denoted
  cases found : scanInteger text with
  | none => simp
  | some scanned =>
      have shorter := length_rest_scanInteger found
      have whole : text.length - scanned.rest.length = text.length ↔ scanned.rest = [] := by
        rw [← List.length_eq_zero_iff]
        omega
      dsimp only
      by_cases small : scanned.magnitude < 2 ^ 64
      · rw [if_pos small]
        by_cases complete : scanned.rest = []
        · rw [if_pos complete]
          constructor
          · intro _
            refine ⟨_, rfl, ?_⟩
            split <;> simpa using small
          · intro _
            exact ⟨by dsimp only; omega, whole.mpr complete, rfl⟩
        · rw [if_neg complete]
          constructor
          · rintro ⟨-, consumed, -⟩
            exact absurd (whole.mp consumed) complete
          · rintro ⟨_, impossible, -⟩
            cases impossible
      · rw [if_neg small]
        constructor
        · rintro ⟨-, -, impossible⟩
          cases impossible
        · rintro ⟨value, found, fits⟩
          split at found
          · cases found
            split at fits <;> simp at fits <;> omega
          · cases found

theorem toNat_strtoul {text : Bytes} {value : Nat} (denotes : denoted text = some (value : Int))
    (fits : value < 2 ^ 64) : (strtoul text).value.toNat = value := by
  unfold denoted at denotes
  unfold strtoul
  cases found : scanInteger text with
  | none =>
      rw [found] at denotes
      cases denotes
  | some scanned =>
      rw [found] at denotes
      dsimp only at denotes ⊢
      by_cases complete : scanned.rest = []
      · rw [if_pos complete, Option.some.injEq] at denotes
        by_cases negative : scanned.negative = true
        · rw [if_pos negative] at denotes
          have zero : scanned.magnitude = 0 := by omega
          have none : value = 0 := by omega
          simp [zero, none]
        · rw [if_neg negative] at denotes
          have same : scanned.magnitude = value := by omega
          rw [same, if_pos fits, if_neg negative, BitVec.toNat_ofNat, Nat.mod_eq_of_lt fits]
      · rw [if_neg complete] at denotes
        cases denotes

end ByteLayout
