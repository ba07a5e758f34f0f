import Mathlib.Data.List.Basic
import Mathlib.Tactic.Common
import Mathlib.Algebra.Order.Ring.Nat
import Mathlib.Algebra.Order.Ring.Int

/-!
# Numbers from the highest digit down

The bytes of a number, the number that a list of bytes spells, and the same for hexadecimal and
decimal digits as characters.
-/

namespace Infernum.Lib.BigEndian

/-- `count` bytes of a number, the highest first. -/
def bytesOf (count n : Nat) : List UInt8 :=
  (List.range count).map fun i => UInt8.ofNat (n / 256 ^ (count - 1 - i))

/-- The number that a list of bytes spells. -/
def number (bytes : List UInt8) : Nat := bytes.foldl (fun n byte => 256 * n + byte.toNat) 0

/-- A digit below 16, in lower case. -/
def digit (n : Nat) : UInt8 := (Nat.digitChar n).toNat.toUInt8

/-- Two hexadecimal digits for every byte. -/
def hex (bytes : List UInt8) : List UInt8 :=
  bytes.flatMap fun byte => [digit (byte.toNat / 16), digit (byte.toNat % 16)]

/-- The last `count` decimal digits of a number. -/
def decimal : Nat → Nat → List UInt8
  | 0, _ => []
  | count + 1, n => decimal count (n / 10) ++ [digit (n % 10)]

@[simp] theorem length_bytesOf (count n : Nat) : (bytesOf count n).length = count := by
  rw [bytesOf, List.length_map, List.length_range]

/-- The bytes of a number are the bytes above some place and those below it. -/
theorem bytesOf_add (a b n : Nat) :
    bytesOf (a + b) n = bytesOf a (n / 256 ^ b) ++ bytesOf b n := by
  rw [bytesOf, List.range_add, List.map_append, List.map_map]
  congr 1
  · refine List.map_congr_left fun i hi => ?_
    have hlt := List.mem_range.mp hi
    have hpow : 256 ^ (a + b - 1 - i) = 256 ^ b * 256 ^ (a - 1 - i) := by
      rw [← Nat.pow_add]
      congr 1
      omega
    rw [hpow, Nat.div_div_eq_div_mul]
  · refine List.map_congr_left fun i _ => ?_
    show UInt8.ofNat (n / 256 ^ (a + b - 1 - (a + i))) = _
    congr 3
    omega

/-- Only the places of the bytes count. -/
theorem bytesOf_mul_add (count m n : Nat) :
    bytesOf count (m * 256 ^ count + n) = bytesOf count n := by
  refine List.map_congr_left fun i hi => ?_
  have hlt := List.mem_range.mp hi
  have hpow : m * 256 ^ count = m * 256 ^ i * 256 * 256 ^ (count - 1 - i) := by
    rw [Nat.mul_assoc, Nat.mul_assoc, ← Nat.pow_succ', ← Nat.pow_add]
    congr 2
    omega
  rw [hpow, Nat.add_comm, Nat.add_mul_div_right _ _ (Nat.pow_pos (by omega)),
    ← UInt8.toNat_inj, UInt8.toNat_ofNat', UInt8.toNat_ofNat']
  omega

theorem decimal_zero (count : Nat) : decimal count 0 = List.replicate count (digit 0) := by
  induction count with
  | zero => rfl
  | succ count ih => rw [decimal, Nat.zero_div, ih, List.replicate_succ']

/-- The digits of a number behind zeros end in its last digits. -/
theorem drop_toDigits (count n : Nat) :
    (List.replicate count (digit 0) ++ (Nat.toDigits 10 n).map fun c => c.toNat.toUInt8).drop
      (Nat.toDigits 10 n).length = decimal count n := by
  induction count generalizing n with
  | zero => simp [decimal]
  | succ count ih =>
    rw [decimal, Nat.toDigits_eq_if (by omega)]
    split
    · next hlt =>
      rw [Nat.div_eq_of_lt hlt, Nat.mod_eq_of_lt hlt, decimal_zero, List.replicate_succ]
      rfl
    · rw [← ih (n / 10), List.length_append, List.map_append, ← List.append_assoc]
      have hlong : (Nat.toDigits 10 (n / 10)).length + [(n % 10).digitChar].length ≤
          (List.replicate (count + 1) (digit 0) ++
            (Nat.toDigits 10 (n / 10)).map fun c => c.toNat.toUInt8).length := by
        rw [List.length_append, List.length_replicate, List.length_map, List.length_singleton]
        omega
      rw [List.drop_append_of_le_length hlong, List.replicate_succ]
      rfl

theorem hex_cons (byte : UInt8) (bytes : List UInt8) :
    hex (byte :: bytes) = digit (byte.toNat / 16) :: digit (byte.toNat % 16) :: hex bytes := rfl

theorem drop_hex (i : Nat) (bytes : List UInt8) : (hex bytes).drop (2 * i) = hex (bytes.drop i) := by
  induction i generalizing bytes with
  | zero => rfl
  | succ i ih =>
    cases bytes with
    | nil => simp [hex]
    | cons byte bytes =>
      rw [hex_cons, Nat.mul_succ, List.drop_succ_cons, List.drop_succ_cons, List.drop_succ_cons,
        ih]

theorem take_hex (i : Nat) (bytes : List UInt8) : (hex bytes).take (2 * i) = hex (bytes.take i) := by
  induction i generalizing bytes with
  | zero => rfl
  | succ i ih =>
    cases bytes with
    | nil => simp [hex]
    | cons byte bytes =>
      rw [hex_cons, Nat.mul_succ, List.take_succ_cons, List.take_succ_cons, ih,
        List.take_succ_cons, hex_cons]

end Infernum.Lib.BigEndian
