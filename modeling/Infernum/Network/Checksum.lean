import Infernum.Network.OutputMessage
import Mathlib.Tactic.Ring

/-!
# The checksum of a frame

`adlerChecksum` adds bytes up in 32 bits and reduces the two sums only every
5552 bytes. No sum passes 32 bits in between, so what comes out is the Adler-32
of the bytes: the sum of the bytes and the sum of these sums, modulo 65521.
From that, what the checksum tells apart: a byte that another one replaces, and
two neighbours in the other order.
-/

namespace Infernum.Network

/-! ### The two sums, without reduction -/

/-- The sum of the bytes. -/
def byteSum (data : List UInt8) : Nat := (data.map UInt8.toNat).sum

/-- The sum of the bytes, each as often as it is in a running sum. -/
def weightedSum : List UInt8 → Nat
  | [] => 0
  | byte :: rest => (rest.length + 1) * byte.toNat + weightedSum rest

@[simp] theorem byteSum_nil : byteSum [] = 0 := rfl

@[simp] theorem byteSum_cons (byte : UInt8) (rest : List UInt8) :
    byteSum (byte :: rest) = byte.toNat + byteSum rest := by
  rw [byteSum, List.map_cons, List.sum_cons, ← byteSum]

@[simp] theorem weightedSum_nil : weightedSum [] = 0 := rfl

@[simp] theorem weightedSum_cons (byte : UInt8) (rest : List UInt8) :
    weightedSum (byte :: rest) = (rest.length + 1) * byte.toNat + weightedSum rest := rfl

theorem byteSum_append (xs ys : List UInt8) : byteSum (xs ++ ys) = byteSum xs + byteSum ys := by
  rw [byteSum, List.map_append, List.sum_append, ← byteSum, ← byteSum]

theorem weightedSum_append (xs ys : List UInt8) :
    weightedSum (xs ++ ys) = weightedSum xs + ys.length * byteSum xs + weightedSum ys := by
  induction xs with
  | nil => simp
  | cons byte xs ih =>
    rw [List.cons_append, weightedSum_cons, ih, List.length_append, weightedSum_cons, byteSum_cons]
    ring

/-! ### One chunk -/

/-- Where the largest sum that the rest of a chunk can reach fits, no addition wraps. -/
theorem adlerChunk_toNat {data : List UInt8} {a b : UInt32}
    (hfits : 2 * b.toNat + 2 * data.length * a.toNat + 255 * data.length * (data.length + 1) <
      2 ^ 33)
    (ha : a.toNat + 255 * data.length < 2 ^ 32) :
    (adlerChunk data a b).1.toNat = a.toNat + byteSum data ∧
      (adlerChunk data a b).2.toNat =
        b.toNat + data.length * a.toNat + weightedSum data := by
  induction data generalizing a b with
  | nil => exact ⟨rfl, by simp [adlerChunk]⟩
  | cons byte rest ih =>
    have hbyte : byte.toNat < 256 := byte.toNat_lt
    have hroom : 2 * (rest.length + 1) * byte.toNat ≤ 2 * (rest.length + 1) * 255 :=
      Nat.mul_le_mul_left _ (by omega)
    rw [List.length_cons] at hfits ha
    -- the sums after the byte, and what the others can still add
    have hwhole : 2 * (b.toNat + (a.toNat + byte.toNat)) +
        2 * rest.length * (a.toNat + byte.toNat) + 255 * rest.length * (rest.length + 1) < 2 ^ 33 := by
      calc
        _ = 2 * b.toNat + 2 * (rest.length + 1) * a.toNat +
            2 * (rest.length + 1) * byte.toNat + 255 * rest.length * (rest.length + 1) := by ring
        _ ≤ 2 * b.toNat + 2 * (rest.length + 1) * a.toNat +
            2 * (rest.length + 1) * 255 + 255 * rest.length * (rest.length + 1) := by omega
        _ = 2 * b.toNat + 2 * (rest.length + 1) * a.toNat +
            255 * (rest.length + 1) * (rest.length + 1 + 1) := by ring
        _ < 2 ^ 33 := hfits
    have hsum : (a + byte.toUInt32).toNat = a.toNat + byte.toNat := by
      rw [UInt32.toNat_add, UInt8.toNat_toUInt32, Nat.mod_eq_of_lt (by omega)]
    have hnext : (b + (a + byte.toUInt32)).toNat = b.toNat + (a.toNat + byte.toNat) := by
      rw [UInt32.toNat_add, hsum, Nat.mod_eq_of_lt (by omega)]
    have hrest := @ih (a + byte.toUInt32) (b + (a + byte.toUInt32))
      (by rw [hsum, hnext]; exact hwhole) (by rw [hsum]; omega)
    rw [hsum, hnext] at hrest
    rw [byteSum_cons, weightedSum_cons, List.length_cons]
    refine ⟨hrest.1.trans (by omega), hrest.2.trans ?_⟩
    ring

/-- 5552 is a length up to which nothing wraps. -/
theorem adlerChunk_reduced {data : List UInt8} {a b : UInt32} (hlength : data.length ≤ 5552)
    (ha : a.toNat < 65521) (hb : b.toNat < 65521) :
    (adlerChunk data a b).1.toNat = a.toNat + byteSum data ∧
      (adlerChunk data a b).2.toNat =
        b.toNat + data.length * a.toNat + weightedSum data := by
  have hlinear : 2 * data.length * a.toNat ≤ 2 * 5552 * 65520 :=
    Nat.mul_le_mul (by omega) (by omega)
  have hsquare : 255 * data.length * (data.length + 1) ≤ 255 * 5552 * (5552 + 1) :=
    Nat.mul_le_mul (by omega) (by omega)
  exact adlerChunk_toNat (by omega) (by omega)

/-! ### All chunks -/

/-- It does not matter to the sums of the rest that those before it were reduced. -/
theorem mod_sums (a b n w : Nat) :
    (b % 65521 + n * (a % 65521) + w) % 65521 = (b + n * a + w) % 65521 := by
  simp [Nat.add_mod, Nat.mul_mod]

theorem adlerLoop_toNat (data : List UInt8) (a b : UInt32) (ha : a.toNat < 65521)
    (hb : b.toNat < 65521) :
    (adlerLoop data a b).1.toNat = (a.toNat + byteSum data) % 65521 ∧
      (adlerLoop data a b).2.toNat =
        (b.toNat + data.length * a.toNat + weightedSum data) % 65521 := by
  induction data, a, b using adlerLoop.induct with
  | case1 data a b hempty =>
    obtain rfl := List.isEmpty_iff.mp hempty
    rw [adlerLoop, if_pos hempty]
    exact ⟨by simp [Nat.mod_eq_of_lt ha], by simp [Nat.mod_eq_of_lt hb]⟩
  | case2 data a b hne s ih =>
    obtain ⟨h1, h2⟩ := adlerChunk_reduced (List.length_take_le 5552 data) ha hb
    have hs1 : (s.1 % 65521).toNat = (a.toNat + byteSum (data.take 5552)) % 65521 := by
      rw [UInt32.toNat_mod, h1]
      rfl
    have hs2 : (s.2 % 65521).toNat = (b.toNat + (data.take 5552).length * a.toNat +
        weightedSum (data.take 5552)) % 65521 := by
      rw [UInt32.toNat_mod, h2]
      rfl
    obtain ⟨hloop1, hloop2⟩ := ih (by rw [hs1]; exact Nat.mod_lt _ (by omega))
      (by rw [hs2]; exact Nat.mod_lt _ (by omega))
    have hsplit := List.take_append_drop 5552 data
    rw [adlerLoop, if_neg hne]
    constructor
    · rw [hloop1, hs1, Nat.mod_add_mod, ← hsplit, byteSum_append, hsplit]
      congr 1
      omega
    · rw [hloop2, hs1, hs2]
      have hall : data.length = (data.take 5552).length + (data.drop 5552).length := by
        rw [← List.length_append, hsplit]
      have hweights := weightedSum_append (data.take 5552) (data.drop 5552)
      rw [hsplit] at hweights
      rw [hall, hweights, mod_sums]
      congr 1
      ring

/-- The checksum of what fits a message. -/
theorem adlerChecksum_toNat {data : List UInt8} (hfits : data.length ≤ NETWORKMESSAGE_MAXSIZE) :
    (adlerChecksum data).toNat =
      (data.length + weightedSum data) % 65521 * 65536 + (1 + byteSum data) % 65521 := by
  obtain ⟨h1, h2⟩ := adlerLoop_toNat data 1 0 (by decide) (by decide)
  have hlow : (adlerLoop data 1 0).1.toNat < 2 ^ 16 := by
    rw [h1]
    exact (Nat.mod_lt _ (by omega)).trans (by decide)
  have hhigh : (adlerLoop data 1 0).2.toNat < 2 ^ 16 := by
    rw [h2]
    exact (Nat.mod_lt _ (by omega)).trans (by decide)
  have hshift : ((adlerLoop data 1 0).2 <<< 16).toNat = (adlerLoop data 1 0).2.toNat * 2 ^ 16 := by
    rw [UInt32.toNat_shiftLeft, Nat.shiftLeft_eq]
    show (adlerLoop data 1 0).2.toNat * 2 ^ 16 % 2 ^ 32 = _
    exact Nat.mod_eq_of_lt (by omega)
  rw [adlerChecksum, if_neg (by omega)]
  show ((adlerLoop data 1 0).2 <<< 16 ||| (adlerLoop data 1 0).1).toNat = _
  rw [UInt32.toNat_or, hshift, Nat.mul_comm, ← Nat.two_pow_add_eq_or_of_lt hlow, h1, h2]
  simp [Nat.mul_comm]

/-! ### Adler-32 -/

/-- One byte, with both sums reduced. -/
def adlerStep (s : Nat × Nat) (byte : UInt8) : Nat × Nat :=
  ((s.1 + byte.toNat) % 65521, (s.2 + (s.1 + byte.toNat)) % 65521)

/-- Adler-32, reduced at every byte and in numbers of any size. -/
def adler32 (data : List UInt8) : Nat :=
  let s := data.foldl adlerStep (1, 0)
  s.2 * 65536 + s.1

theorem foldl_adlerStep (data : List UInt8) {a b : Nat} (ha : a < 65521) (hb : b < 65521) :
    data.foldl adlerStep (a, b) =
      ((a + byteSum data) % 65521, (b + data.length * a + weightedSum data) % 65521) := by
  induction data generalizing a b with
  | nil => simp [Nat.mod_eq_of_lt ha, Nat.mod_eq_of_lt hb]
  | cons byte rest ih =>
    rw [List.foldl_cons, adlerStep, ih (Nat.mod_lt _ (by omega)) (Nat.mod_lt _ (by omega)),
      byteSum_cons, weightedSum_cons, List.length_cons]
    have hsum : ((a + byte.toNat) % 65521 + byteSum rest) % 65521 =
        (a + (byte.toNat + byteSum rest)) % 65521 := by
      rw [Nat.mod_add_mod, Nat.add_assoc]
    have hweighted : ((b + (a + byte.toNat)) % 65521 + rest.length * ((a + byte.toNat) % 65521) +
        weightedSum rest) % 65521 =
        (b + (rest.length + 1) * a + ((rest.length + 1) * byte.toNat + weightedSum rest)) %
          65521 := by
      rw [mod_sums]
      congr 1
      ring
    exact Prod.ext hsum hweighted

/-- **`adlerChecksum` is Adler-32** for what fits a message, and zero for what does not. -/
theorem adlerChecksum_eq_adler32 (data : List UInt8) :
    (adlerChecksum data).toNat =
      if data.length ≤ NETWORKMESSAGE_MAXSIZE then adler32 data else 0 := by
  split
  · next hfits =>
    rw [adlerChecksum_toNat hfits, adler32, foldl_adlerStep data (by omega) (by omega)]
    simp
  · next hlong =>
    rw [adlerChecksum, if_pos (by omega)]
    rfl

example : adler32 ("Wikipedia".toList.map fun c => c.toNat.toUInt8) = 0x11E60398 := by
  decide

/-! ### What the checksum tells apart -/

/-- Of two messages with one checksum, the sums are the same modulo 65521. -/
theorem sums_of_adlerChecksum_eq {data data' : List UInt8}
    (hfits : data.length ≤ NETWORKMESSAGE_MAXSIZE) (hlength : data'.length = data.length)
    (h : adlerChecksum data = adlerChecksum data') :
    (1 + byteSum data) % 65521 = (1 + byteSum data') % 65521 ∧
      (data.length + weightedSum data) % 65521 = (data.length + weightedSum data') % 65521 := by
  have hnat := congrArg UInt32.toNat h
  rw [adlerChecksum_toNat hfits, adlerChecksum_toNat (hlength ▸ hfits), hlength] at hnat
  have hlow := Nat.mod_lt (1 + byteSum data) (by omega : 65521 > 0)
  have hlow' := Nat.mod_lt (1 + byteSum data') (by omega : 65521 > 0)
  omega

/-- A byte that another one replaces changes the checksum. -/
theorem adlerChecksum_replace {xs ys : List UInt8} {byte byte' : UInt8}
    (hfits : xs.length + 1 + ys.length ≤ NETWORKMESSAGE_MAXSIZE) :
    adlerChecksum (xs ++ byte :: ys) = adlerChecksum (xs ++ byte' :: ys) ↔ byte = byte' := by
  constructor
  · intro h
    have hsums := (sums_of_adlerChecksum_eq (by
      rw [List.length_append, List.length_cons]
      omega) (by simp) h).1
    rw [byteSum_append, byteSum_append, byteSum_cons, byteSum_cons] at hsums
    have hbyte : byte.toNat < 256 := byte.toNat_lt
    have hbyte' : byte'.toNat < 256 := byte'.toNat_lt
    exact UInt8.toNat_inj.mp (by omega)
  · rintro rfl
    rfl

/-- The first of two neighbours counts once more than the second. -/
theorem weightedSum_pair (xs ys : List UInt8) (byte byte' : UInt8) :
    weightedSum (xs ++ byte :: byte' :: ys) =
      weightedSum xs + (ys.length + 2) * byteSum xs +
        (ys.length + 1) * (byte.toNat + byte'.toNat) + weightedSum ys + byte.toNat := by
  rw [weightedSum_append, weightedSum_cons, weightedSum_cons, List.length_cons, List.length_cons]
  ring

/-- Two neighbours that change places change the checksum, but for equal ones. -/
theorem adlerChecksum_swap {xs ys : List UInt8} {byte byte' : UInt8}
    (hfits : xs.length + 2 + ys.length ≤ NETWORKMESSAGE_MAXSIZE) :
    adlerChecksum (xs ++ byte :: byte' :: ys) = adlerChecksum (xs ++ byte' :: byte :: ys) ↔
      byte = byte' := by
  constructor
  · intro h
    have hsums := (sums_of_adlerChecksum_eq (by
      rw [List.length_append, List.length_cons, List.length_cons]
      omega) (by simp) h).2
    rw [weightedSum_pair, weightedSum_pair, Nat.add_comm byte'.toNat byte.toNat] at hsums
    have hbyte : byte.toNat < 256 := byte.toNat_lt
    have hbyte' : byte'.toNat < 256 := byte'.toNat_lt
    exact UInt8.toNat_inj.mp (by omega)
  · rintro rfl
    rfl

/-- **What the checksum notices:** another byte in the place of one, and two neighbours in the
other order. -/
theorem adlerChecksum_notices (xs ys : List UInt8) (byte byte' : UInt8)
    (hfits : xs.length + 2 + ys.length ≤ NETWORKMESSAGE_MAXSIZE) (hne : byte ≠ byte') :
    adlerChecksum (xs ++ byte :: ys) ≠ adlerChecksum (xs ++ byte' :: ys) ∧
      adlerChecksum (xs ++ byte :: byte' :: ys) ≠ adlerChecksum (xs ++ byte' :: byte :: ys) :=
  ⟨fun h => hne ((adlerChecksum_replace (by omega)).mp h),
    fun h => hne ((adlerChecksum_swap hfits).mp h)⟩

theorem adlerChecksum_notices_ab :
    adlerChecksum [97] ≠ adlerChecksum [98] ∧ adlerChecksum [97, 98] ≠ adlerChecksum [98, 97] :=
  adlerChecksum_notices [] [] 97 98 (by decide) (by decide)

end Infernum.Network
