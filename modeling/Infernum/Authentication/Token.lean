import Mathlib.Algebra.Order.Ring.Int
import Mathlib.Algebra.Order.Ring.Nat
import Mathlib.Data.List.Basic

/-!
# One-time codes

`transformToSHA1` and `generateToken`: the hash of a string as hexadecimal
digits, and the code of an authenticator for a key and a tick, made from two
passes of the hash. Strings are lists of bytes.
-/

namespace Infernum.Authentication

abbrev Str := List UInt8

/-! ### The hash -/

def circularShift (bits : UInt32) (value : UInt32) : UInt32 :=
  (value <<< bits) ||| (value >>> (32 - bits))

/-- The five words of the hash, and the registers of its rounds. -/
structure Words where
  A : UInt32
  B : UInt32
  C : UInt32
  D : UInt32
  E : UInt32

/-- The sixteen words of a block, the first byte of each the highest. -/
def blockWords : List UInt8 → List UInt32
  | a :: b :: c :: d :: rest =>
      (a.toUInt32 <<< 24 ||| b.toUInt32 <<< 16 ||| c.toUInt32 <<< 8 ||| d.toUInt32) ::
        blockWords rest
  | _ => []

/-- `W[i]` from the words before it, for `n` words. -/
def expandWords : Nat → List UInt32 → List UInt32
  | 0, W => W
  | n + 1, W =>
      let i := W.length
      let word := circularShift 1
        (W.getD (i - 3) 0 ^^^ W.getD (i - 8) 0 ^^^ W.getD (i - 14) 0 ^^^ W.getD (i - 16) 0)
      expandWords n (W ++ [word])

/-- One round. -/
def shaRound (mix : UInt32 → UInt32 → UInt32 → UInt32) (constant : UInt32) (r : Words)
    (word : UInt32) : Words :=
  { A := circularShift 5 r.A + mix r.B r.C r.D + r.E + word + constant
    B := r.A
    C := circularShift 30 r.B
    D := r.C
    E := r.D }

/-- The rounds `first` up to `last`. -/
def shaRounds (mix : UInt32 → UInt32 → UInt32 → UInt32) (constant : UInt32) (W : List UInt32)
    (first last : Nat) (r : Words) : Words :=
  ((W.drop first).take (last - first)).foldl (shaRound mix constant) r

def processSHA1MessageBlock (messageBlock : List UInt8) (H : Words) : Words :=
  let W := expandWords 64 (blockWords messageBlock)
  let r := shaRounds (fun B C D => (B &&& C) ||| (~~~B &&& D)) 0x5A827999 W 0 20 H
  let r := shaRounds (fun B C D => B ^^^ C ^^^ D) 0x6ED9EBA1 W 20 40 r
  let r := shaRounds (fun B C D => (B &&& C) ||| (B &&& D) ||| (C &&& D)) 0x8F1BBCDC W 40 60 r
  let r := shaRounds (fun B C D => B ^^^ C ^^^ D) 0xCA62C1D6 W 60 80 r
  { A := H.A + r.A, B := H.B + r.B, C := H.C + r.C, D := H.D + r.D, E := H.E + r.E }

/-- The loop over the input: the words so far, the block that is filled and
the length in bits, in two words. -/
structure Hashing where
  H : Words
  messageBlock : List UInt8
  length_low : UInt32
  length_high : UInt32

def Hashing.start : Hashing :=
  { H :=
      { A := 0x67452301, B := 0xEFCDAB89, C := 0x98BADCFE, D := 0x10325476, E := 0xC3D2E1F0 }
    messageBlock := []
    length_low := 0
    length_high := 0 }

/-- One character of the input. -/
def Hashing.next (s : Hashing) (ch : UInt8) : Hashing :=
  let messageBlock := s.messageBlock ++ [ch]
  let length_low := s.length_low + 8
  let length_high := if length_low = 0 then s.length_high + 1 else s.length_high
  if messageBlock.length = 64 then
    { H := processSHA1MessageBlock messageBlock s.H
      messageBlock := []
      length_low := length_low
      length_high := length_high }
  else
    { s with messageBlock := messageBlock, length_low := length_low, length_high := length_high }

/-- The eight bytes of the length. -/
def Hashing.lengthBytes (s : Hashing) : List UInt8 :=
  [(s.length_high >>> 24).toUInt8, (s.length_high >>> 16).toUInt8,
    (s.length_high >>> 8).toUInt8, s.length_high.toUInt8,
    (s.length_low >>> 24).toUInt8, (s.length_low >>> 16).toUInt8,
    (s.length_low >>> 8).toUInt8, s.length_low.toUInt8]

/-- The end of the message: a mark, zeros and the length. -/
def Hashing.finish (s : Hashing) : Words :=
  let messageBlock := s.messageBlock ++ [0x80]
  if 56 < messageBlock.length then
    let H := processSHA1MessageBlock
      (messageBlock ++ List.replicate (64 - messageBlock.length) 0) s.H
    processSHA1MessageBlock (List.replicate 56 0 ++ s.lengthBytes) H
  else
    processSHA1MessageBlock
      (messageBlock ++ List.replicate (56 - messageBlock.length) 0 ++ s.lengthBytes) s.H

/-- `"0123456789abcdef"` -/
def hexDigits : Str :=
  "0123456789abcdef".toList.map fun c => c.toNat.toUInt8

def hexDigit (n : UInt8) : UInt8 :=
  hexDigits.getD n.toNat 0

/-- The two digits of byte `hashByte` of the hash. -/
def hashDigits (H : List UInt32) (hashByte : Nat) : Str :=
  let byte := (H.getD (hashByte / 4) 0 >>> (8 * (3 - hashByte % 4)).toUInt32).toUInt8
  [hexDigit (byte >>> 4), hexDigit (byte &&& 15)]

def transformToSHA1 (input : Str) : Str :=
  let H := (input.foldl Hashing.next Hashing.start).finish
  (List.range 20).flatMap (hashDigits [H.A, H.B, H.C, H.D, H.E])

/-! ### The code -/

/-- `std::strtoul` to the base 16 of a string of hexadecimal digits. -/
def strtoul16 (digits : Str) : Nat :=
  digits.foldl (fun n ch => 16 * n + hexDigits.idxOf ch) 0

/-- The bytes that a string of hexadecimal digits stands for. -/
def hexBytes : Str → List UInt8
  | a :: b :: rest => (strtoul16 [a, b]).toUInt8 :: hexBytes rest
  | [a] => [(strtoul16 [a]).toUInt8]
  | [] => []

/-- The message of a tick: the bytes `n` down to 1 from its lowest byte on,
behind a zero. -/
def tickMessage : Nat → UInt32 → List UInt8
  | 0, _ => [0]
  | n + 1, ticks => tickMessage n (ticks >>> 8) ++ [ticks.toUInt8]

/-- A pad of 64 bytes with the key put over its front. A longer key would be
written behind the pad, and nothing is said of that. -/
def keyPad (fill : UInt8) (key : Str) : Option (List UInt8) :=
  if key.length ≤ 64 then
    some (key.map (fill ^^^ ·) ++ List.replicate (64 - key.length) fill)
  else
    none

/-- `std::to_string` -/
def toDecimal (n : Nat) : Str :=
  (Nat.toDigits 10 n).map fun c => c.toNat.toUInt8

def AUTHENTICATOR_DIGITS : Nat := 6

/-- The last digits of a number, with zeros before them if there are too few. -/
def lastDigits (message : Str) : Str :=
  let hashLen := message.length
  List.replicate (AUTHENTICATOR_DIGITS - min hashLen AUTHENTICATOR_DIGITS) 48 ++
    message.drop (hashLen - min hashLen AUTHENTICATOR_DIGITS)

def generateToken (key : Str) (ticks : UInt32) : Option Str := do
  let iKeyPad ← keyPad 0x36 key
  let oKeyPad ← keyPad 0x5C key
  let message := transformToSHA1 (iKeyPad ++ tickMessage 7 ticks)
  let message := transformToSHA1 (oKeyPad ++ hexBytes message)
  let offset := strtoul16 ((message.drop 39).take 1) &&& 0xF
  let truncHash := strtoul16 ((message.drop (2 * offset)).take 8) &&& 0x7FFFFFFF
  return lastDigits (toDecimal truncHash)

/-- There is a code for every key that fits the pads. -/
theorem generateToken_isSome {key : Str} (hkey : key.length ≤ 64) (ticks : UInt32) :
    (generateToken key ticks).isSome := by
  have hpad : ∀ fill, ∃ pad, keyPad fill key = some pad := fun fill => ⟨_, if_pos hkey⟩
  obtain ⟨iKeyPad, hi⟩ := hpad 0x36
  obtain ⟨oKeyPad, ho⟩ := hpad 0x5C
  rw [generateToken, hi, ho]
  rfl

end Infernum.Authentication

/-!
## The secret of an account

`decodeSecret` collects the bits of a base-32 string in a word and takes out a
byte whenever there are eight. What it gives are the bytes of the number that
the string writes to the base 32, from the highest bits on.
-/

namespace Infernum.Authentication

/-- The value of a character of a secret. -/
def base32Value (ch : UInt8) : Option UInt32 :=
  if 65 ≤ ch ∧ ch ≤ 90 then
    some ((ch &&& 0x1F) - 1).toUInt32
  else if 50 ≤ ch ∧ ch ≤ 55 then
    some (ch - 24).toUInt32
  else
    none

/-- The loop of `decodeSecret`; the key is empty at a broken character. -/
def decodeLoop : Str → UInt32 → Nat → Str → Str
  | [], _, _, key => key
  | ch :: secret, buffer, left, key =>
      match base32Value ch with
      | none => []
      | some value =>
          let buffer := (buffer <<< 5) ||| value
          let left := left + 5
          if 8 ≤ left then
            decodeLoop secret buffer (left - 8)
              (key ++ [(buffer >>> (left - 8).toUInt32).toUInt8])
          else
            decodeLoop secret buffer left key

def decodeSecret (secret : Str) : Str :=
  decodeLoop secret 0 0 []

/-! ### What is decoded -/

/-- The number with the given digits to the base 32. -/
def base32Number (values : List UInt32) : Nat :=
  values.foldl (fun n value => 32 * n + value.toNat) 0

/-- The bytes of the digits' bits, from the front; bits left over at the end
are dropped. -/
def base32Bytes (values : List UInt32) : Str :=
  (List.range (5 * values.length / 8)).map fun j =>
    (base32Number values / 2 ^ (5 * values.length - 8 * (j + 1))).toUInt8

theorem base32Number_concat (values : List UInt32) (value : UInt32) :
    base32Number (values ++ [value]) = 32 * base32Number values + value.toNat := by
  rw [base32Number, List.foldl_append]
  rfl

theorem base32Value_lt {ch : UInt8} {value : UInt32} (h : base32Value ch = some value) :
    value.toNat < 32 := by
  rw [base32Value] at h
  split at h
  · rename_i hletter
    cases h
    have hand : (ch &&& 0x1F).toNat = ch.toNat % 32 := Nat.and_two_pow_sub_one_eq_mod ch.toNat 5
    have hlow : 65 ≤ ch.toNat := hletter.1
    have hhigh : ch.toNat ≤ 90 := hletter.2
    rw [UInt8.toNat_toUInt32, UInt8.toNat_sub, hand]
    show (2 ^ 8 - 1 + ch.toNat % 32) % 2 ^ 8 < 32
    omega
  · split at h
    · rename_i hdigit
      cases h
      have hlow : 50 ≤ ch.toNat := hdigit.1
      have hhigh : ch.toNat ≤ 55 := hdigit.2
      rw [UInt8.toNat_toUInt32, UInt8.toNat_sub]
      show (2 ^ 8 - 24 + ch.toNat) % 2 ^ 8 < 32
      omega
    · cases h

theorem toNat_toUInt32 (n : Nat) : n.toUInt32.toNat = n % 2 ^ 32 := UInt32.toNat_ofNat'

/-- One more digit in the buffer. -/
theorem buffer_next (n : Nat) {value : UInt32} (hvalue : value.toNat < 32) :
    (n.toUInt32 <<< 5) ||| value = (32 * n + value.toNat).toUInt32 := by
  have hshift : (n.toUInt32 <<< 5).toNat = (n % 2 ^ 27) <<< 5 := by
    rw [UInt32.toNat_shiftLeft, toNat_toUInt32]
    show (n % 2 ^ 32) <<< 5 % 2 ^ 32 = _
    rw [Nat.shiftLeft_eq, Nat.shiftLeft_eq]
    omega
  rw [← UInt32.toNat_inj, UInt32.toNat_or, hshift, toNat_toUInt32,
    ← Nat.shiftLeft_add_eq_or_of_lt (i := 5) hvalue, Nat.shiftLeft_eq]
  omega

/-- The byte that is taken out of the buffer. -/
theorem buffer_byte (n : Nat) {left : Nat} (hleft : left < 8) :
    (n.toUInt32 >>> left.toUInt32).toUInt8 = (n / 2 ^ left).toUInt8 := by
  have hl : left.toUInt32.toNat % 32 = left := by
    rw [toNat_toUInt32]
    omega
  have hpow : 2 ^ 32 = 2 ^ left * 2 ^ (32 - left) := by
    rw [← Nat.pow_add]
    congr 1
    omega
  have hbyte : 2 ^ 8 ∣ 2 ^ (32 - left) := Nat.pow_dvd_pow 2 (by omega)
  rw [← UInt8.toNat_inj, UInt32.toNat_toUInt8, UInt32.toNat_shiftRight, toNat_toUInt32, hl,
    Nat.shiftRight_eq_div_pow, hpow, Nat.mod_mul_right_div_self, Nat.mod_mod_of_dvd _ hbyte]
  exact UInt8.toNat_ofNat'.symm
/-- The bytes of the first digits do not depend on a later one. -/
theorem byte_of_next {n v d j : Nat} (hv : v < 32) (hj : 8 * (j + 1) ≤ 5 * d) :
    (32 * n + v) / 2 ^ (5 * (d + 1) - 8 * (j + 1)) = n / 2 ^ (5 * d - 8 * (j + 1)) := by
  have hpow : 2 ^ (5 * (d + 1) - 8 * (j + 1)) = 32 * 2 ^ (5 * d - 8 * (j + 1)) := by
    rw [show 5 * (d + 1) - 8 * (j + 1) = 5 + (5 * d - 8 * (j + 1)) by omega, Nat.pow_add]
  rw [hpow, ← Nat.div_div_eq_div_mul]
  congr 1
  omega

/-- A digit completes a byte, or it does not; the bytes before it stay. -/
theorem base32Bytes_concat (values : List UInt32) {value : UInt32} (hvalue : value.toNat < 32) :
    base32Bytes (values ++ [value]) =
      if 8 ≤ 5 * values.length % 8 + 5 then
        base32Bytes values ++
          [(base32Number (values ++ [value]) / 2 ^ (5 * values.length % 8 + 5 - 8)).toUInt8]
      else base32Bytes values := by
  have hold : ∀ m, m = 5 * values.length / 8 →
      ((List.range m).map fun j => (base32Number (values ++ [value]) /
        2 ^ (5 * (values.length + 1) - 8 * (j + 1))).toUInt8) = base32Bytes values := by
    intro m hm
    rw [base32Bytes, ← hm]
    apply List.map_congr_left
    intro j hj
    have hlt := List.mem_range.mp hj
    rw [base32Number_concat, byte_of_next hvalue (by omega)]
  rw [base32Bytes, List.length_append, List.length_singleton]
  split
  · rename_i hfull
    rw [show 5 * (values.length + 1) / 8 = 5 * values.length / 8 + 1 by omega, List.range_succ,
      List.map_append, hold _ rfl, List.map_singleton]
    congr 5
    omega
  · rename_i hfull
    exact hold _ (by omega)

/-- The loop behind some digits gives the bytes of all of them. -/
theorem decodeLoop_eq (secret : Str) (read : List UInt32) :
    decodeLoop secret (base32Number read).toUInt32 (5 * read.length % 8) (base32Bytes read) =
      match secret.mapM base32Value with
      | some values => base32Bytes (read ++ values)
      | none => [] := by
  induction secret generalizing read with
  | nil => rw [decodeLoop, List.mapM_nil]; simp
  | cons ch secret ih =>
      rw [decodeLoop, List.mapM_cons]
      cases hch : base32Value ch with
      | none => rfl
      | some value =>
          have hvalue := base32Value_lt hch
          have hnext := ih (read ++ [value])
          have hbuffer : ((base32Number read).toUInt32 <<< 5) ||| value =
              (base32Number (read ++ [value])).toUInt32 := by
            rw [buffer_next _ hvalue, base32Number_concat]
          have hright : (match ((some value).bind fun v => (secret.mapM base32Value).bind
                fun vs => some (v :: vs)) with
              | some values => base32Bytes (read ++ values)
              | none => []) =
              match secret.mapM base32Value with
              | some values => base32Bytes (read ++ [value] ++ values)
              | none => [] := by
            cases secret.mapM base32Value with
            | none => rfl
            | some values =>
                exact congrArg base32Bytes (List.append_assoc read [value] values).symm
          refine Eq.trans ?_ hright.symm
          rw [← hnext, List.length_append, List.length_singleton]
          simp only [hbuffer]
          by_cases hfull : 8 ≤ 5 * read.length % 8 + 5
          · rw [if_pos hfull, base32Bytes_concat read hvalue, if_pos hfull,
              buffer_byte _ (by omega)]
            congr 1
            omega
          · rw [if_neg hfull, base32Bytes_concat read hvalue, if_neg hfull]
            congr 1
            omega

/-- A secret decodes to its bytes, and a broken one to nothing. -/
theorem decodeSecret_eq (secret : Str) :
    decodeSecret secret =
      match secret.mapM base32Value with
      | some values => base32Bytes values
      | none => [] :=
  decodeLoop_eq secret []

theorem values_cases (secret : Str) :
    (∃ values, secret.mapM base32Value = some values ∧ values.length = secret.length ∧
      ∀ ch ∈ secret, (base32Value ch).isSome) ∨
    (secret.mapM base32Value = none ∧ ∃ ch ∈ secret, base32Value ch = none) := by
  induction secret with
  | nil => exact .inl ⟨[], rfl, rfl, by simp⟩
  | cons ch secret ih =>
      rw [List.mapM_cons]
      cases hch : base32Value ch with
      | none => exact .inr ⟨rfl, ch, List.mem_cons_self, hch⟩
      | some value =>
          rcases ih with ⟨values, hvalues, hlen, hall⟩ | ⟨hnone, broken, hmem, hbroken⟩
          · refine .inl ⟨value :: values, by rw [hvalues]; rfl, by simp [hlen], ?_⟩
            intro c hc
            rcases List.mem_cons.mp hc with rfl | hc
            · rw [hch]; rfl
            · exact hall c hc
          · exact .inr ⟨by rw [hnone]; rfl, broken, List.mem_cons_of_mem _ hmem, hbroken⟩

/-- Five bits a character. -/
theorem length_decodeSecret_le (secret : Str) :
    (decodeSecret secret).length ≤ 5 * secret.length / 8 := by
  rw [decodeSecret_eq]
  rcases values_cases secret with ⟨values, hvalues, hlen, -⟩ | ⟨hnone, -⟩
  · rw [hvalues, ← hlen]
    exact Nat.le_of_eq (by simp [base32Bytes])
  · rw [hnone]
    exact Nat.zero_le _

/-- A secret decodes to a key if it has two characters and none of them is
broken. -/
theorem decodeSecret_ne_nil_iff (secret : Str) :
    decodeSecret secret ≠ [] ↔
      2 ≤ secret.length ∧ ∀ ch ∈ secret, (base32Value ch).isSome := by
  rw [decodeSecret_eq]
  rcases values_cases secret with ⟨values, hvalues, hlen, hall⟩ | ⟨hnone, broken, hmem, hbroken⟩
  · have hbytes : (base32Bytes values).length = 5 * secret.length / 8 := by
      simp [base32Bytes, hlen]
    rw [hvalues]
    show base32Bytes values ≠ [] ↔ _
    rw [← List.length_pos_iff, hbytes]
    constructor
    · intro hpos
      exact ⟨by omega, hall⟩
    · rintro ⟨htwo, -⟩
      omega
  · rw [hnone]
    constructor
    · intro h
      exact absurd rfl h
    · rintro ⟨-, hall⟩
      have hsome := hall broken hmem
      rw [hbroken] at hsome
      cases hsome

end Infernum.Authentication
