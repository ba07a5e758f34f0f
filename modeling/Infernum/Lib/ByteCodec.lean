import Mathlib.Tactic.Common
import Mathlib.Algebra.Order.Ring.Nat

/-!
# Little-endian byte streams

Writing a number or a short string to a byte stream and reading it back. A
reader takes the stream and returns what it read, if there was enough, with
the rest of the stream. Every lemma about a round trip is stated in front of
an arbitrary rest, so that readers compose.
-/

namespace Infernum.Lib

/-- The `n` low bytes of `v`, the lowest first. -/
def encodeLE : Nat → Nat → List UInt8
  | 0, _ => []
  | n + 1, v => UInt8.ofNat v :: encodeLE n (v / 256)

/-- The number that a list of bytes spells, the lowest first. -/
def decodeLE : List UInt8 → Nat
  | [] => 0
  | b :: bs => b.toNat + 256 * decodeLE bs

@[simp] theorem length_encodeLE (n v : Nat) : (encodeLE n v).length = n := by
  induction n generalizing v with
  | zero => rfl
  | succ n ih => rw [encodeLE, List.length_cons, ih]

theorem decodeLE_encodeLE (n v : Nat) : decodeLE (encodeLE n v) = v % 256 ^ n := by
  induction n generalizing v with
  | zero => rw [encodeLE, decodeLE, pow_zero, Nat.mod_one]
  | succ n ih =>
      have hlow : (UInt8.ofNat v).toNat = v % 256 := by simp
      rw [encodeLE, decodeLE, ih, hlow, pow_succ', Nat.mod_mul]

/-- Read `n` bytes as a number. The stream stays where it is if they are not
there. -/
def readLE (n : Nat) (s : List UInt8) : Option Nat × List UInt8 :=
  if s.length < n then (none, s) else (some (decodeLE (s.take n)), s.drop n)

@[simp] theorem readLE_encodeLE (n v : Nat) (rest : List UInt8) :
    readLE n (encodeLE n v ++ rest) = (some (v % 256 ^ n), rest) := by
  have hlen : (encodeLE n v ++ rest).length = n + rest.length := by simp
  have htake : (encodeLE n v ++ rest).take n = encodeLE n v := by simp
  have hdrop : (encodeLE n v ++ rest).drop n = rest := by simp
  rw [readLE, if_neg (by omega), htake, hdrop, decodeLE_encodeLE]

theorem readLE_length_le (n : Nat) (s : List UInt8) : (readLE n s).2.length ≤ s.length := by
  unfold readLE
  split
  · exact le_refl _
  · rw [List.length_drop]
    exact Nat.sub_le _ _

theorem readLE_one_cons (b : UInt8) (rest : List UInt8) :
    readLE 1 (b :: rest) = (some b.toNat, rest) := by
  simp [readLE, decodeLE]

/-- Step over `n` bytes; whether they were there. -/
def skip (n : Nat) (s : List UInt8) : Bool × List UInt8 :=
  if s.length < n then (false, s) else (true, s.drop n)

theorem skip_length_le (n : Nat) (s : List UInt8) : (skip n s).2.length ≤ s.length := by
  unfold skip
  split
  · exact le_refl _
  · rw [List.length_drop]
    exact Nat.sub_le _ _

/-- A length of two bytes and the string; a string that is too long for the
length field is written as the empty one. -/
def encodeString (str : List UInt8) : List UInt8 :=
  if 65535 < str.length then encodeLE 2 0 else encodeLE 2 str.length ++ str

/-- What `encodeString` keeps of a string. -/
def clipString (str : List UInt8) : List UInt8 := if 65535 < str.length then [] else str

/-- Read a length of two bytes and that many bytes. -/
def readString (s : List UInt8) : Option (List UInt8) × List UInt8 :=
  match readLE 2 s with
  | (none, s) => (none, s)
  | (some len, s) => if s.length < len then (none, s) else (some (s.take len), s.drop len)

@[simp] theorem readString_encodeString (str rest : List UInt8) :
    readString (encodeString str ++ rest) = (some (clipString str), rest) := by
  by_cases hlen : 65535 < str.length
  · simp only [readString, encodeString, clipString, if_pos hlen, readLE_encodeLE]
    simp
  · have hmod : str.length % 256 ^ 2 = str.length := Nat.mod_eq_of_lt (by omega)
    simp only [readString, encodeString, clipString, if_neg hlen, List.append_assoc,
      readLE_encodeLE, hmod]
    simp

theorem readString_length_le (s : List UInt8) : (readString s).2.length ≤ s.length := by
  have hlen := readLE_length_le 2 s
  unfold readString
  split
  · rename_i heq
    rw [heq] at hlen
    exact hlen
  · rename_i heq
    rw [heq] at hlen
    split
    · exact hlen
    · rw [List.length_drop]
      exact le_trans (Nat.sub_le _ _) hlen

theorem clipString_eq_self {str : List UInt8} : clipString str = str ↔ str.length ≤ 65535 := by
  unfold clipString
  split
  · rename_i hlen
    refine ⟨fun h => ?_, fun h => absurd hlen (by omega)⟩
    rw [← h] at hlen
    simp at hlen
  · rename_i hlen
    exact ⟨fun _ => by omega, fun _ => rfl⟩

end Infernum.Lib
