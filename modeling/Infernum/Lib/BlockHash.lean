import Infernum.Lib.BigEndian
import Mathlib.Algebra.Order.Ring.Int
import Mathlib.Algebra.Order.Ring.Nat
import Mathlib.Data.List.Basic

/-!
# Hashes that go over blocks

A compression function is folded over the blocks of a message. A stream fills a buffer and
compresses it whenever it is full: wherever the stream is cut, the state, the buffer and the
rest of the message give the same hash as the message in one piece.
-/

namespace Infernum.Lib.BlockHash

variable {α σ : Type*} (n : Nat) (compress : σ → List α → σ)

/-- The whole blocks of a message. -/
def blocks (xs : List α) : List (List α) :=
  (List.range (xs.length / n)).map fun i => (xs.drop (n * i)).take n

/-- The state after all blocks of a message. -/
def run (s : σ) (xs : List α) : σ := (blocks n xs).foldl compress s

/-- One symbol of a stream: the state and the buffer. -/
def push (r : σ × List α) (x : α) : σ × List α :=
  let buffer := r.2 ++ [x]
  if buffer.length = n then (compress r.1 buffer, []) else (r.1, buffer)

variable {n compress}

theorem blocks_append (hpos : 0 < n) {b : List α} (hb : b.length = n) (xs : List α) :
    blocks n (b ++ xs) = b :: blocks n xs := by
  have hcount : (b ++ xs).length / n = xs.length / n + 1 := by
    rw [List.length_append, hb, Nat.add_comm, Nat.add_div_right _ hpos]
  rw [blocks, hcount, List.range_succ_eq_map, List.map_cons, List.map_map]
  congr 1
  · rw [Nat.mul_zero, List.drop_zero, ← hb, List.take_left]
  · refine List.map_congr_left fun i _ => ?_
    show ((b ++ xs).drop (n * (i + 1))).take n = (xs.drop (n * i)).take n
    rw [Nat.mul_succ, Nat.add_comm, ← List.drop_drop, ← hb, List.drop_left]

theorem blocks_of_lt {xs : List α} (h : xs.length < n) : blocks n xs = [] := by
  rw [blocks, Nat.div_eq_of_lt h]
  rfl

theorem run_append (hpos : 0 < n) {b : List α} (hb : b.length = n) (s : σ) (xs : List α) :
    run n compress s (b ++ xs) = run n compress (compress s b) xs := by
  rw [run, blocks_append hpos hb, List.foldl_cons]
  rfl

theorem run_block (hpos : 0 < n) {b : List α} (hb : b.length = n) (s : σ) :
    run n compress s b = compress s b := by
  have h := @run_append _ _ n compress hpos b hb s []
  rw [List.append_nil] at h
  rw [h, run, blocks_of_lt hpos]
  rfl

/-- The buffer holds what whole blocks leave of the message. -/
theorem length_foldl_push (xs : List α) {r : σ × List α} (h : r.2.length < n) :
    (xs.foldl (push n compress) r).2.length = (r.2.length + xs.length) % n := by
  induction xs generalizing r with
  | nil => exact (Nat.mod_eq_of_lt h).symm
  | cons x xs ih =>
    have hlength : (r.2 ++ [x]).length = r.2.length + 1 := List.length_append
    rw [List.foldl_cons, List.length_cons, push]
    split
    · next hfull =>
      have hsum : r.2.length + (xs.length + 1) = xs.length + n := by omega
      have hempty : ([] : List α).length < n := Nat.lt_of_le_of_lt (Nat.zero_le _) h
      rw [ih hempty, hsum, Nat.add_mod_right, List.length_nil, Nat.zero_add]
    · have hroom : (r.2 ++ [x]).length < n := by omega
      rw [ih hroom, hlength, Nat.add_assoc, Nat.add_comm 1]

/-- The buffer and the rest of the message stand for the message from here on. -/
theorem run_foldl_push (hpos : 0 < n) (xs rest : List α) (r : σ × List α) :
    run n compress (xs.foldl (push n compress) r).1
        ((xs.foldl (push n compress) r).2 ++ rest) =
      run n compress r.1 (r.2 ++ (xs ++ rest)) := by
  induction xs generalizing r with
  | nil => rfl
  | cons x xs ih =>
    rw [List.foldl_cons, ih]
    have hsplit : r.2 ++ (x :: xs ++ rest) = (r.2 ++ [x]) ++ (xs ++ rest) := by simp
    rw [hsplit, push]
    split
    · next hfull =>
      rw [run_append hpos hfull]
      rfl
    · rfl

end Infernum.Lib.BlockHash

/-!
## SHA-1

The hash as its standard has it: the message is padded to whole blocks of sixteen words, a
schedule of eighty words is made from each block, and eighty rounds turn five words into the
next five.
-/

namespace Infernum.Lib.Sha1

open BigEndian (bytesOf)

/-- The five words of the hash. -/
structure State where
  a : UInt32
  b : UInt32
  c : UInt32
  d : UInt32
  e : UInt32
  deriving DecidableEq

def State.add (s t : State) : State :=
  ⟨s.a + t.a, s.b + t.b, s.c + t.c, s.d + t.d, s.e + t.e⟩

def State.start : State :=
  ⟨0x67452301, 0xEFCDAB89, 0x98BADCFE, 0x10325476, 0xC3D2E1F0⟩

/-- `n` is from 1 to 31. -/
def rotl (n x : UInt32) : UInt32 := (x <<< n) ||| (x >>> (32 - n))

/-! ## The functions of the rounds -/

def ch (x y z : UInt32) : UInt32 := (x &&& y) ^^^ (~~~x &&& z)
def parity (x y z : UInt32) : UInt32 := x ^^^ y ^^^ z
def maj (x y z : UInt32) : UInt32 := (x &&& y) ^^^ (x &&& z) ^^^ (y &&& z)

def f (t : Nat) : UInt32 → UInt32 → UInt32 → UInt32 :=
  if t < 20 then ch else if t < 40 then parity else if t < 60 then maj else parity

def k (t : Nat) : UInt32 :=
  if t < 20 then 0x5A827999
  else if t < 40 then 0x6ED9EBA1
  else if t < 60 then 0x8F1BBCDC
  else 0xCA62C1D6

/-! ## A block -/

/-- Word `i` of a block, the first byte of it the highest. -/
def wordAt (block : List UInt8) (i : Nat) : UInt32 :=
  let byte j := (block.getD (4 * i + j) 0).toUInt32
  byte 0 <<< 24 ||| byte 1 <<< 16 ||| byte 2 <<< 8 ||| byte 3

/-- The schedule: the words of the block, then each from four before it. -/
def schedule (block : List UInt8) (t : Nat) : UInt32 :=
  if t < 16 then wordAt block t
  else
    rotl 1 (schedule block (t - 3) ^^^ schedule block (t - 8) ^^^ schedule block (t - 14) ^^^
      schedule block (t - 16))

def round (t : Nat) (word : UInt32) (s : State) : State :=
  { a := rotl 5 s.a + f t s.b s.c s.d + s.e + k t + word
    b := s.a
    c := rotl 30 s.b
    d := s.c
    e := s.d }

/-- The words after the first rounds. -/
def rounds (block : List UInt8) (s : State) : Nat → State
  | 0 => s
  | t + 1 => round t (schedule block t) (rounds block s t)

def compress (s : State) (block : List UInt8) : State := s.add (rounds block s 80)

/-! ## A message -/

/-- The least number of zeros that leaves room for the mark and the length at the end of a
block. -/
def zeros (length : Nat) : Nat := (119 - length % 64) % 64

def pad (message : List UInt8) : List UInt8 :=
  message ++ 0x80 :: (List.replicate (zeros message.length) 0 ++ bytesOf 8 (8 * message.length))

def State.bytes (s : State) : List UInt8 :=
  [s.a, s.b, s.c, s.d, s.e].flatMap fun word => bytesOf 4 word.toNat

/-- The hash of a message of less than 2⁶¹ bytes. -/
def hash (message : List UInt8) : List UInt8 :=
  (BlockHash.run 64 compress .start (pad message)).bytes

@[simp] theorem length_bytes (s : State) : s.bytes.length = 20 := by
  simp [State.bytes]

/-- A hash has twenty bytes. -/
theorem length_hash (message : List UInt8) : (hash message).length = 20 := length_bytes _

end Infernum.Lib.Sha1

/-!
## Codes from a key and a counter

The keyed hash of a message over any hash, and the code of a counter: a number of 31 bits that
is cut out of the keyed hash of the counter, in decimal digits.
-/

namespace Infernum.Lib.Hotp

open BigEndian

variable (hash : List UInt8 → List UInt8) (blockSize : Nat)

/-- A key longer than a block is hashed first; then it is filled up to a block. -/
def blockKey (key : List UInt8) : List UInt8 :=
  let key := if key.length ≤ blockSize then key else hash key
  key ++ List.replicate (blockSize - key.length) 0

def hmac (key message : List UInt8) : List UInt8 :=
  let inner := (blockKey hash blockSize key).map (· ^^^ 0x36)
  let outer := (blockKey hash blockSize key).map (· ^^^ 0x5C)
  hash (outer ++ hash (inner ++ message))

/-- Four bytes without the sign bit, from where the low half of the last byte says. -/
def truncate (mac : List UInt8) : Nat :=
  let offset := (mac.getLastD 0).toNat % 16
  number ((mac.drop offset).take 4) % 2 ^ 31

/-- The code of a counter. -/
def hotp (digits : Nat) (key : List UInt8) (counter : Nat) : List UInt8 :=
  decimal digits (truncate (hmac hash blockSize key (bytesOf 8 counter)))

end Infernum.Lib.Hotp
