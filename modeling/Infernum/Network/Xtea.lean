import Infernum.Lib.Region
import Mathlib.Algebra.Order.Ring.Nat
import Mathlib.Logic.Function.Iterate

/-!
# XTEA

The cipher of the connection: blocks of eight bytes, read as two words, which
thirty-two rounds mix under a key of four words. The code works on several
blocks at once, the lanes, as many as the machine has room for; what is left
over goes to passes that are half as wide, down to a single block. Bytes
behind the last whole block stay as they are.

Deciphering undoes enciphering on every message, whole blocks or not.
-/

namespace Infernum.Network.Xtea

open Infernum.Lib

/-! ### Words and bytes -/

/-- `data[j] | data[j+1] << 8u | data[j+2] << 16u | data[j+3] << 24u` -/
def word (a b c d : UInt8) : UInt32 :=
  a.toUInt32 ||| b.toUInt32 <<< 8 ||| c.toUInt32 <<< 16 ||| d.toUInt32 <<< 24

/-- The four bytes of a word, the lowest first. -/
def bytes (w : UInt32) : List UInt8 :=
  [w.toUInt8, (w >>> 8).toUInt8, (w >>> 16).toUInt8, (w >>> 24).toUInt8]

theorem getElem_word (a b c d : UInt8) (i : Nat) (hi : i < 32) :
    (word a b c d).toBitVec[i] =
      if i < 8 then a.toBitVec.getLsbD i
      else if i < 16 then b.toBitVec.getLsbD (i - 8)
      else if i < 24 then c.toBitVec.getLsbD (i - 16)
      else d.toBitVec.getLsbD (i - 24) := by
  have hout : ∀ (x : UInt8) (j : Nat), 8 ≤ j → x.toBitVec.getLsbD j = false :=
    fun x j hj => BitVec.getLsbD_of_ge _ _ hj
  simp only [word, UInt32.toBitVec_or, UInt32.toBitVec_shiftLeft, UInt8.toBitVec_toUInt32]
  simp
  split
  · grind
  · split
    · simp [hout a i (by omega)]
      grind
    · split
      · simp [hout a i (by omega), hout b (i - 8) (by omega)]
        grind
      · simp [hout a i (by omega), hout b (i - 8) (by omega), hout c (i - 16) (by omega)]
        grind

theorem word_bytes (w : UInt32) :
    word w.toUInt8 (w >>> 8).toUInt8 (w >>> 16).toUInt8 (w >>> 24).toUInt8 = w := by
  apply UInt32.eq_of_toBitVec_eq
  ext i hi
  rw [getElem_word]
  simp only [UInt32.toBitVec_toUInt8, UInt32.toBitVec_shiftRight]
  simp
  grind

/-- Byte `j` of a word, once the word is shifted down to it. -/
theorem toUInt8_shiftRight_word (a b c d : UInt8) :
    (word a b c d).toUInt8 = a ∧ (word a b c d >>> 8).toUInt8 = b ∧
      (word a b c d >>> 16).toUInt8 = c ∧ (word a b c d >>> 24).toUInt8 = d := by
  refine ⟨?_, ?_, ?_, ?_⟩ <;> apply UInt8.eq_of_toBitVec_eq <;> ext i hi <;>
    simp only [UInt32.toBitVec_toUInt8, UInt32.toBitVec_shiftRight] <;> simp <;>
    rw [BitVec.getLsbD_eq_getElem (by omega), getElem_word] <;> grind

theorem bytes_word (a b c d : UInt8) : bytes (word a b c d) = [a, b, c, d] := by
  obtain ⟨ha, hb, hc, hd⟩ := toUInt8_shiftRight_word a b c d
  rw [bytes, ha, hb, hc, hd]

/-! ### Lanes -/

/-- `left[i]` and `right[i]`: one block. -/
abbrev Lane := UInt32 × UInt32

/-- Fill `left` and `right` from the bytes. -/
def lanes : List UInt8 → List Lane
  | a :: b :: c :: d :: e :: f :: g :: h :: rest => (word a b c d, word e f g h) :: lanes rest
  | _ => []

/-- Write `left` and `right` back. -/
def unlanes : List Lane → List UInt8
  | [] => []
  | (left, right) :: rest => bytes left ++ (bytes right ++ unlanes rest)

theorem lanes_unlanes (ls : List Lane) : lanes (unlanes ls) = ls := by
  induction ls with
  | nil => rfl
  | cons lane ls ih =>
      obtain ⟨left, right⟩ := lane
      simp only [unlanes, bytes, List.cons_append, List.nil_append, lanes, word_bytes, ih]

theorem unlanes_lanes : ∀ data : List UInt8, 8 ∣ data.length → unlanes (lanes data) = data
  | [], _ => rfl
  | a :: b :: c :: d :: e :: f :: g :: h :: rest, hdvd => by
      have hrest : 8 ∣ rest.length := by
        simp only [List.length_cons] at hdvd
        omega
      simp only [lanes, unlanes, bytes_word, List.cons_append, List.nil_append,
        unlanes_lanes rest hrest]
  | [_], hdvd | [_, _], hdvd | [_, _, _], hdvd | [_, _, _, _], hdvd | [_, _, _, _, _], hdvd
  | [_, _, _, _, _, _], hdvd | [_, _, _, _, _, _, _], hdvd => by
      simp only [List.length_cons, List.length_nil] at hdvd
      omega

theorem length_unlanes (ls : List Lane) : (unlanes ls).length = 8 * ls.length := by
  induction ls with
  | nil => rfl
  | cons lane ls ih =>
      simp only [unlanes, bytes, List.cons_append, List.nil_append, List.length_cons, ih]
      omega

theorem length_lanes {data : List UInt8} (hdvd : 8 ∣ data.length) :
    8 * (lanes data).length = data.length := by
  rw [← length_unlanes, unlanes_lanes data hdvd]

/-! ### Rounds -/

/-- `xtea::key` -/
abbrev Key := Fin 4 → UInt32

def delta : UInt32 := 0x9E3779B9

/-- `((v << 4) ^ (v >> 5)) + v` -/
def mix (v : UInt32) : UInt32 := ((v <<< 4) ^^^ (v >>> 5)) + v

/-- `k[i & 3]` -/
def Key.pick (k : Key) (i : UInt32) : UInt32 := k (Fin.ofNat 4 (i &&& 3).toNat)

/-- One pass of the loop of `XTEA_encrypt`, over `sum` and all lanes. -/
def encryptRound (k : Key) (s : UInt32 × List Lane) : UInt32 × List Lane :=
  let ls := s.2.map fun l => (l.1 + (mix l.2 ^^^ (s.1 + k.pick s.1)), l.2)
  let sum := s.1 + delta
  (sum, ls.map fun l => (l.1, l.2 + (mix l.1 ^^^ (sum + k.pick (sum >>> 11)))))

/-- One pass of the loop of `XTEA_decrypt`. -/
def decryptRound (k : Key) (s : UInt32 × List Lane) : UInt32 × List Lane :=
  let ls := s.2.map fun l => (l.1, l.2 - (mix l.1 ^^^ (s.1 + k.pick (s.1 >>> 11))))
  let sum := s.1 - delta
  (sum, ls.map fun l => (l.1 - (mix l.2 ^^^ (sum + k.pick sum)), l.2))

theorem decryptRound_encryptRound (k : Key) :
    Function.LeftInverse (decryptRound k) (encryptRound k) := by
  intro s
  obtain ⟨sum, ls⟩ := s
  have hsum : sum + delta - delta = sum := UInt32.add_sub_cancel sum delta
  simp only [decryptRound, encryptRound, List.map_map, hsum, Prod.mk.injEq, true_and]
  refine (List.map_congr_left fun l _ => ?_).trans (List.map_id ls)
  simp only [Function.comp_apply, UInt32.add_sub_cancel, id]

/-- The running `sum` does not look at the data. -/
theorem encryptRound_iterate_fst (k : Key) (n : Nat) (s : UInt32 × List Lane) :
    ((encryptRound k)^[n] s).1 = s.1 + UInt32.ofNat n * delta := by
  induction n with
  | zero => simp
  | succ n ih =>
      rw [Function.iterate_succ_apply', encryptRound, ih, UInt32.add_assoc, UInt32.ofNat_add,
        UInt32.add_mul]
      simp

theorem encryptRound_iterate_length (k : Key) (n : Nat) (s : UInt32 × List Lane) :
    ((encryptRound k)^[n] s).2.length = s.2.length := by
  induction n with
  | zero => rfl
  | succ n ih =>
      rw [Function.iterate_succ_apply', encryptRound]
      simp only [List.length_map]
      exact ih

def XTEA_encrypt (k : Key) (data : List UInt8) : List UInt8 :=
  unlanes ((encryptRound k)^[32] (0, lanes data)).2

def XTEA_decrypt (k : Key) (data : List UInt8) : List UInt8 :=
  unlanes ((decryptRound k)^[32] (delta <<< 5, lanes data)).2

theorem length_XTEA_encrypt (k : Key) {data : List UInt8} (hdvd : 8 ∣ data.length) :
    (XTEA_encrypt k data).length = data.length := by
  rw [XTEA_encrypt, length_unlanes, encryptRound_iterate_length, length_lanes hdvd]

theorem XTEA_decrypt_encrypt (k : Key) {data : List UInt8} (hdvd : 8 ∣ data.length) :
    XTEA_decrypt k (XTEA_encrypt k data) = data := by
  have hsum : ((encryptRound k)^[32] (0, lanes data)).1 = delta <<< 5 := by
    rw [encryptRound_iterate_fst]
    exact (by decide : (0 : UInt32) + UInt32.ofNat 32 * delta = delta <<< 5)
  have hstate : (delta <<< 5, ((encryptRound k)^[32] (0, lanes data)).2)
      = (encryptRound k)^[32] (0, lanes data) := by
    rw [← hsum]
  rw [XTEA_decrypt, XTEA_encrypt, lanes_unlanes, hstate,
    (decryptRound_encryptRound k).iterate 32, unlanes_lanes data hdvd]

/-! ### Whole messages -/

/-- The bytes that one call of `XTEA_encrypt` takes: `BlockSize` blocks, and
`BlockSize` is `2 ^ e`. -/
def step (e : Nat) : Nat := 2 ^ e * 8

/-- `length & ~(step - 1)`, the step being a power of two. -/
def blocks (e length : Nat) : Nat := length / step e * step e

/-- `XTEA::operator()`: `f` on the data `step` bytes at a time, and what is left
with half the block size. -/
def run (f : List UInt8 → List UInt8) : Nat → List UInt8 → List UInt8
  | 0, input =>
      mapBlocks (step 0) f (input.length / step 0) (input.take (blocks 0 input.length))
        ++ input.drop (blocks 0 input.length)
  | e + 1, input =>
      mapBlocks (step (e + 1)) f (input.length / step (e + 1))
          (input.take (blocks (e + 1) input.length))
        ++ run f e (input.drop (blocks (e + 1) input.length))

/-- `xtea::encrypt`, on a machine whose `InitialBlockSize` is `2 ^ e`. -/
def encrypt (e : Nat) (k : Key) (data : List UInt8) : List UInt8 := run (XTEA_encrypt k) e data

/-- `xtea::decrypt`. -/
def decrypt (e : Nat) (k : Key) (data : List UInt8) : List UInt8 := run (XTEA_decrypt k) e data

section Run

variable {f g : List UInt8 → List UInt8}

theorem blocks_le (e length : Nat) : blocks e length ≤ length := Nat.div_mul_le_self _ _

theorem dvd_step (e : Nat) : 8 ∣ step e := Nat.dvd_mul_left 8 (2 ^ e)

theorem length_sweep (hf : ∀ data, 8 ∣ data.length → (f data).length = data.length) (e : Nat)
    (input : List UInt8) :
    (mapBlocks (step e) f (input.length / step e)
      (input.take (blocks e input.length))).length = blocks e input.length := by
  have hle := blocks_le e input.length
  have htake : (input.take (blocks e input.length)).length = blocks e input.length := by
    rw [List.length_take]
    omega
  rw [length_mapBlocks _ _ _ (Nat.le_of_eq htake.symm), htake]
  intro xs hxs
  rw [hf xs (hxs ▸ dvd_step e), hxs]

theorem length_run (hf : ∀ data, 8 ∣ data.length → (f data).length = data.length) (e : Nat) :
    ∀ input, (run f e input).length = input.length := by
  induction e with
  | zero =>
      intro input
      have hle := blocks_le 0 input.length
      rw [run, List.length_append, length_sweep hf, List.length_drop]
      omega
  | succ e ih =>
      intro input
      have hle := blocks_le (e + 1) input.length
      rw [run, List.length_append, length_sweep hf, ih, List.length_drop]
      omega

/-- Undoing each call undoes the whole: both directions cut the data at the
same places. -/
theorem run_run (hf : ∀ data, 8 ∣ data.length → (f data).length = data.length)
    (hg : ∀ data, 8 ∣ data.length → g (f data) = data) (e : Nat) :
    ∀ input, run g e (run f e input) = input := by
  have hsweep : ∀ (e : Nat) (input : List UInt8),
      mapBlocks (step e) g (input.length / step e) (mapBlocks (step e) f (input.length / step e)
        (input.take (blocks e input.length))) = input.take (blocks e input.length) := by
    intro e input
    have hle := blocks_le e input.length
    refine mapBlocks_leftInverse (fun xs hxs => ?_) (fun xs hxs => hg xs (hxs ▸ dvd_step e)) _ _ ?_
    · rw [hf xs (hxs ▸ dvd_step e), hxs]
    · rw [List.length_take, Nat.min_eq_left hle]
      exact Nat.le_refl _
  induction e with
  | zero =>
      intro input
      have hlen := length_run hf 0 input
      rw [run, hlen, run, List.take_left' (length_sweep hf 0 input),
        List.drop_left' (length_sweep hf 0 input), hsweep, List.take_append_drop]
  | succ e ih =>
      intro input
      have hlen := length_run hf (e + 1) input
      rw [run, hlen, run, List.take_left' (length_sweep hf (e + 1) input),
        List.drop_left' (length_sweep hf (e + 1) input), hsweep, ih, List.take_append_drop]

end Run

theorem length_encrypt (e : Nat) (k : Key) (data : List UInt8) :
    (encrypt e k data).length = data.length :=
  length_run (fun _ hdvd => length_XTEA_encrypt k hdvd) e data

theorem decrypt_encrypt (e : Nat) (k : Key) (data : List UInt8) :
    decrypt e k (encrypt e k data) = data :=
  run_run (fun _ hdvd => length_XTEA_encrypt k hdvd) (fun _ hdvd => XTEA_decrypt_encrypt k hdvd)
    e data

end Infernum.Network.Xtea

/-!
## XTEA block by block

The cipher on a single block of eight bytes, and a message as its blocks in
order. The passes over several lanes are that, for every width the machine may
have: the lanes of a round do not look at each other, and the narrower passes go
on where the wider ones stop.

The loops of the source count their bytes in thirty-two bits. They are written
out here once, and agree with the passes on every message whose length such a
counter holds.
-/

namespace Infernum.Network.Xtea

open Infernum.Lib

/-! ### One block -/

/-- A round of the cipher, over `sum` and one block. -/
def encipherRound (k : Key) (s : UInt32 × Lane) : UInt32 × Lane :=
  let left := s.2.1 + (mix s.2.2 ^^^ (s.1 + k.pick s.1))
  let sum := s.1 + delta
  (sum, left, s.2.2 + (mix left ^^^ (sum + k.pick (sum >>> 11))))

/-- A round back. -/
def decipherRound (k : Key) (s : UInt32 × Lane) : UInt32 × Lane :=
  let right := s.2.2 - (mix s.2.1 ^^^ (s.1 + k.pick (s.1 >>> 11)))
  let sum := s.1 - delta
  (sum, s.2.1 - (mix right ^^^ (sum + k.pick sum)), right)

def encipher (k : Key) (block : Lane) : Lane := ((encipherRound k)^[32] (0, block)).2

def decipher (k : Key) (block : Lane) : Lane := ((decipherRound k)^[32] (delta <<< 5, block)).2

/-- `f` on every whole block, and the bytes behind the last one as they are. -/
def eachBlock (f : Lane → Lane) : List UInt8 → List UInt8
  | a :: b :: c :: d :: e :: g :: h :: i :: rest =>
      let block := f (word a b c d, word e g h i)
      bytes block.1 ++ (bytes block.2 ++ eachBlock f rest)
  | rest => rest

example (f : Lane → Lane) : eachBlock f [1, 2, 3] = [1, 2, 3] := by
  simp [eachBlock]

theorem encipherRound_decipherRound (k : Key) :
    Function.LeftInverse (encipherRound k) (decipherRound k) := by
  intro s
  obtain ⟨sum, left, right⟩ := s
  simp only [encipherRound, decipherRound, UInt32.sub_add_cancel]

theorem encipherRound_fst (k : Key) (s : UInt32 × Lane) : (encipherRound k s).1 = s.1 + delta :=
  rfl

theorem decipherRound_fst (k : Key) (s : UInt32 × Lane) : (decipherRound k s).1 = s.1 - delta :=
  rfl

/-- The `sum` of the last round is the one that enciphering starts with. -/
theorem decipherRound_iterate_fst (k : Key) (block : Lane) :
    ((decipherRound k)^[32] (delta <<< 5, block)).1 = 0 := by
  have hstep : ∀ n, ((decipherRound k)^[n] (delta <<< 5, block)).1 + UInt32.ofNat n * delta
      = delta <<< 5 := by
    intro n
    induction n with
    | zero => simp
    | succ n ih =>
        rw [Function.iterate_succ_apply', decipherRound_fst, UInt32.ofNat_add, UInt32.add_mul,
          UInt32.ofNat_one, UInt32.one_mul, UInt32.add_comm (UInt32.ofNat n * delta),
          ← UInt32.add_assoc, UInt32.sub_add_cancel, ih]
  have hall := hstep 32
  rw [(by decide : UInt32.ofNat 32 * delta = delta <<< 5)] at hall
  rw [← UInt32.add_left_inj (delta <<< 5), hall, UInt32.zero_add]

theorem encipher_decipher (k : Key) (block : Lane) : encipher k (decipher k block) = block := by
  have hstate : ((0 : UInt32), ((decipherRound k)^[32] (delta <<< 5, block)).2)
      = (decipherRound k)^[32] (delta <<< 5, block) := by
    rw [← decipherRound_iterate_fst k block]
  rw [decipher, encipher, hstate, (encipherRound_decipherRound k).iterate 32]

/-! ### Blocks in order -/

section Blocks

variable {f g : Lane → Lane}

/-- The bytes behind the last whole block are left alone. -/
theorem eachBlock_of_lt : ∀ {data : List UInt8}, data.length < 8 → eachBlock f data = data
  | [], _ | [_], _ | [_, _], _ | [_, _, _], _ | [_, _, _, _], _ | [_, _, _, _, _], _
  | [_, _, _, _, _, _], _ | [_, _, _, _, _, _, _], _ => rfl
  | _ :: _ :: _ :: _ :: _ :: _ :: _ :: _ :: rest, h => by
      simp only [List.length_cons] at h
      omega

/-- Behind whole blocks the next block begins. -/
theorem eachBlock_append : ∀ {xs : List UInt8} (ys : List UInt8), 8 ∣ xs.length →
    eachBlock f (xs ++ ys) = eachBlock f xs ++ eachBlock f ys
  | [], ys, _ => rfl
  | _ :: _ :: _ :: _ :: _ :: _ :: _ :: _ :: rest, ys, hdvd => by
      have hrest : 8 ∣ rest.length := by
        simp only [List.length_cons] at hdvd
        omega
      simp only [List.cons_append, eachBlock, eachBlock_append ys hrest, List.append_assoc]
  | [_], _, hdvd | [_, _], _, hdvd | [_, _, _], _, hdvd | [_, _, _, _], _, hdvd
  | [_, _, _, _, _], _, hdvd | [_, _, _, _, _, _], _, hdvd | [_, _, _, _, _, _, _], _, hdvd => by
      simp only [List.length_cons, List.length_nil] at hdvd
      omega

theorem length_eachBlock : ∀ data : List UInt8, (eachBlock f data).length = data.length
  | [] | [_] | [_, _] | [_, _, _] | [_, _, _, _] | [_, _, _, _, _] | [_, _, _, _, _, _]
  | [_, _, _, _, _, _, _] => rfl
  | _ :: _ :: _ :: _ :: _ :: _ :: _ :: _ :: rest => by
      have hrest := length_eachBlock rest
      simp only [eachBlock, bytes, List.cons_append, List.nil_append, List.length_cons, hrest]

theorem eachBlock_eachBlock (hfg : ∀ block, g (f block) = block) :
    ∀ data : List UInt8, eachBlock g (eachBlock f data) = data
  | [] | [_] | [_, _] | [_, _, _] | [_, _, _, _] | [_, _, _, _, _] | [_, _, _, _, _, _]
  | [_, _, _, _, _, _, _] => rfl
  | a :: b :: c :: d :: e :: p :: q :: r :: rest => by
      have hrest := eachBlock_eachBlock hfg rest
      rw [eachBlock]
      generalize hblock : f (word a b c d, word e p q r) = block
      have hback : g block = (word a b c d, word e p q r) := hblock ▸ hfg _
      have hcut : eachBlock g (bytes block.1 ++ (bytes block.2 ++ eachBlock f rest))
          = bytes (g block).1 ++ (bytes (g block).2 ++ eachBlock g (eachBlock f rest)) := by
        simp only [bytes, List.cons_append, List.nil_append, eachBlock, word_bytes]
      rw [hcut, hback, hrest, bytes_word, bytes_word]
      rfl

/-- Reading the lanes, working on each and writing them back. -/
theorem unlanes_map_lanes : ∀ {data : List UInt8}, 8 ∣ data.length →
    unlanes ((lanes data).map f) = eachBlock f data
  | [], _ => rfl
  | a :: b :: c :: d :: e :: p :: q :: r :: rest, hdvd => by
      have hrest : 8 ∣ rest.length := by
        simp only [List.length_cons] at hdvd
        omega
      rw [lanes, List.map_cons, unlanes, eachBlock, unlanes_map_lanes hrest]
  | [_], hdvd | [_, _], hdvd | [_, _, _], hdvd | [_, _, _, _], hdvd | [_, _, _, _, _], hdvd
  | [_, _, _, _, _, _], hdvd | [_, _, _, _, _, _, _], hdvd => by
      simp only [List.length_cons, List.length_nil] at hdvd
      omega

end Blocks

/-! ### Lanes do not look at each other -/

theorem encryptRound_eq (k : Key) (sum : UInt32) (ls : List Lane) :
    encryptRound k (sum, ls) = (sum + delta, ls.map fun l => (encipherRound k (sum, l)).2) := by
  simp only [encryptRound, encipherRound, List.map_map, Function.comp_def]

theorem encryptRound_iterate (k : Key) (n : Nat) (sum : UInt32) (ls : List Lane) :
    ((encryptRound k)^[n] (sum, ls)).2 = ls.map fun l => ((encipherRound k)^[n] (sum, l)).2 := by
  induction n generalizing sum ls with
  | zero => simp
  | succ n ih =>
      rw [Function.iterate_succ_apply, encryptRound_eq, ih, List.map_map]
      refine List.map_congr_left fun l _ => ?_
      rw [Function.comp_apply, Function.iterate_succ_apply, ← encipherRound_fst k (sum, l)]

theorem decryptRound_eq (k : Key) (sum : UInt32) (ls : List Lane) :
    decryptRound k (sum, ls) = (sum - delta, ls.map fun l => (decipherRound k (sum, l)).2) := by
  simp only [decryptRound, decipherRound, List.map_map, Function.comp_def]

theorem decryptRound_iterate (k : Key) (n : Nat) (sum : UInt32) (ls : List Lane) :
    ((decryptRound k)^[n] (sum, ls)).2 = ls.map fun l => ((decipherRound k)^[n] (sum, l)).2 := by
  induction n generalizing sum ls with
  | zero => simp
  | succ n ih =>
      rw [Function.iterate_succ_apply, decryptRound_eq, ih, List.map_map]
      refine List.map_congr_left fun l _ => ?_
      rw [Function.comp_apply, Function.iterate_succ_apply, ← decipherRound_fst k (sum, l)]

theorem XTEA_encrypt_eq (k : Key) {data : List UInt8} (hdvd : 8 ∣ data.length) :
    XTEA_encrypt k data = eachBlock (encipher k) data := by
  rw [XTEA_encrypt, encryptRound_iterate, ← unlanes_map_lanes hdvd]
  rfl

theorem XTEA_decrypt_eq (k : Key) {data : List UInt8} (hdvd : 8 ∣ data.length) :
    XTEA_decrypt k data = eachBlock (decipher k) data := by
  rw [XTEA_decrypt, decryptRound_iterate, ← unlanes_map_lanes hdvd]
  rfl

/-! ### Passes of decreasing width -/

section Run

variable {f : List UInt8 → List UInt8} {g : Lane → Lane}

theorem dvd_blocks (e length : Nat) : 8 ∣ blocks e length :=
  Nat.dvd_trans (dvd_step e) (Nat.dvd_mul_left _ _)

/-- One pass: the calls of one width in order. -/
theorem mapBlocks_eq (hf : ∀ data, 8 ∣ data.length → f data = eachBlock g data) (e : Nat) :
    ∀ (count : Nat) (xs : List UInt8), xs.length = count * step e →
      mapBlocks (step e) f count xs = eachBlock g xs := by
  intro count
  induction count with
  | zero =>
      intro xs hlen
      rw [Nat.zero_mul] at hlen
      rw [List.length_eq_zero_iff.mp hlen]
      rfl
  | succ count ih =>
      intro xs hlen
      have hmul : (count + 1) * step e = count * step e + step e := Nat.succ_mul count _
      have htake : (xs.take (step e)).length = step e := by
        rw [List.length_take]
        omega
      have hdvd : 8 ∣ (xs.take (step e)).length := by
        rw [htake]
        exact dvd_step e
      rw [mapBlocks, hf _ hdvd, ih _ (by rw [List.length_drop]; omega),
        ← eachBlock_append _ hdvd, List.take_append_drop]

/-- What a pass covers, and what it leaves to the next. -/
theorem sweep_eq (hf : ∀ data, 8 ∣ data.length → f data = eachBlock g data) (e : Nat)
    (input : List UInt8) :
    mapBlocks (step e) f (input.length / step e) (input.take (blocks e input.length))
        ++ eachBlock g (input.drop (blocks e input.length)) = eachBlock g input := by
  have hle := blocks_le e input.length
  have htake : (input.take (blocks e input.length)).length = blocks e input.length := by
    rw [List.length_take]
    omega
  have hdvd : 8 ∣ (input.take (blocks e input.length)).length := by
    rw [htake]
    exact dvd_blocks e _
  rw [mapBlocks_eq hf e _ _ htake, ← eachBlock_append _ hdvd, List.take_append_drop]

theorem run_eq (hf : ∀ data, 8 ∣ data.length → f data = eachBlock g data) (e : Nat) :
    ∀ input, run f e input = eachBlock g input := by
  induction e with
  | zero =>
      intro input
      -- a block is the narrowest pass, so less than a block is left
      have hrest : (input.drop (blocks 0 input.length)).length < 8 := by
        have hmod := Nat.mod_lt input.length (by decide : 0 < step 0)
        have hdiv := Nat.div_add_mod input.length (step 0)
        rw [List.length_drop, blocks, Nat.mul_comm]
        rw [show step 0 = 8 from rfl] at *
        omega
      rw [run, ← sweep_eq hf 0 input, eachBlock_of_lt hrest]
  | succ e ih =>
      intro input
      rw [run, ih, sweep_eq hf]

end Run

theorem encrypt_eq (e : Nat) (k : Key) (data : List UInt8) :
    encrypt e k data = eachBlock (encipher k) data :=
  run_eq (fun _ hdvd => XTEA_encrypt_eq k hdvd) e data

theorem decrypt_eq (e : Nat) (k : Key) (data : List UInt8) :
    decrypt e k data = eachBlock (decipher k) data :=
  run_eq (fun _ hdvd => XTEA_decrypt_eq k hdvd) e data

/-- **For every key and all data, deciphering undoes enciphering and enciphering
undoes deciphering, and both are the single-block cipher on each block in order,
whatever the width of the passes.** -/
theorem xtea_exact (e : Nat) (k : Key) (data : List UInt8) :
    decrypt e k (encrypt e k data) = data ∧ encrypt e k (decrypt e k data) = data ∧
      encrypt e k data = eachBlock (encipher k) data ∧
      decrypt e k data = eachBlock (decipher k) data := by
  refine ⟨decrypt_encrypt e k data, ?_, encrypt_eq e k data, decrypt_eq e k data⟩
  rw [decrypt_eq, encrypt_eq]
  exact eachBlock_eachBlock (encipher_decipher k) data

/-! ### The loops -/

section Loops

variable {f : List UInt8 → List UInt8}

/-- `for (auto i = 0u; i < blocks; i += step)`, in place; `none` once the fuel is
used up. -/
def sweepLoop (f : List UInt8 → List UInt8) (step blocks : Nat) :
    Nat → Nat → List UInt8 → Option (List UInt8)
  | 0, _, _ => none
  | fuel + 1, i, input =>
      if i < blocks then
        sweepLoop f step blocks fuel ((i + step) % 4294967296)
          (input.take i ++ (f ((input.drop i).take step) ++ input.drop (i + step)))
      else some input

/-- `XTEA::operator()` with its loops. -/
def runLoops (f : List UInt8 → List UInt8) (fuel : Nat) : Nat → List UInt8 → Option (List UInt8)
  | 0, input => sweepLoop f (step 0) (blocks 0 input.length) fuel 0 input
  | e + 1, input => do
      let done ← sweepLoop f (step (e + 1)) (blocks (e + 1) input.length) fuel 0 input
      let rest ← runLoops f fuel e (done.drop (blocks (e + 1) input.length))
      pure (done.take (blocks (e + 1) input.length) ++ rest)

theorem step_pos (e : Nat) : 0 < step e := Nat.mul_pos (Nat.two_pow_pos e) (by decide)

/-- Where the loop stands: `pre` is done, and `count` calls are to come. -/
theorem sweepLoop_eq {e : Nat} (hf : ∀ data, 8 ∣ data.length → (f data).length = data.length) :
    ∀ (count fuel : Nat) (pre todo : List UInt8), count < fuel →
      count * step e ≤ todo.length → pre.length + count * step e < 4294967296 →
      sweepLoop f (step e) (pre.length + count * step e) fuel pre.length (pre ++ todo)
        = some (pre ++ mapBlocks (step e) f count todo) := by
  intro count
  induction count with
  | zero =>
      intro fuel pre todo hfuel _ _
      obtain ⟨fuel, rfl⟩ := Nat.exists_eq_add_of_lt hfuel
      rw [Nat.zero_add, sweepLoop, if_neg (by omega)]
      rfl
  | succ count ih =>
      intro fuel pre todo hfuel htodo hlt
      cases fuel with
      | zero => omega
      | succ fuel =>
          have hpos := step_pos e
          have hmul : (count + 1) * step e = count * step e + step e := Nat.succ_mul count _
          have htake : (todo.take (step e)).length = step e := by
            rw [List.length_take]
            omega
          have hlen : (f (todo.take (step e))).length = step e := by
            rw [hf _ (by rw [htake]; exact dvd_step e), htake]
          have hpre : (pre ++ f (todo.take (step e))).length = pre.length + step e := by
            rw [List.length_append, hlen]
          have hnext := ih fuel (pre ++ f (todo.take (step e))) (todo.drop (step e)) (by omega)
            (by rw [List.length_drop]; omega) (by rw [hpre]; omega)
          rw [hpre] at hnext
          have hdrop : (pre ++ todo).drop (pre.length + step e) = todo.drop (step e) := by
            rw [← List.drop_drop, List.drop_left]
          have hend : pre.length + (count + 1) * step e = pre.length + step e + count * step e := by
            omega
          rw [sweepLoop, if_pos (by omega), Nat.mod_eq_of_lt (by omega), List.take_left,
            List.drop_left, hdrop, hend, ← List.append_assoc, hnext, mapBlocks,
            List.append_assoc]

/-- A whole pass. -/
theorem sweepLoop_pass {e fuel : Nat}
    (hf : ∀ data, 8 ∣ data.length → (f data).length = data.length) {input : List UInt8}
    (hfuel : input.length < fuel) (hlt : input.length < 4294967296) :
    sweepLoop f (step e) (blocks e input.length) fuel 0 input
      = some (mapBlocks (step e) f (input.length / step e) (input.take (blocks e input.length))
        ++ input.drop (blocks e input.length)) := by
  have hle := blocks_le e input.length
  have hcount := Nat.div_le_self input.length (step e)
  have htake : (input.take (blocks e input.length)).length = input.length / step e * step e := by
    rw [List.length_take, Nat.min_eq_left hle, blocks]
  have hloop := sweepLoop_eq hf (input.length / step e) fuel [] input (by omega) hle
    (by rw [List.length_nil, Nat.zero_add, ← blocks]; omega)
  rw [List.length_nil, Nat.zero_add, ← blocks, List.nil_append, List.nil_append] at hloop
  rw [hloop, ← mapBlocks_append _ _ _ htake, List.take_append_drop]

/-- A counter of thirty-two bits that holds the length reaches the end. -/
theorem runLoops_eq (hf : ∀ data, 8 ∣ data.length → (f data).length = data.length) {fuel : Nat}
    (e : Nat) : ∀ {input : List UInt8}, input.length < fuel → input.length < 4294967296 →
      runLoops f fuel e input = some (run f e input) := by
  induction e with
  | zero =>
      intro input hfuel hlt
      rw [runLoops, sweepLoop_pass hf hfuel hlt, run]
  | succ e ih =>
      intro input hfuel hlt
      have hlen := length_sweep hf (e + 1) input
      have hrest : (input.drop (blocks (e + 1) input.length)).length ≤ input.length := by
        rw [List.length_drop]
        omega
      have hnarrow := ih (Nat.lt_of_le_of_lt hrest hfuel) (Nat.lt_of_le_of_lt hrest hlt)
      rw [runLoops, sweepLoop_pass hf hfuel hlt, Option.bind_eq_bind, Option.bind_some,
        List.drop_left' hlen, hnarrow, Option.bind_some, List.take_left' hlen, run]
      rfl

end Loops

theorem encrypt_loops (k : Key) (e : Nat) {fuel : Nat} {data : List UInt8}
    (hfuel : data.length < fuel) (hlt : data.length < 4294967296) :
    runLoops (XTEA_encrypt k) fuel e data = some (encrypt e k data) :=
  runLoops_eq (fun _ hdvd => length_XTEA_encrypt k hdvd) e hfuel hlt

theorem encrypt_loops_three :
    runLoops (XTEA_encrypt fun _ => 1) 25 1 (List.replicate 24 2) =
      some (encrypt 1 (fun _ => 1) (List.replicate 24 2)) :=
  encrypt_loops (fun _ => 1) 1 (by decide) (by decide)

theorem decrypt_loops (k : Key) (e : Nat) {fuel : Nat} {data : List UInt8}
    (hfuel : data.length < fuel) (hlt : data.length < 4294967296) :
    runLoops (XTEA_decrypt k) fuel e data = some (decrypt e k data) := by
  refine runLoops_eq (fun data hdvd => ?_) e hfuel hlt
  rw [XTEA_decrypt_eq k hdvd, length_eachBlock]

end Infernum.Network.Xtea
