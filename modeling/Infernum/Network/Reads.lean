import Infernum.Network.Frames

/-!
# Reading a message

The read functions of `NetworkMessage`, the cells of the array that each of them
returns, and sequences of them. A read that succeeds ends within `length + 8`
cells, and what it returns are those cells and nothing else. Reading does not
change the length.
-/

namespace Infernum.Network

open Infernum.Lib

namespace NetworkMessage

variable {msg msg' : NetworkMessage}

/-! ### The read functions -/

def getByte (msg : NetworkMessage) : UInt8 × NetworkMessage :=
  if msg.canRead 1 then
    ((msg.buffer.slice msg.position 1).headD 0,
      { msg with position := msgSize (msg.position + 1) })
  else (0, { msg with overrun := true })

/-- The second half of `getString`. -/
def text (msg : NetworkMessage) (stringLen : Nat) : List UInt8 × NetworkMessage :=
  if msg.canRead stringLen then
    (msg.buffer.slice msg.position stringLen,
      { msg with position := msgSize (msg.position + stringLen) })
  else ([], { msg with overrun := true })

def getString (msg : NetworkMessage) (stringLen : Nat) : List UInt8 × NetworkMessage :=
  if stringLen = 0 then (msg.get 2).2.text (msg.get 2).1 else msg.text stringLen

def getPosition (msg : NetworkMessage) : (Nat × Nat × UInt8) × NetworkMessage :=
  let (x, msg) := msg.get 2
  let (y, msg) := msg.get 2
  let (z, msg) := msg.getByte
  ((x, y, z), msg)

/-- `skipBytes`; the position is a `MsgSize_t`. -/
def skipBytes (msg : NetworkMessage) (count : Int) : NetworkMessage :=
  { msg with position := ((msg.position + count) % 65536).toNat }

/-- A call of one of the read functions. -/
inductive Read where
  | byte
  | number (size : Nat)
  | string (stringLen : Nat)
  | position
  | skip (count : Int)

/-- What such a call returns. -/
inductive Answer where
  | byte (value : UInt8)
  | number (value : Nat)
  | string (value : List UInt8)
  | position (x y : Nat) (z : UInt8)
  | nothing
deriving DecidableEq

def read (msg : NetworkMessage) : Read → Answer × NetworkMessage
  | .byte => (.byte msg.getByte.1, msg.getByte.2)
  | .number size => (.number (msg.get size).1, (msg.get size).2)
  | .string stringLen => (.string (msg.getString stringLen).1, (msg.getString stringLen).2)
  | .position =>
      let ((x, y, z), next) := msg.getPosition
      (.position x y z, next)
  | .skip count => (.nothing, msg.skipBytes count)

/-- What a sequence of calls returns. -/
def answers (msg : NetworkMessage) : List Read → List Answer
  | [] => []
  | r :: rs => (msg.read r).1 :: (msg.read r).2.answers rs

/-! ### Where the bytes come from -/

/-- Cells of the array: the first one, and how many. -/
structure Cells where
  start : Nat
  len : Nat
deriving DecidableEq

/-- The cells that `size` bytes are taken from, if the read is not refused. -/
def cells (msg : NetworkMessage) (size : Nat) : List Cells :=
  if msg.canRead size then [⟨msg.position, size⟩] else []

def readCells (msg : NetworkMessage) : Read → List Cells
  | .byte => msg.cells 1
  | .number size => msg.cells size
  | .string stringLen =>
      if stringLen = 0 then msg.cells 2 ++ (msg.get 2).2.cells (msg.get 2).1
      else msg.cells stringLen
  | .position => msg.cells 2 ++ ((msg.get 2).2.cells 2 ++ ((msg.get 2).2.get 2).2.cells 1)
  | .skip _ => []

def allCells (msg : NetworkMessage) : List Read → List Cells
  | [] => []
  | r :: rs => msg.readCells r ++ (msg.read r).2.allCells rs

/-! ### Reads end within the length -/

theorem canRead_iff (msg : NetworkMessage) (size : Nat) :
    msg.canRead size = true ↔
      msg.position + size ≤ msg.length + 8 ∧ size + msg.position < NETWORKMESSAGE_MAXSIZE := by
  rw [canRead, Bool.not_eq_true', Bool.or_eq_false_iff, decide_eq_false_iff_not,
    decide_eq_false_iff_not]
  omega

theorem cells_le {size : Nat} {c : Cells} (h : c ∈ msg.cells size) :
    c.start + c.len ≤ msg.length + 8 := by
  unfold cells at h
  split at h
  · rename_i hcan
    rw [List.mem_singleton.mp h]
    exact ((canRead_iff msg size).mp hcan).1
  · cases h

theorem get_length (msg : NetworkMessage) (size : Nat) : (msg.get size).2.length = msg.length := by
  unfold get
  split <;> rfl

theorem getByte_length (msg : NetworkMessage) : msg.getByte.2.length = msg.length := by
  unfold getByte
  split <;> rfl

theorem text_length (msg : NetworkMessage) (stringLen : Nat) :
    (msg.text stringLen).2.length = msg.length := by
  unfold text
  split <;> rfl

theorem getString_length (msg : NetworkMessage) (stringLen : Nat) :
    (msg.getString stringLen).2.length = msg.length := by
  unfold getString
  split
  · rw [text_length, get_length]
  · exact text_length msg stringLen

theorem read_length (msg : NetworkMessage) (r : Read) : (msg.read r).2.length = msg.length := by
  cases r with
  | byte => exact getByte_length msg
  | number size => exact get_length msg size
  | string stringLen => exact getString_length msg stringLen
  | position => simp only [read, getPosition, getByte_length, get_length]
  | skip count => rfl

/-- One read. -/
theorem readCells_le {r : Read} {c : Cells} (h : c ∈ msg.readCells r) :
    c.start + c.len ≤ msg.length + 8 := by
  have hnext : ∀ {m : NetworkMessage} {size : Nat}, c ∈ m.cells size → m.length = msg.length →
      c.start + c.len ≤ msg.length + 8 := fun hc hlen => hlen ▸ cells_le hc
  cases r with
  | byte => exact cells_le h
  | number size => exact cells_le h
  | string stringLen =>
      rw [readCells] at h
      split at h
      · rcases List.mem_append.mp h with h | h
        · exact cells_le h
        · exact hnext h (get_length msg 2)
      · exact cells_le h
  | position =>
      rw [readCells] at h
      rcases List.mem_append.mp h with h | h
      · exact cells_le h
      · rcases List.mem_append.mp h with h | h
        · exact hnext h (get_length msg 2)
        · exact hnext h ((get_length _ 2).trans (get_length msg 2))
  | skip count => cases h

/-- Any sequence of reads. -/
theorem allCells_le (rs : List Read) :
    ∀ {msg : NetworkMessage} {c : Cells}, c ∈ msg.allCells rs →
      c.start + c.len ≤ msg.length + 8 := by
  induction rs with
  | nil => intro msg c h; cases h
  | cons r rs ih =>
      intro msg c h
      rcases List.mem_append.mp h with h | h
      · exact readCells_le h
      · rw [← read_length msg r]
        exact ih h

/-- Reading byte after byte comes as far as the length lets it. -/
theorem allCells_bytes (n : Nat) :
    ∀ {msg : NetworkMessage}, msg.position + n < msg.length + 8 →
      msg.position + n + 1 < NETWORKMESSAGE_MAXSIZE →
      ⟨msg.position + n, 1⟩ ∈ msg.allCells (List.replicate (n + 1) .byte) := by
  induction n with
  | zero =>
      intro msg hlen hmax
      have hcan : msg.canRead 1 = true := (canRead_iff msg 1).mpr ⟨by omega, by omega⟩
      refine List.mem_append_left _ ?_
      rw [readCells, cells, if_pos hcan]
      exact List.mem_singleton_self _
  | succ n ih =>
      intro msg hlen hmax
      have hcan : msg.canRead 1 = true := (canRead_iff msg 1).mpr ⟨by omega, by omega⟩
      have hnext : msg.getByte.2 = { msg with position := msg.position + 1 } := by
        rw [NETWORKMESSAGE_MAXSIZE_eq] at hmax
        rw [getByte, if_pos hcan, msgSize_of_lt (by omega)]
      have hmem := ih (by simp only; omega : ({ msg with position := msg.position + 1 } :
        NetworkMessage).position + n < _ + 8) (by simp only; omega)
      have hplace : msg.position + 1 + n = msg.position + (n + 1) := by omega
      rw [hplace] at hmem
      rw [List.replicate_succ, allCells, read, hnext]
      exact List.mem_append_right _ hmem

/-! ### Two messages that agree -/

/-- The messages cannot be told apart by their first `limit` cells. -/
structure Agree (limit : Nat) (msg msg' : NetworkMessage) : Prop where
  length : msg.length = msg'.length
  position : msg.position = msg'.position
  cells : ∀ i < limit, msg.buffer.cells[i]? = msg'.buffer.cells[i]?

variable {limit : Nat}

theorem Agree.slice (h : Agree limit msg msg') {start len : Nat} (hle : start + len ≤ limit) :
    msg.buffer.slice start len = msg'.buffer.slice start len := by
  apply List.ext_getElem?
  intro i
  simp only [Region.slice, List.getElem?_take, List.getElem?_drop]
  split
  · exact h.cells _ (by omega)
  · rfl

theorem Agree.canRead (h : Agree limit msg msg') (size : Nat) :
    msg.canRead size = msg'.canRead size := by
  rw [NetworkMessage.canRead, NetworkMessage.canRead, h.length, h.position]

theorem Agree.moved (h : Agree limit msg msg') (position : Nat) :
    Agree limit { msg with position := position } { msg' with position := position } :=
  ⟨h.length, rfl, h.cells⟩

theorem Agree.overrun (h : Agree limit msg msg') :
    Agree limit { msg with overrun := true } { msg' with overrun := true } :=
  ⟨h.length, h.position, h.cells⟩

/-- A read within the limit. -/
theorem Agree.get_of (h : Agree limit msg msg') (size : Nat)
    (hle : msg.canRead size = true → msg.position + size ≤ limit) :
    (msg.get size).1 = (msg'.get size).1 ∧ Agree limit (msg.get size).2 (msg'.get size).2 := by
  unfold NetworkMessage.get
  rw [← h.canRead]
  split
  · rename_i hcan
    simp only [← h.position, h.slice (hle hcan), true_and]
    exact h.moved _
  · exact ⟨rfl, h.overrun⟩

section Reads

variable (hlimit : msg.length + 8 ≤ limit)
include hlimit

theorem Agree.get (h : Agree limit msg msg') (size : Nat) :
    (msg.get size).1 = (msg'.get size).1 ∧ Agree limit (msg.get size).2 (msg'.get size).2 :=
  h.get_of size fun hcan => Nat.le_trans ((canRead_iff msg size).mp hcan).1 hlimit

theorem Agree.getByte (h : Agree limit msg msg') :
    msg.getByte.1 = msg'.getByte.1 ∧ Agree limit msg.getByte.2 msg'.getByte.2 := by
  unfold NetworkMessage.getByte
  rw [← h.canRead]
  split
  · rename_i hcan
    have hle := ((canRead_iff msg 1).mp hcan).1
    simp only [← h.position, h.slice (Nat.le_trans hle hlimit), true_and]
    exact h.moved _
  · exact ⟨rfl, h.overrun⟩

theorem Agree.text (h : Agree limit msg msg') (stringLen : Nat) :
    (msg.text stringLen).1 = (msg'.text stringLen).1 ∧
      Agree limit (msg.text stringLen).2 (msg'.text stringLen).2 := by
  unfold NetworkMessage.text
  rw [← h.canRead]
  split
  · rename_i hcan
    have hle := ((canRead_iff msg stringLen).mp hcan).1
    simp only [← h.position, h.slice (Nat.le_trans hle hlimit), true_and]
    exact h.moved _
  · exact ⟨rfl, h.overrun⟩

theorem Agree.getString (h : Agree limit msg msg') (stringLen : Nat) :
    (msg.getString stringLen).1 = (msg'.getString stringLen).1 ∧
      Agree limit (msg.getString stringLen).2 (msg'.getString stringLen).2 := by
  unfold NetworkMessage.getString
  split
  · obtain ⟨hlen, hnext⟩ := h.get hlimit 2
    rw [← hlen]
    exact hnext.text (by rw [get_length]; exact hlimit) _
  · exact h.text hlimit stringLen

theorem Agree.read (h : Agree limit msg msg') (r : Read) :
    (msg.read r).1 = (msg'.read r).1 ∧ Agree limit (msg.read r).2 (msg'.read r).2 := by
  cases r with
  | byte =>
      obtain ⟨hvalue, hnext⟩ := h.getByte hlimit
      exact ⟨congrArg Answer.byte hvalue, hnext⟩
  | number size =>
      obtain ⟨hvalue, hnext⟩ := h.get hlimit size
      exact ⟨congrArg Answer.number hvalue, hnext⟩
  | string stringLen =>
      obtain ⟨hvalue, hnext⟩ := h.getString hlimit stringLen
      exact ⟨congrArg Answer.string hvalue, hnext⟩
  | position =>
      have hx := h.get hlimit 2
      have hy := hx.2.get (by rw [get_length]; exact hlimit) 2
      have hz := hy.2.getByte (by rw [get_length, get_length]; exact hlimit)
      refine ⟨?_, hz.2⟩
      simp only [NetworkMessage.read, getPosition, hx.1, hy.1, hz.1]
  | skip count =>
      refine ⟨rfl, ?_⟩
      simp only [NetworkMessage.read, skipBytes, h.position]
      exact h.moved _

end Reads

theorem Agree.answers (rs : List Read) :
    ∀ {msg msg' : NetworkMessage}, msg.length + 8 ≤ limit → Agree limit msg msg' →
      msg.answers rs = msg'.answers rs := by
  induction rs with
  | nil => intro msg msg' _ _; rfl
  | cons r rs ih =>
      intro msg msg' hlimit h
      obtain ⟨hvalue, hnext⟩ := h.read hlimit r
      rw [NetworkMessage.answers, NetworkMessage.answers, hvalue,
        ih (by rw [read_length]; exact hlimit) hnext]

end NetworkMessage

end Infernum.Network
