import Infernum.Lib.ByteCodec
import Infernum.Lib.Region

/-!
# Messages of the connection

`NetworkMessage`: an array of a fixed size with a reading and writing position
and a length. The first eight bytes are kept free for the headers that sending
puts in front. A write function that finds no room leaves the message as it
is; a copy that would leave the array is not one the language gives a meaning
to, and has no result here.
-/

namespace Infernum.Network

open Infernum.Lib

/-! ### Sizes -/

def NETWORKMESSAGE_MAXSIZE : Nat := 24590
def INITIAL_BUFFER_POSITION : Nat := 8
def HEADER_LENGTH : Nat := 2
def CHECKSUM_LENGTH : Nat := 4
def XTEA_MULTIPLE : Nat := 8

def MAX_BODY_LENGTH : Nat :=
  NETWORKMESSAGE_MAXSIZE - HEADER_LENGTH - CHECKSUM_LENGTH - XTEA_MULTIPLE

def MAX_PROTOCOL_BODY_LENGTH : Nat := MAX_BODY_LENGTH - 10

theorem NETWORKMESSAGE_MAXSIZE_eq : NETWORKMESSAGE_MAXSIZE = 24590 := rfl
theorem INITIAL_BUFFER_POSITION_eq : INITIAL_BUFFER_POSITION = 8 := rfl
theorem MAX_BODY_LENGTH_eq : MAX_BODY_LENGTH = 24576 := rfl
theorem MAX_PROTOCOL_BODY_LENGTH_eq : MAX_PROTOCOL_BODY_LENGTH = 24566 := rfl

/-- Assignment to a `MsgSize_t`, which is a `uint16_t`. -/
def msgSize (n : Nat) : Nat := n % 65536

theorem msgSize_of_lt {n : Nat} (h : n < 65536) : msgSize n = n := Nat.mod_eq_of_lt h

/-- `uint8_t buffer[NETWORKMESSAGE_MAXSIZE]` -/
abbrev Buffer := Region UInt8 NETWORKMESSAGE_MAXSIZE

theorem length_cells_clear :
    (List.replicate NETWORKMESSAGE_MAXSIZE (0 : UInt8)).length = NETWORKMESSAGE_MAXSIZE :=
  List.length_replicate

/-! ### The message -/

/-- `NetworkMessage`, with the fields of its `info`. -/
structure NetworkMessage where
  length : Nat
  position : Nat
  overrun : Bool
  buffer : Buffer

namespace NetworkMessage

variable {msg msg' : NetworkMessage}

/-- `NetworkMessage()`: the array is not initialised. -/
def new (memory : Buffer) : NetworkMessage :=
  { length := 0, position := INITIAL_BUFFER_POSITION, overrun := false, buffer := memory }

/-- What the message holds behind the room for the headers. -/
def body (msg : NetworkMessage) : List UInt8 :=
  msg.buffer.slice INITIAL_BUFFER_POSITION msg.length

def canAdd (msg : NetworkMessage) (size : Nat) : Bool := size + msg.position < MAX_BODY_LENGTH

/-- `memcpy` to the position, and both counters moved on. -/
def put (msg : NetworkMessage) (data : List UInt8) : Option NetworkMessage := do
  let buffer ← msg.buffer.write msg.position data
  pure
    { msg with
      buffer := buffer
      position := msgSize (msg.position + data.length)
      length := msgSize (msg.length + data.length) }

def addByte (msg : NetworkMessage) (value : UInt8) : Option NetworkMessage :=
  if msg.canAdd 1 then msg.put [value] else some msg

/-- `add<T>`, for a number of `size` bytes. -/
def add (msg : NetworkMessage) (size value : Nat) : Option NetworkMessage :=
  if msg.canAdd size then msg.put (encodeLE size value) else some msg

def addBytes (msg : NetworkMessage) (bytes : List UInt8) : Option NetworkMessage :=
  if !msg.canAdd bytes.length || bytes.length > 8192 then some msg else msg.put bytes

def addString (msg : NetworkMessage) (value : List UInt8) : Option NetworkMessage :=
  if !msg.canAdd (value.length + 2) || value.length > 8192 then some msg
  else do
    let msg ← msg.add 2 value.length
    msg.put value

/-- The padding goes behind the message without moving the position. -/
def addPaddingBytes (msg : NetworkMessage) (n : Nat) : Option NetworkMessage :=
  if msg.canAdd n then do
    let buffer ← msg.buffer.write msg.position (List.replicate n 0x33)
    pure { msg with buffer := buffer, length := msgSize (msg.length + n) }
  else some msg

/-- A call of one of the write functions. -/
inductive Write where
  | byte (value : UInt8)
  | number (size value : Nat)
  | bytes (bytes : List UInt8)
  | string (value : List UInt8)

def write (msg : NetworkMessage) : Write → Option NetworkMessage
  | .byte value => msg.addByte value
  | .number size value => msg.add size value
  | .bytes bytes => msg.addBytes bytes
  | .string value => msg.addString value

/-- The message after some calls. -/
def build (msg : NetworkMessage) : List Write → Option NetworkMessage
  | [] => some msg
  | w :: ws => do
      let msg ← msg.write w
      msg.build ws

/-! ### The size limit -/

/-- What the write functions keep: the position is right behind the message,
and in front of `MAX_BODY_LENGTH`. -/
structure Within (msg : NetworkMessage) : Prop where
  position : msg.position = INITIAL_BUFFER_POSITION + msg.length
  room : msg.position < MAX_BODY_LENGTH

theorem Within.length_lt (h : msg.Within) :
    INITIAL_BUFFER_POSITION + msg.length < MAX_BODY_LENGTH := h.position ▸ h.room

theorem within_new (memory : Buffer) : (new memory).Within := by
  constructor
  · rfl
  · simp only [new, INITIAL_BUFFER_POSITION_eq, MAX_BODY_LENGTH_eq]
    omega

/-- What fits is copied behind the body. -/
theorem put_spec (h : msg.Within) (data : List UInt8)
    (hfit : data.length + msg.position < MAX_BODY_LENGTH) :
    ∃ msg', msg.put data = some msg' ∧ msg'.Within ∧ msg'.body = msg.body ++ data ∧
      msg'.length = msg.length + data.length := by
  have hpos := h.position
  simp only [INITIAL_BUFFER_POSITION_eq] at hpos
  rw [MAX_BODY_LENGTH_eq] at hfit
  obtain ⟨buffer, hwrite, -⟩ := Region.write_of_le msg.buffer msg.position data (by rw [NETWORKMESSAGE_MAXSIZE_eq]; omega)
  have hlen : msgSize (msg.length + data.length) = msg.length + data.length :=
    msgSize_of_lt (by omega)
  have hpos' : msgSize (msg.position + data.length) = msg.position + data.length :=
    msgSize_of_lt (by omega)
  refine ⟨_, by rw [put, hwrite]; rfl, ⟨?_, ?_⟩, ?_, hlen⟩
  · simp only [hlen, hpos', INITIAL_BUFFER_POSITION_eq]
    omega
  · simp only [hpos', MAX_BODY_LENGTH_eq]
    omega
  · simp only [body, hlen]
    rw [h.position] at hwrite
    exact Region.slice_write_behind hwrite

theorem addByte_spec (h : msg.Within) (value : UInt8)
    (hfit : msg.length + 9 < MAX_BODY_LENGTH) :
    ∃ msg', msg.addByte value = some msg' ∧ msg'.Within ∧ msg'.length = msg.length + 1 := by
  have hpos := h.position
  rw [INITIAL_BUFFER_POSITION_eq] at hpos
  have hcan : [value].length + msg.position < MAX_BODY_LENGTH := by
    rw [List.length_singleton]
    omega
  have hone : msg.canAdd 1 = true := decide_eq_true hcan
  obtain ⟨msg', hput, hwithin, -, hlen⟩ := put_spec h [value] hcan
  exact ⟨msg', by rw [addByte, if_pos hone, hput], hwithin, hlen⟩

/-- Every call of a write function has a result, which keeps to the limit. -/
theorem write_spec (h : msg.Within) (w : Write) :
    ∃ msg', msg.write w = some msg' ∧ msg'.Within := by
  have hput : ∀ (m : NetworkMessage) (data : List UInt8), m.Within →
      m.canAdd data.length = true → ∃ m', m.put data = some m' ∧ m'.Within := by
    intro m data hm hcan
    obtain ⟨m', hm', hwithin, -⟩ := put_spec hm data (of_decide_eq_true hcan)
    exact ⟨m', hm', hwithin⟩
  cases w with
  | byte value =>
      rw [write, addByte]
      split
      · rename_i hcan
        exact hput msg [value] h hcan
      · exact ⟨msg, rfl, h⟩
  | number size value =>
      rw [write, add]
      split
      · rename_i hcan
        exact hput msg _ h (by rw [length_encodeLE]; exact hcan)
      · exact ⟨msg, rfl, h⟩
  | bytes bytes =>
      rw [write, addBytes]
      split
      · exact ⟨msg, rfl, h⟩
      · rename_i hcan
        simp only [Bool.or_eq_true, Bool.not_eq_true', not_or, Bool.not_eq_false] at hcan
        exact hput msg bytes h hcan.1
  | string value =>
      rw [write, addString]
      split
      · exact ⟨msg, rfl, h⟩
      · rename_i hcan
        simp only [Bool.or_eq_true, Bool.not_eq_true', not_or, Bool.not_eq_false] at hcan
        have hroom : value.length + 2 + msg.position < MAX_BODY_LENGTH := of_decide_eq_true hcan.1
        have htwo : msg.canAdd 2 = true := decide_eq_true (by omega)
        obtain ⟨m, hm, hwithin, -, hlen⟩ := put_spec h (encodeLE 2 value.length)
          (by rw [length_encodeLE]; omega)
        rw [length_encodeLE] at hlen
        rw [add, if_pos htwo, hm]
        refine hput m value hwithin (decide_eq_true ?_)
        have hpos := h.position
        have hpos' := hwithin.position
        omega

theorem build_spec (ws : List Write) :
    ∀ {msg : NetworkMessage}, msg.Within → ∃ msg', msg.build ws = some msg' ∧ msg'.Within := by
  induction ws with
  | nil => exact fun h => ⟨_, rfl, h⟩
  | cons w ws ih =>
      intro msg h
      obtain ⟨m, hm, hwithin⟩ := write_spec h w
      obtain ⟨m', hm', hwithin'⟩ := ih hwithin
      exact ⟨m', by rw [build, hm]; exact hm', hwithin'⟩

/-- A message of any length within the limit can be built, a byte at a time. -/
theorem build_bytes (value : UInt8) (n : Nat) :
    ∀ {msg : NetworkMessage}, msg.Within → msg.length + n + 8 < MAX_BODY_LENGTH →
      ∃ msg', msg.build (List.replicate n (.byte value)) = some msg' ∧ msg'.Within ∧
        msg'.length = msg.length + n := by
  induction n with
  | zero => exact fun h _ => ⟨_, rfl, h, rfl⟩
  | succ n ih =>
      intro msg h hroom
      obtain ⟨m, hm, hwithin, hlen⟩ := addByte_spec h value (by omega)
      obtain ⟨m', hm', hwithin', hlen'⟩ := ih hwithin (by omega)
      refine ⟨m', ?_, hwithin', by omega⟩
      rw [List.replicate_succ, build, write, hm]
      exact hm'

/-! ### Reading -/

/-- `canRead`; a refusal is remembered. -/
def canRead (msg : NetworkMessage) (size : Nat) : Bool :=
  !(decide (msg.length + 8 < msg.position + size)
    || decide (NETWORKMESSAGE_MAXSIZE ≤ size + msg.position))

/-- `get<T>`, for a number of `size` bytes. -/
def get (msg : NetworkMessage) (size : Nat) : Nat × NetworkMessage :=
  if msg.canRead size then
    (decodeLE (msg.buffer.slice msg.position size),
      { msg with position := msgSize (msg.position + size) })
  else (0, { msg with overrun := true })

theorem get_eq (msg : NetworkMessage) (size v : Nat) (hlen : msg.position + size ≤ msg.length + 8)
    (hmax : size + msg.position < NETWORKMESSAGE_MAXSIZE)
    (h : msg.buffer.slice msg.position size = encodeLE size v) (hv : v < 256 ^ size) :
    msg.get size = (v, { msg with position := msg.position + size }) := by
  have hcan : msg.canRead size = true := by
    rw [canRead, Bool.not_eq_true', Bool.or_eq_false_iff]
    exact ⟨decide_eq_false (by omega), decide_eq_false (by omega)⟩
  rw [NETWORKMESSAGE_MAXSIZE_eq] at hmax
  rw [get, if_pos hcan, h, decodeLE_encodeLE, Nat.mod_eq_of_lt hv, msgSize_of_lt (by omega)]

end NetworkMessage

/-- A message whose length is within the limit of the write functions, wherever
its position has been left. -/
structure BuiltMessage where
  msg : NetworkMessage
  room : INITIAL_BUFFER_POSITION + msg.length < MAX_BODY_LENGTH

/-- What the write functions make of a new message. -/
def NetworkMessage.Within.built {msg : NetworkMessage} (h : msg.Within) : BuiltMessage :=
  { msg := msg, room := h.length_lt }

end Infernum.Network
