import Infernum.Network.NetworkMessage
import Infernum.Network.Xtea

/-!
# Outgoing messages

`OutputMessage`: a message whose headers are written in front of it, into the
room that every message keeps, when it is sent. `append` copies a whole message
behind what is there and does not ask for room; `add_header` asserts it.

Sending puts a length in front, pads the message to a multiple of eight bytes,
enciphers it in place and puts a checksum and a second length in front.
-/

namespace Infernum.Network

open Infernum.Lib

/-! ### Checksum -/

/-- The inner loop of `adlerChecksum`. -/
def adlerChunk (data : List UInt8) (a b : UInt32) : UInt32 × UInt32 :=
  data.foldl (fun s byte => (s.1 + byte.toUInt32, s.2 + (s.1 + byte.toUInt32))) (a, b)

/-- The outer loop: 5552 bytes between two reductions. -/
def adlerLoop (data : List UInt8) (a b : UInt32) : UInt32 × UInt32 :=
  if data.isEmpty then (a, b)
  else
    let s := adlerChunk (data.take 5552) a b
    adlerLoop (data.drop 5552) (s.1 % 65521) (s.2 % 65521)
termination_by data.length
decreasing_by
  rename_i h
  have hpos : 0 < data.length := List.length_pos_iff.mpr (fun hnil => h (by rw [hnil]; rfl))
  rw [List.length_drop]
  omega

def adlerChecksum (data : List UInt8) : UInt32 :=
  if data.length > NETWORKMESSAGE_MAXSIZE then 0
  else
    let s := adlerLoop data 1 0
    s.2 <<< 16 ||| s.1

/-! ### The message -/

structure OutputMessage extends NetworkMessage where
  outputBufferStart : Nat

namespace OutputMessage

variable {out out' : OutputMessage}

/-- `OutputMessagePool::getOutputMessage`: a new message in whatever memory the
pool hands out. -/
def getOutputMessage (memory : Buffer) : OutputMessage :=
  { NetworkMessage.new memory with outputBufferStart := INITIAL_BUFFER_POSITION }

/-- What goes on the wire: `getLength()` bytes from `getOutputBuffer()` on. -/
def frame (out : OutputMessage) : List UInt8 := out.buffer.slice out.outputBufferStart out.length

def append (out : OutputMessage) (msg : NetworkMessage) : Option OutputMessage := do
  let data ← msg.buffer.read 8 msg.length
  let buffer ← out.buffer.write out.position data
  pure
    { out with
      buffer := buffer
      length := msgSize (out.length + msg.length)
      position := msgSize (out.position + msg.length) }

/-- `add_header<T>`, for a number of `size` bytes. -/
def add_header (out : OutputMessage) (size value : Nat) : Option OutputMessage :=
  -- assert(outputBufferStart >= sizeof(T))
  if out.outputBufferStart < size then none
  else do
    let buffer ← out.buffer.write (out.outputBufferStart - size) (encodeLE size value)
    pure
      { out with
        outputBufferStart := out.outputBufferStart - size
        buffer := buffer
        length := msgSize (out.length + size) }

def writeMessageLength (out : OutputMessage) : Option OutputMessage := out.add_header 2 out.length

def addCryptoHeader (out : OutputMessage) (addChecksum : Bool) : Option OutputMessage := do
  let out ←
    if addChecksum then do
      let data ← out.buffer.read out.outputBufferStart out.length
      out.add_header 4 (adlerChecksum data).toNat
    else some out
  out.writeMessageLength

/-- `addPaddingBytes` of the base class. -/
def addPaddingBytes (out : OutputMessage) (n : Nat) : Option OutputMessage := do
  let msg ← out.toNetworkMessage.addPaddingBytes n
  pure { msg with outputBufferStart := out.outputBufferStart }

/-- `Protocol::XTEA_encrypt` -/
def XTEA_encrypt (e : Nat) (key : Xtea.Key) (out : OutputMessage) : Option OutputMessage := do
  -- The message must be a multiple of 8
  let paddingBytes := out.length % 8
  let out ← (if paddingBytes ≠ 0 then out.addPaddingBytes (8 - paddingBytes) else some out)
  let data ← out.buffer.read out.outputBufferStart out.length
  let buffer ← out.buffer.write out.outputBufferStart (Xtea.encrypt e key data)
  pure { out with buffer := buffer }

/-! ### What each operation does to the frame -/

/-- Nothing of the headers is written yet. -/
structure Plain (out : OutputMessage) : Prop where
  start : out.outputBufferStart = INITIAL_BUFFER_POSITION
  position : out.position = INITIAL_BUFFER_POSITION + out.length
  room : out.position < MAX_BODY_LENGTH

theorem plain_getOutputMessage (memory : Buffer) : (getOutputMessage memory).Plain := by
  refine ⟨rfl, rfl, ?_⟩
  simp only [getOutputMessage, NetworkMessage.new, INITIAL_BUFFER_POSITION_eq, MAX_BODY_LENGTH_eq]
  omega

@[simp] theorem length_getOutputMessage (memory : Buffer) :
    (getOutputMessage memory).length = 0 := rfl

@[simp] theorem body_getOutputMessage (memory : Buffer) : (getOutputMessage memory).body = [] :=
  Region.slice_zero _ _

theorem Plain.length_body (h : out.Plain) : out.body.length = out.length := by
  have hpos := h.position
  have hroom := h.room
  rw [MAX_BODY_LENGTH_eq] at hroom
  exact Region.length_slice (by rw [NETWORKMESSAGE_MAXSIZE_eq]; omega)

/-- An append that stays below the limit is lossless. -/
theorem append_spec (h : out.Plain) (msg : NetworkMessage)
    (hfit : INITIAL_BUFFER_POSITION + out.length + msg.length < MAX_BODY_LENGTH) :
    ∃ out', out.append msg = some out' ∧ out'.Plain ∧ out'.body = out.body ++ msg.body ∧
      out'.length = out.length + msg.length := by
  have hpos := h.position
  rw [INITIAL_BUFFER_POSITION_eq] at hpos hfit
  rw [MAX_BODY_LENGTH_eq] at hfit
  have hread : msg.buffer.read 8 msg.length = some msg.body :=
    Region.read_of_le (by rw [NETWORKMESSAGE_MAXSIZE_eq]; omega)
  have hbody : msg.body.length = msg.length := Region.length_slice (by
    rw [NETWORKMESSAGE_MAXSIZE_eq, INITIAL_BUFFER_POSITION_eq]
    omega)
  obtain ⟨buffer, hwrite, -⟩ := Region.write_of_le out.buffer out.position msg.body (by rw [hbody, NETWORKMESSAGE_MAXSIZE_eq]; omega)
  have hlen : msgSize (out.length + msg.length) = out.length + msg.length :=
    msgSize_of_lt (by omega)
  have hpos' : msgSize (out.position + msg.length) = out.position + msg.length :=
    msgSize_of_lt (by omega)
  have happend : out.append msg = some
      { out with
        buffer := buffer
        length := msgSize (out.length + msg.length)
        position := msgSize (out.position + msg.length) } := by
    rw [append, hread, Option.bind_eq_bind, Option.bind_some, hwrite]
    rfl
  refine ⟨_, happend, ⟨h.start, ?_, ?_⟩, ?_, hlen⟩
  · simp only [hlen, hpos', INITIAL_BUFFER_POSITION_eq]
    omega
  · simp only [hpos', MAX_BODY_LENGTH_eq]
    omega
  · simp only [NetworkMessage.body, hlen]
    rw [h.position] at hwrite
    have hslice := Region.slice_write_behind hwrite
    rw [hbody] at hslice
    exact hslice

/-- A header goes in front of the frame. -/
theorem add_header_spec (out : OutputMessage) (size value : Nat) (hstart : size ≤ out.outputBufferStart)
    (hend : out.outputBufferStart + out.length ≤ NETWORKMESSAGE_MAXSIZE) :
    ∃ out', out.add_header size value = some out' ∧
      out'.outputBufferStart = out.outputBufferStart - size ∧
      out'.length = out.length + size ∧ out'.position = out.position ∧
      out'.frame = encodeLE size value ++ out.frame := by
  rw [NETWORKMESSAGE_MAXSIZE_eq] at hend
  obtain ⟨buffer, hwrite, -⟩ := Region.write_of_le out.buffer
    (out.outputBufferStart - size) (encodeLE size value)
    (by rw [length_encodeLE, NETWORKMESSAGE_MAXSIZE_eq]; omega)
  have hlen : msgSize (out.length + size) = out.length + size := msgSize_of_lt (by omega)
  have hheader : out.add_header size value = some
      { out with
        outputBufferStart := out.outputBufferStart - size
        buffer := buffer
        length := msgSize (out.length + size) } := by
    rw [add_header, if_neg (by omega), hwrite]
    rfl
  refine ⟨_, hheader, rfl, hlen, rfl, ?_⟩
  have hslice := Region.slice_write_front hwrite out.length
  rw [length_encodeLE, Nat.sub_add_cancel hstart] at hslice
  simp only [frame, hlen]
  rw [Nat.add_comm, hslice]

/-- Padding that finds room goes behind the frame. -/
theorem addPaddingBytes_spec {n : Nat} (hpos : out.position = out.outputBufferStart + out.length)
    (hroom : n + out.position < MAX_BODY_LENGTH) :
    ∃ out', out.addPaddingBytes n = some out' ∧
      out'.outputBufferStart = out.outputBufferStart ∧ out'.length = out.length + n ∧
      out'.frame = out.frame ++ List.replicate n 0x33 := by
  have hcan : out.canAdd n = true := decide_eq_true hroom
  rw [MAX_BODY_LENGTH_eq] at hroom
  obtain ⟨buffer, hwrite, -⟩ := Region.write_of_le out.buffer out.position
    (List.replicate n 0x33)
    (by rw [List.length_replicate, NETWORKMESSAGE_MAXSIZE_eq]; omega)
  have hlen : msgSize (out.length + n) = out.length + n := msgSize_of_lt (by omega)
  have hpad : out.addPaddingBytes n = some
      { out with
        buffer := buffer
        length := msgSize (out.length + n) } := by
    rw [addPaddingBytes, NetworkMessage.addPaddingBytes, if_pos hcan, hwrite]
    rfl
  refine ⟨_, hpad, rfl, hlen, ?_⟩
  rw [hpos] at hwrite
  have hslice := Region.slice_write_behind hwrite
  rw [List.length_replicate] at hslice
  simp only [frame, hlen]
  exact hslice

/-- Padding that finds none is left out, without a word. -/
theorem addPaddingBytes_refused {n : Nat} (hroom : MAX_BODY_LENGTH ≤ n + out.position) :
    out.addPaddingBytes n = some out := by
  have hcan : ¬out.canAdd n = true := fun h => absurd (of_decide_eq_true h) (by omega)
  rw [addPaddingBytes, NetworkMessage.addPaddingBytes, if_neg hcan]
  rfl

end OutputMessage

end Infernum.Network

/-!
## Sending

What a protocol writes goes to its output buffer until the next message would
not fit or the pool sends all buffers. The connection keeps a queue of buffers
and writes them to the socket one at a time; the headers are put on when the
buffer's turn has come. Frames appear on the wire in the order of those turns.

The connection stays open here. A step without a result is one that would have
written outside an array or failed an assertion.
-/

namespace Infernum.Network

open Infernum.Lib

/-! ### The protocol -/

structure Protocol where
  outputBuffer : Option OutputMessage
  key : Xtea.Key
  encryptionEnabled : Bool
  checksumEnabled : Bool
  rawMessages : Bool

namespace Protocol

/-- A new protocol; the key is not initialised. -/
def new (key : Xtea.Key) : Protocol :=
  { outputBuffer := none, key := key, encryptionEnabled := false, checksumEnabled := true,
    rawMessages := false }

def enableXTEAEncryption (p : Protocol) : Protocol := { p with encryptionEnabled := true }

def setXTEAKey (p : Protocol) (key : Xtea.Key) : Protocol := { p with key := key }

def onSendMessage (e : Nat) (p : Protocol) (msg : OutputMessage) : Option OutputMessage :=
  if !p.rawMessages then do
    let msg ← msg.writeMessageLength
    if p.encryptionEnabled then do
      let msg ← msg.XTEA_encrypt e p.key
      msg.addCryptoHeader p.checksumEnabled
    else some msg
  else some msg

end Protocol

/-! ### The connection -/

structure Connection where
  protocol : Protocol
  messageQueue : List OutputMessage
  /-- what the socket has been given, a frame for each write -/
  wire : List (List UInt8)

namespace Connection

/-- `internalSend` of the message at the front of the queue. -/
def internalSend (e : Nat) (c : Connection) : Option Connection :=
  match c.messageQueue with
  | [] => some c
  | msg :: rest => do
      let msg ← c.protocol.onSendMessage e msg
      let frame ← msg.buffer.read msg.outputBufferStart msg.length
      pure { c with messageQueue := msg :: rest, wire := c.wire ++ [frame] }

def send (e : Nat) (c : Connection) (msg : OutputMessage) : Option Connection :=
  let noPendingWrite := c.messageQueue.isEmpty
  let c := { c with messageQueue := c.messageQueue ++ [msg] }
  if noPendingWrite then c.internalSend e else some c

/-- The socket has taken a message; the handler only runs for a message that is
being written. -/
def onWriteOperation (e : Nat) (c : Connection) : Option Connection :=
  match c.messageQueue with
  | [] => some c
  | _ :: rest =>
      let c := { c with messageQueue := rest }
      if rest.isEmpty then some c else c.internalSend e

def setOutputBuffer (c : Connection) (out : Option OutputMessage) : Connection :=
  { c with protocol := { c.protocol with outputBuffer := out } }

/-- `Protocol::getOutputBuffer`; `memory` is what the pool would hand out. -/
def getOutputBuffer (e : Nat) (c : Connection) (size : Nat) (memory : Buffer) :
    Option (OutputMessage × Connection) :=
  match c.protocol.outputBuffer with
  | none => some (OutputMessage.getOutputMessage memory, c)
  | some out =>
      if out.length + size > MAX_PROTOCOL_BODY_LENGTH then do
        let c ← c.send e out
        pure (OutputMessage.getOutputMessage memory, c)
      else some (out, c)

def writeToOutputBuffer (e : Nat) (c : Connection) (msg : NetworkMessage) (memory : Buffer) :
    Option Connection := do
  let (out, c) ← c.getOutputBuffer e msg.length memory
  let out ← out.append msg
  pure (c.setOutputBuffer (some out))

/-- The pool's `sendAll`, for the buffer of this protocol. -/
def sendAll (e : Nat) (c : Connection) : Option Connection :=
  match c.protocol.outputBuffer with
  | none => some c
  | some out => (c.setOutputBuffer none).send e out

/-! ### Runs -/

inductive Event where
  | write (msg : BuiltMessage) (memory : Buffer)
  | sendAll
  | onWriteOperation

def step (e : Nat) (c : Connection) : Event → Option Connection
  | .write msg memory => c.writeToOutputBuffer e msg.msg memory
  | .sendAll => c.sendAll e
  | .onWriteOperation => c.onWriteOperation e

def run (e : Nat) (c : Connection) : List Event → Option Connection
  | [] => some c
  | ev :: evs => do
      let c ← c.step e ev
      c.run e evs

/-- The game protocol before it writes its first message: the key has been read
and encryption is on. -/
def start (unset key : Xtea.Key) : Connection :=
  { protocol := ((Protocol.new unset).enableXTEAEncryption).setXTEAKey key
    messageQueue := []
    wire := [] }

end Connection

/-- The messages that a run writes. -/
def written : List Connection.Event → List BuiltMessage
  | [] => []
  | .write msg _ :: evs => msg :: written evs
  | _ :: evs => written evs

end Infernum.Network
