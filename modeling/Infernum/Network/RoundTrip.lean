import Infernum.Network.Lossless
import Infernum.Network.Xtea

/-!
# There and back

What can stand in an output buffer when it is sent: what the write functions put
there, and the messages that were appended to it. A first message is appended
whatever its length; one that joins others only if the whole stays within
`MAX_PROTOCOL_BODY_LENGTH`.

Sending such a buffer and reading the frame gives back the body, for every key
and whatever either machine's width of the cipher, unless the body has 24567
bytes: `addPaddingBytes` then leaves the padding out without a word.
-/

namespace Infernum.Network

open Infernum.Lib

namespace OutputMessage

variable {out out' : OutputMessage}

/-- A write function of the base class. -/
def write (out : OutputMessage) (w : NetworkMessage.Write) : Option OutputMessage := do
  let msg ← out.toNetworkMessage.write w
  pure { msg with outputBufferStart := out.outputBufferStart }

/-- The buffers that can be handed to `send`. -/
inductive Filled : OutputMessage → Prop where
  | new (memory : Buffer) : Filled (getOutputMessage memory)
  | write {out out' : OutputMessage} (w : NetworkMessage.Write) :
      Filled out → out.write w = some out' → Filled out'
  -- `getOutputBuffer` has just taken a new buffer
  | first {out : OutputMessage} (memory : Buffer) (msg : BuiltMessage) :
      (getOutputMessage memory).append msg.msg = some out → Filled out
  -- `getOutputBuffer` has kept the one there was
  | append {out out' : OutputMessage} (msg : BuiltMessage) :
      Filled out → out.length + msg.msg.length ≤ MAX_PROTOCOL_BODY_LENGTH →
      out.append msg.msg = some out' → Filled out'

theorem Plain.write (h : out.Plain) {w : NetworkMessage.Write} (hwrite : out.write w = some out') :
    out'.Plain := by
  have hwithin : out.toNetworkMessage.Within := ⟨h.position, h.room⟩
  obtain ⟨msg, hmsg, hkept⟩ := NetworkMessage.write_spec hwithin w
  rw [OutputMessage.write, hmsg, Option.bind_eq_bind, Option.bind_some, Option.pure_def,
    Option.some.injEq] at hwrite
  subst hwrite
  exact ⟨h.start, hkept.position, hkept.room⟩

theorem Plain.append (h : out.Plain) (msg : BuiltMessage)
    (hfit : INITIAL_BUFFER_POSITION + out.length + msg.msg.length < MAX_BODY_LENGTH)
    (happend : out.append msg.msg = some out') : out'.Plain := by
  obtain ⟨o, ho, hplain, -⟩ := append_spec h msg.msg hfit
  rw [happend, Option.some.injEq] at ho
  rw [ho]
  exact hplain

theorem Filled.plain (h : Filled out) : out.Plain := by
  induction h with
  | new memory => exact plain_getOutputMessage memory
  | write w _ hwrite ih => exact ih.write hwrite
  | first memory msg happend =>
      refine (plain_getOutputMessage memory).append msg ?_ happend
      rw [length_getOutputMessage, Nat.add_zero]
      exact msg.room
  | append msg _ hfit happend ih =>
      refine ih.append msg ?_ happend
      rw [MAX_PROTOCOL_BODY_LENGTH_eq] at hfit
      rw [INITIAL_BUFFER_POSITION_eq, MAX_BODY_LENGTH_eq]
      omega

theorem Filled.length_body_le (h : Filled out) : out.body.length ≤ 24567 := by
  have hplain := h.plain
  have hroom := hplain.room
  rw [hplain.position, INITIAL_BUFFER_POSITION_eq, MAX_BODY_LENGTH_eq] at hroom
  rw [hplain.length_body]
  omega

end OutputMessage

/-- The frame does not tell how wide the passes were. -/
theorem frameOf_width (e e' : Nat) (key : Xtea.Key) (body : List UInt8) :
    frameOf e key body = frameOf e' key body := by
  rw [frameOf, frameOf, Xtea.encrypt_eq, Xtea.encrypt_eq]

/-- The protocol of a game connection once it is under way. -/
def gameProtocol (unset key : Xtea.Key) : Protocol := (Connection.start unset key).protocol

/-- **Whatever has been put into an output buffer, sending it makes a frame, and
the other end reads the body from it exactly if the body does not have 24567
bytes.** -/
theorem round_trip_iff (e e' : Nat) (unset key : Xtea.Key) (msg : NetworkMessage)
    {out : OutputMessage} (h : out.Filled) :
    ∃ sent frame, (gameProtocol unset key).onSendMessage e out = some sent ∧
      sent.buffer.read sent.outputBufferStart sent.length = some frame ∧
      (receive e' key msg frame = some out.body ↔ out.body.length ≠ 24567) := by
  obtain ⟨sent, hsent, hframe⟩ := OutputMessage.onSendMessage_spec e
    (rfl : (gameProtocol unset key).encryptionEnabled = true) rfl rfl h.plain
  refine ⟨sent, _, hsent, hframe, ?_⟩
  have hkey : (gameProtocol unset key).key = key := rfl
  have hle := h.length_body_le
  rw [hkey, frameOf_width e e']
  constructor
  · intro hreceive hlong
    rw [receive_longest e' key msg hlong] at hreceive
    cases hreceive
  · intro hshort
    exact receive_frameOf e' key msg (by omega)

/-- A buffer that has just been taken. -/
theorem round_trip_iff_empty :
    ∃ sent frame,
      (gameProtocol (fun _ => 0) fun _ => 0).onSendMessage 0 (OutputMessage.getOutputMessage clear)
          = some sent ∧
        sent.buffer.read sent.outputBufferStart sent.length = some frame ∧
        (receive 0 (fun _ => 0) (NetworkMessage.new clear) frame
            = some (OutputMessage.getOutputMessage clear).body
          ↔ (OutputMessage.getOutputMessage clear).body.length ≠ 24567) :=
  round_trip_iff 0 0 (fun _ => 0) (fun _ => 0) (NetworkMessage.new clear) (.new clear)

/-- A buffer with one message of 24567 bytes: the frame is sent, and the other
end drops it. -/
theorem longest_body_refused :
    ∃ out : OutputMessage, out.Filled ∧ out.body.length = 24567 ∧
      ∃ sent frame, (gameProtocol (fun _ => 0) fun _ => 0).onSendMessage 0 out = some sent ∧
        sent.buffer.read sent.outputBufferStart sent.length = some frame ∧
        receive 0 (fun _ => 0) (NetworkMessage.new clear) frame = none := by
  obtain ⟨msg, -, hwithin, hlength⟩ := build_longest
  have hplain := OutputMessage.plain_getOutputMessage clear
  obtain ⟨out, happend, -, hbody, -⟩ := OutputMessage.append_spec hplain hwithin.built.msg (by
    rw [OutputMessage.length_getOutputMessage, Nat.add_zero]
    exact hwithin.built.room)
  have hfilled : out.Filled := .first clear hwithin.built happend
  have hlong : out.body.length = 24567 := by
    rw [hbody, OutputMessage.body_getOutputMessage, List.nil_append, hwithin.built.length_body]
    exact hlength
  obtain ⟨sent, hsent, hframe⟩ := OutputMessage.onSendMessage_spec 0
    (rfl : (gameProtocol (fun _ => 0) fun _ => 0).encryptionEnabled = true) rfl rfl hfilled.plain
  exact ⟨out, hfilled, hlong, sent, _, hsent, hframe,
    receive_longest 0 (fun _ => 0) (NetworkMessage.new clear) hlong⟩

end Infernum.Network
