import Infernum.Network.OutputMessage

/-!
# Frames

What a buffer looks like on the wire, and what the other end makes of it. The
other end reads as this code reads: `parseHeader` and `parsePacket` of the
connection, then `XTEA_decrypt` of the protocol.

A frame gives back the body it was made of, for every body but one of 24567
bytes, the longest that a message can have. There the padding would begin so
far behind that `addPaddingBytes` refuses it, the enciphered part is not a
multiple of eight bytes, and the other end drops the frame.
-/

namespace Infernum.Network

open Infernum.Lib

/-! ### Receiving -/

/-- `parseHeader`, and the reads before and after it: two bytes with the size of
the rest, and the rest behind them. -/
def parseHeader (msg : NetworkMessage) (frame : List UInt8) : Option NetworkMessage := do
  let buffer ← msg.buffer.write 0 (frame.take 2)
  let size := decodeLE (buffer.slice 0 2)
  if size = 0 ∨ size ≥ NETWORKMESSAGE_MAXSIZE - 16 ∨ (frame.drop 2).length ≠ size then none
  else do
    let buffer ← buffer.write 2 (frame.drop 2)
    pure { msg with buffer := buffer, length := msgSize (size + HEADER_LENGTH), position := 2 }

/-- `parsePacket` of the connection, up to the call of the protocol: the checksum
is stepped over if it is one. -/
def parsePacket (msg : NetworkMessage) : NetworkMessage :=
  let len := msg.length - msg.position - CHECKSUM_LENGTH
  let checksum :=
    if len > 0 then adlerChecksum (msg.buffer.slice (msg.position + CHECKSUM_LENGTH) len) else 0
  let (recvChecksum, next) := msg.get 4
  if recvChecksum ≠ checksum.toNat then
    { next with position := next.position - CHECKSUM_LENGTH }
  else next

/-- `Protocol::XTEA_decrypt`; no result is `false`. -/
def XTEA_decrypt (e : Nat) (key : Xtea.Key) (msg : NetworkMessage) : Option NetworkMessage :=
  if ((msg.length : Int) - 6) % 8 ≠ 0 then none
  else do
    let data ← msg.buffer.read msg.position (msg.length - 6)
    let buffer ← msg.buffer.write msg.position (Xtea.decrypt e key data)
    let (innerLength, msg) := { msg with buffer := buffer }.get 2
    if innerLength + 8 > msg.length then none
    else some { msg with length := innerLength }

/-- The body that a frame brings to the protocol at the other end, which has read
other frames into `msg` before. -/
def receive (e : Nat) (key : Xtea.Key) (msg : NetworkMessage) (frame : List UInt8) :
    Option (List UInt8) := do
  let msg ← parseHeader msg frame
  let msg ← XTEA_decrypt e key (parsePacket msg)
  pure (msg.buffer.slice msg.position msg.length)

/-! ### The frame of a body -/

/-- What is put behind a body of some length: the two bytes of its length and the
padding make it a multiple of eight, unless the padding is refused. -/
def padding (length : Nat) : List UInt8 :=
  if (length + 2) % 8 ≠ 0 ∧
      8 - (length + 2) % 8 + (INITIAL_BUFFER_POSITION + length) < MAX_BODY_LENGTH then
    List.replicate (8 - (length + 2) % 8) 0x33
  else []

/-- What is enciphered. -/
def plaintext (body : List UInt8) : List UInt8 :=
  encodeLE 2 body.length ++ body ++ padding body.length

/-- The headers around the enciphered part. -/
def wrap (cipher : List UInt8) : List UInt8 :=
  encodeLE 2 (cipher.length + 4) ++ (encodeLE 4 (adlerChecksum cipher).toNat ++ cipher)

def frameOf (e : Nat) (key : Xtea.Key) (body : List UInt8) : List UInt8 :=
  wrap (Xtea.encrypt e key (plaintext body))

theorem length_padding_le (length : Nat) : (padding length).length ≤ 7 := by
  unfold padding
  split
  · rename_i h
    rw [List.length_replicate]
    omega
  · exact Nat.zero_le 7

theorem length_plaintext (body : List UInt8) :
    (plaintext body).length = body.length + 2 + (padding body.length).length := by
  rw [plaintext, List.length_append, List.length_append, length_encodeLE]
  omega

/-- The padding is refused for the longest body only. -/
theorem plaintext_mod {body : List UInt8} (hlen : body.length ≤ 24567) :
    (plaintext body).length % 8 = 0 ↔ body.length ≠ 24567 := by
  rw [length_plaintext, padding, INITIAL_BUFFER_POSITION_eq, MAX_BODY_LENGTH_eq]
  split
  · rename_i h
    rw [List.length_replicate]
    omega
  · rename_i h
    rw [List.length_nil]
    omega

namespace OutputMessage

variable {out : OutputMessage}

/-- The frame of a message with nothing but its length in front, padded and
enciphered. -/
theorem XTEA_encrypt_spec (e : Nat) (key : Xtea.Key) (length : Nat) {inner : List UInt8}
    (hstart : out.outputBufferStart = 6) (hlength : out.length = length + 2)
    (hposition : out.position = INITIAL_BUFFER_POSITION + length)
    (hroom : out.position < MAX_BODY_LENGTH) (hframe : out.frame = inner) :
    ∃ out', out.XTEA_encrypt e key = some out' ∧ out'.outputBufferStart = 6 ∧
      out'.length = length + 2 + (padding length).length ∧
      out'.frame = Xtea.encrypt e key (inner ++ padding length) := by
  have hpad : ∃ o, (if out.length % 8 ≠ 0 then out.addPaddingBytes (8 - out.length % 8)
        else some out) = some o ∧ o.outputBufferStart = 6 ∧
      o.length = length + 2 + (padding length).length ∧ o.frame = inner ++ padding length := by
    by_cases hfull : out.length % 8 ≠ 0
    · rw [if_pos hfull]
      by_cases hfit : 8 - out.length % 8 + out.position < MAX_BODY_LENGTH
      · have hpos : out.position = out.outputBufferStart + out.length := by
          rw [hstart, hlength, hposition, INITIAL_BUFFER_POSITION_eq]
          omega
        obtain ⟨o, ho, hs, hl, hf⟩ := addPaddingBytes_spec hpos hfit
        rw [hlength] at hl hf hfull hfit
        rw [hposition] at hfit
        have hpadding : padding length = List.replicate (8 - (length + 2) % 8) 0x33 :=
          if_pos ⟨hfull, hfit⟩
        refine ⟨o, ho, hs.trans hstart, ?_, ?_⟩
        · rw [hl, hpadding, List.length_replicate]
        · rw [hf, hframe, hpadding]
      · have hpadding : padding length = [] := by
          refine if_neg fun h => hfit ?_
          rw [hlength, hposition]
          exact h.2
        refine ⟨out, addPaddingBytes_refused (by omega), hstart, ?_, ?_⟩
        · rw [hpadding, hlength, List.length_nil, Nat.add_zero]
        · rw [hpadding, List.append_nil, hframe]
    · have hpadding : padding length = [] := if_neg fun h => hfull (hlength ▸ h.1)
      refine ⟨out, if_neg hfull, hstart, ?_, ?_⟩
      · rw [hpadding, hlength, List.length_nil, Nat.add_zero]
      · rw [hpadding, List.append_nil, hframe]
  obtain ⟨o, ho, hs, hl, hf⟩ := hpad
  have hle := length_padding_le length
  rw [hposition, INITIAL_BUFFER_POSITION_eq, MAX_BODY_LENGTH_eq] at hroom
  have hmax : o.outputBufferStart + o.length ≤ NETWORKMESSAGE_MAXSIZE := by
    rw [hs, hl, NETWORKMESSAGE_MAXSIZE_eq]
    omega
  have hread : o.buffer.read o.outputBufferStart o.length = some o.frame :=
    Region.read_of_le hmax
  have hlen : (Xtea.encrypt e key o.frame).length = o.length := by
    rw [Xtea.length_encrypt]
    exact Region.length_slice hmax
  obtain ⟨buffer, hwrite, -⟩ := Region.write_of_le o.buffer o.outputBufferStart
    (Xtea.encrypt e key o.frame) (by rw [hlen]; exact hmax)
  refine ⟨{ o with buffer := buffer }, ?_, hs, hl, ?_⟩
  · simp only [XTEA_encrypt, ho, hread, hwrite, Option.bind_eq_bind, Option.bind_some]
    rfl
  · have hslice := Region.slice_write hwrite
    rw [hlen] at hslice
    rw [← hf]
    exact hslice

/-- The two headers in front of the enciphered part. -/
theorem addCryptoHeader_spec {cipher : List UInt8} (hstart : out.outputBufferStart = 6)
    (hmax : out.length ≤ 24576) (hlength : out.length = cipher.length)
    (hframe : out.frame = cipher) :
    ∃ out', out.addCryptoHeader true = some out' ∧ out'.outputBufferStart = 0 ∧
      out'.length ≤ NETWORKMESSAGE_MAXSIZE ∧ out'.frame = wrap cipher := by
  have hend : out.outputBufferStart + out.length ≤ NETWORKMESSAGE_MAXSIZE := by
    rw [hstart, NETWORKMESSAGE_MAXSIZE_eq]
    omega
  have hread : out.buffer.read out.outputBufferStart out.length = some cipher := by
    rw [← hframe]
    exact Region.read_of_le hend
  obtain ⟨o, ho, hs, hl, -, hf⟩ := add_header_spec out 4
    (adlerChecksum cipher).toNat (by omega) hend
  rw [hstart] at hs
  obtain ⟨o', ho', hs', hl', -, hf'⟩ := add_header_spec o 2 o.length
    (by omega) (by rw [hs, hl, NETWORKMESSAGE_MAXSIZE_eq]; omega)
  refine ⟨o', ?_, by rw [hs', hs], ?_, ?_⟩
  · simp only [addCryptoHeader, if_true, hread, Option.bind_eq_bind, Option.bind_some, ho,
      writeMessageLength, ho']
  · rw [hl', hl, NETWORKMESSAGE_MAXSIZE_eq]
    omega
  · rw [hf', hf, hframe, hl, hlength, wrap]

/-- What sending makes of a message of the game protocol. -/
theorem onSendMessage_spec (e : Nat) {p : Protocol} (henc : p.encryptionEnabled = true)
    (hsum : p.checksumEnabled = true) (hraw : p.rawMessages = false) (h : out.Plain) :
    ∃ out', p.onSendMessage e out = some out' ∧
      out'.buffer.read out'.outputBufferStart out'.length = some (frameOf e p.key out.body) := by
  have hroom := h.room
  have hpos := h.position
  have hbody := h.length_body
  rw [MAX_BODY_LENGTH_eq] at hroom
  rw [INITIAL_BUFFER_POSITION_eq] at hpos
  have hs₀ : out.outputBufferStart = 8 := h.start
  have hf₀ : out.frame = out.body := by
    rw [frame, hs₀]
    rfl
  obtain ⟨o₁, ho₁, hs₁, hl₁, hp₁, hf₁⟩ := add_header_spec out 2 out.length
    (by omega) (by rw [hs₀, NETWORKMESSAGE_MAXSIZE_eq]; omega)
  rw [hs₀] at hs₁
  rw [hf₀] at hf₁
  obtain ⟨o₂, ho₂, hs₂, hl₂, hf₂⟩ := XTEA_encrypt_spec e p.key out.length hs₁ hl₁
    (hp₁.trans h.position) (by rw [hp₁]; exact h.room) hf₁
  have hle := length_padding_le out.length
  have hplain : encodeLE 2 out.length ++ out.body ++ padding out.length = plaintext out.body := by
    rw [plaintext, hbody]
  rw [hplain] at hf₂
  have hcipher : o₂.length = (Xtea.encrypt e p.key (plaintext out.body)).length := by
    rw [hl₂, Xtea.length_encrypt, length_plaintext, hbody]
  obtain ⟨o₃, ho₃, hs₃, hl₃, hf₃⟩ := addCryptoHeader_spec hs₂ (by omega) hcipher hf₂
  refine ⟨o₃, ?_, ?_⟩
  · simp only [Protocol.onSendMessage, hraw, henc, hsum, Bool.not_false, if_true,
      writeMessageLength, ho₁, ho₂, ho₃, Option.bind_eq_bind, Option.bind_some]
  · rw [Region.read_of_le (by rw [hs₃, Nat.zero_add]; exact hl₃), frameOf, ← hf₃]
    rfl

end OutputMessage

/-! ### There and back -/

/-- What the connection at the other end hands to its protocol: the enciphered
part, behind a checksum that fits. -/
theorem parse_wrap (cipher : List UInt8) (hpos : 0 < cipher.length)
    (hmax : cipher.length < 24570) (msg : NetworkMessage) :
    ∃ m, parseHeader msg (wrap cipher) = some m ∧ (parsePacket m).length = cipher.length + 6 ∧
      (parsePacket m).position = 6 ∧ (parsePacket m).buffer.slice 6 cipher.length = cipher := by
  have htake : (wrap cipher).take 2 = encodeLE 2 (cipher.length + 4) :=
    List.take_left' (length_encodeLE 2 _)
  have hdrop : (wrap cipher).drop 2 = encodeLE 4 (adlerChecksum cipher).toNat ++ cipher :=
    List.drop_left' (length_encodeLE 2 _)
  have hrest : ((wrap cipher).drop 2).length = 4 + cipher.length := by
    rw [hdrop, List.length_append, length_encodeLE]
  obtain ⟨b₁, hb₁, -⟩ := Region.write_of_le msg.buffer 0
    ((wrap cipher).take 2) (by rw [htake, length_encodeLE, NETWORKMESSAGE_MAXSIZE_eq]; omega)
  have hs₁ := Region.slice_write hb₁
  rw [htake, length_encodeLE] at hs₁
  have hsize : decodeLE (b₁.slice 0 2) = cipher.length + 4 := by
    rw [hs₁, decodeLE_encodeLE]
    exact Nat.mod_eq_of_lt (by omega)
  obtain ⟨b₂, hb₂, -⟩ := Region.write_of_le b₁ 2
    ((wrap cipher).drop 2) (by rw [hrest, NETWORKMESSAGE_MAXSIZE_eq]; omega)
  have hs₂ := Region.slice_write hb₂
  rw [hrest, hdrop] at hs₂
  obtain ⟨hsum, hcipher⟩ := Region.slice_parts hs₂ (length_encodeLE 4 _)
    (by rw [NETWORKMESSAGE_MAXSIZE_eq]; omega)
  have hsize' : msgSize (cipher.length + 4 + HEADER_LENGTH) = cipher.length + 6 :=
    msgSize_of_lt (by rw [HEADER_LENGTH]; omega)
  have hheader : parseHeader msg (wrap cipher) = some
      { msg with buffer := b₂, length := cipher.length + 6, position := 2 } := by
    rw [parseHeader, hb₁, Option.bind_eq_bind, Option.bind_some]
    simp only [hsize]
    rw [if_neg (by rw [hrest, NETWORKMESSAGE_MAXSIZE_eq]; omega), hb₂, hsize']
    rfl
  refine ⟨_, hheader, ?_⟩
  have hget := NetworkMessage.get_eq
    { msg with buffer := b₂, length := cipher.length + 6, position := 2 } 4
    (adlerChecksum cipher).toNat (by simp only; omega)
    (by rw [NETWORKMESSAGE_MAXSIZE_eq]; simp only; omega) hsum (UInt32.toNat_lt _)
  have hlen : cipher.length + 6 - 2 - CHECKSUM_LENGTH = cipher.length := by
    rw [CHECKSUM_LENGTH]
    omega
  have hpacket : parsePacket { msg with buffer := b₂, length := cipher.length + 6, position := 2 }
      = { msg with buffer := b₂, length := cipher.length + 6, position := 6 } := by
    simp only [parsePacket, hget, hlen, if_pos hpos]
    rw [show (2 : Nat) + CHECKSUM_LENGTH = 2 + 4 from rfl, hcipher, if_neg (not_not_intro rfl)]
  rw [hpacket]
  exact ⟨rfl, rfl, hcipher⟩

/-- Deciphering finds the length in front of the body and the body behind it. -/
theorem XTEA_decrypt_spec (e : Nat) (key : Xtea.Key) {msg : NetworkMessage} {body : List UInt8}
    (hlen : body.length < 24567) (hposition : msg.position = 6)
    (hlength : msg.length = (plaintext body).length + 6)
    (hslice : msg.buffer.slice 6 (plaintext body).length = Xtea.encrypt e key (plaintext body)) :
    ∃ msg', XTEA_decrypt e key msg = some msg' ∧
      msg'.buffer.slice msg'.position msg'.length = body := by
  obtain ⟨length, position, overrun, buffer⟩ := msg
  simp only at hposition hlength hslice
  subst hposition hlength
  have hmod := (plaintext_mod (by omega)).mpr (by omega : body.length ≠ 24567)
  have hplain := length_plaintext body
  have hle := length_padding_le body.length
  have hread : buffer.read 6 ((plaintext body).length + 6 - 6)
      = some (Xtea.encrypt e key (plaintext body)) := by
    rw [Nat.add_sub_cancel, ← hslice]
    exact Region.read_of_le (by rw [NETWORKMESSAGE_MAXSIZE_eq]; omega)
  obtain ⟨buffer', hwrite, -⟩ := Region.write_of_le buffer 6 (plaintext body)
    (by rw [NETWORKMESSAGE_MAXSIZE_eq]; omega)
  have hback := Region.slice_write hwrite
  rw [hplain, plaintext, List.append_assoc, Nat.add_comm body.length 2, Nat.add_assoc] at hback
  obtain ⟨hinner, hrest⟩ := Region.slice_parts hback (length_encodeLE 2 _)
    (by rw [NETWORKMESSAGE_MAXSIZE_eq]; omega)
  obtain ⟨hbody, -⟩ := Region.slice_parts hrest rfl (by rw [NETWORKMESSAGE_MAXSIZE_eq]; omega)
  have hget := NetworkMessage.get_eq
    (NetworkMessage.mk ((plaintext body).length + 6) 6 overrun buffer') 2 body.length
    (by simp only; omega) (by rw [NETWORKMESSAGE_MAXSIZE_eq]; simp only; omega)
    hinner (by omega)
  refine ⟨NetworkMessage.mk body.length 8 overrun buffer', ?_, hbody⟩
  rw [XTEA_decrypt, if_neg (by simp only; omega)]
  simp only [hread, Option.bind_eq_bind, Option.bind_some, Xtea.decrypt_encrypt, hwrite, hget]
  rw [if_neg (by omega)]

/-- The frame of a body is read as that body. -/
theorem receive_frameOf (e : Nat) (key : Xtea.Key) (msg : NetworkMessage) {body : List UInt8}
    (hlen : body.length < 24567) : receive e key msg (frameOf e key body) = some body := by
  have hplain := length_plaintext body
  have hle := length_padding_le body.length
  have hmod := (plaintext_mod (by omega)).mpr (by omega : body.length ≠ 24567)
  have hcipher : (Xtea.encrypt e key (plaintext body)).length = (plaintext body).length :=
    Xtea.length_encrypt e key _
  obtain ⟨m, hm, hlength, hposition, hslice⟩ := parse_wrap
    (Xtea.encrypt e key (plaintext body)) (by omega) (by omega) msg
  rw [hcipher] at hlength hslice
  obtain ⟨m', hm', hbody⟩ := XTEA_decrypt_spec e key hlen hposition hlength hslice
  rw [receive, frameOf, hm, Option.bind_eq_bind, Option.bind_some, hm', Option.bind_some, hbody]
  rfl

/-- The frame of the longest body is dropped. -/
theorem receive_longest (e : Nat) (key : Xtea.Key) (msg : NetworkMessage) {body : List UInt8}
    (hlen : body.length = 24567) : receive e key msg (frameOf e key body) = none := by
  have hmod : ¬(plaintext body).length % 8 = 0 :=
    fun h => absurd hlen ((plaintext_mod (Nat.le_of_eq hlen)).mp h)
  have hpadding : padding 24567 = [] := by decide
  have hplain := length_plaintext body
  rw [hlen, hpadding, List.length_nil] at hplain
  have hcipher : (Xtea.encrypt e key (plaintext body)).length = (plaintext body).length :=
    Xtea.length_encrypt e key _
  obtain ⟨m, hm, hlength, -, -⟩ := parse_wrap
    (Xtea.encrypt e key (plaintext body)) (by omega) (by omega) msg
  rw [receive, frameOf, hm, Option.bind_eq_bind, Option.bind_some, XTEA_decrypt,
    if_pos (by omega)]
  rfl

end Infernum.Network
