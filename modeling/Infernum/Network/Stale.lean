import Infernum.Network.Lossless
import Infernum.Network.Reads

/-!
# Bytes of earlier packets

A connection reads every packet into the same message. The length counts from
the start of the array while a packet is parsed, and from behind the headers
once it is deciphered, but `canRead` always allows for eight bytes of headers.

Behind `XTEA_decrypt` the two agree: no read passes the end of the packet, and
what the reads return does not depend on what was in the array before. A packet
that is not enciphered can be read up to eight bytes past its end. The framing
itself reads past the end of a packet that is too short for its checksum.
-/

namespace Infernum.Network

open Infernum.Lib NetworkMessage

variable {msg m msg' m' : NetworkMessage} {frame : List UInt8} {e : Nat} {key : Xtea.Key}

/-! ### The packet in the array -/

/-- What a header that is not refused says: the packet is in the first cells, and
the length is its own. -/
theorem parseHeader_spec (h : parseHeader msg frame = some m) :
    3 ≤ frame.length ∧ frame.length ≤ 24575 ∧ m.length = frame.length ∧ m.position = 2 ∧
      m.buffer.slice 0 frame.length = frame := by
  unfold parseHeader at h
  simp only [Option.bind_eq_bind, Option.bind_eq_some_iff] at h
  obtain ⟨b₁, hb₁, h⟩ := h
  split at h
  · cases h
  · rename_i hsize
    simp only [Option.bind_eq_some_iff, Option.pure_def, Option.some.injEq] at h
    obtain ⟨b₂, hb₂, rfl⟩ := h
    have hcells := NETWORKMESSAGE_MAXSIZE_eq
    simp only [not_or, ge_iff_le, Nat.not_le, Decidable.not_not, List.length_drop] at hsize
    obtain ⟨hpos, hmax, hrest⟩ := hsize
    have hlen : frame.length = decodeLE (b₁.slice 0 2) + 2 := by omega
    have htake : (frame.take 2).length = 2 := by
      rw [List.length_take]
      omega
    have hdrop : (frame.drop 2).length = decodeLE (b₁.slice 0 2) := by
      rw [List.length_drop]
      exact hrest
    have hhead := Region.slice_write hb₁
    rw [htake] at hhead
    refine ⟨by omega, by omega, ?_, rfl, ?_⟩
    · rw [HEADER_LENGTH, msgSize_of_lt (by omega), hlen]
    · have hkept : b₂.slice 0 2 = b₁.slice 0 2 :=
        Region.slice_write_before hb₂ (Nat.le_refl (0 + 2))
      have hsplit := Region.slice_add b₂ 0 2 (frame.drop 2).length
      have hwhole : 2 + (frame.drop 2).length = frame.length := by omega
      rw [hkept, hhead, Nat.zero_add, Region.slice_write hb₂, List.take_append_drop, hwhole]
        at hsplit
      exact hsplit

/-- A packet with the header of its own length is admitted, if it is neither empty
nor too long. -/
theorem exists_parseHeader (msg : NetworkMessage) {rest : List UInt8} (hpos : 0 < rest.length)
    (hmax : rest.length < 24574) : ∃ m, parseHeader msg (encodeLE 2 rest.length ++ rest) = some m := by
  have htake : (encodeLE 2 rest.length ++ rest).take 2 = encodeLE 2 rest.length :=
    List.take_left' (length_encodeLE 2 _)
  have hdrop : (encodeLE 2 rest.length ++ rest).drop 2 = rest :=
    List.drop_left' (length_encodeLE 2 _)
  obtain ⟨b₁, hb₁, -⟩ := Region.write_of_le msg.buffer 0 (encodeLE 2 rest.length)
    (by rw [length_encodeLE, NETWORKMESSAGE_MAXSIZE_eq]; omega)
  obtain ⟨b₂, hb₂, -⟩ := Region.write_of_le b₁ 2 rest
    (by rw [NETWORKMESSAGE_MAXSIZE_eq]; omega)
  have hslice := Region.slice_write hb₁
  rw [length_encodeLE] at hslice
  have hsize : decodeLE (b₁.slice 0 2) = rest.length := by
    rw [hslice, decodeLE_encodeLE]
    exact Nat.mod_eq_of_lt (by omega)
  rw [parseHeader, htake, hdrop, hb₁, Option.bind_eq_bind, Option.bind_some]
  simp only [hsize]
  rw [if_neg (by rw [NETWORKMESSAGE_MAXSIZE_eq]; omega), hb₂]
  exact ⟨_, rfl⟩

/-- The first cells of the array do not depend on what was there before. -/
theorem agree_parseHeader (h : parseHeader msg frame = some m)
    (h' : parseHeader msg' frame = some m') : Agree frame.length m m' := by
  obtain ⟨-, -, hlen, hpos, hslice⟩ := parseHeader_spec h
  obtain ⟨-, -, hlen', hpos', hslice'⟩ := parseHeader_spec h'
  refine ⟨hlen.trans hlen'.symm, hpos.trans hpos'.symm, fun i hi => ?_⟩
  have hcell : ∀ {b : Buffer}, b.slice 0 frame.length = frame → b.cells[i]? = frame[i]? := by
    intro b hb
    have hget := congrArg (fun xs : List UInt8 => xs[i]?) hb
    simp only [Region.slice, List.drop_zero, List.getElem?_take, if_pos hi] at hget
    exact hget
  rw [hcell hslice, hcell hslice']

/-- The checksum that `parsePacket` of the connection compares with. -/
def expectedChecksum (msg : NetworkMessage) : UInt32 :=
  let len := msg.length - msg.position - CHECKSUM_LENGTH
  if len > 0 then adlerChecksum (msg.buffer.slice (msg.position + CHECKSUM_LENGTH) len) else 0

/-- `parsePacket` of the connection reads four bytes, and steps back over them if
they are not the checksum. -/
theorem parsePacket_eq (hpos : m.position = 2) :
    parsePacket m = { m with
      position := (if decodeLE (m.buffer.slice 2 4) ≠ (expectedChecksum m).toNat then 2 else 6) } := by
  have hcan : m.canRead 4 = true :=
    (canRead_iff m 4).mpr ⟨by omega, by rw [NETWORKMESSAGE_MAXSIZE_eq]; omega⟩
  have hget : m.get 4 = (decodeLE (m.buffer.slice 2 4), { m with position := 6 }) := by
    rw [NetworkMessage.get, if_pos hcan, hpos]
    rfl
  have hpacket : parsePacket m = if decodeLE (m.buffer.slice 2 4) ≠ (expectedChecksum m).toNat then
      { m with position := 6 - CHECKSUM_LENGTH } else { m with position := 6 } := by
    simp only [parsePacket, hget, expectedChecksum]
    rfl
  rw [hpacket]
  by_cases hsum : decodeLE (m.buffer.slice 2 4) = (expectedChecksum m).toNat
  · rw [if_neg (not_not_intro hsum), if_neg (not_not_intro hsum)]
  · rw [if_pos hsum, if_pos hsum]
    rfl

theorem expectedChecksum_of_nothing (hpos : m.position = 2) (hlen : m.length = 6) :
    expectedChecksum m = 0 := by
  rw [expectedChecksum, if_neg (by rw [hlen, hpos, CHECKSUM_LENGTH]; omega)]

theorem parsePacket_spec (hpos : m.position = 2) :
    (parsePacket m).length = m.length ∧ (parsePacket m).buffer = m.buffer ∧
      ((parsePacket m).position = 2 ∨ (parsePacket m).position = 6) := by
  rw [parsePacket_eq hpos]
  refine ⟨rfl, rfl, ?_⟩
  simp only
  split
  · exact .inl rfl
  · exact .inr rfl

/-- With no more than the four bytes behind the header, a checksum of zero is the
only one that fits. -/
theorem parsePacket_position (hpos : m.position = 2) (hlen : m.length = 6) :
    (parsePacket m).position = 6 ↔ decodeLE (m.buffer.slice 2 4) = 0 := by
  rw [parsePacket_eq hpos, expectedChecksum_of_nothing hpos hlen, UInt32.toNat_zero]
  simp only
  split
  · rename_i h
    exact ⟨fun h6 => absurd h6 (by omega), fun h0 => absurd h0 h⟩
  · rename_i h
    exact ⟨fun _ => Decidable.not_not.mp h, fun _ => rfl⟩

theorem decodeLE_eq_zero {bs : List UInt8} :
    decodeLE bs = 0 ↔ bs = List.replicate bs.length 0 := by
  induction bs with
  | nil => exact ⟨fun _ => rfl, fun _ => rfl⟩
  | cons b bs ih =>
      rw [decodeLE, List.length_cons, List.replicate_succ, List.cons.injEq, ← ih,
        ← UInt8.toNat_inj, UInt8.toNat_zero]
      omega

theorem XTEA_decrypt_eq_some : XTEA_decrypt e key msg = some msg' ↔
    ((msg.length : Int) - 6) % 8 = 0 ∧
      ∃ data, msg.buffer.read msg.position (msg.length - 6) = some data ∧
        ∃ buffer, msg.buffer.write msg.position (Xtea.decrypt e key data) = some buffer ∧
          let next := { msg with buffer := buffer }.get 2
          next.1 + 8 ≤ msg.length ∧ { next.2 with length := next.1 } = msg' := by
  unfold XTEA_decrypt
  by_cases hmod : ((msg.length : Int) - 6) % 8 = 0
  · rw [if_neg (not_not_intro hmod)]
    simp only [Option.bind_eq_bind, Option.bind_eq_some_iff, get_length, gt_iff_lt, hmod, true_and]
    refine exists_congr fun data => and_congr_right fun _ => exists_congr fun buffer =>
      and_congr_right fun _ => ?_
    split
    · rename_i hlong
      exact ⟨fun h => (by cases h), fun h => absurd h.1 (by omega)⟩
    · rename_i hfits
      rw [Option.some.injEq]
      exact ⟨fun h => ⟨by omega, h⟩, fun h => h.2⟩
  · rw [if_pos hmod]
    exact ⟨fun h => (by cases h), fun h => absurd h.1 hmod⟩

/-- What is left once the inner length has been accepted: no more than what was
received. -/
theorem XTEA_decrypt_length (h : XTEA_decrypt e key msg = some msg') :
    msg'.length + 8 ≤ msg.length := by
  obtain ⟨-, data, -, buffer, -, hinner, rfl⟩ := XTEA_decrypt_eq_some.mp h
  exact hinner

/-! ### Reading a packet -/

/-- The cells that `XTEA_decrypt` takes the inner length from. -/
def innerLengthCells (msg : NetworkMessage) : List Cells :=
  if ((msg.length : Int) - 6) % 8 ≠ 0 then [] else msg.cells 2

/-- The cells of all reads of a packet: the framing's own, and those of the
protocol it goes to. -/
def packetCells (e : Nat) (key : Xtea.Key) (encryptionEnabled : Bool) (msg : NetworkMessage)
    (reads : List Read) : List Cells :=
  msg.cells 4 ++
    if encryptionEnabled then
      innerLengthCells (parsePacket msg) ++
        match XTEA_decrypt e key (parsePacket msg) with
        | none => []
        | some msg => msg.allCells reads
    else (parsePacket msg).allCells reads

/-- What the reads of the protocol return. -/
def packetAnswers (e : Nat) (key : Xtea.Key) (encryptionEnabled : Bool) (msg : NetworkMessage)
    (reads : List Read) : List Answer :=
  if encryptionEnabled then
    match XTEA_decrypt e key (parsePacket msg) with
    | none => []
    | some msg => msg.answers reads
  else (parsePacket msg).answers reads

/-- A packet that is not enciphered can be read past its end. -/
theorem exists_beyond (h : parseHeader msg frame = some m) :
    ∃ reads, ∃ c ∈ packetCells e key false m reads, frame.length < c.start + c.len := by
  obtain ⟨hmin, hmax, hlen, hpos, -⟩ := parseHeader_spec h
  obtain ⟨hlen', -, hpos'⟩ := parsePacket_spec hpos
  -- byte after byte up to the first cell behind the packet, or to the position if it is there
  have hmem := allCells_bytes (frame.length - (parsePacket m).position)
    (by rw [hlen', hlen]; omega : (parsePacket m).position + _ < (parsePacket m).length + 8)
    (by rw [NETWORKMESSAGE_MAXSIZE_eq]; omega)
  refine ⟨List.replicate (frame.length - (parsePacket m).position + 1) .byte,
    ⟨(parsePacket m).position + (frame.length - (parsePacket m).position), 1⟩,
    List.mem_append_right _ ?_, ?_⟩
  · rw [if_neg Bool.false_ne_true]
    exact hmem
  · simp only
    omega

/-- The reads of an enciphered packet, behind those of its framing. -/
theorem enciphered_le (h : parseHeader msg frame = some m) {reads : List Read} {c : Cells}
    (hc : c ∈ match XTEA_decrypt e key (parsePacket m) with
      | none => []
      | some msg => msg.allCells reads) : c.start + c.len ≤ frame.length := by
  obtain ⟨-, -, hlen, hpos, -⟩ := parseHeader_spec h
  obtain ⟨hlen', -, -⟩ := parsePacket_spec hpos
  split at hc
  · cases hc
  · rename_i q hq
    have hle := allCells_le reads hc
    have hq' := XTEA_decrypt_length hq
    omega

/-- The framing stays within a packet that is long enough for a checksum, and has
something behind it unless the checksum is stepped back over. -/
theorem framing_le_iff (h : parseHeader msg frame = some m) :
    (∀ c ∈ m.cells 4 ++ innerLengthCells (parsePacket m), c.start + c.len ≤ frame.length)
      ↔ 6 < frame.length ∨ frame.length = 6 ∧ frame.drop 2 ≠ List.replicate 4 0 := by
  obtain ⟨hmin, hmax, hlen, hpos, hslice⟩ := parseHeader_spec h
  obtain ⟨hlen', -, hpos'⟩ := parsePacket_spec hpos
  have hsum : m.cells 4 = [⟨2, 4⟩] := by
    rw [cells, if_pos ((canRead_iff m 4).mpr ⟨by omega, by rw [NETWORKMESSAGE_MAXSIZE_eq]; omega⟩),
      hpos]
  have hinner : ((m.length : Int) - 6) % 8 = 0 →
      innerLengthCells (parsePacket m) = [⟨(parsePacket m).position, 2⟩] := by
    intro hmod
    rw [innerLengthCells, hlen', if_neg (not_not_intro hmod), cells, if_pos ((canRead_iff _ 2).mpr
      ⟨by omega, by rw [NETWORKMESSAGE_MAXSIZE_eq]; omega⟩)]
  have hskipped : ((m.length : Int) - 6) % 8 ≠ 0 → innerLengthCells (parsePacket m) = [] :=
    fun hmod => by rw [innerLengthCells, hlen', if_pos hmod]
  have hbehind : frame.length = 6 → ((parsePacket m).position = 6
      ↔ frame.drop 2 = List.replicate 4 0) := by
    intro h6
    have hfour : m.buffer.slice 2 4 = frame.drop 2 := by
      have hcells := Region.slice_add m.buffer 0 2 4
      have hhead : (m.buffer.slice 0 2).length = 2 :=
        Region.length_slice (by rw [NETWORKMESSAGE_MAXSIZE_eq]; omega)
      rw [h6] at hslice
      rw [hslice, Nat.zero_add] at hcells
      rw [hcells, List.drop_left' hhead]
    rw [parsePacket_position hpos (hlen.trans h6), hfour, decodeLE_eq_zero, List.length_drop, h6]
  rw [hsum]
  by_cases hmod : ((m.length : Int) - 6) % 8 = 0
  · rw [hinner hmod]
    simp only [List.cons_append, List.nil_append, List.mem_cons, List.not_mem_nil, or_false,
      forall_eq_or_imp, forall_eq]
    by_cases h6 : frame.length = 6
    · rw [ne_eq, ← hbehind h6]
      omega
    · omega
  · rw [hskipped hmod, List.append_nil]
    simp only [List.mem_singleton, forall_eq]
    omega

/-! ### What the answers depend on -/

variable {limit : Nat}

/-- The checksum is looked for within the packet. -/
theorem agree_parsePacket (h : Agree limit m m') (hpos : m.position = 2)
    (hlen : m.length ≤ limit) (hlimit : 6 ≤ limit) :
    Agree limit (parsePacket m) (parsePacket m') := by
  have hfour : m.buffer.slice 2 4 = m'.buffer.slice 2 4 := h.slice (by omega)
  have hrest : m.buffer.slice (2 + CHECKSUM_LENGTH) (m.length - 2 - CHECKSUM_LENGTH)
      = m'.buffer.slice (2 + CHECKSUM_LENGTH) (m.length - 2 - CHECKSUM_LENGTH) :=
    h.slice (by rw [CHECKSUM_LENGTH]; omega)
  have hsum : expectedChecksum m = expectedChecksum m' := by
    simp only [expectedChecksum, ← h.length, ← h.position, hpos, hrest]
  rw [parsePacket_eq hpos, parsePacket_eq (h.position.symm.trans hpos), hfour, hsum]
  exact h.moved _

/-- Deciphering stays within the packet, and so does the inner length. -/
theorem agree_XTEA_decrypt (h : Agree limit m m') (hlimit : m.position + (m.length - 6) ≤ limit)
    (hpos : m.position + 2 ≤ limit) {q : NetworkMessage} (hq : XTEA_decrypt e key m = some q) :
    ∃ q', XTEA_decrypt e key m' = some q' ∧ Agree limit q q' := by
  obtain ⟨hmod, data, hdata, buffer, hbuffer, hinner, rfl⟩ := XTEA_decrypt_eq_some.mp hq
  have hdata' : m'.buffer.read m.position (m.length - 6) = some data := by
    unfold Region.read at hdata ⊢
    split at hdata
    · rename_i hle
      rw [if_pos hle, ← h.slice hlimit, hdata]
    · cases hdata
  obtain ⟨buffer', hbuffer', -⟩ := Region.write_of_le m'.buffer m.position
    (Xtea.decrypt e key data) (Region.le_of_write hbuffer)
  have hagree : Agree limit { m with buffer := buffer } { m' with buffer := buffer' } := by
    refine ⟨h.length, h.position, fun i hi => ?_⟩
    simp only [Region.getElem?_write hbuffer, Region.getElem?_write hbuffer']
    split
    · rfl
    · exact h.cells i hi
  obtain ⟨hvalue, hnext⟩ := hagree.get_of 2 fun _ => hpos
  refine ⟨_, XTEA_decrypt_eq_some.mpr ⟨h.length ▸ hmod, data, h.position ▸ h.length ▸ hdata',
    buffer', h.position ▸ hbuffer', ?_, rfl⟩, ⟨hvalue, hnext.position, hnext.cells⟩⟩
  rw [← hvalue, ← h.length]
  exact hinner

/-- An inner length that is accepted is within the packet. -/
theorem agree_deciphered (h : parseHeader msg frame = some m)
    (h' : parseHeader msg' frame = some m') {q : NetworkMessage}
    (hq : XTEA_decrypt e key (parsePacket m) = some q) :
    ∃ q', XTEA_decrypt e key (parsePacket m') = some q' ∧ Agree frame.length q q' ∧
      q.length + 8 ≤ frame.length := by
  obtain ⟨-, -, hlen, hpos, -⟩ := parseHeader_spec h
  obtain ⟨hlen', -, hpos'⟩ := parsePacket_spec hpos
  have hinner := XTEA_decrypt_length hq
  have hagree := agree_parsePacket (agree_parseHeader h h') hpos (by omega) (by omega)
  obtain ⟨q', hq', hanswers⟩ := agree_XTEA_decrypt hagree (by omega) (by omega) hq
  exact ⟨q', hq', hanswers, by omega⟩

/-- **What the protocol reads from an enciphered packet does not depend on what the
array held before the packet.** -/
theorem answers_of_packet (h : parseHeader msg frame = some m)
    (h' : parseHeader msg' frame = some m') (reads : List Read) :
    packetAnswers e key true m reads = packetAnswers e key true m' reads := by
  rw [packetAnswers, packetAnswers, if_pos rfl, if_pos rfl]
  cases hq : XTEA_decrypt e key (parsePacket m) with
  | none =>
      cases hq' : XTEA_decrypt e key (parsePacket m') with
      | none => rfl
      | some q' =>
          obtain ⟨q, hq₂, -⟩ := agree_deciphered h' h hq'
          rw [hq] at hq₂
          cases hq₂
  | some q =>
      obtain ⟨q', hq', hanswers, hle⟩ := agree_deciphered h h' hq
      rw [hq']
      exact hanswers.answers reads hle

/-- An array of ones. -/
def worn : Buffer where
  cells := List.replicate NETWORKMESSAGE_MAXSIZE 1
  size := List.length_replicate

theorem answers_of_packet_single :
    ∃ m m', parseHeader (.new clear) [1, 0, 7] = some m ∧
      parseHeader (.new worn) [1, 0, 7] = some m' ∧
      packetAnswers 0 (fun _ => 0) true m [.byte] = packetAnswers 0 (fun _ => 0) true m' [.byte] := by
  obtain ⟨m, hm⟩ := exists_parseHeader (.new clear) (by decide : 0 < [(7 : UInt8)].length)
    (by decide)
  obtain ⟨m', hm'⟩ := exists_parseHeader (.new worn) (by decide : 0 < [(7 : UInt8)].length)
    (by decide)
  exact ⟨m, m', hm, hm', answers_of_packet hm hm' [.byte]⟩

/-- **For every packet that the header check admits: its bytes are in the first
cells of the array, and all reads of it, the framing's and any sequence of the
protocol's, stay within those cells exactly if encryption is on and the packet has
more than four bytes behind its header, or four that are not all zero.** -/
theorem reads_within_iff (e : Nat) (key : Xtea.Key) (encryptionEnabled : Bool)
    (h : parseHeader msg frame = some m) :
    m.buffer.slice 0 frame.length = frame ∧
      ((∀ reads, ∀ c ∈ packetCells e key encryptionEnabled m reads,
          c.start + c.len ≤ frame.length) ↔
        encryptionEnabled = true ∧
          (6 < frame.length ∨ frame.length = 6 ∧ frame.drop 2 ≠ List.replicate 4 0)) := by
  refine ⟨(parseHeader_spec h).2.2.2.2, ?_⟩
  rw [← framing_le_iff h]
  cases encryptionEnabled with
  | false =>
      refine ⟨fun hall => ?_, fun hfalse => absurd hfalse.1 Bool.false_ne_true⟩
      have hbeyond : ∃ reads, ∃ c ∈ packetCells e key false m reads,
          frame.length < c.start + c.len := exists_beyond h
      obtain ⟨reads, c, hc, hlt⟩ := hbeyond
      exact absurd (hall reads c hc) (by omega)
  | true =>
      simp only [packetCells, if_true, true_and, ← List.append_assoc]
      constructor
      · exact fun hall c hc => hall [] c (List.mem_append_left _ hc)
      · intro hframing reads c hc
        rcases List.mem_append.mp hc with hc | hc
        · exact hframing c hc
        · exact enciphered_le h hc

/-- A packet of a single byte. -/
theorem reads_within_iff_single :
    ∃ m, parseHeader (.new clear) [1, 0, 7] = some m ∧
      m.buffer.slice 0 3 = [1, 0, 7] ∧
        ((∀ reads, ∀ c ∈ packetCells 0 (fun _ => 0) true m reads, c.start + c.len ≤ 3) ↔
          true = true ∧ (6 < 3 ∨ 3 = 6 ∧ [(7 : UInt8)] ≠ List.replicate 4 0)) := by
  obtain ⟨m, hm⟩ := exists_parseHeader (.new clear) (by decide : 0 < [(7 : UInt8)].length)
    (by decide)
  exact ⟨m, hm, reads_within_iff 0 (fun _ => 0) true hm⟩

/-- Such a packet can be read past its end. -/
theorem single_byte_overread :
    ∃ m, parseHeader (.new clear) [1, 0, 7] = some m ∧
      ∃ reads, ∃ c ∈ packetCells 0 (fun _ => 0) false m reads, 3 < c.start + c.len := by
  obtain ⟨m, hm⟩ := exists_parseHeader (.new clear) (by decide : 0 < [(7 : UInt8)].length)
    (by decide)
  exact ⟨m, hm, exists_beyond hm⟩

end Infernum.Network
