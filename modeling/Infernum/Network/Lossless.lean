import Infernum.Network.Frames

/-!
# What arrives

A run of writes, sends of the pool and answers of the socket packs the messages
into segments, one for each buffer that was filled. The segments that have had
their turn are on the wire, each in its frame, the others wait, and all of them
in order are the messages in order. No step of any run leaves an array.

The frames bring back everything but a segment of 24567 bytes, and such a
segment is one message of that length.
-/

namespace Infernum.Network

open Infernum.Lib

variable {e : Nat} {key : Xtea.Key}

/-! ### Segments -/

/-- The segments hold the messages in order, and a segment of the longest length
is a message of that length. -/
structure Packs (segs : List (List UInt8)) (ms : List BuiltMessage) : Prop where
  flatten : segs.flatten = ms.flatMap (·.msg.body)
  longest : (∃ seg ∈ segs, seg.length = 24567) ↔ ∃ m ∈ ms, m.msg.length = 24567
  bound : ∀ seg ∈ segs, seg.length ≤ 24567

theorem BuiltMessage.length_le (m : BuiltMessage) : m.msg.length ≤ 24567 := by
  have hroom := m.room
  rw [INITIAL_BUFFER_POSITION_eq, MAX_BODY_LENGTH_eq] at hroom
  omega

theorem BuiltMessage.length_body (m : BuiltMessage) : m.msg.body.length = m.msg.length := by
  have hle := m.length_le
  exact Region.length_slice (by rw [INITIAL_BUFFER_POSITION_eq, NETWORKMESSAGE_MAXSIZE_eq]; omega)

theorem packs_nil : Packs [] [] := by
  constructor
  · rfl
  · simp
  · simp

/-- A message that starts a segment. -/
theorem Packs.fresh {segs : List (List UInt8)} {ms : List BuiltMessage} (h : Packs segs ms)
    (m : BuiltMessage) : Packs (segs ++ [m.msg.body]) (ms ++ [m]) := by
  have hlen := m.length_body
  have hle := m.length_le
  constructor
  · simp [h.flatten]
  · have hlongest := h.longest
    simp only [List.mem_append, List.mem_singleton, or_and_right, exists_or, exists_eq_left, hlen,
      hlongest]
  · intro seg hseg
    rcases List.mem_append.mp hseg with hseg | hseg
    · exact h.bound seg hseg
    · rw [List.mem_singleton.mp hseg, hlen]
      exact hle

/-- A message that joins the last segment; neither of the two can be of the
longest length then. -/
theorem Packs.join {segs : List (List UInt8)} {last : List UInt8} {ms : List BuiltMessage}
    (h : Packs (segs ++ [last]) ms) {m : BuiltMessage} (hfit : last.length + m.msg.length ≤ 24566) :
    Packs (segs ++ [last ++ m.msg.body]) (ms ++ [m]) := by
  have hlen := m.length_body
  have hboth : (last ++ m.msg.body).length = last.length + m.msg.length := by
    rw [List.length_append, hlen]
  constructor
  · have hflat := h.flatten
    simp only [List.flatten_append, List.flatten_singleton] at hflat
    simp only [List.flatten_append, List.flatten_singleton, List.flatMap_append,
      List.flatMap_singleton, ← List.append_assoc, hflat]
  · have hlongest := h.longest
    have hlast : last.length ≠ 24567 := by omega
    have hm : m.msg.length ≠ 24567 := by omega
    have hnew : last.length + m.msg.length ≠ 24567 := by omega
    simp only [List.mem_append, List.mem_singleton, or_and_right, exists_or, exists_eq_left,
      hlast, hm, hnew, hboth, or_false] at hlongest ⊢
    exact hlongest
  · intro seg hseg
    rcases List.mem_append.mp hseg with hseg | hseg
    · exact h.bound seg (List.mem_append_left _ hseg)
    · rw [List.mem_singleton.mp hseg, hboth]
      omega

/-! ### The queue -/

namespace Connection

variable {c c' : Connection}

/-- The messages of the queue that have no headers yet: all but the one that is
being written. -/
def waitingMessages (c : Connection) : List OutputMessage := c.messageQueue.tail

/-- The segments `queued` are on the wire or in the queue, in this order. -/
structure Queued (e : Nat) (key : Xtea.Key) (c : Connection) (queued : List (List UInt8)) :
    Prop where
  encryption : c.protocol.encryptionEnabled = true
  checksum : c.protocol.checksumEnabled = true
  raw : c.protocol.rawMessages = false
  keyed : c.protocol.key = key
  plain : ∀ out ∈ c.waitingMessages, out.Plain
  framed : ∃ sent : List (List UInt8), c.wire = sent.map (frameOf e key) ∧
    queued = sent ++ c.waitingMessages.map (·.body)

/-- The next message of the queue gets its headers. -/
theorem Queued.internalSend {out : OutputMessage} {rest : List OutputMessage}
    {sent : List (List UInt8)} (hflags : c.protocol.encryptionEnabled = true ∧
      c.protocol.checksumEnabled = true ∧ c.protocol.rawMessages = false ∧ c.protocol.key = key)
    (hqueue : c.messageQueue = out :: rest) (hplain : out.Plain) (hrest : ∀ o ∈ rest, o.Plain)
    (hwire : c.wire = sent.map (frameOf e key)) :
    ∃ c', c.internalSend e = some c' ∧ c'.protocol = c.protocol ∧
      Queued e key c' (sent ++ out.body :: rest.map (·.body)) := by
  obtain ⟨henc, hsum, hraw, hkey⟩ := hflags
  obtain ⟨out', hout', hframe⟩ := OutputMessage.onSendMessage_spec e henc hsum hraw hplain
  have hsend : c.internalSend e = some
      { c with
        messageQueue := out' :: rest
        wire := c.wire ++ [frameOf e c.protocol.key out.body] } := by
    simp only [Connection.internalSend, hqueue, hout', hframe, Option.bind_eq_bind,
      Option.bind_some]
    rfl
  refine ⟨_, hsend, rfl, henc, hsum, hraw, hkey, hrest, sent ++ [out.body], ?_, ?_⟩
  · simp only [hwire, hkey, List.map_append, List.map_cons, List.map_nil]
  · simp only [waitingMessages, List.tail_cons, List.append_assoc, List.cons_append,
      List.nil_append]

/-- A message that is sent goes behind the queue. -/
theorem Queued.send {queued : List (List UInt8)} (h : Queued e key c queued) {out : OutputMessage}
    (hplain : out.Plain) :
    ∃ c', c.send e out = some c' ∧ c'.protocol = c.protocol ∧
      Queued e key c' (queued ++ [out.body]) := by
  obtain ⟨sent, hwire, hqueued⟩ := h.framed
  cases hq : c.messageQueue with
  | nil =>
      have hnone : queued = sent := by
        rw [hqueued, waitingMessages, hq, List.tail_nil, List.map_nil, List.append_nil]
      obtain ⟨c', hc', hprotocol, hsend⟩ := Queued.internalSend
        (c := { c with messageQueue := [out] })
        ⟨h.encryption, h.checksum, h.raw, h.keyed⟩ rfl hplain (fun _ ho => by cases ho) hwire
      refine ⟨c', ?_, hprotocol, ?_⟩
      · simp only [Connection.send, hq, List.isEmpty_nil, if_true, List.nil_append]
        exact hc'
      · rw [hnone]
        exact hsend
  | cons first rest =>
      have hwaiting : c.waitingMessages = rest := by
        rw [waitingMessages, hq, List.tail_cons]
      refine ⟨{ c with messageQueue := c.messageQueue ++ [out] }, ?_, rfl, h.encryption,
        h.checksum, h.raw, h.keyed, ?_, sent, hwire, ?_⟩
      · simp only [Connection.send, hq, List.isEmpty_cons, if_false, Bool.false_eq_true]
      · intro o ho
        simp only [waitingMessages, hq, List.cons_append, List.tail_cons, List.mem_append,
          List.mem_singleton] at ho
        rcases ho with ho | rfl
        · exact h.plain o (hwaiting ▸ ho)
        · exact hplain
      · simp only [waitingMessages, hq, List.cons_append, List.tail_cons, List.map_append,
          List.map_cons, List.map_nil, hqueued, List.append_assoc]

/-- The socket's answer moves the queue on. -/
theorem Queued.onWriteOperation {queued : List (List UInt8)} (h : Queued e key c queued) :
    ∃ c', c.onWriteOperation e = some c' ∧ c'.protocol = c.protocol ∧ Queued e key c' queued := by
  obtain ⟨sent, hwire, hqueued⟩ := h.framed
  cases hq : c.messageQueue with
  | nil => exact ⟨c, by rw [Connection.onWriteOperation, hq], rfl, h⟩
  | cons first rest =>
      have hwaiting : c.waitingMessages = rest := by
        rw [waitingMessages, hq, List.tail_cons]
      rw [hwaiting] at hqueued
      cases rest with
      | nil =>
          refine ⟨{ c with messageQueue := [] }, ?_, rfl, h.encryption, h.checksum, h.raw,
            h.keyed, (fun _ ho => by cases ho), sent, hwire, hqueued⟩
          simp only [Connection.onWriteOperation, hq, List.isEmpty_nil, if_true]
      | cons out rest =>
          have hplain := h.plain
          rw [hwaiting] at hplain
          obtain ⟨c', hc', hprotocol, hsend⟩ := Queued.internalSend
            (c := { c with messageQueue := out :: rest })
            ⟨h.encryption, h.checksum, h.raw, h.keyed⟩ rfl (hplain out List.mem_cons_self)
            (fun o ho => hplain o (List.mem_cons_of_mem _ ho)) hwire
          refine ⟨c', ?_, hprotocol, ?_⟩
          · simp only [Connection.onWriteOperation, hq, List.isEmpty_cons, if_false,
              Bool.false_eq_true]
            exact hc'
          · rw [hqueued]
            exact hsend

/-! ### Runs -/

/-- The buffers that have no headers yet, the one being filled last. -/
def waiting (c : Connection) : List OutputMessage :=
  c.waitingMessages ++ c.protocol.outputBuffer.toList

/-- The segments on the wire, in the queue and in the buffer hold the messages. -/
def Holds (e : Nat) (key : Xtea.Key) (c : Connection) (ms : List BuiltMessage) : Prop :=
  ∃ queued, Queued e key c queued ∧ (∀ out ∈ c.protocol.outputBuffer, out.Plain) ∧
    Packs (queued ++ c.protocol.outputBuffer.toList.map (·.body)) ms

theorem Queued.setOutputBuffer {queued : List (List UInt8)} (h : Queued e key c queued)
    (out : Option OutputMessage) : Queued e key (c.setOutputBuffer out) queued where
  encryption := h.encryption
  checksum := h.checksum
  raw := h.raw
  keyed := h.keyed
  plain := h.plain
  framed := h.framed

theorem holds_start (e : Nat) (unset key : Xtea.Key) : Holds e key (start unset key) [] := by
  have hnone : ∀ {P : OutputMessage → Prop}, ∀ out ∈ ([] : List OutputMessage), P out :=
    fun _ hmem => by cases hmem
  exact ⟨[], ⟨rfl, rfl, rfl, rfl, hnone, [], rfl, rfl⟩, (fun _ ho => by cases ho), packs_nil⟩

theorem Holds.onWriteOperation {ms : List BuiltMessage} (h : Holds e key c ms) :
    ∃ c', c.onWriteOperation e = some c' ∧ Holds e key c' ms := by
  obtain ⟨queued, hqueued, hbuffer, hpacks⟩ := h
  obtain ⟨c', hc', hprotocol, hqueued'⟩ := hqueued.onWriteOperation
  rw [← hprotocol] at hbuffer hpacks
  exact ⟨c', hc', queued, hqueued', hbuffer, hpacks⟩

theorem Holds.sendAll {ms : List BuiltMessage} (h : Holds e key c ms) :
    ∃ c', c.sendAll e = some c' ∧ Holds e key c' ms := by
  obtain ⟨queued, hqueued, hbuffer, hpacks⟩ := h
  cases hout : c.protocol.outputBuffer with
  | none => exact ⟨c, by rw [Connection.sendAll, hout], queued, hqueued, hbuffer, hpacks⟩
  | some out =>
      rw [hout] at hpacks
      obtain ⟨c', hc', hprotocol, hqueued'⟩ :=
        (hqueued.setOutputBuffer none).send (hbuffer out hout)
      have hnone : c'.protocol.outputBuffer = none := by rw [hprotocol]; rfl
      refine ⟨c', by rw [Connection.sendAll, hout]; exact hc', _, hqueued', ?_, ?_⟩
      · rw [hnone]
        exact fun _ ho => by cases ho
      · rw [hnone, Option.toList_none, List.map_nil, List.append_nil]
        exact hpacks

/-- A message that starts a buffer. -/
theorem append_fresh (m : BuiltMessage) (memory : Buffer) :
    ∃ out, (OutputMessage.getOutputMessage memory).append m.msg = some out ∧ out.Plain ∧
      out.body = m.msg.body := by
  obtain ⟨out, hout, hplain, hbody, -⟩ := OutputMessage.append_spec
    (OutputMessage.plain_getOutputMessage memory) m.msg (by
      rw [OutputMessage.length_getOutputMessage, Nat.add_zero]
      exact m.room)
  rw [OutputMessage.body_getOutputMessage, List.nil_append] at hbody
  exact ⟨out, hout, hplain, hbody⟩

theorem Holds.writeToOutputBuffer {ms : List BuiltMessage} (h : Holds e key c ms)
    (m : BuiltMessage) (memory : Buffer) :
    ∃ c', c.writeToOutputBuffer e m.msg memory = some c' ∧ Holds e key c' (ms ++ [m]) := by
  obtain ⟨queued, hqueued, hbuffer, hpacks⟩ := h
  obtain ⟨new, hnew, hplain, hbody⟩ := append_fresh m memory
  have hone : ∀ out ∈ some new, out.Plain := by
    rintro out ⟨⟩
    exact hplain
  cases hout : c.protocol.outputBuffer with
  | none =>
      rw [hout, Option.toList_none, List.map_nil, List.append_nil] at hpacks
      refine ⟨c.setOutputBuffer (some new), ?_, queued, hqueued.setOutputBuffer _, hone, ?_⟩
      · simp only [Connection.writeToOutputBuffer, getOutputBuffer, hout, Option.bind_eq_bind,
          Option.bind_some, hnew]
        rfl
      · have hfresh := hpacks.fresh m
        rw [← hbody] at hfresh
        exact hfresh
  | some out =>
      rw [hout, Option.toList_some, List.map_singleton] at hpacks
      have hout' := hbuffer out hout
      by_cases hfull : out.length + m.msg.length > MAX_PROTOCOL_BODY_LENGTH
      · obtain ⟨c', hc', hprotocol, hqueued'⟩ := hqueued.send hout'
        refine ⟨c'.setOutputBuffer (some new), ?_, _, hqueued'.setOutputBuffer _, hone, ?_⟩
        · simp only [Connection.writeToOutputBuffer, getOutputBuffer, hout, if_pos hfull, hc',
            Option.bind_eq_bind, Option.bind_some, Option.pure_def, hnew]
        · have hfresh := hpacks.fresh m
          rw [← hbody] at hfresh
          exact hfresh
      · have hfit : out.length + m.msg.length ≤ 24566 := by
          rw [MAX_PROTOCOL_BODY_LENGTH_eq] at hfull
          omega
        obtain ⟨out', happend, hplain', hbody', -⟩ := OutputMessage.append_spec hout'
          m.msg (by rw [INITIAL_BUFFER_POSITION_eq, MAX_BODY_LENGTH_eq]; omega)
        refine ⟨c.setOutputBuffer (some out'), ?_, queued, hqueued.setOutputBuffer _, ?_, ?_⟩
        · simp only [Connection.writeToOutputBuffer, getOutputBuffer, hout, if_neg hfull,
            Option.bind_eq_bind, Option.bind_some, happend]
          rfl
        · rintro o ⟨⟩
          exact hplain'
        · have hjoin := hpacks.join (m := m) (by rw [hout'.length_body]; exact hfit)
          rw [← hbody'] at hjoin
          exact hjoin

/-- No run leaves an array, and every run keeps the segments. -/
theorem Holds.run (evs : List Event) :
    ∀ {c : Connection} {ms : List BuiltMessage}, Holds e key c ms →
      ∃ c', c.run e evs = some c' ∧ Holds e key c' (ms ++ written evs) := by
  induction evs with
  | nil =>
      intro c ms h
      exact ⟨c, rfl, by rw [written, List.append_nil]; exact h⟩
  | cons ev evs ih =>
      intro c ms h
      have hstep : ∃ c', c.step e ev = some c' ∧ ∃ ms', Holds e key c' ms' ∧
          ms' ++ written evs = ms ++ written (ev :: evs) := by
        cases ev with
        | write m memory =>
            obtain ⟨c', hc', hholds⟩ := h.writeToOutputBuffer m memory
            exact ⟨c', hc', _, hholds, by rw [written, List.append_assoc]; rfl⟩
        | sendAll =>
            obtain ⟨c', hc', hholds⟩ := h.sendAll
            exact ⟨c', hc', ms, hholds, rfl⟩
        | onWriteOperation =>
            obtain ⟨c', hc', hholds⟩ := h.onWriteOperation
            exact ⟨c', hc', ms, hholds, rfl⟩
      obtain ⟨c', hc', ms', hholds, hms⟩ := hstep
      obtain ⟨c'', hc'', hholds'⟩ := ih hholds
      refine ⟨c'', by rw [Connection.run, hc']; exact hc'', ?_⟩
      rw [← hms]
      exact hholds'

end Connection

/-! ### Delivery -/

/-- The bodies that the frames bring to the other end, one behind the other. -/
def delivered (e : Nat) (key : Xtea.Key) (msg : NetworkMessage) (wire : List (List UInt8)) :
    List UInt8 := wire.flatMap fun frame => (receive e key msg frame).getD []

theorem delivered_frames (msg : NetworkMessage) (sent : List (List UInt8))
    (hbound : ∀ seg ∈ sent, seg.length ≤ 24567) :
    delivered e key msg (sent.map (frameOf e key))
      = (sent.filter fun seg => seg.length ≠ 24567).flatten := by
  induction sent with
  | nil => rfl
  | cons seg sent ih =>
      have htail := ih fun s hs => hbound s (List.mem_cons_of_mem _ hs)
      have hle := hbound seg List.mem_cons_self
      rw [delivered] at htail
      by_cases hlong : seg.length = 24567
      · rw [delivered, List.map_cons, List.flatMap_cons, receive_longest e key msg hlong, htail,
          List.filter_cons_of_neg (by simp [hlong])]
        rfl
      · rw [delivered, List.map_cons, List.flatMap_cons,
          receive_frameOf e key msg (by omega : seg.length < 24567), htail,
          List.filter_cons_of_pos (by simp [hlong]), List.flatten_cons]
        rfl

theorem length_flatten_filter_le (p : List UInt8 → Bool) (segs : List (List UInt8)) :
    (segs.filter p).flatten.length ≤ segs.flatten.length := by
  induction segs with
  | nil => exact Nat.le_refl _
  | cons seg segs ih =>
      rw [List.flatten_cons, List.length_append]
      by_cases hp : p seg = true
      · rw [List.filter_cons_of_pos hp, List.flatten_cons, List.length_append]
        omega
      · rw [List.filter_cons_of_neg hp]
        omega

/-- Leaving lists of a positive length out shows. -/
theorem flatten_filter_eq_iff {n : Nat} (hn : 0 < n) (segs : List (List UInt8)) :
    (segs.filter fun seg => seg.length ≠ n).flatten = segs.flatten
      ↔ ∀ seg ∈ segs, seg.length ≠ n := by
  constructor
  · intro heq seg hseg hlen
    have hlength : ∀ l : List (List UInt8), seg ∈ l →
        (l.filter fun seg => seg.length ≠ n).flatten.length < l.flatten.length := by
      intro l hmem
      induction l with
      | nil => cases hmem
      | cons s l ih =>
          by_cases hs : s.length = n
          · rw [List.filter_cons_of_neg (by simp [hs]), List.flatten_cons, List.length_append]
            have hle := length_flatten_filter_le (fun seg => seg.length ≠ n) l
            omega
          · rw [List.filter_cons_of_pos (by simp [hs]), List.flatten_cons, List.flatten_cons,
              List.length_append, List.length_append]
            rcases List.mem_cons.mp hmem with rfl | hmem
            · exact absurd hlen hs
            · have := ih hmem
              omega
    have hlt := hlength segs hseg
    rw [heq] at hlt
    exact absurd hlt (Nat.lt_irrefl _)
  · intro h
    rw [List.filter_eq_self.mpr fun seg hseg => by simpa using h seg hseg]

/-- What a state with the segments in place has delivered, read off its segments. -/
theorem Connection.Holds.delivered {c : Connection} {ms : List BuiltMessage}
    (h : c.Holds e key ms) (msg : NetworkMessage) :
    ∃ sent : List (List UInt8),
      Network.delivered e key msg c.wire = (sent.filter fun seg => seg.length ≠ 24567).flatten ∧
      Packs (sent ++ c.waiting.map (·.body)) ms := by
  obtain ⟨queued, hqueued, -, hpacks⟩ := h
  obtain ⟨sent, hwire, hsent⟩ := hqueued.framed
  rw [hsent, List.append_assoc, ← List.map_append] at hpacks
  refine ⟨sent, ?_, hpacks⟩
  rw [hwire]
  exact delivered_frames msg sent fun seg hseg => hpacks.bound seg (List.mem_append_left _ hseg)

/-- As long as no message has the longest length, what has been delivered and
what waits are the messages. -/
theorem Connection.Holds.lossless {c : Connection} {ms : List BuiltMessage}
    (h : c.Holds e key ms) (msg : NetworkMessage) (hlen : ∀ m ∈ ms, m.msg.length ≠ 24567) :
    Network.delivered e key msg c.wire ++ c.waiting.flatMap (·.body)
      = ms.flatMap (·.msg.body) := by
  obtain ⟨sent, hdelivered, hpacks⟩ := h.delivered msg
  have hshort : ∀ seg ∈ sent, seg.length ≠ 24567 := by
    intro seg hseg heq
    obtain ⟨m, hm, hlong⟩ := hpacks.longest.mp ⟨seg, List.mem_append_left _ hseg, heq⟩
    exact hlen m hm hlong
  rw [hdelivered, (flatten_filter_eq_iff (by omega) sent).mpr hshort, ← hpacks.flatten,
    List.flatten_append, List.flatMap_def]

/-- Once nothing waits, everything has been delivered exactly if no message had
the longest length. -/
theorem Connection.Holds.lossless_iff {c : Connection} {ms : List BuiltMessage}
    (h : c.Holds e key ms) (msg : NetworkMessage) (hwaiting : c.waiting = []) :
    Network.delivered e key msg c.wire = ms.flatMap (·.msg.body)
      ↔ ∀ m ∈ ms, m.msg.length ≠ 24567 := by
  obtain ⟨sent, hdelivered, hpacks⟩ := h.delivered msg
  rw [hwaiting, List.map_nil, List.append_nil] at hpacks
  rw [hdelivered, ← hpacks.flatten, flatten_filter_eq_iff (by omega)]
  have hlongest := not_congr hpacks.longest
  simp only [not_exists, not_and] at hlongest
  exact hlongest

/-- **Every sequence of writes, sends and answers of the socket stays inside the
arrays. The bodies of the frames, read as this code reads frames, and what still
waits are the messages in order, as long as no message has 24567 bytes; and once
nothing waits, the bodies are the messages exactly then.** -/
theorem buffering_lossless_iff (e : Nat) (unset key : Xtea.Key) (msg : NetworkMessage)
    (evs : List Connection.Event) :
    ∃ c, (Connection.start unset key).run e evs = some c ∧
      ((∀ m ∈ written evs, m.msg.length ≠ 24567) →
        delivered e key msg c.wire ++ c.waiting.flatMap (·.body)
          = (written evs).flatMap (·.msg.body)) ∧
      (c.waiting = [] →
        (delivered e key msg c.wire = (written evs).flatMap (·.msg.body)
          ↔ ∀ m ∈ written evs, m.msg.length ≠ 24567)) := by
  obtain ⟨c, hrun, hholds⟩ := (Connection.holds_start e unset key).run evs
  exact ⟨c, hrun, hholds.lossless msg, hholds.lossless_iff msg⟩

/-- Memory that happens to be clear. -/
def clear : Buffer :=
  { cells := List.replicate NETWORKMESSAGE_MAXSIZE 0, size := length_cells_clear }

/-- A message that starts a buffer sends nothing. -/
theorem Connection.messageQueue_writeToOutputBuffer {c c' : Connection} {msg : NetworkMessage}
    {memory : Buffer} (h : c.writeToOutputBuffer e msg memory = some c')
    (hnone : c.protocol.outputBuffer = none) : c'.messageQueue = c.messageQueue := by
  simp only [Connection.writeToOutputBuffer, Connection.getOutputBuffer, hnone,
    Option.bind_eq_bind, Option.bind_some, Option.bind_eq_some_iff, Option.pure_def,
    Option.some.injEq] at h
  obtain ⟨out, -, rfl⟩ := h
  rfl

/-- A send of the pool that finds the queue empty leaves nothing to wait. -/
theorem Connection.waiting_sendAll {c c' : Connection} (h : c.sendAll e = some c')
    (hqueue : c.messageQueue = []) : c'.waiting = [] := by
  cases hout : c.protocol.outputBuffer with
  | none =>
      rw [Connection.sendAll, hout, Option.some.injEq] at h
      rw [← h, Connection.waiting, Connection.waitingMessages, hqueue, hout]
      rfl
  | some out =>
      simp only [Connection.sendAll, hout, Connection.send, Connection.setOutputBuffer, hqueue,
        List.isEmpty_nil, if_true, List.nil_append, Connection.internalSend, Option.bind_eq_bind,
        Option.bind_eq_some_iff, Option.pure_def, Option.some.injEq] at h
      obtain ⟨-, -, -, -, rfl⟩ := h
      rfl

/-- As many bytes as `canAdd` lets into one message. -/
theorem build_longest :
    ∃ msg, (NetworkMessage.new clear).build (List.replicate 24567 (.byte 7)) = some msg ∧
      ∃ h : msg.Within, h.built.msg.length = 24567 := by
  obtain ⟨msg, hmsg, hwithin, hlen⟩ := NetworkMessage.build_bytes 7 24567
    (NetworkMessage.within_new clear) (by
      rw [MAX_BODY_LENGTH_eq]
      exact (by omega : 0 + 24567 + 8 < 24576))
  refine ⟨msg, hmsg, hwithin, ?_⟩
  rw [← Nat.zero_add 24567]
  exact hlen

/-- A message of 24567 bytes, added one by one and sent by the next send of the
pool: nothing waits any more, and not one byte of it has been delivered. -/
theorem longest_message_dropped :
    ∃ msg, (NetworkMessage.new clear).build (List.replicate 24567 (.byte 7)) = some msg ∧
      ∃ h : msg.Within, msg.body.length = 24567 ∧
        ∃ c, (Connection.start (fun _ => 0) fun _ => 0).run 0 [.write h.built clear, .sendAll]
            = some c ∧
          c.waiting = [] ∧
          delivered 0 (fun _ => 0) (NetworkMessage.new clear) c.wire ≠ msg.body := by
  obtain ⟨msg, hmsg, hwithin, hlength⟩ := build_longest
  obtain ⟨c, hrun, hholds⟩ := (Connection.holds_start 0 (fun _ => 0) fun _ => 0).run
    [.write hwithin.built clear, .sendAll]
  have hwaiting : c.waiting = [] := by
    simp only [Connection.run, Connection.step, Option.bind_eq_bind, Option.bind_eq_some_iff,
      Option.some.injEq] at hrun
    obtain ⟨c₁, hwrite, c₂, hsend, rfl⟩ := hrun
    exact Connection.waiting_sendAll hsend
      (Connection.messageQueue_writeToOutputBuffer hwrite rfl)
  have hiff := hholds.lossless_iff (NetworkMessage.new clear) hwaiting
  have hall : ([] ++ written [.write hwithin.built clear, .sendAll]).flatMap
      (fun m : BuiltMessage => m.msg.body) = msg.body := List.flatMap_singleton _ _
  rw [hall] at hiff
  refine ⟨msg, hmsg, hwithin, ?_, c, hrun, hwaiting, fun heq => ?_⟩
  · rw [← hlength]
    exact hwithin.built.length_body
  · exact hiff.mp heq hwithin.built List.mem_cons_self hlength

end Infernum.Network
