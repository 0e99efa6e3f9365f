import ActiveFsm.Remote.Crc16
import ActiveFsm.Remote.TransportMonitor

/-!
# ActiveFsm.Remote.Serial

Messages on a serial line: what `Send` writes, and how `Receive` finds it again
among the bytes that come in.

* `serial_round_trip` — what is sent is received, unless it is too long for the
  buffer of the receiver or comes right after a stray first byte of the marker;
* `serial_stream` — and so is any number of messages, one after the other;
* `serial_sound` — what is received stands on the line, with its check;
* `serial_burst_rejected` — a burst of errors is not received.
-/

namespace ActiveFsm

namespace Remote

namespace Serial

/-! ## Sending -/

/-- `swap16`. -/
def swap16 (v : BitVec 16) : BitVec 16 := (v <<< 8) ||| (v >>> 8)

/-- A `uint16_t` in memory; the host is little endian. -/
def bytes (v : BitVec 16) : List (BitVec 8) := [v.setWidth 8, (v >>> 8).setWidth 8]

def ofBytes (low high : BitVec 8) : BitVec 16 := low.setWidth 16 ||| high.setWidth 16 <<< 8

def serialize (h : DmqHeader) : List (BitVec 8) :=
  bytes (swap16 h.marker) ++ bytes (swap16 h.id) ++ bytes (swap16 h.seqNum) ++
    bytes (swap16 h.length)

def packetWithoutCrc (h : DmqHeader) (payload : List (BitVec 8)) : List (BitVec 8) :=
  serialize h ++ payload

/-- What follows the packet. -/
def crcOf (packet : List (BitVec 8)) : List (BitVec 8) := bytes (crc16CalcBlock packet 0xFFFF)

/-- The bytes that `Send` writes to the port. -/
def send (h : DmqHeader) (payload : List (BitVec 8)) : Option (List (BitVec 8)) :=
  if 65535 < payload.length then none
  else
    let packet := packetWithoutCrc { h with length := BitVec.ofNat 16 payload.length } payload
    some (packet ++ crcOf packet)

/-! ## Receiving -/

/-- What comes in: a byte, or none until a call of `sp_blocking_read` gives up. -/
inductive Input where
  | byte (b : BitVec 8)
  | silence
  deriving DecidableEq, Repr

/-- `ReadExact`; `got` tells whether the call of `sp_blocking_read` that is under
way has read anything. -/
def readExact (got : Bool) : Nat → List Input → Option (List (BitVec 8)) × List Input
  | 0, input => (some [], input)
  | _ + 1, [] => (none, [])
  | size + 1, .byte b :: input =>
    let r := readExact true size input
    (r.1.map (b :: ·), r.2)
  | size + 1, .silence :: input =>
    if got then readExact false (size + 1) input else (none, input)

/-- The sync loop. -/
def sync : List Input → Bool × List Input
  | [] => (false, [])
  | .silence :: input => (false, input)
  | .byte b :: input =>
    if b = 0xAA then
      match input with
      | [] => (false, [])
      | .silence :: input => sync input
      | .byte next :: input => if next = 0x55 then (true, input) else sync input
    else sync input

/-- A field of `headerBuf`. -/
def field (headerBuf : List (BitVec 8)) (i : Nat) : BitVec 16 :=
  swap16 (ofBytes (headerBuf.getD i 0) (headerBuf.getD (i + 1) 0))

def deserialize (headerBuf : List (BitVec 8)) : DmqHeader where
  marker := field headerBuf 0
  id := field headerBuf 2
  seqNum := field headerBuf 4
  length := field headerBuf 6

/-- `BUFFER_SIZE`. -/
def bufferSize : Nat := 4096

inductive Answer where
  /-- `m_transportMonitor->Remove`. -/
  | remove (seqNum : BitVec 16)
  /-- `m_sendTransport->Send`, without a payload. -/
  | ack (h : DmqHeader)
  deriving DecidableEq, Repr

/-- The last section of `Receive`. -/
def answer (h : DmqHeader) : Answer :=
  if h.id = ackRemoteId then .remove h.seqNum
  else .ack { id := ackRemoteId, seqNum := h.seqNum }

/-- What `Receive` returns, and leaves in its arguments. -/
structure Reception where
  result : Int
  header : DmqHeader
  is : List (BitVec 8)
  answer : Option Answer := none
  deriving DecidableEq, Repr

def receive (header : DmqHeader) (is : List (BitVec 8)) (input : List Input) :
    Reception × List Input :=
  match sync input with
  | (false, input) => (⟨-1, header, is, none⟩, input)
  | (true, input) =>
    match readExact false 6 input with
    | (none, input) => (⟨-1, header, is, none⟩, input)
    | (some rest, input) =>
      let headerBuf := 0xAA :: 0x55 :: rest
      let header := deserialize headerBuf
      if header.marker ≠ 0xAA55 then (⟨-1, header, is, none⟩, input)
      else if bufferSize < header.length.toNat then (⟨-1, header, is, none⟩, input)
      else
        match readExact false header.length.toNat input with
        | (none, input) => (⟨-1, header, is, none⟩, input)
        | (some buffer, input) =>
          match readExact false 2 input with
          | (none, input) => (⟨-1, header, is ++ buffer, none⟩, input)
          | (some receivedCrc, input) =>
            if receivedCrc ≠ bytes (crc16CalcBlock buffer (crc16CalcBlock headerBuf 0xFFFF)) then
              (⟨-1, header, is ++ buffer, none⟩, input)
            else (⟨0, header, is ++ buffer, some (answer header)⟩, input)

/-! ## Bytes -/

/-- A word from its bytes. -/
theorem ofBytes_bytes (v : BitVec 16) :
    ofBytes (v.setWidth 8) ((v >>> 8).setWidth 8) = v := by
  apply BitVec.eq_of_getLsbD_eq
  intro i hi
  by_cases hlow : i < 8
  · simp [ofBytes, hlow, hi]
  · have hsub : i - 8 < 8 := by omega
    have hadd : 8 + (i - 8) = i := by omega
    simp [ofBytes, hlow, hi, hsub, hadd]

/-- And the bytes of that word. -/
theorem bytes_ofBytes (low high : BitVec 8) : bytes (ofBytes low high) = [low, high] := by
  have hlow : (ofBytes low high).setWidth 8 = low := by
    apply BitVec.eq_of_getLsbD_eq
    intro i hi
    simp [ofBytes, hi]
  have hhigh : ((ofBytes low high) >>> 8).setWidth 8 = high := by
    apply BitVec.eq_of_getLsbD_eq
    intro i hi
    have hadd : 8 + i < 16 := by omega
    have hwide : i < 16 := by omega
    simp [ofBytes, hi, hadd, hwide]
  rw [bytes, hlow, hhigh]

/-- Swapping twice does nothing. -/
theorem swap16_swap16 (v : BitVec 16) : swap16 (swap16 v) = v := by
  apply BitVec.eq_of_getLsbD_eq
  intro i hi
  have hout : v.getLsbD (8 + (8 + i)) = false := v.getLsbD_of_ge _ (by omega)
  by_cases hlow : i < 8
  · have hadd : 8 + i < 16 := by omega
    simp [swap16, hlow, hi, hadd, hout]
  · have hsub : i - 8 < 8 := by omega
    have hadd : 8 + (i - 8) = i := by omega
    have hwide : ¬8 + i < 16 := by omega
    simp [swap16, hlow, hi, hsub, hadd, hwide, hout]

/-- A header survives being written and read. -/
theorem deserialize_serialize (h : DmqHeader) : deserialize (serialize h) = h := by
  simp [deserialize, field, serialize, bytes, ofBytes_bytes, swap16_swap16]

/-- So do eight bytes. -/
theorem serialize_deserialize {headerBuf : List (BitVec 8)} (h : headerBuf.length = 8) :
    serialize (deserialize headerBuf) = headerBuf := by
  match headerBuf, h with
  | [_, _, _, _, _, _, _, _], _ =>
      simp [deserialize, field, serialize, bytes_ofBytes, swap16_swap16]

theorem length_crcOf (packet : List (BitVec 8)) : (crcOf packet).length = 2 := rfl

/-- The marker comes first. -/
theorem serialize_eq {h : DmqHeader} (hmarker : h.marker = 0xAA55) :
    serialize h = 0xAA :: 0x55 :: (serialize h).drop 2 := by
  have hbytes : bytes (swap16 0xAA55) = [0xAA, 0x55] := by decide
  simp only [serialize, hmarker, hbytes, List.cons_append, List.nil_append, List.drop_succ_cons,
    List.drop_zero]

/-! ## The line -/

/-- Bytes that are there are read. -/
theorem readExact_map_byte (got : Bool) (bs : List (BitVec 8)) (input : List Input) :
    readExact got bs.length (bs.map .byte ++ input) = (some bs, input) := by
  induction bs generalizing got with
  | nil => simp [readExact]
  | cons b bs ih => simp [readExact, ih]

/-- A byte that is no 0xAA is skipped. -/
theorem sync_byte {b : BitVec 8} (h : b ≠ 0xAA) (input : List Input) :
    sync (.byte b :: input) = sync input := by
  rw [sync.eq_def]
  simp only [h, if_false]

/-- So are several. -/
theorem sync_of_notMem {noise : List (BitVec 8)} (h : 0xAA ∉ noise) (input : List Input) :
    sync (noise.map .byte ++ input) = sync input := by
  induction noise with
  | nil => rfl
  | cons b noise ih =>
      rw [List.mem_cons, not_or] at h
      rw [List.map_cons, List.cons_append, sync_byte (Ne.symm h.1), ih h.2]

/-- A packet that is looked for from its start, or behind bytes that do not look
like a marker. -/
theorem receive_header {h : DmqHeader} (hmarker : h.marker = 0xAA55) {noise : List (BitVec 8)}
    (hnoise : 0xAA ∉ noise) (header : DmqHeader) (is : List (BitVec 8)) (input : List Input) :
    receive header is ((noise ++ serialize h).map .byte ++ input) =
      if bufferSize < h.length.toNat then (⟨-1, h, is, none⟩, input)
      else
        match readExact false h.length.toNat input with
        | (none, input) => (⟨-1, h, is, none⟩, input)
        | (some buffer, input) =>
          match readExact false 2 input with
          | (none, input) => (⟨-1, h, is ++ buffer, none⟩, input)
          | (some receivedCrc, input) =>
            if receivedCrc ≠ crcOf (packetWithoutCrc h buffer) then
              (⟨-1, h, is ++ buffer, none⟩, input)
            else (⟨0, h, is ++ buffer, some (answer h)⟩, input) := by
  have hsync : sync ((noise ++ serialize h).map .byte ++ input) =
      (true, ((serialize h).drop 2).map .byte ++ input) := by
    rw [List.map_append, List.append_assoc, sync_of_notMem hnoise, serialize_eq hmarker]
    simp [sync]
  have hread : readExact false 6 (((serialize h).drop 2).map .byte ++ input) =
      (some ((serialize h).drop 2), input) :=
    readExact_map_byte false ((serialize h).drop 2) input
  rw [receive, hsync]
  simp only [hread, ← serialize_eq hmarker, deserialize_serialize, hmarker, ne_eq,
    not_true_eq_false, if_false, crcOf, packetWithoutCrc, crc16CalcBlock, List.foldl_append]

/-- What `Receive` does with a packet, whatever its check bytes are. -/
theorem receive_packet {h : DmqHeader} (hmarker : h.marker = 0xAA55) {noise : List (BitVec 8)}
    (hnoise : 0xAA ∉ noise) (header : DmqHeader) (is : List (BitVec 8))
    {payload crc : List (BitVec 8)} (hlen : payload.length = h.length.toNat)
    (hsize : payload.length ≤ bufferSize) (hcrc : crc.length = 2) (rest : List Input) :
    receive header is ((noise ++ packetWithoutCrc h payload ++ crc).map .byte ++ rest) =
      if crc = crcOf (packetWithoutCrc h payload) then
        (⟨0, h, is ++ payload, some (answer h)⟩, rest)
      else (⟨-1, h, is ++ payload, none⟩, rest) := by
  have hinput : (noise ++ packetWithoutCrc h payload ++ crc).map Input.byte ++ rest =
      (noise ++ serialize h).map .byte ++ (payload.map .byte ++ (crc.map .byte ++ rest)) := by
    simp [packetWithoutCrc]
  have hpayload : readExact false h.length.toNat (payload.map .byte ++ (crc.map .byte ++ rest)) =
      (some payload, crc.map .byte ++ rest) := by
    rw [← hlen]
    exact readExact_map_byte false payload _
  have hcheck : readExact false 2 (crc.map .byte ++ rest) = (some crc, rest) := by
    rw [← hcrc]
    exact readExact_map_byte false crc rest
  have hfits : ¬bufferSize < h.length.toNat := by omega
  rw [hinput, receive_header hmarker hnoise, if_neg hfits]
  simp only [hpayload, hcheck]
  by_cases heq : crc = crcOf (packetWithoutCrc h payload)
  · rw [if_pos heq, if_neg (not_not.mpr heq)]
  · rw [if_neg heq, if_pos heq]

/-- The first byte of the marker twice hides the marker. -/
theorem receive_stray {noise : List (BitVec 8)} (hnoise : 0xAA ∉ noise) (header : DmqHeader)
    (is : List (BitVec 8)) (input : List Input) :
    receive header is (noise.map .byte ++ .byte 0xAA :: .byte 0xAA :: .byte 0x55 :: input) =
      receive header is input := by
  have hsync : sync (noise.map .byte ++ .byte 0xAA :: .byte 0xAA :: .byte 0x55 :: input) =
      sync input := by
    rw [sync_of_notMem hnoise, sync.eq_def]
    exact sync_byte (by decide) input
  rw [receive, receive, hsync]

/-! ## Round trip -/

/-- The header with its length, as `Send` writes it. -/
def sentHeader (h : DmqHeader) (payload : List (BitVec 8)) : DmqHeader :=
  { h with length := BitVec.ofNat 16 payload.length }

section

variable {h : DmqHeader} {payload : List (BitVec 8)} (hsize : payload.length ≤ 65535)
include hsize

/-- The header bears the length of the payload. -/
theorem length_sentHeader : payload.length = (sentHeader h payload).length.toNat := by
  simp only [sentHeader, BitVec.toNat_ofNat]
  omega

/-- What `Send` writes. -/
theorem send_eq_some : send h payload =
    some (packetWithoutCrc (sentHeader h payload) payload ++
      crcOf (packetWithoutCrc (sentHeader h payload) payload)) :=
  if_neg (by omega)

end

/-- What is sent is received. -/
theorem receive_sent {h : DmqHeader} (hmarker : h.marker = 0xAA55)
    {payload packet noise : List (BitVec 8)} (hfits : payload.length ≤ bufferSize)
    (hsend : send h payload = some packet) (hnoise : 0xAA ∉ noise) (header : DmqHeader)
    (is : List (BitVec 8)) (rest : List Input) :
    receive header is ((noise ++ packet).map .byte ++ rest) =
      (⟨0, sentHeader h payload, is ++ payload, some (answer (sentHeader h payload))⟩, rest) := by
  have hsize : payload.length ≤ 65535 := hfits.trans (by decide)
  cases (send_eq_some hsize).symm.trans hsend
  have hmarker' : (sentHeader h payload).marker = 0xAA55 := hmarker
  rw [← List.append_assoc, receive_packet hmarker' hnoise header is (length_sentHeader hsize) hfits
    (length_crcOf _), if_pos rfl]

/-- What `Send` writes is received behind any bytes that do not look like a
marker, as long as it fits the buffer.  Longer messages are sent and refused,
and one that comes right after a stray `0xAA` is not seen. -/
theorem serial_round_trip {h : DmqHeader} (hmarker : h.marker = 0xAA55)
    (payload : List (BitVec 8)) {noise : List (BitVec 8)} (hnoise : 0xAA ∉ noise)
    (header : DmqHeader) (is : List (BitVec 8)) (rest : List Input) :
    let sent : DmqHeader := { h with length := BitVec.ofNat 16 payload.length }
    (payload.length ≤ bufferSize → ∃ packet, send h payload = some packet ∧
      receive header is ((noise ++ packet).map .byte ++ rest) =
        (⟨0, sent, is ++ payload, some (answer sent)⟩, rest)) ∧
    (bufferSize < payload.length → payload.length ≤ 65535 →
      ∃ packet, send h payload = some packet ∧
        receive header is ((noise ++ packet).map .byte ++ rest) =
          (⟨-1, sent, is, none⟩, (packet.drop 8).map .byte ++ rest)) ∧
    (65535 < payload.length → send h payload = none) ∧
    ∀ packet, send h payload = some packet →
      receive header is ((noise ++ 0xAA :: packet).map .byte ++ rest) =
        receive header is ((packet.drop 2).map .byte ++ rest) := by
  intro sent
  have hsend (hsize : payload.length ≤ 65535) : send h payload =
      some (packetWithoutCrc sent payload ++ crcOf (packetWithoutCrc sent payload)) :=
    send_eq_some hsize
  refine ⟨fun hfits => ?_, fun hlong hsize => ?_, fun hlong => if_pos hlong,
    fun packet hpacket => ?_⟩
  · have hsize : payload.length ≤ 65535 := hfits.trans (by decide)
    exact ⟨_, hsend hsize, receive_sent hmarker hfits (hsend hsize) hnoise header is rest⟩
  · refine ⟨_, hsend hsize, ?_⟩
    have hinput (tail : List (BitVec 8)) :
        (noise ++ (packetWithoutCrc sent payload ++ tail)).map Input.byte ++ rest =
          (noise ++ serialize sent).map .byte ++ ((payload ++ tail).map .byte ++ rest) := by
      simp [packetWithoutCrc]
    rw [hinput, receive_header (h := sent) hmarker hnoise,
      if_pos (length_sentHeader hsize ▸ hlong)]
    rfl
  · have hsize : payload.length ≤ 65535 := by
      by_contra hlong
      rw [send, if_pos (by omega)] at hpacket
      contradiction
    cases (hsend hsize).symm.trans hpacket
    rw [packetWithoutCrc, serialize_eq (h := sent) hmarker]
    simpa using receive_stray hnoise header is _

theorem serial_round_trip_two : ∃ packet, send ⟨0xAA55, 1, 7, 0⟩ [0x48, 0x69] = some packet ∧
    receive {} [] (([0x00, 0x55] ++ packet).map .byte ++ [.silence]) =
      (⟨0, ⟨0xAA55, 1, 7, 2⟩, [0x48, 0x69], some (.ack ⟨0xAA55, 0, 7, 0⟩)⟩, [.silence]) :=
  (serial_round_trip rfl [0x48, 0x69] (by decide) {} [] [.silence]).1 (by decide)

/-! ## A stream of packets -/

/-- A message on the line, and the bytes before it. -/
structure Sending where
  noise : List (BitVec 8) := []
  header : DmqHeader
  payload : List (BitVec 8)

/-- It can be received. -/
structure Sending.Fits (x : Sending) : Prop where
  noise : 0xAA ∉ x.noise
  marker : x.header.marker = 0xAA55
  payload : x.payload.length ≤ bufferSize

def Sending.line (x : Sending) : List (BitVec 8) :=
  x.noise ++ (send x.header x.payload).getD []

def Sending.reception (x : Sending) : Reception :=
  ⟨0, sentHeader x.header x.payload, x.payload, some (answer (sentHeader x.header x.payload))⟩

/-- Calls of `Receive` one after the other, each with a new stream. -/
def receiveAll : Nat → List Input → List Reception × List Input
  | 0, input => ([], input)
  | n + 1, input =>
    let r := receive {} [] input
    let rs := receiveAll n r.2
    (r.1 :: rs.1, rs.2)

/-- The same, with noise before it. -/
theorem receive_line {x : Sending} (h : x.Fits) (rest : List Input) :
    receive {} [] (x.line.map .byte ++ rest) = (x.reception, rest) := by
  have hsize : x.payload.length ≤ 65535 := h.payload.trans (by decide)
  have hsend := send_eq_some (h := x.header) hsize
  rw [Sending.line, hsend, Option.getD_some, receive_sent h.marker h.payload hsend h.noise,
    List.nil_append, Sending.reception]

/-- What is sent one after the other is received one after the other: no message
is lost or repeated, or changes places with another. -/
theorem serial_stream (xs : List Sending) (h : ∀ x ∈ xs, x.Fits) (rest : List Input) :
    receiveAll xs.length ((xs.flatMap Sending.line).map .byte ++ rest) =
      (xs.map Sending.reception, rest) := by
  induction xs with
  | nil => rfl
  | cons x xs ih =>
      rw [List.forall_mem_cons] at h
      rw [List.length_cons, receiveAll, List.flatMap_cons, List.map_append, List.append_assoc,
        receive_line h.1, ih h.2, List.map_cons]

/-- Two messages, with noise before the second. -/
def twoSendings : List Sending :=
  [{ header := ⟨0xAA55, 1, 7, 0⟩, payload := [0x48] },
    { noise := [0x00, 0x55], header := ⟨0xAA55, 1, 8, 0⟩, payload := [] }]

theorem serial_stream_two : receiveAll 2 ((twoSendings.flatMap Sending.line).map .byte ++ []) =
    ([⟨0, ⟨0xAA55, 1, 7, 1⟩, [0x48], some (.ack ⟨0xAA55, 0, 7, 0⟩)⟩,
      ⟨0, ⟨0xAA55, 1, 8, 0⟩, [], some (.ack ⟨0xAA55, 0, 8, 0⟩)⟩], []) := by
  refine serial_stream twoSendings ?_ []
  simp only [twoSendings, List.forall_mem_cons]
  exact ⟨⟨by decide, rfl, by decide⟩, ⟨by decide, rfl, by decide⟩, by simp⟩

/-! ## What is received -/

/-- The bytes that have come in. -/
def heard (input : List Input) : List (BitVec 8) :=
  input.filterMap fun
    | .byte b => some b
    | .silence => none

/-- What has been heard, in two parts. -/
theorem heard_append (input input' : List Input) :
    heard (input ++ input') = heard input ++ heard input' :=
  List.filterMap_append

/-- What is read has been heard. -/
theorem readExact_sound {got : Bool} {size : Nat} {input rest : List Input}
    {bs : List (BitVec 8)} (h : readExact got size input = (some bs, rest)) :
    bs.length = size ∧ ∃ taken, input = taken ++ rest ∧ heard taken = bs := by
  induction got, size, input using readExact.induct generalizing bs with
  | case1 got input =>
      rw [readExact] at h
      cases h
      exact ⟨rfl, [], rfl, rfl⟩
  | case2 => simp [readExact] at h
  | case3 got size b input ih =>
      rw [readExact] at h
      obtain ⟨hmap, rfl⟩ := Prod.mk.inj h
      obtain ⟨bs', hbs, rfl⟩ := Option.map_eq_some_iff.mp hmap
      obtain ⟨hlen, taken, htaken, hheard⟩ := ih (Prod.ext hbs rfl)
      refine ⟨by rw [List.length_cons, hlen], .byte b :: taken, ?_, ?_⟩
      · rw [List.cons_append, ← htaken]
      · rw [← hheard]
        rfl
  | case4 size input ih =>
      obtain ⟨hlen, taken, rfl, hheard⟩ := ih (by simpa [readExact] using h)
      exact ⟨hlen, .silence :: taken, rfl, hheard⟩
  | case5 got size input hgot => simp [readExact, hgot] at h

/-- The search ends behind a marker. -/
theorem sync_sound {input rest : List Input} (h : sync input = (true, rest)) :
    ∃ taken noise, input = taken ++ rest ∧ heard taken = noise ++ [0xAA, 0x55] := by
  fun_induction sync input with
  | case1 => cases h
  | case2 => cases h
  | case3 => cases h
  | case4 input ih =>
      obtain ⟨taken, noise, rfl, hheard⟩ := ih h
      refine ⟨.byte 0xAA :: .silence :: taken, 0xAA :: noise, rfl, ?_⟩
      rw [List.cons_append, ← hheard]
      rfl
  | case5 => cases h; exact ⟨[.byte 0xAA, .byte 0x55], [], rfl, rfl⟩
  | case6 next input hne ih =>
      obtain ⟨taken, noise, rfl, hheard⟩ := ih h
      refine ⟨.byte 0xAA :: .byte next :: taken, 0xAA :: next :: noise, rfl, ?_⟩
      rw [List.cons_append, List.cons_append, ← hheard]
      rfl
  | case7 b input hne ih =>
      obtain ⟨taken, noise, rfl, hheard⟩ := ih h
      refine ⟨.byte b :: taken, b :: noise, rfl, ?_⟩
      rw [List.cons_append, ← hheard]
      rfl

/-- What `Receive` has read when it returns 0. -/
theorem receive_cases {header : DmqHeader} {is : List (BitVec 8)} {input rest : List Input}
    {r : Reception} (hr : receive header is input = (r, rest)) (hresult : r.result = 0) :
    ∃ bs buffer crc afterSync afterHeader afterBuffer,
      sync input = (true, afterSync) ∧ readExact false 6 afterSync = (some bs, afterHeader) ∧
      let headerBuf := 0xAA :: 0x55 :: bs
      let h := deserialize headerBuf
      h.marker = 0xAA55 ∧ h.length.toNat ≤ bufferSize ∧
      readExact false h.length.toNat afterHeader = (some buffer, afterBuffer) ∧
      readExact false 2 afterBuffer = (some crc, rest) ∧
      crc = bytes (crc16CalcBlock buffer (crc16CalcBlock headerBuf 0xFFFF)) ∧
      r = ⟨0, h, is ++ buffer, some (answer h)⟩ := by
  rw [receive] at hr
  split at hr
  · cases hr; contradiction
  · next hsync =>
      split at hr
      · cases hr; contradiction
      · next hheader =>
          dsimp only at hr
          split at hr
          · cases hr; contradiction
          · next hmarker =>
              split at hr
              · cases hr; contradiction
              · next hsize =>
                  split at hr
                  · cases hr; contradiction
                  · next hbuffer =>
                      split at hr
                      · cases hr; contradiction
                      · next hcrc =>
                          split at hr
                          · cases hr; contradiction
                          · next hcheck =>
                              cases hr
                              exact ⟨_, _, _, _, _, _, hsync, hheader, not_not.mp hmarker,
                                Nat.le_of_not_lt hsize, hbuffer, hcrc, not_not.mp hcheck, rfl⟩

/-- Whatever comes in, what is received is a packet as `Send` writes it, and
`Receive` has read no further. -/
theorem serial_sound {header : DmqHeader} {is : List (BitVec 8)} {input rest : List Input}
    {r : Reception} (hr : receive header is input = (r, rest)) (hresult : r.result = 0) :
    ∃ taken noise packet payload, input = taken ++ rest ∧ heard taken = noise ++ packet ∧
      send r.header payload = some packet ∧ r.header.marker = 0xAA55 ∧
      r.header.length = BitVec.ofNat 16 payload.length ∧ payload.length ≤ bufferSize ∧
      r.is = is ++ payload ∧ r.answer = some (answer r.header) := by
  obtain ⟨bs, payload, crc, _, _, _, hsync, hheader, hmarker, hsize, hpayload, hcrc, hcheck, rfl⟩ :=
    receive_cases hr hresult
  obtain ⟨taken₁, noise, rfl, hheard₁⟩ := sync_sound hsync
  obtain ⟨hlen₂, taken₂, rfl, hheard₂⟩ := readExact_sound hheader
  obtain ⟨hlen₃, taken₃, rfl, hheard₃⟩ := readExact_sound hpayload
  obtain ⟨-, taken₄, rfl, hheard₄⟩ := readExact_sound hcrc
  have hserialize : serialize (deserialize (0xAA :: 0x55 :: bs)) = 0xAA :: 0x55 :: bs :=
    serialize_deserialize (by simp [hlen₂])
  generalize deserialize (0xAA :: 0x55 :: bs) = h at *
  have hlen : h.length = BitVec.ofNat 16 payload.length := by
    rw [hlen₃, BitVec.ofNat_toNat, BitVec.setWidth_eq]
  have hsend : send h payload =
      some (packetWithoutCrc h payload ++ crcOf (packetWithoutCrc h payload)) := by
    rw [send, if_neg (by rw [hlen₃]; exact Nat.not_lt.mpr (hsize.trans (by decide)))]
    simp only [← hlen]
  refine ⟨taken₁ ++ taken₂ ++ taken₃ ++ taken₄, noise, _, payload, by simp, ?_, hsend, hmarker,
    hlen, hlen₃ ▸ hsize, rfl, rfl⟩
  have hcrcOf : crc = crcOf (packetWithoutCrc h payload) := by
    rw [hcheck, crcOf, packetWithoutCrc, hserialize]
    simp only [crc16CalcBlock, List.foldl_append]
  rw [← hcrcOf]
  simp only [heard_append, hheard₁, hheard₂, hheard₃, hheard₄, packetWithoutCrc, hserialize,
    List.append_assoc, List.cons_append, List.nil_append]

/-- A packet of one byte that comes in two parts, after noise with a silence in
it; more comes behind it. -/
def noisyLine : List Input :=
  let packet := ((send ⟨0xAA55, 0, 7, 0⟩ [0x48]).getD []).map .byte
  [.byte 0x00, .byte 0xAA, .silence] ++ packet.take 4 ++ [.silence] ++ packet.drop 4 ++
    [.byte 0xAA, .silence]

/-- An acknowledgement is received from it; the rest stays on the line. -/
theorem serial_sound_ack : ∃ taken noise packet payload,
    noisyLine = taken ++ [.byte 0xAA, .silence] ∧ heard taken = noise ++ packet ∧
      send ⟨0xAA55, 0, 7, 1⟩ payload = some packet ∧ payload.length ≤ bufferSize ∧
      [0x48] = payload := by
  have hr : receive {} [] noisyLine =
      (⟨0, ⟨0xAA55, 0, 7, 1⟩, [0x48], some (.remove 7)⟩, [.byte 0xAA, .silence]) := by decide
  obtain ⟨taken, noise, packet, payload, htaken, hheard, hsend, -, -, hsize, his, -⟩ :=
    serial_sound hr rfl
  exact ⟨taken, noise, packet, payload, htaken, hheard, hsend, hsize, his⟩

/-! ## Errors -/

/-- A word is known by its bytes. -/
theorem bytes_injective {v v' : BitVec 16} (h : bytes v = bytes v') : v = v' := by
  have hbytes : v.setWidth 8 = v'.setWidth 8 ∧ (v >>> 8).setWidth 8 = (v' >>> 8).setWidth 8 := by
    simpa [bytes] using h
  rw [← ofBytes_bytes v, hbytes.1, hbytes.2, ofBytes_bytes]

/-- A packet whose bits differ from those sent in a burst of at most 16, but not
in the marker and the length, is not received. -/
theorem serial_burst_rejected {h h' : DmqHeader} {payload payload' : List (BitVec 8)}
    {before u v after : List Bool}
    (hbits : toBits (packetWithoutCrc h payload) = before ++ u ++ after)
    (hbits' : toBits (packetWithoutCrc h' payload') = before ++ v ++ after)
    (hlen : u.length = v.length) (hburst : u.length ≤ 16) (hne : u ≠ v)
    (hmarker : h'.marker = 0xAA55) (hlength : payload'.length = h'.length.toNat)
    (hsize : payload'.length ≤ bufferSize) {noise : List (BitVec 8)} (hnoise : 0xAA ∉ noise)
    (header : DmqHeader) (is : List (BitVec 8)) (rest : List Input) :
    receive header is ((noise ++ packetWithoutCrc h' payload' ++
        crcOf (packetWithoutCrc h payload)).map .byte ++ rest) =
      (⟨-1, h', is ++ payload', none⟩, rest) := by
  have hcrc : crcOf (packetWithoutCrc h payload) ≠ crcOf (packetWithoutCrc h' payload') := by
    intro heq
    have hcheck := bytes_injective heq
    rw [crc16CalcBlock_eq_bits, crc16CalcBlock_eq_bits, hbits, hbits'] at hcheck
    exact Crc.bits_ne_of_burst poly poly_odd _ before after hlen hburst hne hcheck
  rw [receive_packet hmarker hnoise header is hlength hsize (length_crcOf _), if_neg hcrc]

/-- One bit of the payload is wrong. -/
theorem serial_burst_rejected_bit :
    receive {} [] (([] ++ packetWithoutCrc ⟨0xAA55, 1, 7, 1⟩ [0x43] ++
        crcOf (packetWithoutCrc ⟨0xAA55, 1, 7, 1⟩ [0x41])).map .byte ++ []) =
      (⟨-1, ⟨0xAA55, 1, 7, 1⟩, [0x43], none⟩, []) := by
  have hbits (b : BitVec 8) : toBits (packetWithoutCrc ⟨0xAA55, 1, 7, 1⟩ [b]) =
      toBits (serialize ⟨0xAA55, 1, 7, 1⟩) ++ byteBits b ++ [] := rfl
  exact serial_burst_rejected (hbits 0x41) (hbits 0x43) rfl (by decide) (by decide) rfl rfl
    (by decide) (by decide) {} [] []

end Serial

end Remote

end ActiveFsm
