import NovaCore.Common.Types
import NovaCore.Data.Bytes
import Mathlib.Algebra.Order.BigOperators.Group.List

/-!
# Packet framing

A packet is a header, the length of the payload in three bytes and a sequence number, and the
payload.  A payload of `2 ^ 24 - 1` bytes or more has to be split: packets of exactly `2 ^ 24 - 1`
bytes are followed by further ones until a shorter packet, possibly an empty one, ends the payload.

`write_large_payload` splits, but sends nothing for an empty payload.  `write_packet`, which the
server uses for everything it sends, never splits: the header then holds the length modulo `2 ^ 24`.
The command loop reads with `read_packet`, so it takes every packet of a long payload for a command.

## Main definitions

* `PacketCodec` : what can be read, what was written, and the sequence number.
* `PacketCodec.readFullPayload`, `PacketCodec.writeLargePayload` : reading and writing in pieces.
* `PacketCodec.readAll`, `PacketCodec.commandLoop` : what a reader gets out of a stream of bytes.
* `PacketFraming` : both ways of sending are undone by reading.

## Main results

* `PacketCodec.length_of_readAll` : how many bytes payloads take on the wire.
* `packetFraming_iff` : **framing is exact for payloads that are not empty and fit in one packet.**
-/

namespace NovaCore

open List UInt8 Nat

/-- `MAX_PACKET_SIZE`. -/
def maxPacketSize : ℕ := 0xFFFFFF

theorem maxPacketSize_pos : 0 < maxPacketSize := by decide

theorem maxPacketSize_lt : maxPacketSize < 256 ^ 3 := by decide

/-- A packet. -/
structure Packet where
  seq : UInt8
  payload : Bytes
  deriving DecidableEq

/-- The bytes of a packet; the length is cut to 32 bits, then to the three bytes of the header. -/
def Packet.bytes (p : Packet) : Bytes :=
  leBytes 3 (p.payload.length % 2 ^ 32) ++ p.seq :: p.payload

/-- `PacketCodec`: the bytes that can still be read from the stream, the packets written to it, and
the sequence number.  Writing to the stream does not fail. -/
structure PacketCodec where
  input : Bytes
  written : List Packet
  seq : UInt8

variable {c c' : PacketCodec} {p : Packet}

namespace PacketCodec

/-- A codec that has written nothing. -/
def fresh (seq : UInt8) : PacketCodec := ⟨[], [], seq⟩

/-- A codec that reads the bytes. -/
def reading (input : Bytes) : PacketCodec := ⟨input, [], 0⟩

/-- The bytes written to the stream. -/
def bytes (c : PacketCodec) : Bytes := c.written.flatMap Packet.bytes

/-! ### Reading -/

/-- `read_packet`. -/
def readPacket (c : PacketCodec) : Except NovaError (Packet × PacketCodec) :=
  match c.input with
  | b₀ :: b₁ :: b₂ :: seq :: rest =>
    let len := ofLe [b₀, b₁, b₂]
    if rest.length < len then .error (.internal "read packet payload failed: early eof")
    else .ok (⟨seq, rest.take len⟩, { c with input := rest.drop len, seq := seq + 1 })
  | _ => .error (.internal "read packet header failed: early eof")

/-- A packet takes its payload and four bytes. -/
theorem length_of_readPacket (h : c.readPacket = .ok (p, c')) :
    c.input.length = c'.input.length + p.payload.length + 4 := by
  unfold readPacket at h
  split at h
  · next b0 b1 b2 seq rest heq =>
    dsimp only at h
    split_ifs at h with hlen
    cases h
    simp only [heq, length_cons, length_drop, length_take]
    omega
  · cases h

/-- Three bytes hold no more than the largest length. -/
theorem length_payload_le (h : c.readPacket = .ok (p, c')) : p.payload.length ≤ maxPacketSize := by
  unfold readPacket at h
  split at h
  · next b0 b1 b2 seq rest heq =>
    dsimp only at h
    split_ifs at h with hlen
    cases h
    have hlt := ofLe_lt [b0, b1, b2]
    have hmax : maxPacketSize + 1 = 256 ^ 3 := rfl
    simp only [length_cons, length_nil, zero_add, Nat.reduceAdd] at hlt
    simp only [length_take]
    omega
  · cases h

/-- `read_full_payload`. -/
def readFullPayload (c : PacketCodec) : Except NovaError (Bytes × PacketCodec) :=
  match _hread : c.readPacket with
  | .error e => .error e
  | .ok (packet, c') =>
    if packet.payload.length < maxPacketSize then .ok (packet.payload, c')
    else match c'.readFullPayload with
      | .error e => .error e
      | .ok (rest, c'') => .ok (packet.payload ++ rest, c'')
termination_by c.input.length
decreasing_by
  have := length_of_readPacket _hread
  omega

/-- A full payload takes four bytes for each of its packets. -/
theorem length_of_readFullPayload {p : Bytes} (h : c.readFullPayload = .ok (p, c')) :
    c'.input.length + p.length + 4 * (p.length / maxPacketSize + 1) ≤ c.input.length := by
  fun_induction readFullPayload c generalizing p c' with
  | case1 | case3 => cases h
  | case2 c packet c1 hread hshort =>
    cases h
    have hlen := length_of_readPacket hread
    rw [div_eq_of_lt hshort]
    omega
  | case4 c packet c1 hread hlong rest c2 hrest ih =>
    cases h
    have hlen := length_of_readPacket hread
    have hfull : packet.payload.length = maxPacketSize :=
      le_antisymm (length_payload_le hread) (not_lt.1 hlong)
    have ih := ih hrest
    rw [length_append, hfull, add_div_left _ maxPacketSize_pos]
    omega

/-- Repeated `read_full_payload`, until it fails. -/
def readAll (c : PacketCodec) : List Bytes :=
  match _hread : c.readFullPayload with
  | .error _ => []
  | .ok (p, c') => p :: c'.readAll
termination_by c.input.length
decreasing_by
  have := length_of_readFullPayload _hread
  have := Nat.zero_le (p.length / maxPacketSize)
  omega

/-- The command loop of `handle_connection`: the payloads it takes for commands.  It ends when no
packet can be read, at an empty packet, and behind COM_QUIT. -/
def commandLoop (c : PacketCodec) : List Bytes :=
  match _hread : c.readPacket with
  | .error _ => []
  | .ok (packet, c') =>
    match packet.payload with
    | [] => []
    | command :: _ =>
      if command = 0x01 then [packet.payload]
      else packet.payload :: { c' with seq := 0 }.commandLoop
termination_by c.input.length
decreasing_by
  have := length_of_readPacket _hread
  omega

/-! ### Writing -/

/-- `write_packet_with_seq`. -/
def writePacketWithSeq (c : PacketCodec) (payload : Bytes) (seq : UInt8) : PacketCodec :=
  { c with written := c.written ++ [⟨seq, payload⟩], seq := seq + 1 }

/-- `write_packet`. -/
def writePacket (c : PacketCodec) (payload : Bytes) : PacketCodec :=
  c.writePacketWithSeq payload c.seq

/-- The loop of `write_large_payload` over the rest of the payload. -/
def writeChunks (c : PacketCodec) (payload : Bytes) (seq : UInt8) : PacketCodec :=
  if payload = [] then c
  else
    let chunk := payload.take maxPacketSize
    let rest := payload.drop maxPacketSize
    let c := c.writePacketWithSeq chunk seq
    if chunk.length = maxPacketSize ∧ rest = [] then c.writePacketWithSeq [] (seq + 1)
    else writeChunks c rest (seq + 1)
termination_by payload.length
decreasing_by
  have := maxPacketSize_pos
  have := List.length_pos_iff.2 ‹¬payload = []›
  simp only [List.length_drop]
  omega

/-- `write_large_payload`. -/
def writeLargePayload (c : PacketCodec) (payload : Bytes) : PacketCodec :=
  c.writeChunks payload c.seq

/-! ### Reading what was written -/

/-- A packet that is not too long is read back. -/
theorem readPacket_bytes (hp : p.payload.length ≤ maxPacketSize) (rest : Bytes)
    (written : List Packet) (seq : UInt8) :
    readPacket ⟨p.bytes ++ rest, written, seq⟩ = .ok (p, ⟨rest, written, p.seq + 1⟩) := by
  have hmax := maxPacketSize_lt
  have hmod : p.payload.length % 2 ^ 32 = p.payload.length := mod_eq_of_lt (by omega)
  have hlen : ofLe (leBytes 3 p.payload.length) = p.payload.length := by
    rw [ofLe_leBytes, mod_eq_of_lt (by omega)]
  simp only [leBytes] at hlen
  simp only [readPacket, Packet.bytes, hmod, leBytes, cons_append, nil_append, hlen]
  rw [if_neg (by simp), take_left' rfl, drop_left' rfl]

/-- The packets `ps` are read back as the payload `p`, whatever follows them. -/
def Decodes (p : Bytes) (ps : List Packet) : Prop :=
  ∀ rest written seq, ∃ seq',
    readFullPayload ⟨ps.flatMap Packet.bytes ++ rest, written, seq⟩ = .ok (p, ⟨rest, written, seq'⟩)

theorem decodes_singleton (hp : p.payload.length < maxPacketSize) : Decodes p.payload [p] := by
  intro rest written seq
  refine ⟨p.seq + 1, ?_⟩
  rw [flatMap_singleton, readFullPayload]
  split
  · next e hread =>
    rw [readPacket_bytes hp.le] at hread
    cases hread
  · next packet c' hread =>
    rw [readPacket_bytes hp.le] at hread
    cases hread
    rw [if_pos hp]

theorem Decodes.cons {p : Packet} {q : Bytes} {ps : List Packet}
    (hp : p.payload.length = maxPacketSize) (hq : Decodes q ps) :
    Decodes (p.payload ++ q) (p :: ps) := by
  intro rest written seq
  obtain ⟨seq', hrest⟩ := hq rest written (p.seq + 1)
  refine ⟨seq', ?_⟩
  rw [flatMap_cons, append_assoc, readFullPayload]
  split
  · next e hread =>
    rw [readPacket_bytes hp.le] at hread
    cases hread
  · next packet c' hread =>
    rw [readPacket_bytes hp.le] at hread
    cases hread
    rw [if_neg (by simp [hp]), hrest]

theorem readAll_of_decodes {p : Bytes} {ps : List Packet} (hp : Decodes p ps) (rest : Bytes)
    (written : List Packet) (seq : UInt8) : ∃ seq',
    readAll ⟨ps.flatMap Packet.bytes ++ rest, written, seq⟩ =
      p :: readAll ⟨rest, written, seq'⟩ := by
  obtain ⟨seq', hread⟩ := hp rest written seq
  refine ⟨seq', ?_⟩
  rw [readAll]
  split
  · next e herr =>
    rw [hread] at herr
    cases herr
  · next p' c' hok =>
    rw [hread] at hok
    cases hok
    rfl

theorem readAll_nil (written : List Packet) (seq : UInt8) : readAll ⟨[], written, seq⟩ = [] := by
  rw [readAll]
  split
  · rfl
  · next p c' hread =>
    have hlen := length_of_readFullPayload hread
    simp at hlen

/-- The bytes that payloads read from a stream take in it. -/
theorem length_of_readAll (c : PacketCodec) :
    ((readAll c).map fun p => p.length + 4 * (p.length / maxPacketSize + 1)).sum ≤
      c.input.length := by
  fun_induction readAll c with
  | case1 => simp
  | case2 c p c' hread ih =>
    have hlen := length_of_readFullPayload hread
    simp only [map_cons, sum_cons]
    omega

/-! ### Sequence numbers -/

/-- The sequence numbers of the packets go up by one, modulo 256, from `seq` on. -/
def Numbered : UInt8 → List Packet → Prop
  | _, [] => True
  | seq, p :: ps => p.seq = seq ∧ Numbered (seq + 1) ps

theorem numbered_append {seq : UInt8} {ps qs : List Packet} : Numbered seq (ps ++ qs) ↔
      Numbered seq ps ∧ Numbered (seq + ofNat ps.length) qs := by
  induction ps generalizing seq with
  | nil => simp [Numbered]
  | cons p ps ih =>
    have hseq : seq + 1 + ofNat ps.length = seq + ofNat (ps.length + 1) := by
      rw [ofNat_add, UInt8.add_comm (ofNat ps.length), UInt8.add_assoc]
      rfl
    simp only [cons_append, Numbered, ih, length_cons, hseq, and_assoc]

/-- Sending a payload appends packets with the next sequence numbers; `D` says which. -/
def Sends (D : Bytes → List Packet → Prop) (write : PacketCodec → Bytes → PacketCodec) : Prop :=
  ∀ c p, ∃ ps, (write c p).written = c.written ++ ps ∧ Numbered c.seq ps ∧
    (write c p).seq = c.seq + UInt8.ofNat ps.length ∧ D p ps

/-- **Sending payloads one after the other.** -/
theorem Sends.foldl {D : Bytes → List Packet → Prop} {write : PacketCodec → Bytes → PacketCodec}
    (hwrite : Sends D write) (payloads : List Bytes) (c : PacketCodec) :
    ∃ pss, (payloads.foldl write c).written = c.written ++ pss.flatten ∧
      Numbered c.seq pss.flatten ∧ List.Forall₂ D payloads pss := by
  induction payloads generalizing c with
  | nil => exact ⟨[], by simp, trivial, .nil⟩
  | cons p payloads ih =>
    obtain ⟨ps, hps, hnum, hseq, hD⟩ := hwrite c p
    obtain ⟨pss, hpss, hnums, hDs⟩ := ih (write c p)
    refine ⟨ps :: pss, ?_, ?_, .cons hD hDs⟩
    · rw [foldl_cons, hpss, hps, append_assoc, flatten_cons]
    · rw [flatten_cons, numbered_append]
      exact ⟨hnum, hseq ▸ hnums⟩

theorem sends_writePacket : Sends (fun p ps => ∃ seq, ps = [⟨seq, p⟩]) writePacket :=
  fun c p => ⟨[⟨c.seq, p⟩], rfl, ⟨rfl, trivial⟩, rfl, c.seq, rfl⟩

/-- The packets of a payload that is split. -/
theorem writeChunks_spec {c : PacketCodec} {p : Bytes} {seq : UInt8} (hseq : c.seq = seq) :
    ∃ ps, (writeChunks c p seq).written = c.written ++ ps ∧ Numbered seq ps ∧
      (writeChunks c p seq).seq = seq + ofNat ps.length ∧ (p = [] → ps = []) ∧
      (p ≠ [] → Decodes p ps) := by
  fun_induction writeChunks c p seq with
  | case1 c seq =>
    exact ⟨[], by simp, trivial, by simp [hseq], fun _ => rfl, fun h => (h rfl).elim⟩
  | case2 c p seq hne chunk rest c' hlast =>
    -- a last chunk of the largest size is followed by an empty packet
    obtain ⟨hfull, hrest⟩ := hlast
    have hp : p = chunk ++ [] := by
      rw [← hrest]
      exact (take_append_drop _ _).symm
    refine ⟨[⟨seq, chunk⟩, ⟨seq + 1, []⟩], ?_, ⟨rfl, rfl, trivial⟩, ?_, fun h => (hne h).elim,
      fun _ => ?_⟩
    · simp [writePacketWithSeq, c']
    · exact UInt8.add_assoc _ _ _
    · rw [hp]
      exact .cons hfull (decodes_singleton maxPacketSize_pos)
  | case3 c p seq hne chunk rest c' hlast ih =>
    obtain ⟨ps, hps, hnum, hend, hnil, hdec⟩ := ih rfl
    have hp : p = chunk ++ rest := (take_append_drop _ _).symm
    refine ⟨⟨seq, chunk⟩ :: ps, ?_, ⟨rfl, hnum⟩, ?_, fun h => (hne h).elim, fun _ => ?_⟩
    · rw [hps]
      simp [writePacketWithSeq, c']
    · rw [hend, length_cons, ofNat_add, UInt8.add_comm (ofNat ps.length), UInt8.add_assoc]
      rfl
    · have hchunk : chunk.length = min maxPacketSize p.length := length_take
      by_cases hrest : rest = []
      · obtain rfl := hnil hrest
        rw [hp, hrest, append_nil]
        refine decodes_singleton ?_
        have hneq : chunk.length ≠ maxPacketSize := fun h => hlast ⟨h, hrest⟩
        change chunk.length < maxPacketSize
        omega
      · have hlt : maxPacketSize < p.length := by
          by_contra hge
          exact hrest (drop_eq_nil_of_le (not_lt.1 hge))
        rw [hp]
        exact .cons (by change chunk.length = _; omega) (hdec hrest)

theorem sends_writeLargePayload :
    Sends (fun p ps => (p = [] → ps = []) ∧ (p ≠ [] → Decodes p ps)) writeLargePayload :=
  fun _ _ => writeChunks_spec rfl

/-! ### What arrives -/

variable {payloads : List Bytes} {pss : List (List Packet)}

/-- Split payloads arrive, except empty ones. -/
theorem readAll_of_large
    (h : List.Forall₂ (fun p ps => (p = [] → ps = []) ∧ (p ≠ [] → Decodes p ps)) payloads pss)
    (written : List Packet) (seq : UInt8) :
    readAll ⟨pss.flatten.flatMap Packet.bytes, written, seq⟩ = payloads.filter fun p => p ≠ [] := by
  induction h generalizing seq with
  | nil => exact readAll_nil _ _
  | @cons p ps payloads pss hp _ ih =>
    rw [flatten_cons, flatMap_append]
    by_cases hne : p = []
    · rw [hp.1 hne, hne]
      simpa using ih seq
    · obtain ⟨seq', hread⟩ := readAll_of_decodes (hp.2 hne) (pss.flatten.flatMap Packet.bytes)
        written seq
      rw [hread, ih]
      simp [hne]

/-- The length of what `write_packet` sends. -/
theorem length_bytes_of_packets
    (h : List.Forall₂ (fun p ps => ∃ seq, ps = [(⟨seq, p⟩ : Packet)]) payloads pss) :
    (pss.flatten.flatMap Packet.bytes).length = (payloads.map fun p => p.length + 4).sum := by
  induction h with
  | nil => rfl
  | @cons p ps payloads pss hp _ ih =>
    obtain ⟨seq, rfl⟩ := hp
    rw [flatten_cons, flatMap_append, length_append, ih]
    simp [Packet.bytes]
    omega

/-- Payloads that take no more bytes than they are sent with fit in one packet each. -/
theorem length_lt_of_sum_le
    (h : (payloads.map fun p => p.length + 4 * (p.length / maxPacketSize + 1)).sum ≤
      (payloads.map fun p => p.length + 4).sum) : ∀ p ∈ payloads, p.length < maxPacketSize := by
  have hle : ∀ payloads : List Bytes, (payloads.map fun p => p.length + 4).sum ≤
      (payloads.map fun p => p.length + 4 * (p.length / maxPacketSize + 1)).sum := by
    intro payloads
    refine sum_le_sum fun p _ => ?_
    have := zero_le (p.length / maxPacketSize)
    omega
  induction payloads with
  | nil => simp
  | cons q payloads ih =>
    have hrest := hle payloads
    simp only [map_cons, sum_cons] at h
    rintro p (_ | ⟨_, hp⟩)
    · have hzero : q.length / maxPacketSize = 0 := by
        generalize q.length / maxPacketSize = d at h ⊢
        omega
      exact (div_eq_zero_iff_lt maxPacketSize_pos).1 hzero
    · refine ih ?_ p hp
      generalize q.length / maxPacketSize = d at h
      omega

/-- A payload that is not empty and fits in one packet is not split. -/
theorem writeLargePayload_eq (c : PacketCodec) {p : Bytes} (hne : p ≠ [])
    (hlt : p.length < maxPacketSize) : writeLargePayload c p = writePacket c p := by
  have htake : p.take maxPacketSize = p := take_of_length_le hlt.le
  have hdrop : p.drop maxPacketSize = [] := drop_eq_nil_of_le hlt.le
  rw [writeLargePayload, writeChunks, if_neg hne, htake, hdrop]
  rw [if_neg fun h => hlt.ne h.1, writeChunks]
  rfl

/-- The payloads up to the first that is COM_QUIT. -/
def untilQuit : List Bytes → List Bytes
  | [] => []
  | p :: ps => if p.head? = some 0x01 then [p] else p :: untilQuit ps

theorem commandLoop_of_packets
    (h : List.Forall₂ (fun p ps => ∃ seq, ps = [(⟨seq, p⟩ : Packet)]) payloads pss)
    (hfit : ∀ p ∈ payloads, p ≠ [] ∧ p.length < maxPacketSize) (written : List Packet)
    (seq : UInt8) :
    commandLoop ⟨pss.flatten.flatMap Packet.bytes, written, seq⟩ = untilQuit payloads := by
  induction h generalizing seq with
  | nil =>
    rw [commandLoop]
    split
    · rfl
    · next hread => cases hread
  | @cons p ps payloads pss hp _ ih =>
    obtain ⟨seq', rfl⟩ := hp
    obtain ⟨hne, hlt⟩ := hfit p mem_cons_self
    have ih := ih fun q hq => hfit q (mem_cons_of_mem _ hq)
    have hpacket := readPacket_bytes (p := ⟨seq', p⟩) hlt.le (pss.flatten.flatMap Packet.bytes)
      written seq
    rw [flatten_cons, flatMap_append, flatMap_singleton, commandLoop]
    split
    · next e hread =>
      rw [hpacket] at hread
      cases hread
    · next packet c' hread =>
      rw [hpacket] at hread
      cases hread
      cases p with
      | nil => exact (hne rfl).elim
      | cons command body =>
        simp only [untilQuit, head?_cons, Option.some.injEq]
        split_ifs with hquit
        · rfl
        · rw [ih]

end PacketCodec

open PacketCodec

/-- What is sent arrives: by `write_packet` and by `write_large_payload`, with sequence numbers that
go up by one, and in the command loop as one command for each payload. -/
structure PacketFraming (seq : UInt8) (payloads : List Bytes) : Prop where
  packet : (reading (payloads.foldl writePacket (fresh seq)).bytes).readAll = payloads
  packet_seq : Numbered seq (payloads.foldl writePacket (fresh seq)).written
  large : (reading (payloads.foldl writeLargePayload (fresh seq)).bytes).readAll = payloads
  large_seq : Numbered seq (payloads.foldl writeLargePayload (fresh seq)).written
  command : (reading (payloads.foldl writeLargePayload (fresh seq)).bytes).commandLoop =
    untilQuit payloads

/-- What is sent by `write_large_payload` arrives, apart from empty payloads. -/
theorem readAll_writeLargePayload (seq : UInt8) (payloads : List Bytes) :
    (reading (payloads.foldl writeLargePayload (fresh seq)).bytes).readAll =
      payloads.filter fun p => p ≠ [] := by
  obtain ⟨qss, hqss, -, hlarge⟩ := sends_writeLargePayload.foldl payloads (fresh seq)
  have hbytes : (payloads.foldl writeLargePayload (fresh seq)).bytes =
      qss.flatten.flatMap Packet.bytes := congrArg (flatMap Packet.bytes) hqss
  rw [hbytes]
  exact readAll_of_large hlarge _ _

/-- What arrives as it was sent is not empty and fits in one packet. -/
theorem PacketFraming.fits {seq : UInt8} {payloads : List Bytes} (h : PacketFraming seq payloads) :
    ∀ p ∈ payloads, p ≠ [] ∧ p.length < maxPacketSize := by
  intro p hp
  constructor
  · have hkept := (readAll_writeLargePayload seq payloads).symm.trans h.large
    simpa using filter_eq_self.1 hkept p hp
  · -- the payloads would not fit into the bytes otherwise
    obtain ⟨pss, hpss, -, hpackets⟩ := sends_writePacket.foldl payloads (fresh seq)
    have hbytes : (payloads.foldl writePacket (fresh seq)).bytes =
        pss.flatten.flatMap Packet.bytes := congrArg (flatMap Packet.bytes) hpss
    have hlen := length_of_readAll (reading (payloads.foldl writePacket (fresh seq)).bytes)
    rw [h.packet] at hlen
    have hsum : (reading (payloads.foldl writePacket (fresh seq)).bytes).input.length =
        (payloads.map fun p => p.length + 4).sum := by
      rw [← length_bytes_of_packets hpackets, ← hbytes]
      rfl
    exact length_lt_of_sum_le (hlen.trans hsum.le) p hp

/-- **Packet framing.**  Payloads arrive as they were sent exactly if none of them is empty or too
long for one packet. -/
theorem packetFraming_iff (seq : UInt8) (payloads : List Bytes) :
    PacketFraming seq payloads ↔ ∀ p ∈ payloads, p ≠ [] ∧ p.length < maxPacketSize := by
  refine ⟨PacketFraming.fits, fun hfit => ?_⟩
  obtain ⟨pss, hpss, hnum, hpackets⟩ := sends_writePacket.foldl payloads (fresh seq)
  obtain ⟨qss, hqss, hqnum, -⟩ := sends_writeLargePayload.foldl payloads (fresh seq)
  have hbytes : (payloads.foldl writePacket (fresh seq)).bytes =
      pss.flatten.flatMap Packet.bytes := congrArg (flatMap Packet.bytes) hpss
  have hsame : payloads.foldl writeLargePayload (fresh seq) =
      payloads.foldl writePacket (fresh seq) :=
    foldl_ext _ _ _ fun c p hp => writeLargePayload_eq c (hfit p hp).1 (hfit p hp).2
  have hread := readAll_writeLargePayload seq payloads
  rw [filter_eq_self.2 fun p hp => by simpa using (hfit p hp).1] at hread
  refine ⟨hsame ▸ hread, hpss ▸ hnum, hread, hqss ▸ hqnum, ?_⟩
  rw [hsame, hbytes]
  exact commandLoop_of_packets hpackets hfit _ _

/-- An empty payload is lost by `write_large_payload`; a payload of `2 ^ 24 - 1` bytes does not
arrive when it is sent by `write_packet`. -/
theorem packetFraming_fails :
    (reading ([[]].foldl writeLargePayload (fresh 0)).bytes).readAll = [] ∧
      ¬PacketFraming 0 [[]] ∧ ¬PacketFraming 0 [List.replicate 0xFFFFFF 0] := by
  refine ⟨readAll_writeLargePayload 0 [[]], fun h => ?_, fun h => ?_⟩
  · exact (h.fits [] mem_cons_self).1 rfl
  · have hlt := (h.fits _ mem_cons_self).2
    rw [length_replicate] at hlt
    exact lt_irrefl _ hlt

end NovaCore
