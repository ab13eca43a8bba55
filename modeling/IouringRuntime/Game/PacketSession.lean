import IouringRuntime.Core.RecvBuffer

/-!
# Packet sessions

A packet is a 16-bit total size, a 16-bit id and a payload, little-endian as on
the host. `PacketBuilder::Build` writes one into a send buffer.
`PacketSession::OnRecv` parses complete packets in the received chunk itself and
puts the beginning of an incomplete one into `recv_buffer_`, where the next
chunks complete it.

`OnPacket` is user code; it is recorded and takes no part in the parsing. The
span that is left of a chunk stands for the chunk and `offset`.
-/

namespace IouringRuntime

structure Packet where
  id : UInt16
  payload : Bytes
  deriving DecidableEq, Repr

namespace PacketBuilder

def kHeaderSize : Nat := 4

def kMaxPacketSize : Nat := 65535

/-- `memcpy` of a 16-bit value. -/
def writeLe16 (v : UInt16) : Bytes := [UInt8.ofNat (v.toNat % 256), UInt8.ofNat (v.toNat / 256)]

/-- `allocated` and `serialized` are what `pool.Allocate` and
`SerializeToArray` answer. -/
def build (allocated serialized : Bool) (p : Packet) : Option Bytes :=
  let payloadSize := u32 p.payload.length
  let totalSize := u32 (kHeaderSize + payloadSize)
  if kMaxPacketSize < totalSize then none
  else if !allocated then none
  else if payloadSize ≠ 0 ∧ !serialized then none
  else some (writeLe16 (UInt16.ofNat totalSize) ++ writeLe16 p.id ++ p.payload)

end PacketBuilder

open PacketBuilder

/-- Why `PacketSession` calls `Disconnect`. -/
inductive PacketClose where
  | recvBufferOverflow
  | invalidPacketSize
  deriving DecidableEq, Repr

structure PacketSession where
  recvBuffer : RecvBuffer := .make 65536
  /-- The `OnPacket` calls. -/
  packets : List Packet := []
  /-- The first `Disconnect` call. -/
  closed : Option PacketClose := none
  deriving DecidableEq, Repr

namespace PacketSession

def readLe16 : Bytes → UInt16
  | a :: b :: _ => UInt16.ofNat (a.toNat + 256 * b.toNat)
  | _ => 0

def disconnect (s : PacketSession) (cause : PacketClose) : PacketSession :=
  { s with closed := s.closed.or (some cause) }

def onPacket (s : PacketSession) (id : UInt16) (payload : Bytes) : PacketSession :=
  { s with packets := s.packets ++ [⟨id, payload⟩] }

def appendToRecvBuffer (s : PacketSession) (data : Bytes) : PacketSession × Bool :=
  if data.isEmpty then (s, true)
  else
    let r := s.recvBuffer.append data
    let s := { s with recvBuffer := r.1 }
    if r.2 then (s, true) else (s.disconnect .recvBufferOverflow, false)

def validatePacketSize (s : PacketSession) (packetSize : Nat) : PacketSession × Bool :=
  if kHeaderSize ≤ packetSize ∧ packetSize ≤ kMaxPacketSize then (s, true)
  else (s.disconnect .invalidPacketSize, false)

/-- Copy up to `needed` bytes of the span into the buffer. -/
def fill (s : PacketSession) (data : Bytes) (needed : Nat) : PacketSession × Bytes × Bool :=
  let copied := min needed data.length
  let r := s.appendToRecvBuffer (data.take copied)
  if r.2 then (r.1, data.drop copied, true) else (r.1, data, false)

/-- `CompleteBufferedPacket` once the header is in the buffer. -/
def completePacket (s : PacketSession) (data : Bytes) : PacketSession × Bytes × Bool :=
  let packetSize := (readLe16 s.recvBuffer.readRegion).toNat
  let v := s.validatePacketSize packetSize
  if !v.2 then (v.1, data, false)
  else
    let r := v.1.fill data (sub32 packetSize v.1.recvBuffer.readableSize)
    let s := r.1
    if !r.2.2 then r
    else if s.recvBuffer.readableSize < packetSize then r
    else
      let packet := s.recvBuffer.readRegion
      let s := s.onPacket (readLe16 (packet.drop 2))
        ((packet.drop kHeaderSize).take (packetSize - kHeaderSize))
      ({ s with recvBuffer := s.recvBuffer.onRead packetSize }, r.2.1, true)

/-- What is left of the span, and whether to go on. -/
def completeBufferedPacket (s : PacketSession) (data : Bytes) : PacketSession × Bytes × Bool :=
  if s.recvBuffer.readableSize < kHeaderSize then
    let r := s.fill data (sub32 kHeaderSize s.recvBuffer.readableSize)
    if !r.2.2 then r
    else if r.1.recvBuffer.readableSize < kHeaderSize then r
    else r.1.completePacket r.2.1
  else s.completePacket data

/-- The end of `OnRecv`, after its loop. -/
def compactIfNeeded (s : PacketSession) : PacketSession :=
  if s.recvBuffer.shouldCompact then { s with recvBuffer := s.recvBuffer.compact } else s

/-- `AppendToRecvBuffer` of all that is left, and `break`. -/
def keepRest (s : PacketSession) (data : Bytes) : PacketSession :=
  let r := s.appendToRecvBuffer data
  if r.2 then r.1.compactIfNeeded else r.1

/-- The loop of `OnRecv`; `none` when the fuel does not suffice. -/
def onRecvLoop : Nat → PacketSession → Bytes → Option PacketSession
  | 0, _, _ => none
  | fuel + 1, s, data =>
    if data.isEmpty then some s.compactIfNeeded
    else if !s.recvBuffer.isEmpty then
      let r := s.completeBufferedPacket data
      if !r.2.2 then some r.1
      else if !r.1.recvBuffer.isEmpty then some r.1.compactIfNeeded
      else onRecvLoop fuel r.1 r.2.1
    else if data.length < kHeaderSize then some (s.keepRest data)
    else
      let packetSize := (readLe16 data).toNat
      let v := s.validatePacketSize packetSize
      if !v.2 then some v.1
      else if data.length < packetSize then some (s.keepRest data)
      else
        onRecvLoop fuel
          (s.onPacket (readLe16 (data.drop 2))
            ((data.drop kHeaderSize).take (packetSize - kHeaderSize)))
          (data.drop packetSize)

def onRecv (s : PacketSession) (data : Bytes) : Option PacketSession :=
  onRecvLoop (data.length + 1) s data

/-- A received chunk reaches `OnRecv` while the session is open. -/
def feed (s : PacketSession) (chunk : Bytes) : Option PacketSession :=
  if s.closed.isSome then some s else s.onRecv chunk

end PacketSession

end IouringRuntime
