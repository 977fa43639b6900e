import Bsr.Lib.ByteRing

/-!
# The send buffer

The send buffer of a connection is a ring of bytes (`bsr_send_buf.c`). `send_buf` puts what is to be
sent into it with `write_ring_buffer`, the send thread takes it out with `read_ring_buffer`.

* `RingBuffer` is `struct ring_buffer` with the memory behind it;
* `allocBab` and `createRingBuffer` set one up;
* `Access` is a use of the memory behind the ring, or of one of the tables of the ring with a
  counter for each command; every operation returns what it used;
* `addPacketList` and `removePacketList` keep the list of the packets in the buffer.
-/

namespace Bsr.SendBuf

open Lib

def sndbufSizeMin : Nat := 1024 * 1024 * 10

def sndbufSizeMax : Nat := 0xFFFFFFFFFF

def controlBuffSize : Nat := 1024 * 5120

def maxOnetimeSendBuf : Nat := 1024 * 1024 * 10

/-- `P_MAY_IGNORE`, the number of counters in each table. -/
def pMayIgnore : Nat := 0x100

/-- `struct send_buf_packet_info`. -/
structure PacketInfo where
  cmd : Nat
  size : Nat
  deriving DecidableEq, Repr

/-- `struct ring_buffer`. -/
structure RingBuffer where
  /-- The bytes that were allocated behind the structure. -/
  allocated : Nat
  mem : Nat → UInt8
  length : Nat
  readPos : Nat
  writePos : Nat
  lastSendCmd : Nat
  packetList : List PacketInfo

/-- A use of the memory of a ring. -/
inductive Access where
  /-- A copy of `count` bytes from or to `mem + pos`. -/
  | bytes (pos count : Nat)
  /-- `packet_cnt[cmd]` or `packet_size[cmd]`. -/
  | counter (cmd : Nat)
  deriving DecidableEq, Repr

/-- The memory that is used belongs to the ring. -/
def Access.Inside (allocated : Nat) : Access → Prop
  | bytes pos count => pos + count ≤ allocated
  | counter cmd => cmd < pMayIgnore

instance (allocated : Nat) : DecidablePred (Access.Inside allocated)
  | .bytes pos count => inferInstanceAs (Decidable (pos + count ≤ allocated))
  | .counter cmd => inferInstanceAs (Decidable (cmd < pMayIgnore))

/-! ## Setup -/

/-- A ring as `alloc_bab` leaves it, with a cleared structure; `mem` is set later. -/
def allocRing (size : Nat) (garbage : Nat → UInt8) : RingBuffer where
  allocated := size
  mem := garbage
  length := size + 1
  readPos := 0
  writePos := 0
  lastSendCmd := 0
  packetList := []

/-- `alloc_bab`: the rings of the data and of the control stream. -/
def allocBab (sndbufSize : Nat) (garbage : Nat → UInt8) : Option (RingBuffer × RingBuffer) :=
  if sndbufSize = 0 then none
  else if sndbufSize < sndbufSizeMin then none
  else some (allocRing sndbufSize garbage, allocRing controlBuffSize garbage)

variable (ring : RingBuffer)

/-- `create_ring_buffer` on the ring of a stream. -/
def createRingBuffer (length : Nat) : Option RingBuffer :=
  if length = 0 ∨ sndbufSizeMax < length then none
  else some { ring with readPos := 0, writePos := 0, packetList := [] }

/-! ## The list of packets -/

variable (buf : Nat → UInt8)

def be16 (i : Nat) : Nat :=
  (buf i).toNat * 2 ^ 8 + (buf (i + 1)).toNat

def be32 (i : Nat) : Nat :=
  be16 buf i * 2 ^ 16 + be16 buf (i + 2)

/-- `be32_to_cpu` of the two bytes of `p_header95.magic`, on a little-endian machine. -/
def magic95 : Nat :=
  be16 buf 0 * 2 ^ 16

/-- The command and the size of the packet that starts at `buf`; the size is `0` where none
starts. -/
def packetAt (lastSendCmd : Nat) (buf : Nat → UInt8) : PacketInfo :=
  if be32 buf 0 = 0x83740267 then ⟨be16 buf 4, (8 + be16 buf 6) % 2 ^ 32⟩
  else if magic95 buf = 0x835a then ⟨be16 buf 2, (8 + be32 buf 4) % 2 ^ 32⟩
  else if be32 buf 0 = 0x8620ec20 then ⟨be16 buf 6, (16 + be32 buf 8) % 2 ^ 32⟩
  else ⟨lastSendCmd, 0⟩

/-- The part of `add_packet_list` after the header. -/
def addPacket (p : PacketInfo) (allocOk : Bool) : RingBuffer × List Access :=
  if 0 < p.size then
    if allocOk then
      ({ ring with lastSendCmd := p.cmd, packetList := ring.packetList ++ [p] }, [.counter p.cmd, .counter p.cmd])
    else
      -- the list no longer matches the buffer, and starts over
      ({ ring with lastSendCmd := p.cmd, packetList := [] }, [])
  else ({ ring with lastSendCmd := p.cmd }, [.counter p.cmd])

def addPacketList (allocOk : Bool) : RingBuffer × List Access :=
  addPacket ring (packetAt ring.lastSendCmd buf) allocOk

/-- The loop of `remove_packet_list`. -/
def removePackets : List PacketInfo → Nat → List PacketInfo × List Access
  | [], _ => ([], [])
  | p :: rest, length =>
    if p.size ≤ length then
      let r := removePackets rest (length - p.size)
      (r.1, .counter p.cmd :: .counter p.cmd :: r.2)
    else ({ p with size := p.size - length } :: rest, [.counter p.cmd])

def removePacketList (length : Nat) : RingBuffer × List Access :=
  let r := removePackets ring.packetList length
  ({ ring with packetList := r.1 }, r.2)

/-! ## Reading and writing -/

/-- The two copies of a range of the ring, or the one. -/
def copies (length pos count : Nat) : List Access :=
  if length - pos < count then [.bytes pos (length - pos), .bytes 0 (count - (length - pos))]
  else [.bytes pos count]

/-- The bytes in the buffer. -/
def ringbufSize : Nat :=
  held ring.length ring.readPos ring.writePos

/-- The test at the top of `write_ring_buffer`, and in each round of its loop. -/
def congested (len highwater : Nat) : Bool :=
  highwater < ringbufSize ring + len

/-- What the code calls `remain` after `$GO_BUFFERING`: the free bytes. -/
def freeBytes : Nat :=
  (ring.readPos + ring.length - ring.writePos - 1) % ring.length

/-- `$GO_BUFFERING`: the ring, the number of bytes written and the memory used; `none` is
`BUG()`. -/
def goBuffering (len : Nat) (allocOk : Bool) :
    Option (RingBuffer × Nat × List Access) :=
  let len := if freeBytes ring < len then freeBytes ring else len
  if 0 < len then
    let written := { ring with
      mem := putWrapped ring.mem buf ring.length ring.writePos len
      writePos := (ring.writePos + len) % ring.length }
    let added := addPacketList written buf allocOk
    some (added.1, len, copies ring.length ring.writePos len ++ added.2)
  else none

/-- The number of bytes that one read takes. -/
def txSz : Nat :=
  if maxOnetimeSendBuf < ringbufSize ring then maxOnetimeSendBuf else ringbufSize ring

/-- `read_ring_buffer`: the ring, the bytes and the memory used; `none` when the buffer is empty. -/
def readRingBuffer : Option (RingBuffer × List UInt8 × List Access) :=
  if ringbufSize ring = 0 then none
  else
    let removed := removePacketList { ring with readPos := (ring.readPos + txSz ring) % ring.length } (txSz ring)
    some (removed.1, takeWrapped ring.mem ring.length ring.readPos (txSz ring),
      copies ring.length ring.readPos (txSz ring) ++ removed.2)

/-- The mark that `send_buf` passes on. -/
def highwater : Nat :=
  ring.length * 99 / 100

end Bsr.SendBuf
