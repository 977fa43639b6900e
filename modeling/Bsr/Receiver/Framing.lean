import Bsr.Lib.BigEndian

/-!
# Framing of the data packets

`bsrd` of `bsr_receiver.c` reads a header, the fixed part of the packet and hands the rest to the
function of the command. For `P_DATA`, `P_TRIM`, `P_ZEROES` and `P_WSAME` this is `receive_Data`.

* `decodeHeader` gives the command and the size of a packet.
* `receiveData` and `readInBlock` say how many bytes they take from the stream, and which request
  they accept. What the transport and the rest of the system answer is a `World`.
* `data_packet_framed_iff`: when the next header is read at the packet boundary, in every world, and
  the request is one for the device.
-/

namespace Bsr.Receiver

open BigEndian Option

/-! ### Packets -/

inductive DataCmd where
  | data | trim | wsame | zeroes
deriving DecidableEq, Repr

namespace DataCmd

def ofCommand : Nat → Option DataCmd
  | 0x00 => some data
  | 0x31 => some trim
  | 0x34 => some wsame
  | 0x36 => some zeroes
  | _ => none

/-- `pkt_size` in the table of commands. -/
def pktSize : DataCmd → Nat
  | data => 24
  | trim | wsame | zeroes => 28

/-- `expect_payload` in the table of commands. -/
def expectPayload : DataCmd → Bool
  | data | wsame => true
  | trim | zeroes => false

end DataCmd

structure PacketInfo where
  cmd : Nat
  size : Nat
  vnr : Int
deriving DecidableEq, Repr

structure PeerDevice where
  /-- `get_ldev` succeeds. -/
  ldev : Bool
  capacity : Nat
  capacity_lt : capacity < 2 ^ 64

/-- What the receiver reads of the connection. The digests of the kernel have at most 64 bytes. -/
structure Connection where
  agreedProVersion : Nat
  /-- The thread `ack_receiver` is `RUNNING`. -/
  ackReceiver : Bool
  /-- The digest size of `peer_integrity_tfm`, 0 without one. -/
  integrityDigest : Nat
  integrityDigest_le : integrityDigest ≤ 64
  peerDevice : Int → Option PeerDevice

variable (c : Connection)

def headerSize : Nat :=
  if 100 ≤ c.agreedProVersion then 16 else 8

def decodeHeader (bytes : Nat → UInt8) (pos : Nat) : Option PacketInfo :=
  if 100 ≤ c.agreedProVersion then
    if be bytes pos 4 = 0x8620ec20 then
      if be bytes (pos + 12) 4 ≠ 0 then none
      else some ⟨be bytes (pos + 6) 2, be bytes (pos + 8) 4, Int.bmod (be bytes (pos + 4) 2) (2 ^ 16)⟩
    else none
  else if be bytes pos 2 = 0x835a then some ⟨be bytes (pos + 2) 2, be bytes (pos + 4) 4, 0⟩
  else if be bytes pos 4 = 0x83740267 then some ⟨be bytes (pos + 4) 2, be bytes (pos + 6) 2, 0⟩
  else none

/-- `struct p_trim`; a `struct p_data` is the same without the size. -/
structure PData where
  sector : Nat
  dpFlags : Nat
  size : Nat

def PData.ofBytes (bytes : Nat → UInt8) (pos : Nat) : PData where
  sector := be bytes pos 8
  dpFlags := be bytes (pos + 20) 4
  size := be bytes (pos + 24) 4

/-! ### Receiving -/

/-- The answers from outside while a packet is handled. -/
structure World where
  /-- The `k`-th receive gets all its bytes. -/
  recv : Nat → Bool
  /-- `bsr_alloc_peer_req` has memory. -/
  alloc : Bool
  /-- The digest is the one of the data. -/
  digestMatch : Bool
  /-- `wait_for_and_update_peer_seq` succeeds. -/
  peerSeq : Bool
  /-- The rest of `receive_Data`, from the epoch to the submit, succeeds. -/
  finish : Bool

structure PeerRequest where
  sector : Nat
  size : Nat
  /-- The length `recv_pages` is asked for, before it is taken as an unsigned number. -/
  recvLength : Int
deriving DecidableEq, Repr

structure Outcome where
  /-- The bytes taken from the stream, nothing if an error is returned. -/
  consumed : Option Nat
  accepted : Option PeerRequest

/-- An error: `bsrd` drops the connection. -/
def Outcome.drop : Outcome := ⟨none, none⟩

/-- `digest_size` of `p_req_detail_from_pi`. -/
def digestSize : DataCmd → Nat
  | .trim => 0
  | .data | .wsame | .zeroes => c.integrityDigest

/-- `bi_size` of `p_req_detail_from_pi`, with `length` bytes after the fixed part. -/
def biSize (cmd : DataCmd) (p : PData) (length : Nat) : Nat :=
  match cmd with
  | .data => (length + 2 ^ 32 - digestSize c cmd) % 2 ^ 32
  | .trim | .wsame | .zeroes => p.size

/-- `BSR_MAX_BBIO_SECTORS << 9` with one of `DP_WSAME`, `DP_DISCARD`, `DP_ZEROES`, else
`BSR_MAX_BIO_SIZE`. -/
def maxSize (dpFlags : Nat) : Nat :=
  if dpFlags.testBit 9 || dpFlags.testBit 6 || dpFlags.testBit 10 then 2 ^ 27 else 2 ^ 20

/-- The checks of `read_in_block`; the end of the request is computed in 64 bits. -/
def Plausible (pd : PeerDevice) (p : PData) (size : Nat) : Prop :=
  size % 512 = 0 ∧ size ≤ maxSize p.dpFlags ∧ (p.sector + size / 512) % 2 ^ 64 ≤ pd.capacity

instance (pd : PeerDevice) (p : PData) (size : Nat) : Decidable (Plausible pd p size) :=
  inferInstanceAs (Decidable (_ ∧ _ ∧ _))

/-- The bytes taken and the request. -/
def readInBlock (w : World) (pd : PeerDevice) (cmd : DataCmd) (p : PData)
    (length : Nat) : Option (Nat × PeerRequest) :=
  let digest := digestSize c cmd
  let size := biSize c cmd p length
  if digest ≠ 0 ∧ w.recv 2 = false then none
  else if ¬ Plausible pd p size then none
  else if w.alloc = false then none
  else if length = 0 then some (digest, ⟨p.sector, size, 0⟩)
  else if w.recv 3 = false then none
  else if digest ≠ 0 ∧ w.digestMatch = false then none
  -- the length is a difference of two `uint32_t`
  else some (digest + (length + 2 ^ 32 - digest) % 2 ^ 32, ⟨p.sector, size, length - digest⟩)

/-- `ignore_remaining_packet`, in pieces of `BSR_SOCKET_BUFFER_SIZE`. -/
def ignoreRemainingPacket (w : World) (k size : Nat) : Option Nat :=
  if size = 0 then some 0
  else if w.recv k = false then none
  else (ignoreRemainingPacket w (k + 1) (size - min size 4096)).map (min size 4096 + ·)
termination_by size

def receiveData (w : World) (cmd : DataCmd) (vnr : Int) (p : PData)
    (length : Nat) : Outcome :=
  -- "bump mirrored data": nothing is read
  if c.ackReceiver = false then ⟨some 0, none⟩
  else
    match c.peerDevice vnr with
    | none => .drop
    | some pd =>
      if pd.ldev = false then
        -- the size is an `int` there, and no receive returns a negative size
        if 2 ^ 31 ≤ length then .drop
        else if w.peerSeq = false then .drop
        else ⟨ignoreRemainingPacket w 2 length, none⟩
      else
        match readInBlock c w pd cmd p length with
        | none => .drop
        | some (n, req) => ⟨if w.finish then some n else none, some req⟩

/-- One turn of `bsrd` for a data command, after the header. -/
def bsrdData (w : World) (pi : PacketInfo) (cmd : DataCmd) (p : PData) : Outcome :=
  if cmd.pktSize < pi.size ∧ cmd.expectPayload = false then .drop
  else if pi.size < cmd.pktSize then .drop
  else if w.recv 1 = false then .drop
  else
    let r := receiveData c w cmd pi.vnr p (pi.size - cmd.pktSize)
    { r with consumed := r.consumed.map (cmd.pktSize + ·) }

/-- One turn of `bsrd`: where the next header is read, and the accepted request. -/
def bsrdTurn (w : World) (bytes : Nat → UInt8) (pos : Nat) (pi : PacketInfo)
    (cmd : DataCmd) : Option Nat × Option PeerRequest :=
  let r := bsrdData c w pi cmd (.ofBytes bytes (pos + headerSize c))
  (r.consumed.map (pos + headerSize c + ·), r.accepted)

/-! ### What is wanted, and when it is so -/

/-- The next header is read at the packet boundary, and the request is one for the device. -/
structure Framed (c : Connection) (pos : Nat) (pi : PacketInfo)
    (r : Option Nat × Option PeerRequest) : Prop where
  boundary : ∀ next, r.1 = some next → next = pos + headerSize c + pi.size
  request : ∀ req, r.2 = some req → ∃ pd, c.peerDevice pi.vnr = some pd ∧
    req.sector + req.size / 512 ≤ pd.capacity ∧ 0 ≤ req.recvLength

/-- The packet passes the checks of `bsrd`. -/
def SizeOk (pi : PacketInfo) (cmd : DataCmd) : Prop :=
  cmd.pktSize ≤ pi.size ∧ (cmd.pktSize < pi.size → cmd.expectPayload = true)

/-- What the code takes for granted: data are bumped only if there are none, the payload holds the
digest, and the end of the request fits in 64 bits. -/
structure Trusted (c : Connection) (pi : PacketInfo) (cmd : DataCmd) (p : PData) : Prop where
  bumped : c.ackReceiver = false → pi.size = cmd.pktSize
  digest : c.ackReceiver = true → ∀ pd, c.peerDevice pi.vnr = some pd → pd.ldev = true →
    Plausible pd p (biSize c cmd p (pi.size - cmd.pktSize)) →
      digestSize c cmd ≤ pi.size - cmd.pktSize
  sector : c.ackReceiver = true → ∀ pd, c.peerDevice pi.vnr = some pd → pd.ldev = true →
    Plausible pd p (biSize c cmd p (pi.size - cmd.pktSize)) →
      p.sector + biSize c cmd p (pi.size - cmd.pktSize) / 512 < 2 ^ 64

/-! ### Proofs -/

variable {w : World}

theorem ignoreRemainingPacket_eq {k size n : Nat}
    (h : ignoreRemainingPacket w k size = some n) : n = size := by
  induction size using Nat.strong_induction_on generalizing k n with
  | _ size ih =>
    unfold ignoreRemainingPacket at h
    split_ifs at h with h0
    · rw [h0]
      exact (some.inj h).symm
    obtain ⟨m, hm, rfl⟩ := map_eq_some_iff.1 h
    have hrest := ih (size - min size 4096) (by omega) hm
    omega

variable {c : Connection} {pd : PeerDevice} {cmd : DataCmd} {p : PData}

theorem readInBlock_some
    {length n : Nat} {req : PeerRequest} (h : readInBlock c w pd cmd p length = some (n, req)) :
    Plausible pd p (biSize c cmd p length) ∧ req.sector = p.sector ∧
      req.size = biSize c cmd p length ∧
      ((length = 0 ∧ n = digestSize c cmd ∧ req.recvLength = 0) ∨
        (n = digestSize c cmd + (length + 2 ^ 32 - digestSize c cmd) % 2 ^ 32 ∧
          req.recvLength = length - digestSize c cmd)) := by
  unfold readInBlock at h
  dsimp only at h
  split_ifs at h with _ hpl _ h0
  · obtain ⟨rfl, rfl⟩ := Prod.mk.inj (some.inj h)
    exact ⟨hpl, rfl, rfl, .inl ⟨h0, rfl, rfl⟩⟩
  · obtain ⟨rfl, rfl⟩ := Prod.mk.inj (some.inj h)
    exact ⟨hpl, rfl, rfl, .inr ⟨rfl, rfl⟩⟩

/-- Everything succeeds. -/
def World.fine : World := ⟨fun _ => true, true, true, true, true⟩

theorem readInBlock_fine {length : Nat} (hpl : Plausible pd p (biSize c cmd p length)) :
    ∃ n req, readInBlock c .fine pd cmd p length = some (n, req) := by
  unfold readInBlock
  simp only [World.fine, hpl, not_true_eq_false, if_false, and_false, Bool.true_eq_false]
  split_ifs
  · exact ⟨_, _, rfl⟩
  · exact ⟨_, _, rfl⟩

theorem request_end_le {size : Nat} (hpl : Plausible pd p size)
    (hlt : p.sector + size / 512 < 2 ^ 64) : p.sector + size / 512 ≤ pd.capacity := by
  have hcheck := hpl.2.2
  rwa [Nat.mod_eq_of_lt hlt] at hcheck

section

variable {c : Connection} {w : World} {bytes : Nat → UInt8} {pos : Nat} {pi : PacketInfo}
  {cmd : DataCmd}

theorem bsrdTurn_of_sizeOk (hsize : SizeOk pi cmd) (hrecv : w.recv 1 = true) :
    bsrdTurn c w bytes pos pi cmd =
      let r := receiveData c w cmd pi.vnr (.ofBytes bytes (pos + headerSize c)) (pi.size - cmd.pktSize)
      ((r.consumed.map (cmd.pktSize + ·)).map (pos + headerSize c + ·), r.accepted) := by
  obtain ⟨hle, hpay⟩ := hsize
  have h1 : ¬ (cmd.pktSize < pi.size ∧ cmd.expectPayload = false) := by
    rintro ⟨hlt, hno⟩
    rw [hpay hlt] at hno
    cases hno
  simp only [bsrdTurn, bsrdData, if_neg h1, if_neg (Nat.not_lt.2 hle), hrecv, Bool.true_eq_false,
    if_false]

theorem bsrdTurn_cases (hne : (bsrdTurn c w bytes pos pi cmd).1.isSome ∨
    (bsrdTurn c w bytes pos pi cmd).2.isSome) : SizeOk pi cmd ∧ w.recv 1 = true := by
  unfold bsrdTurn bsrdData at hne
  split_ifs at hne with h1 h2 h3
  · simp [Outcome.drop] at hne
  · simp [Outcome.drop] at hne
  · simp [Outcome.drop] at hne
  · refine ⟨⟨Nat.not_lt.1 h2, fun hlt => ?_⟩, by simpa using h3⟩
    by_contra hno
    exact h1 ⟨hlt, by simpa using hno⟩

end

theorem decodeHeader_size_lt {bytes : Nat → UInt8} {pos : Nat} {pi : PacketInfo}
    (h : decodeHeader c bytes pos = some pi) : pi.size < 2 ^ 32 := by
  unfold decodeHeader at h
  split_ifs at h
  · cases h
    exact be_lt bytes (pos + 8) 4
  · cases h
    exact be_lt bytes (pos + 4) 4
  · cases h
    exact Nat.lt_trans (be_lt bytes (pos + 6) 2) (by decide)

theorem receiveData_cases (c : Connection) (w : World) (cmd : DataCmd) (vnr : Int) (p : PData)
    (length : Nat) : (c.ackReceiver = false ∧ receiveData c w cmd vnr p length = ⟨some 0, none⟩) ∨
      receiveData c w cmd vnr p length = .drop ∨
      receiveData c w cmd vnr p length = ⟨ignoreRemainingPacket w 2 length, none⟩ ∨
      (c.ackReceiver = true ∧ ∃ pd n req, c.peerDevice vnr = some pd ∧ pd.ldev = true ∧
        readInBlock c w pd cmd p length = some (n, req) ∧
        receiveData c w cmd vnr p length = ⟨if w.finish then some n else none, some req⟩) := by
  unfold receiveData
  cases hack : c.ackReceiver with
  | false => exact .inl ⟨rfl, rfl⟩
  | true =>
    right
    cases hpd : c.peerDevice vnr with
    | none => exact .inl rfl
    | some pd =>
      cases hldev : pd.ldev with
      | false =>
        simp only [hldev, if_true]
        by_cases hbig : 2 ^ 31 ≤ length
        · exact .inl (if_pos hbig)
        rw [if_neg hbig]
        cases w.peerSeq with
        | false => exact .inl rfl
        | true => exact .inr (.inl rfl)
      | true =>
        cases hread : readInBlock c w pd cmd p length with
        | none => simp [hldev, hread]
        | some r => exact .inr (.inr ⟨rfl, pd, r.1, r.2, rfl, hldev, hread, by simp [hldev, hread]⟩)

theorem framed_of_trusted {bytes : Nat → UInt8} {pos : Nat}
    {pi : PacketInfo} (hlt : pi.size < 2 ^ 32) (hsize : SizeOk pi cmd)
    (hrecv : w.recv 1 = true) (ht : Trusted c pi cmd (.ofBytes bytes (pos + headerSize c))) :
    Framed c pos pi (bsrdTurn c w bytes pos pi cmd) := by
  rw [bsrdTurn_of_sizeOk hsize hrecv]
  generalize PData.ofBytes bytes (pos + headerSize c) = p at ht
  obtain ⟨_, -⟩ := hsize
  rcases receiveData_cases c w cmd pi.vnr p (pi.size - cmd.pktSize) with
    ⟨hack, hout⟩ | hout | hout | ⟨hack, pd, n, req, hpd, hldev, hread, hout⟩
  · -- nothing is read, and nothing is there
    have heq := ht.bumped hack
    rw [hout]
    refine ⟨fun next hnext => ?_, nofun⟩
    simp only [map_some, some.injEq] at hnext
    omega
  · rw [hout]
    exact ⟨nofun, nofun⟩
  · rw [hout]
    refine ⟨fun next hnext => ?_, nofun⟩
    simp only [map_eq_some_iff] at hnext
    obtain ⟨m, ⟨n, hn, rfl⟩, rfl⟩ := hnext
    have hall := ignoreRemainingPacket_eq hn
    omega
  · rw [hout]
    obtain ⟨hpl, hsec, hsz, hn⟩ := readInBlock_some hread
    have hdigest := ht.digest hack pd hpd hldev hpl
    have hend := request_end_le hpl (ht.sector hack pd hpd hldev hpl)
    constructor
    · intro next hnext
      simp only [map_eq_some_iff] at hnext
      obtain ⟨m, ⟨k, hk, rfl⟩, rfl⟩ := hnext
      split_ifs at hk
      cases hk
      omega
    · intro _ hreq
      cases hreq
      refine ⟨pd, hpd, ?_, by omega⟩
      omega

/-- A data packet is read up to its boundary or the connection is dropped, and an accepted request
is one for the device, in every world just if the packet is one `bsrd` refuses or meets the
assumptions. -/
theorem data_packet_framed_iff (c : Connection) (bytes : Nat → UInt8) (pos : Nat) (pi : PacketInfo)
    (cmd : DataCmd) (hpi : decodeHeader c bytes pos = some pi)
    (_hcmd : DataCmd.ofCommand pi.cmd = some cmd) :
    (∀ w, Framed c pos pi (bsrdTurn c w bytes pos pi cmd)) ↔
      (SizeOk pi cmd → Trusted c pi cmd (.ofBytes bytes (pos + headerSize c))) := by
  have hlt := decodeHeader_size_lt hpi
  constructor
  · intro h hsize
    have hf := h .fine
    rw [bsrdTurn_of_sizeOk hsize rfl] at hf
    generalize PData.ofBytes bytes (pos + headerSize c) = p at hf
    -- a packet that passes the checks is accepted when everything succeeds
    have hread : c.ackReceiver = true → ∀ pd, c.peerDevice pi.vnr = some pd → pd.ldev = true →
        Plausible pd p (biSize c cmd p (pi.size - cmd.pktSize)) →
          digestSize c cmd ≤ pi.size - cmd.pktSize ∧
            p.sector + biSize c cmd p (pi.size - cmd.pktSize) / 512 < 2 ^ 64 := by
      intro hack pd hpd hldev hpl
      obtain ⟨n, req, hreq⟩ := readInBlock_fine hpl
      obtain ⟨-, hsec, hsz, _⟩ := readInBlock_some hreq
      have hout : receiveData c .fine cmd pi.vnr p (pi.size - cmd.pktSize) = ⟨some n, some req⟩ := by
        simp only [receiveData, hack, hpd, hldev, hreq]
        rfl
      rw [hout] at hf
      have hnext := hf.boundary _ rfl
      dsimp only at hnext
      obtain ⟨pd', _, hend, _⟩ := hf.request req rfl
      rw [hsec, hsz] at hend
      exact ⟨by omega, Nat.lt_of_le_of_lt hend pd'.capacity_lt⟩
    refine ⟨fun hack => ?_, fun hack pd hpd hldev hpl => (hread hack pd hpd hldev hpl).1,
      fun hack pd hpd hldev hpl => (hread hack pd hpd hldev hpl).2⟩
    have hout : receiveData c .fine cmd pi.vnr p (pi.size - cmd.pktSize) = ⟨some 0, none⟩ := by
      simp only [receiveData, hack, if_true]
    rw [hout] at hf
    have hnext := hf.boundary _ rfl
    dsimp only at hnext
    omega
  · intro h w
    by_cases hne : (bsrdTurn c w bytes pos pi cmd).1.isSome ∨
        (bsrdTurn c w bytes pos pi cmd).2.isSome
    · obtain ⟨hsize, hrecv⟩ := bsrdTurn_cases hne
      exact framed_of_trusted hlt hsize hrecv (h hsize)
    -- the connection is dropped and nothing is accepted
    refine ⟨fun next hnext => absurd (.inl ?_) hne, fun req hreq => absurd (.inr ?_) hne⟩
    · rw [hnext]
      rfl
    · rw [hreq]
      rfl

/-- A connection without data integrity to a device of 1000 sectors. -/
def smallDevice : Connection where
  agreedProVersion := 114
  ackReceiver := true
  integrityDigest := 0
  integrityDigest_le := Nat.zero_le 64
  peerDevice := fun _ => some ⟨true, 1000, by decide⟩

/-- A `P_TRIM` of 512 bytes, with the given bytes for the sector. -/
def trimPacket (sector : List UInt8) : Nat → UInt8 := fun i =>
  ([0x86, 0x20, 0xec, 0x20, 0, 0, 0, 0x31, 0, 0, 0, 28, 0, 0, 0, 0] ++ sector ++
    [0, 0, 0, 0, 0, 0, 0, 1, 0, 0, 0, 0, 0, 0, 0, 0x40, 0, 0, 2, 0]).getD i 0

/-- A trim at sector 8 leaves the stream at the next header. -/
theorem data_packet_framed_trim :
    decodeHeader smallDevice (trimPacket [0, 0, 0, 0, 0, 0, 0, 8]) 0 = some ⟨0x31, 28, 0⟩ ∧
      ∀ w, Framed smallDevice 0 ⟨0x31, 28, 0⟩
        (bsrdTurn smallDevice w (trimPacket [0, 0, 0, 0, 0, 0, 0, 8]) 0 ⟨0x31, 28, 0⟩ .trim) := by
  refine ⟨by decide +kernel, ?_⟩
  refine (data_packet_framed_iff smallDevice (trimPacket [0, 0, 0, 0, 0, 0, 0, 8]) 0
    ⟨0x31, 28, 0⟩ .trim (by decide +kernel) (by decide)).2 fun _ => ⟨nofun, ?_, ?_⟩
  · intro _ pd _ _ _
    exact Nat.zero_le _
  · intro _ pd _ _ _
    decide +kernel

/-- The last sector of 64 bits: the end of the request is 0 in the check, and the request is
accepted. -/
theorem data_packet_wraps :
    decodeHeader smallDevice (trimPacket (List.replicate 8 0xff)) 0 = some ⟨0x31, 28, 0⟩ ∧
      ∃ req, (bsrdTurn smallDevice .fine (trimPacket (List.replicate 8 0xff)) 0 ⟨0x31, 28, 0⟩ .trim).2 =
          some req ∧
        ∀ pd, smallDevice.peerDevice 0 = some pd → pd.capacity < req.sector + req.size / 512 := by
  refine ⟨by decide +kernel, ⟨2 ^ 64 - 1, 512, 0⟩, by decide +kernel, ?_⟩
  rintro pd ⟨rfl⟩
  decide

end Bsr.Receiver
