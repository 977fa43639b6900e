import Bsr.Handshake.Uuids
import Bsr.Lib.BitRange
import Bsr.Lib.Words

/-!
# The bytes of a UUID packet

`_bsr_send_uuids110` of `bsr_main.c` packs the UUIDs of a node into a `P_UUIDS110` packet whose
length depends on the number of slots in use; `receive_uuids110` of `bsr_receiver.c` works out from
the mask and the length how many UUIDs there are.

* `sendUuids110Packet` and `receiveUuids110Packet` are the two functions over the bytes;
* `ignoreRemainingPacket` returns zero when it has skipped what it was asked to, and
  `receive_uuids110` takes zero for a failure;
* `receiveUuids110Packet_sent` says what the receiver makes of the sent bytes and anything behind
them. -/

namespace Bsr.Handshake.Packet

open State Twopc Words Lib

/-! ## Sending -/

/-- A flag of `uuid_flags`. -/
def flagBit (on : Bool) (bit : Nat) : BitVec 64 :=
  if on then 1#64 <<< bit else 0

/-- `UUID_FLAG_DISCARD_MY_DATA` and so on. -/
def wordOfFlags (f : UuidFlags) : BitVec 64 :=
  flagBit f.discardMyData 0 ||| flagBit f.crashedPrimary 1 ||| flagBit f.inconsistent 2 |||
    flagBit f.stable 5 ||| flagBit f.reconnect 8 ||| flagBit f.initSynctBegin 12 |||
      flagBit f.primaryIoError 13 ||| flagBit f.inProgressSync 14

/-- What the caller of `_bsr_send_uuids110` passes, and `is_consistent_with_primary`. -/
structure SendArgs where
  uuidFlags : BitVec 64 := 0
  nodeMask : BitVec 64 := 0
  consistentWithPri : Bool := false

variable (n : Endpoint)

/-- The flags of the packet: those of the caller and those of the state of the node. -/
def packetFlags (a : SendArgs) : BitVec 64 :=
  a.uuidFlags ||| wordOfFlags (sentFlags n) ||| flagBit a.consistentWithPri 10

/-- The fields of `struct p_uuids110` before `other_uuids`. -/
def packetHeader (a : SendArgs) : List Uuid :=
  [n.currentUuid, BitVec.ofNat 64 n.bmWeight, packetFlags n a,
    if n.stable then a.nodeMask else n.authoritative, bitmapUuidsMask n (List.finRange 32)]

/-- The bitmap UUIDs of the slots in use, then the history. -/
def otherUuids : List Uuid :=
  ((List.finRange 32).filter n.isSent).map n.sentBitmapUuid ++ (List.finRange 32).map n.historyUuids

/-- `_bsr_send_uuids110`; the packet is cut to the slots in use. -/
def sendUuids110Packet (a : SendArgs) : List UInt8 :=
  pack (packetHeader n a ++ otherUuids n)

/-! ## Receiving -/

/-- The device of the receiver and its peer device for the sender. -/
structure Holder where
  /-- `md.peers` when there is a disk. -/
  peers : Option (NodeId → PeerMd) := none
  /-- `bitmap_uuids` of all peer devices of the device. -/
  bitmapUuids : NodeId → NodeId → Uuid := fun _ _ => 0
  currentUuid : Uuid := 0
  dirtyBits : BitVec 64 := 0
  uuidFlags : BitVec 64 := 0
  uuidAuthoritativeNodes : BitVec 64 := 0
  historyUuids : NodeId → Uuid := fun _ => 0
  uuidsReceived : Bool := false

/-- `ignore_remaining_packet` on the bytes that are left. -/
def ignoreRemainingPacket (size : Nat) (stream : List UInt8) : Int :=
  if size = 0 then 0
  else if stream.length < min size 4096 then -5
  else ignoreRemainingPacket (size - min size 4096) (stream.drop (min size 4096))
termination_by size

/-- `update_bitmap_slot_of_peer`: a slot that the peer has cleared is cleared in the other
direction. -/
def updateBitmapSlotOfPeer (peer : NodeId) (slots : NodeId → NodeId → Uuid)
    (i : NodeId) (u : Uuid) : NodeId → NodeId → Uuid :=
  let cleared := if slots peer i ≠ 0 ∧ u = 0 then Function.update slots i (Function.update (slots i) peer 0) else slots
  Function.update cleared peer (Function.update (cleared peer) i u)

/-- `MDF_NODE_EXISTS` for a node that has no bitmap here. -/
def noteNodeExists (peers : NodeId → PeerMd) (i : NodeId) : NodeId → PeerMd :=
  if (peers i).bitmapIndex = none then Function.update peers i { peers i with nodeExists := true } else peers

/-- The loop over the slots; what is left are the history UUIDs. -/
def takeSlots (peer : NodeId) (mask : BitVec 64) (d : Holder) : List NodeId → List Uuid → Holder × List Uuid
  | [], others => (d, others)
  | i :: ids, others =>
    if hasNode mask i then
      takeSlots peer mask { d with
        peers := d.peers.map fun peers => noteNodeExists peers i
        bitmapUuids := updateBitmapSlotOfPeer peer d.bitmapUuids i (others.headD 0) } ids others.tail
    else
      takeSlots peer mask { d with
        bitmapUuids := updateBitmapSlotOfPeer peer d.bitmapUuids i 0 } ids others

/-- The end of `receive_uuids110` and of `__receive_uuids`. -/
def storeUuids (peer : NodeId) (mask nodeMask : BitVec 64) (d : Holder) (others : List Uuid) : Holder :=
  let taken := takeSlots peer mask d (List.finRange 32) others
  { taken.1 with
    -- a shorter history is filled up with zeros
    historyUuids := fun j => taken.2.getD j 0
    uuidAuthoritativeNodes := if taken.1.uuidFlags &&& flagBit true 5 ≠ 0 then 0 else nodeMask
    uuidsReceived := true }

/-- `receive_uuids110` on the bytes of a packet, with what it returns. A packet is shorter than 2
GiB, so that `rest` is not negative. -/
def receiveUuids110Packet (peer : NodeId) (d : Holder) (packet : List UInt8) : Int × Holder :=
  let header := unpack 5 packet
  let stream := packet.drop 40
  let size := stream.length
  let d : Holder := { d with
    currentUuid := header.getD 0 0
    dirtyBits := header.getD 1 0
    uuidFlags := header.getD 2 0 }
  let nodes := header.getD 3 0
  let mask := header.getD 4 0
  if mask &&& ~~~(nodeMask 32 - 1) ≠ 0 then (-5, d)
  else if size / 8 < hweight mask then (-5, d)
  else
    let historyUuids := min (size / 8 - hweight mask) 32
    let others := unpack (hweight mask + historyUuids) stream
    let rest := size - (hweight mask + historyUuids) * 8
    -- a skip that went well counts as a failure here
    if rest ≠ 0 ∧ ignoreRemainingPacket rest (stream.drop ((hweight mask + historyUuids) * 8)) = 0 then (-5, d)
    else (0, storeUuids peer mask nodes d others)

/-! ## What arrives -/

open List

theorem ignoreRemainingPacket_whole {size : Nat} {stream : List UInt8} (h : size ≤ stream.length) :
    ignoreRemainingPacket size stream = 0 := by
  -- one piece of at most 4096 bytes after the other
  induction size using Nat.strong_induction_on generalizing stream with
  | _ size ih =>
    unfold ignoreRemainingPacket
    by_cases h0 : size = 0
    · rw [if_pos h0]
    · rw [if_neg h0, if_neg (by omega)]
      exact ih _ (by omega) (by rw [length_drop]; omega)

theorem updateBitmapSlotOfPeer_own (peer : NodeId) (slots : NodeId → NodeId → Uuid) (i : NodeId) (u : Uuid) :
    updateBitmapSlotOfPeer peer slots i u peer = Function.update (slots peer) i u := by
  unfold updateBitmapSlotOfPeer
  rw [Function.update_self]
  split_ifs with hclear
  · by_cases hi : i = peer
    · -- the peer device is its own third node: the slot is set twice
      subst hi
      rw [Function.update_self, Function.update_idem]
    · rw [Function.update_of_ne (Ne.symm hi)]
  · rfl

/-- The loop fills the slots of the sender's peer device as `takeBitmapUuids` says, and leaves the
fields of the header. -/
theorem takeSlots_spec (peer : NodeId) (mask : BitVec 64) (d : Holder) (ids : List NodeId)
    (others : List Uuid) : (takeSlots peer mask d ids others).1.bitmapUuids peer =
        (takeBitmapUuids mask (d.bitmapUuids peer) ids others).1 ∧
      (takeSlots peer mask d ids others).2 = (takeBitmapUuids mask (d.bitmapUuids peer) ids others).2 ∧
      (takeSlots peer mask d ids others).1.currentUuid = d.currentUuid ∧
      (takeSlots peer mask d ids others).1.uuidFlags = d.uuidFlags := by
  induction ids generalizing d others with
  | nil => exact ⟨rfl, rfl, rfl, rfl⟩
  | cons i ids ih =>
    rw [takeSlots, takeBitmapUuids]
    split_ifs
    all_goals
      rw [← updateBitmapSlotOfPeer_own]
      exact ih _ _

theorem hweight_sentMask :
    hweight (bitmapUuidsMask n (finRange 32)) = ((finRange 32).filter n.isSent).length := by
  have hhigh : ∀ j, 32 ≤ j → (bitmapUuidsMask n (finRange 32)).getLsbD j = false := by
    intro j _
    rw [← Bool.not_eq_true, ← hasNode_iff, hasNode_bitmapUuidsMask]
    omega
  have hbit : (fun i : NodeId => (bitmapUuidsMask n (finRange 32)).getLsbD i) = n.isSent := by
    funext i
    rw [Bool.eq_iff_iff, ← hasNode_iff, hasNode_sentMask]
  rw [hweight_eq_tally (by decide) (fun _ _ => rfl) hhigh, tally, Nat.count,
    ← map_coe_finRange_eq_range, countP_map, countP_eq_length_filter, ← hbit]
  simp [Function.comp_def]

theorem receiveUuids110Packet_sent (a : SendArgs) (peer : NodeId) (d : Holder)
    (extra : List UInt8) : receiveUuids110Packet peer d (sendUuids110Packet n a ++ extra) =
      let d' := { d with
        currentUuid := n.currentUuid
        dirtyBits := BitVec.ofNat 64 n.bmWeight
        uuidFlags := packetFlags n a }
      if extra = [] then
        (0, storeUuids peer (bitmapUuidsMask n (finRange 32)) (if n.stable then a.nodeMask else n.authoritative) d'
          (otherUuids n))
      else (-5, d') := by
  have hhead : unpack 5 (sendUuids110Packet n a ++ extra) = packetHeader n a := by
    exact unpack_pack (packetHeader n a) _
  have hstream : (sendUuids110Packet n a ++ extra).drop 40 = pack (otherUuids n) ++ extra := by
    exact drop_pack (packetHeader n a) _
  have hcount : (otherUuids n).length = hweight (bitmapUuidsMask n (finRange 32)) + 32 := by
    rw [hweight_sentMask]
    simp [otherUuids]
  unfold receiveUuids110Packet
  rw [hhead, hstream]
  simp only [packetHeader, getD_cons_zero, getD_cons_succ]
  generalize hmask : bitmapUuidsMask n (finRange 32) = mask at hcount
  have hlen : (pack (otherUuids n) ++ extra).length = 8 * (hweight mask + 32) + extra.length := by
    rw [length_append, length_pack, hcount]
  rw [if_neg (not_not.2 (hmask ▸ sentMask_bounded n)), hlen, if_neg (by omega)]
  -- all of the history is there, so the UUIDs read are those packed and the rest is what follows
  have hhist : min ((8 * (hweight mask + 32) + extra.length) / 8 - hweight mask) 32 = 32 := by omega
  have hrest : 8 * (hweight mask + 32) + extra.length - (hweight mask + 32) * 8 = extra.length := by omega
  have hleft : (pack (otherUuids n) ++ extra).drop ((hweight mask + 32) * 8) = extra := by
    rw [Nat.mul_comm, ← hcount, drop_pack]
  rw [hhist, hrest, hleft, ← hcount, unpack_pack, ignoreRemainingPacket_whole (Nat.le_refl _)]
  simp

theorem storeUuids_sent (peer : NodeId) (nodes : BitVec 64) (d : Holder) :
    let d' := storeUuids peer (bitmapUuidsMask n (finRange 32)) nodes d (otherUuids n)
    (∀ i, d'.bitmapUuids peer i = if n.isSent i then n.sentBitmapUuid i else 0) ∧
      d'.historyUuids = n.historyUuids ∧ d'.currentUuid = d.currentUuid ∧ d'.uuidFlags = d.uuidFlags := by
  obtain ⟨hslots, hothers, hcurrent, hflags⟩ :=
    takeSlots_spec peer (bitmapUuidsMask n (finRange 32)) d (finRange 32) (otherUuids n)
  have htake := takeBitmapUuids_filter (hasNode_sentMask n) n.sentBitmapUuid
    ((finRange 32).map n.historyUuids) (finRange 32) (nodup_finRange 32) (d.bitmapUuids peer)
  rw [← otherUuids] at htake
  rw [htake] at hslots hothers
  refine ⟨fun i => ?_, ?_, hcurrent, hflags⟩
  · exact (congrFun hslots i).trans (if_pos (mem_finRange i))
  funext j
  dsimp only [storeUuids]
  rw [hothers]
  simp

/-- The packet was taken, with all that was put in. -/
structure Reconstructed (n : Endpoint) (a : SendArgs) (peer : NodeId) (r : Int × Holder) : Prop where
  accepted : r.1 = 0
  currentUuid : r.2.currentUuid = n.currentUuid
  uuidFlags : r.2.uuidFlags = packetFlags n a
  bitmapUuids : ∀ i, n.isSent i = true → r.2.bitmapUuids peer i = n.sentBitmapUuid i
  historyUuids : r.2.historyUuids = n.historyUuids

/-- The receiver reconstructs what was sent exactly when nothing follows it in the packet. -/
theorem uuids110_round_trip (n : Endpoint) (a : SendArgs) (peer : NodeId) (d : Holder) (extra : List UInt8) :
    Reconstructed n a peer (receiveUuids110Packet peer d (sendUuids110Packet n a ++ extra)) ↔ extra = [] := by
  rw [receiveUuids110Packet_sent]
  constructor
  · intro h
    by_contra hextra
    have haccepted := h.accepted
    rw [if_neg hextra] at haccepted
    omega
  · intro hextra
    rw [if_pos hextra]
    obtain ⟨hslots, hhist, hcurrent, hflags⟩ := storeUuids_sent n peer
      (if n.stable then a.nodeMask else n.authoritative) { d with
        currentUuid := n.currentUuid
        dirtyBits := BitVec.ofNat 64 n.bmWeight
        uuidFlags := packetFlags n a }
    exact ⟨rfl, hcurrent, hflags, fun i hi => (hslots i).trans (if_pos hi), hhist⟩

/-- One more history UUID behind the packet of a fresh node: the packet is rejected, and the slots
and the history are not stored. -/
theorem trailing_uuid_rejected :
    let n : Endpoint := { nodeId := 0, peerNodeId := 1, currentUuid := 0x10, historyUuids := fun _ => 0x20 }
    let r := receiveUuids110Packet 0 {} (sendUuids110Packet n {} ++ bytesOf 0x30)
    r.1 = -5 ∧ r.2.historyUuids 0 = 0 := by
  intro n r
  have hr : r = _ := receiveUuids110Packet_sent n {} 0 {} (bytesOf 0x30)
  rw [hr]
  exact ⟨rfl, rfl⟩

end Bsr.Handshake.Packet
