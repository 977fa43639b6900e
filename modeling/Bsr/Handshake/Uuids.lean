import Bsr.Twopc.Model

/-!
# The UUIDs of a node and how they are sent

Each node has a current UUID, a bitmap UUID for every other node and a history. `_bsr_send_uuids110`
packs them, `receive_uuids110` keeps them in the peer device.

* `Endpoint` is a node's device with its peer device for the other node;
* `Uuids` are the fields of the peer device that hold what the peer sent;
* `receiveUuids110_sendUuids110` says which UUIDs arrive. An empty slot may arrive as `-1`, and a
  slot that is not in use as `0`.
-/

namespace Bsr.Handshake

open State Twopc

/-! ## UUIDs -/

abbrev Uuid := BitVec 64

/-- `BSR_NODE_ID_MAX`; `HISTORY_UUIDS` is the same number. -/
abbrev NodeId := Fin 32

instance neZero : NeZero 32 := ⟨by decide⟩

instance : LawfulBEq NodeId := inferInstance

def uuidJustCreated : Uuid := 4

def uuidPrimary : Uuid := 1

/-- `uuid & ~UUID_PRIMARY`. -/
def withoutPrimary (u : Uuid) : Uuid :=
  u &&& ~~~uuidPrimary

/-- The bits of `uuid_flags` that a handshake reads. -/
structure UuidFlags where
  discardMyData : Bool := false
  crashedPrimary : Bool := false
  inconsistent : Bool := false
  reconnect : Bool := false
  primaryIoError : Bool := false
  inProgressSync : Bool := false
  initSynctBegin : Bool := false
  stable : Bool := true
deriving DecidableEq, Repr

/-- `struct bsr_peer_md`. -/
structure PeerMd where
  bitmapUuid : Uuid := 0
  bitmapIndex : Option Nat := none
  /-- `MDF_NODE_EXISTS`. -/
  nodeExists : Bool := false
deriving DecidableEq, Repr

/-- `struct bsr_device` and the `struct bsr_peer_device` for the other node. -/
structure Endpoint where
  nodeId : NodeId
  peerNodeId : NodeId
  currentUuid : Uuid
  peers : NodeId → PeerMd := fun _ => {}
  historyUuids : NodeId → Uuid := fun _ => 0
  /-- `current_uuid` of the peer devices when the UUIDs are sent. -/
  peerCurrentUuid : NodeId → Option Uuid := fun _ => none
  agreedProVersion : Nat := 116
  replState : ReplState := .off
  /-- `RESOLVE_CONFLICTS`, on one side of each connection. -/
  resolveConflicts : Bool := false
  reconnect : Bool := false
  crashedPrimary : Bool := false
  /-- `MDF_CRASHED_PRIMARY_WORK_PENDING`. -/
  crashedPrimaryWorkPending : Bool := false
  discardMyData : Bool := false
  /-- `MDF_CONSISTENT`. -/
  consistent : Bool := true
  /-- `MDF_PEER_PRIMARY_IO_ERROR`. -/
  primaryIoError : Bool := false
  /-- `MDF_PEER_IN_PROGRESS_SYNC`. -/
  inProgressSync : Bool := false
  /-- `MDF_PEER_INIT_SYNCT_BEGIN`. -/
  initSynctBegin : Bool := false
  /-- `bsr_bm_total_weight`, which is kept in `comm_bm_set`. -/
  bmWeight : Nat := 0
  /-- `bsr_device_stable_ex`, with the nodes that it finds authoritative. -/
  stable : Bool := true
  authoritative : BitVec 64 := 0

namespace Endpoint

variable (n : Endpoint)

def bitmapUuid : Uuid :=
  (n.peers n.peerNodeId).bitmapUuid

def isSyncSource : Bool :=
  n.replState == .syncSource || n.replState == .pausedSyncS || n.replState == .wfBitmapS

/-- A crashed primary that has yet to resync this peer. -/
def wasPrimary : Bool :=
  n.crashedPrimary && n.crashedPrimaryWorkPending

/-- The slot is in use. -/
def isSent (i : NodeId) : Bool :=
  (n.peers i).bitmapIndex.isSome || (n.peers i).nodeExists

/-- An empty slot for a node that is known to be at another current UUID. -/
def tellsDifferent (i : NodeId) : Bool :=
  (n.peers i).bitmapUuid == 0 &&
    match n.peerCurrentUuid i with
    | none => false
    | some u => u != 0 && withoutPrimary u != withoutPrimary n.currentUuid

/-- `__bitmap_uuid`. -/
def sentBitmapUuid (i : NodeId) : Uuid :=
  if n.tellsDifferent i then -1 else (n.peers i).bitmapUuid

end Endpoint

/-! ## Packets -/

/-- `struct p_uuids110`. -/
structure PUuids110 where
  currentUuid : Uuid
  dirtyBits : Nat
  uuidFlags : UuidFlags
  /-- The authoritative nodes of a node that is not stable. -/
  nodeMask : BitVec 64
  bitmapUuidsMask : BitVec 64
  /-- First the bitmap UUIDs of the nodes in the mask, then the history. -/
  otherUuids : List Uuid

/-- The nodes among `ids` whose slots are in use. -/
def bitmapUuidsMask (n : Endpoint) : List NodeId → BitVec 64
  | [] => 0
  | i :: ids => (if n.isSent i then nodeMask i else 0) ||| bitmapUuidsMask n ids

/-- The flags that `_bsr_send_uuids110` adds. -/
def sentFlags (n : Endpoint) : UuidFlags where
  discardMyData := n.discardMyData
  crashedPrimary := n.wasPrimary && !n.isSyncSource
  inconsistent := !n.consistent
  reconnect := n.reconnect
  primaryIoError := n.primaryIoError
  inProgressSync := n.inProgressSync
  initSynctBegin := n.initSynctBegin
  stable := n.stable

def sendUuids110 (n : Endpoint) : PUuids110 where
  currentUuid := n.currentUuid
  dirtyBits := n.bmWeight
  uuidFlags := sentFlags n
  nodeMask := if n.stable then 0 else n.authoritative
  bitmapUuidsMask := bitmapUuidsMask n (List.finRange 32)
  otherUuids := ((List.finRange 32).filter n.isSent).map n.sentBitmapUuid ++
    (List.finRange 32).map n.historyUuids

/-- The fields of `struct bsr_peer_device` that hold the peer's UUIDs. -/
structure Uuids where
  currentUuid : Uuid
  dirtyBits : Nat
  uuidFlags : UuidFlags
  authoritativeNodes : BitVec 64
  bitmapUuids : NodeId → Uuid
  historyUuids : NodeId → Uuid

/-- The loop of `receive_uuids110` over the slots; what is left are the history UUIDs. -/
def takeBitmapUuids (mask : BitVec 64) (slots : NodeId → Uuid) :
    List NodeId → List Uuid → (NodeId → Uuid) × List Uuid
  | [], others => (slots, others)
  | i :: ids, others =>
    if hasNode mask i then
      takeBitmapUuids mask (Function.update slots i (others.headD 0)) ids others.tail
    else takeBitmapUuids mask (Function.update slots i 0) ids others

/-- `receive_uuids110` up to `uuids_received`; an error closes the connection. -/
def receiveUuids110 (slots : NodeId → Uuid) (p : PUuids110) : Option Uuids :=
  -- bits beyond `BSR_PEERS_MAX`
  if p.bitmapUuidsMask &&& ~~~(nodeMask 32 - 1) ≠ 0 then none
  else if p.otherUuids.length < ((List.finRange 32).filter fun i : NodeId => hasNode p.bitmapUuidsMask i).length then
    none
  else
    let taken := takeBitmapUuids p.bitmapUuidsMask slots (List.finRange 32) p.otherUuids
    some {
      currentUuid := p.currentUuid
      dirtyBits := p.dirtyBits
      uuidFlags := p.uuidFlags
      authoritativeNodes := if p.uuidFlags.stable then 0 else p.nodeMask
      bitmapUuids := taken.1
      -- a shorter history is filled up with zeros
      historyUuids := fun j => taken.2.getD j 0 }

/-- What the peer of a node holds of it. -/
def told (n : Endpoint) : Uuids where
  currentUuid := n.currentUuid
  dirtyBits := n.bmWeight
  uuidFlags := sentFlags n
  authoritativeNodes := if n.stable then 0 else n.authoritative
  bitmapUuids := fun i => if n.isSent i then n.sentBitmapUuid i else 0
  historyUuids := n.historyUuids

variable (n : Endpoint)

include n

@[simp] theorem told_currentUuid : (told n).currentUuid = n.currentUuid := rfl
@[simp] theorem told_uuidFlags : (told n).uuidFlags = sentFlags n := rfl
@[simp] theorem sentFlags_discardMyData : (sentFlags n).discardMyData = n.discardMyData := rfl

/-! ### What arrives -/

theorem hasNode_bitmapUuidsMask (ids : List NodeId) (id : Nat) :
    hasNode (bitmapUuidsMask n ids) id = true ↔ ∃ i ∈ ids, i.val = id ∧ n.isSent i = true := by
  induction ids with
  | nil =>
    rw [hasNode_iff, bitmapUuidsMask]
    simp
  | cons i ids ih =>
    rw [bitmapUuidsMask, hasNode_or, ih]
    have hhead : hasNode (if n.isSent i then nodeMask i else 0) id = true ↔ i.val = id ∧ n.isSent i = true := by
      split_ifs with hsent
      · exact ⟨fun h => ⟨(hasNode_nodeMask h).symm, hsent⟩, fun h => h.1 ▸ hasNode_nodeMask_self (by omega)⟩
      · rw [hasNode_iff]
        simp [hsent]
    rw [hhead]
    simp

open List

theorem hasNode_sentMask (i : NodeId) :
    hasNode (bitmapUuidsMask n (finRange 32)) i = n.isSent i := by
  rw [Bool.eq_iff_iff, hasNode_bitmapUuidsMask]
  constructor
  · rintro ⟨j, -, hj, hsent⟩
    exact Fin.ext hj ▸ hsent
  · intro hsent
    exact ⟨i, mem_finRange i, rfl, hsent⟩

omit n in
theorem takeBitmapUuids_filter {mask : BitVec 64} {inMask : NodeId → Bool}
    (hmask : ∀ i : NodeId, hasNode mask i = inMask i) (f : NodeId → Uuid) (rest : List Uuid)
    (ids : List NodeId) (hids : ids.Nodup) (slots : NodeId → Uuid) :
    takeBitmapUuids mask slots ids ((ids.filter inMask).map f ++ rest) =
      (fun i => if i ∈ ids then if inMask i then f i else 0 else slots i, rest) := by
  -- one slot after the other; a slot that was set is not touched again
  induction ids generalizing slots with
  | nil => simp [takeBitmapUuids]
  | cons i ids ih =>
    obtain ⟨hi, hids⟩ := nodup_cons.1 hids
    have hslot : ∀ u, (fun j => if j ∈ ids then if inMask j then f j else 0 else Function.update slots i u j) =
        fun j => if j = i then u else if j ∈ ids then if inMask j then f j else 0 else slots j := by
      intro u
      funext j
      by_cases hj : j = i
      · subst hj
        simp [hi]
      · simp [hj]
    rw [takeBitmapUuids, hmask]
    by_cases hin : inMask i = true
    · rw [if_pos hin, filter_cons_of_pos hin, map_cons, cons_append, tail_cons,
        ih hids, hslot]
      refine Prod.ext (funext fun j => ?_) rfl
      by_cases hj : j = i <;> simp [hj, hin]
    · rw [if_neg hin, filter_cons_of_neg hin, ih hids]
      refine Prod.ext (funext fun j => ?_) rfl
      by_cases hj : j = i <;> simp [hj, hin]

theorem sentMask_bounded : bitmapUuidsMask n (finRange 32) &&& ~~~(nodeMask 32 - 1) = 0 := by
  refine BitVec.eq_of_getLsbD_eq fun j hj => ?_
  have hzero : (0 : BitVec 64).getLsbD j = false := BitVec.getLsbD_zero
  rw [BitVec.getLsbD_and, hzero, Bool.and_eq_false_iff]
  by_cases hlow : j < 32
  · exact .inr ((by decide : ∀ j < 32, (~~~(nodeMask 32 - 1)).getLsbD j = false) j hlow)
  left
  rw [← Bool.not_eq_true, ← hasNode_iff, hasNode_bitmapUuidsMask]
  omega

theorem receiveUuids110_sendUuids110 (slots : NodeId → Uuid) :
    receiveUuids110 slots (sendUuids110 n) = some (told n) := by
  have hmask : ∀ i : NodeId, hasNode (sendUuids110 n).bitmapUuidsMask i = n.isSent i := hasNode_sentMask n
  have hbound : (sendUuids110 n).bitmapUuidsMask &&& ~~~(nodeMask 32 - 1) = 0 := sentMask_bounded n
  rw [receiveUuids110, if_neg (not_not.2 hbound)]
  simp only [hmask]
  dsimp only [sendUuids110] at hmask ⊢
  rw [takeBitmapUuids_filter hmask _ _ _ (nodup_finRange 32)]
  cases hstable : n.stable <;> simp [told, sentFlags, hstable]

end Bsr.Handshake
