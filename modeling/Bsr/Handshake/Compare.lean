import Bsr.Handshake.Uuids

/-!
# Comparing the UUIDs of two nodes

`bsr_uuid_compare` of `bsr_receiver.c`: an ordered list of rules, each with a number. The result is
positive when this node is to be the source of a resync and negative when it is to be the target.

* `uuidFixupResyncEnd`, `uuidFixupResyncStart1` and `uuidFixupResyncStart2` are for peers older than
  protocol 110; they change the UUIDs of the node or what it holds of the peer;
* `rules50to60` look for the node's own current UUID in what the peer sent, `rules70to80` for the
  peer's in what the node has.
-/

namespace Bsr.Handshake

open State

/-! ## History -/

/-- `_bsr_uuid_push_history`. -/
def pushHistory (history : NodeId → Uuid) (u : Uuid) : NodeId → Uuid :=
  if u = uuidJustCreated then history
  else if ∃ i, history i = withoutPrimary u then history
  else fun i => if i = 0 then withoutPrimary u else history (i - 1)

/-- What `_bsr_uuid_pull_history` leaves. -/
def pullHistory (history : NodeId → Uuid) : NodeId → Uuid :=
  fun i => if i = 31 then 0 else history (i + 1)

variable (n : Endpoint)

/-- `__bsr_uuid_set_bitmap`. -/
def Endpoint.setBitmap (u : Uuid) : Endpoint :=
  { n with peers := Function.update n.peers n.peerNodeId { n.peers n.peerNodeId with bitmapUuid := u } }

/-- The result, the rule, the node whose bitmap UUID decided, and both sets of UUIDs afterwards. -/
structure Compared where
  hg : Int
  ruleNr : Nat
  peerNodeId : Option NodeId := none
  node : Endpoint
  peer : Uuids

/-! ## Peers older than protocol 110 -/

def uuidNewBmOffset : Uuid := 0x0001000000000000

variable (v : Uuids)

/-- `uuid_fixup_resync_end`; `none` is `-2000`. -/
def uuidFixupResyncEnd : Option Compared :=
  let sent := v.bitmapUuids n.nodeId
  if sent = 0 ∧ n.bitmapUuid ≠ 0 then
    if n.agreedProVersion < 91 then some ⟨-1091, 30, none, n, v⟩
    else if withoutPrimary n.bitmapUuid = withoutPrimary (v.historyUuids 0) ∧
        withoutPrimary (n.historyUuids 0) = withoutPrimary (v.historyUuids 0) then
      -- "Was SyncSource, missed the resync finished event, corrected myself"
      let n' := { n with historyUuids := pushHistory n.historyUuids n.bitmapUuid }
      some ⟨2, 34, none, n'.setBitmap 0, v⟩
    else some ⟨2, 36, none, n, v⟩
  else if n.bitmapUuid = 0 ∧ sent ≠ 0 then
    if n.agreedProVersion < 91 then some ⟨-1091, 30, none, n, v⟩
    else if withoutPrimary (n.historyUuids 0) = withoutPrimary sent ∧
        withoutPrimary (n.historyUuids 1) = withoutPrimary (v.historyUuids 0) then
      -- "Was SyncTarget, peer missed the resync finished event, corrected peer"
      some ⟨-2, 35, none, n, { v with
        historyUuids := fun i => if i = 0 then sent else v.historyUuids (i - 1)
        bitmapUuids := Function.update v.bitmapUuids n.nodeId 0 }⟩
    else some ⟨-2, 37, none, n, v⟩
  else none

def uuidFixupResyncStart1 : Option Compared :=
  let peer := withoutPrimary (v.historyUuids 0)
  if withoutPrimary n.currentUuid = peer ∧
      (if n.agreedProVersion < 96 then
        withoutPrimary (n.historyUuids 0) = withoutPrimary (v.historyUuids 1)
      else peer + uuidNewBmOffset = withoutPrimary (v.bitmapUuids n.nodeId)) then
    if n.agreedProVersion < 91 then some ⟨-1091, 51, none, n, v⟩
    else
      -- "Lost last syncUUID packet, corrected"
      some ⟨-2, 51, none, n, { v with
        bitmapUuids := Function.update v.bitmapUuids n.nodeId (v.historyUuids 0)
        historyUuids := pullHistory v.historyUuids }⟩
  else none

def uuidFixupResyncStart2 : Option Compared :=
  let self := withoutPrimary (n.historyUuids 0)
  if self = withoutPrimary v.currentUuid ∧
      (if n.agreedProVersion < 96 then
        withoutPrimary (n.historyUuids 1) = withoutPrimary (v.historyUuids 0)
      else self + uuidNewBmOffset = withoutPrimary n.bitmapUuid) then
    if n.agreedProVersion < 91 then some ⟨-1091, 71, none, n, v⟩
    else
      -- "Last syncUUID did not get through, corrected"
      let n' := { n with historyUuids := pullHistory n.historyUuids }
      some ⟨2, 71, none, n'.setBitmap (n.historyUuids 0), v⟩
  else none

/-! ## The rules -/

/-- A current UUID of zero stands for one that was just created. -/
def effectiveUuid (u : Uuid) : Uuid :=
  if withoutPrimary u = 0 then uuidJustCreated else withoutPrimary u

/-- Rules 38 and 40: both are at the same current UUID. -/
def rules38to40 : Compared :=
  -- "This is a safety net for the following two clauses"
  if v.uuidFlags.reconnect ∧ n.reconnect then ⟨0, 38, none, n, v⟩
  else if n.isSyncSource then ⟨0, 40, none, n, v⟩
  else if n.wasPrimary then
    if v.uuidFlags.crashedPrimary ∧ n.resolveConflicts then ⟨-1, 40, none, n, v⟩ else ⟨1, 40, none, n, v⟩
  else if v.uuidFlags.crashedPrimary then ⟨-1, 40, none, n, v⟩
  else ⟨0, 40, none, n, v⟩

/-- Rules 50, 52 and 60. -/
def rules50to60 : Option Compared :=
  let self := withoutPrimary n.currentUuid
  if self = withoutPrimary (v.bitmapUuids n.nodeId) then some ⟨-2, 50, none, n, v⟩
  else
    match (List.finRange 32).find? fun i => self == withoutPrimary (v.bitmapUuids i) with
    | some i => some ⟨-4, 52, some i, n, v⟩
    | none =>
      match if n.agreedProVersion < 110 then uuidFixupResyncStart1 n v else none with
      | some r => some r
      | none => if ∃ j, self = withoutPrimary (v.historyUuids j) then some ⟨-3, 60, none, n, v⟩ else none

/-- Rules 70, 72 and 80. The slots of both nodes are passed over by rule 72, but not those that are
not in use. -/
def rules70to80 : Option Compared :=
  let peer := withoutPrimary v.currentUuid
  if withoutPrimary n.bitmapUuid = peer then some ⟨2, 70, none, n, v⟩
  else
    match (List.finRange 32).find? fun i =>
        i != n.peerNodeId && i != n.nodeId && withoutPrimary (n.peers i).bitmapUuid == peer with
    | some i => some ⟨4, 72, some i, n, v⟩
    | none =>
      match if n.agreedProVersion < 110 then uuidFixupResyncStart2 n v else none with
      | some r => some r
      | none => if ∃ j, withoutPrimary (n.historyUuids j) = peer then some ⟨3, 80, none, n, v⟩ else none

/-- Rule 90: both bitmap UUIDs are the same. -/
def bitmapUuidsMatch : Prop :=
  withoutPrimary n.bitmapUuid = withoutPrimary (v.bitmapUuids n.nodeId) ∧ withoutPrimary n.bitmapUuid ≠ 0

instance (n : Endpoint) (v : Uuids) : Decidable (bitmapUuidsMatch n v) :=
  inferInstanceAs (Decidable (_ ∧ _))

/-- Rule 100: the histories have a UUID in common. -/
def historiesMeet : Prop :=
  ∃ i j, withoutPrimary (n.historyUuids i) = withoutPrimary (v.historyUuids j)

instance (n : Endpoint) (v : Uuids) : Decidable (historiesMeet n v) :=
  inferInstanceAs (Decidable (∃ _, ∃ _, _))

/-- Rules 90 and 100. -/
def rules90to100 : Compared :=
  if bitmapUuidsMatch n v then ⟨100, 90, none, n, v⟩
  else if historiesMeet n v then ⟨-100, 100, none, n, v⟩
  else ⟨-1000, 100, none, n, v⟩

def uuidCompare : Compared :=
  let self := effectiveUuid n.currentUuid
  let peer := effectiveUuid v.currentUuid
  if self = uuidJustCreated ∧ peer = uuidJustCreated then ⟨0, 10, none, n, v⟩
  else if self = uuidJustCreated then ⟨-3, 20, none, n, v⟩
  else if peer = uuidJustCreated then ⟨3, 30, none, n, v⟩
  else if self = peer then
    match if n.agreedProVersion < 110 then uuidFixupResyncEnd n v else none with
    | some r => r
    | none => rules38to40 n v
  else
    match rules50to60 n v with
    | some r => r
    | none =>
      match rules70to80 n v with
      | some r => r
      | none => rules90to100 n v

end Bsr.Handshake
