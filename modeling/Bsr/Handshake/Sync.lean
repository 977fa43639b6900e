import Bsr.Handshake.Compare
import Bsr.Request.Model

/-!
# The sync handshake

`bsr_sync_handshake` of `bsr_receiver.c` decides on each side of a new connection whether to resync
and in which direction.

* the comparison of the UUIDs gives a goodness, which disk states, roles and the flag for discarding
  data may override (`diskStatesToGoodness`, `variousStatesToGoodness`, `discardMyDataToGoodness`);
* after a split brain `asbRecover0p`, `asbRecover1p` and `asbRecover2p` follow the configured
  policies;
* `goodnessToReplState` makes a replication state of it. `none` is `-1`: the connection is rejected.

What `change_role`, the bitmap I/O and the fast sync come to are fields of `Node`. Helpers for the
administrator and messages are left out.
-/

namespace Bsr.Handshake

open State Request Twopc

/-! ## Nodes -/

/-- `enum bsr_after_sb_p`. -/
inductive AfterSbP where
  | disconnect | discardYoungerPri | discardOlderPri | discardZeroChg | discardLeastChg
  | discardLocal | discardRemote | consensus | discardSecondary | callHelper | violently
deriving DecidableEq, Repr

def convertAfterSb : AfterSbP → AfterSbP
  | .discardRemote => .discardLocal
  | .discardLocal => .discardRemote
  | p => p

structure Node extends Endpoint where
  role : Role
  /-- `connection->peer_role[NOW]`. -/
  connPeerRole : Role
  diskState : DiskState
  /-- `MDF_WAS_UP_TO_DATE`. -/
  wasUpToDate : Bool := false
  mayBeUpToDate : Bool := false
  afterSb0p : AfterSbP := .disconnect
  afterSb1p : AfterSbP := .disconnect
  afterSb2p : AfterSbP := .disconnect
  alwaysAsbp : Bool := false
  rrConflict : AfterSbP := .disconnect
  /-- `CONN_DRY_RUN`. -/
  dryRun : Bool := false
  /-- Whether `change_role` to `R_SECONDARY` succeeds. -/
  demotes : Bool := false
  /-- `is_resync_running`. -/
  resyncRunning : Bool := false
  /-- The fast sync did not mark what has to be resynced. -/
  needsFullSync : Bool := true
  /-- Whether `bsr_bitmap_io` succeeds. -/
  bitmapIoOk : Bool := true
  newCurUuid : Bool := false

variable (n : Node) (v : Uuids)

def diskStateFromMd : DiskState :=
  if !n.consistent then .inconsistent
  else if !n.wasUpToDate then .outdated
  else if n.mayBeUpToDate then .upToDate else .consistent

/-- The disk state that the handshake goes by. -/
def knownDiskState : DiskState :=
  if n.diskState = .negotiating then diskStateFromMd n else n.diskState

/-- `bsr_inspect_resync_side` for `L_SYNC_TARGET`; the UUIDs were received. -/
def inspectTarget : Bool :=
  v.uuidFlags.stable && (n.stable || hasNode n.authoritative n.peerNodeId)

/-- `bsr_inspect_resync_side` for `L_SYNC_SOURCE`. -/
def inspectSource : Bool :=
  n.stable && (v.uuidFlags.stable || hasNode v.authoritativeNodes n.nodeId)

/-! ## States -/

variable (peerDisk : DiskState)

def diskStatesToGoodness (hg : Int) (ruleNr : Nat) : Int :=
  let disk := knownDiskState n
  if hg ≠ 0 ∧ ruleNr ≠ 40 then hg
  else if peerDisk = .unknown then hg
  else if (disk = .inconsistent ∧ DiskState.inconsistent.rank < peerDisk.rank) ∨
      (peerDisk = .inconsistent ∧ DiskState.inconsistent.rank < disk.rank) then
    if DiskState.inconsistent.rank < disk.rank then 2 else -2
  else hg

/-- The disk states compared: "no resync. D_CONSISTENT is temporary state". -/
def diskOrder (disk peerDisk : DiskState) : Int :=
  if peerDisk = .consistent ∨ disk = .consistent then 0
  else if peerDisk ≠ .unknown ∧ peerDisk ≠ disk ∧
      (DiskState.outdated.rank ≤ peerDisk.rank ∨ DiskState.outdated.rank ≤ disk.rank) then
    if peerDisk.rank < disk.rank then 2 else -2
  else 0

variable (peerRole : Role)

/-- What `various_states_to_goodness` makes of a goodness of zero: the role comes first. -/
def variousGoodness : Int :=
  if n.role = .primary ∨ peerRole = .primary then if n.role = .primary then 2 else -2
  else diskOrder (knownDiskState n) peerDisk

/-- "Both nodes are UpToDate, but have inconsistent bits set": the bitmap is cleared without a
resync. -/
def forgets : Bool :=
  n.diskState == .upToDate && peerDisk == .upToDate && v.dirtyBits == 0

/-- The node after `forget_bitmap`. -/
def forgetBitmap : Node :=
  { n with
    historyUuids := if n.bitmapUuid = 0 then n.historyUuids else pushHistory n.historyUuids n.bitmapUuid
    bmWeight := if (n.peers n.peerNodeId).bitmapIndex.isSome && !n.primaryIoError then 0 else n.bmWeight }

def variousStatesToGoodness (hg : Int) : Int × Node :=
  if hg ≠ 0 ∨ (n.bmWeight = 0 ∧ v.dirtyBits = 0) then (hg, n)
  else
    let goodness := variousGoodness n peerDisk peerRole
    if goodness ≠ 0 ∨ peerDisk = .consistent ∨ knownDiskState n = .consistent then (goodness, n)
    else (0, if forgets n v peerDisk then forgetBitmap n else n)

/-! ## After a split brain -/

/-- The choice that is left to `RESOLVE_CONFLICTS`. -/
def resolveGoodness (resolve : Bool) : Int :=
  if resolve then -2 else 2

/-- `ASB_DISCARD_LEAST_CHG`. -/
def discardLeastChg (chSelf chPeer : Nat) (resolve : Bool) : Int :=
  if chSelf < chPeer then -2 else if chPeer < chSelf then 2 else resolveGoodness resolve

/-- `ASB_DISCARD_ZERO_CHG`, which falls through when another policy led here. -/
def discardZeroChg (afterSb0p : AfterSbP) (chSelf chPeer : Nat) (resolve : Bool) : Int :=
  if chPeer = 0 ∧ chSelf = 0 then resolveGoodness resolve
  else if chPeer = 0 then 2
  else if chSelf = 0 then -2
  else if afterSb0p = .discardZeroChg then -100
  else discardLeastChg chSelf chPeer resolve

/-- Whether a bitmap UUID is from a primary. -/
def isPrimaryUuid (u : Uuid) : Bool :=
  u &&& uuidPrimary == 1

def asbRecover0p : Int :=
  let self := isPrimaryUuid n.bitmapUuid
  let peer := isPrimaryUuid (v.bitmapUuids n.nodeId)
  let zeroChg := discardZeroChg n.afterSb0p n.bmWeight v.dirtyBits n.resolveConflicts
  match n.afterSb0p with
  | .consensus | .discardSecondary | .callHelper | .violently | .disconnect => -100
  | .discardYoungerPri => if !self && peer then -2 else if self && !peer then 2 else zeroChg
  | .discardOlderPri => if !self && peer then 2 else if self && !peer then -2 else zeroChg
  | .discardZeroChg => zeroChg
  | .discardLeastChg => discardLeastChg n.bmWeight v.dirtyBits n.resolveConflicts
  | .discardLocal => -2
  | .discardRemote => 2

/-- A primary that is to lose its data gives up its role, or the attempt fails. -/
def demote (hg : Int) : Int × Node :=
  if n.demotes then (hg, { n with role := .secondary }) else (-100, n)

def asbRecover1p : Int × Node :=
  let hg := asbRecover0p n v
  match n.afterSb1p with
  | .discardYoungerPri | .discardOlderPri | .discardLeastChg | .discardLocal | .discardRemote
  | .discardZeroChg | .disconnect => (-100, n)
  | .consensus =>
    if (hg = -2 ∧ n.role = .secondary) ∨ (hg = 2 ∧ n.role = .primary) then (hg, n) else (-100, n)
  | .violently => (hg, n)
  | .discardSecondary => (if n.role = .primary then 2 else -2, n)
  | .callHelper => if hg = -2 ∧ n.role = .primary then demote n hg else (hg, n)

def asbRecover2p : Int × Node :=
  let hg := asbRecover0p n v
  match n.afterSb2p with
  | .discardYoungerPri | .discardOlderPri | .discardLeastChg | .discardLocal | .discardRemote
  | .consensus | .discardSecondary | .discardZeroChg | .disconnect => (-100, n)
  | .violently => (hg, n)
  | .callHelper => if hg = -2 then demote n hg else (hg, n)

/-- The recovery for the number of primaries. -/
def asbRecover : Int × Node :=
  if n.role = .primary then
    if peerRole = .primary then asbRecover2p n v else asbRecover1p n v
  else if peerRole = .primary then asbRecover1p n v
  else (asbRecover0p n v, n)

/-- After a split brain the policies are followed; when the UUIDs are ambiguous, with a full
sync. -/
def splitBrainToGoodness (hg : Int) : Int × Node :=
  if hg = 100 ∨ (hg = -100 ∧ n.alwaysAsbp) then
    let r := asbRecover n v peerRole
    (if hg = -100 ∧ r.1.natAbs < 100 then r.1 + (if 0 < r.1 then 1 else -1) else r.1, r.2)
  else (hg, n)

/-- The flag for discarding data, which one side may have set; `none` when both have. -/
def discardMyDataToGoodness (hg : Int) : Option (Int × Node) :=
  let peerDiscards := v.uuidFlags.discardMyData
  if hg = -100 then
    if n.discardMyData && peerDiscards then none
    else some (if n.discardMyData then -2 else if peerDiscards then 2 else hg, n)
  else if (hg ≤ -2 ∨ 2 ≤ hg) ∧ (n.role = .primary ∨ n.connPeerRole = .primary) then
    if n.role = .primary ∧ !n.discardMyData ∧ peerDiscards then some (2, { n with newCurUuid := true })
    else if n.connPeerRole = .primary ∧ n.discardMyData ∧ !peerDiscards then some (-2, n)
    else some (hg, n)
  else some (hg, { n with discardMyData := false })

/-! ## The result -/

/-- What rejects the connection in the end. -/
def rejects (hg : Int) : Bool :=
  -- "Split-Brain detected but unresolved, dropping connection"
  hg == -100 ||
  -- "I shall become synctarget, but I am primary"
  (decide (hg ≤ -2) && n.role == .primary && decide (DiskState.consistent.rank ≤ n.diskState.rank) &&
    (n.rrConflict == .callHelper || n.rrConflict == .disconnect)) ||
  -- "I shall become SyncSource, but I am inconsistent"
  (hg == 3 && decide (n.diskState.rank < DiskState.outdated.rank) && n.currentUuid != uuidJustCreated &&
    inspectSource n v) ||
  -- "I shall become SyncTarget, but peer is inconsistent"
  (hg == -3 && v.uuidFlags.inconsistent && inspectTarget n v) ||
  n.dryRun

/-- `bitmap_mod_after_handshake`: whether it fails. -/
def bitmapModFails (hg : Int) : Bool :=
  if hg = 3 ∨ hg = -3 then
    if hg = -3 ∧ n.currentUuid = uuidJustCreated ∧ (n.resyncRunning || !inspectTarget n v) then false
    else if (hg = 3 ∧ v.uuidFlags.initSynctBegin) ∨ (hg = -3 ∧ n.initSynctBegin) then false
    else n.needsFullSync && !n.bitmapIoOk
  else false

/-- No resync is needed. Out-of-sync of an I/O error at a primary is resynced all the same. -/
def noSyncToReplState : ReplState × Node :=
  if n.bitmapUuid ≠ 0 then
    (.established, { n with
      toEndpoint := { n.toEndpoint with
        historyUuids := pushHistory n.historyUuids n.bitmapUuid
        bmWeight := 0 }.setBitmap 0 })
  else if n.bmWeight = 0 then (.established, n)
  else if n.primaryIoError then (.wfBitmapS, n)
  else if v.uuidFlags.primaryIoError then (.wfBitmapT, n)
  else if n.inProgressSync || v.uuidFlags.inProgressSync then (.established, { n with bmWeight := 0 })
  else (.established, n)

def goodnessToReplState (hg : Int) : ReplState × Node :=
  if (hg = 1 ∨ hg = -1) ∧ (n.role = .primary ∨ peerRole = .primary) then
    -- "We have at least one primary, follow that with the resync decision"
    (if peerRole = .secondary then .wfBitmapS else if n.role = .secondary then .wfBitmapT else .established, n)
  else
    let r : ReplState × Node :=
      if 0 < hg then (.wfBitmapS, n) else if hg < 0 then (.wfBitmapT, n) else noSyncToReplState n v
    (r.1, { r.2 with inProgressSync := false })

def syncHandshake (peerDisk : DiskState) : Option ReplState × Node :=
  let r := uuidCompare n.toEndpoint v
  let n := { n with toEndpoint := r.node }
  let v := r.peer
  -- -1000, or a protocol version that is too old
  if r.hg ≤ -1000 then (none, n)
  else
    let various := variousStatesToGoodness n v peerDisk peerRole (diskStatesToGoodness n peerDisk r.hg r.ruleNr)
    let recovered := splitBrainToGoodness various.2 v peerRole various.1
    match discardMyDataToGoodness recovered.2 v recovered.1 with
    | none => (none, recovered.2)
    | some (hg, n) =>
      if rejects n v hg || bitmapModFails n v hg then (none, n)
      else
        let result := goodnessToReplState n v peerRole hg
        (some result.1, result.2)

end Bsr.Handshake
