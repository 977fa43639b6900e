import Bsr.Quorum.Calc

/-!
# `sanitize_state`

A state change first writes what is wanted to the `NEW` slots of a resource, then `sanitize_state`
brings these slots in line with each other. The resource has several devices, and a device has a
peer device for each connection.

* `Pair` is such a pair of slots; `NOW` and `OLD` are the same slot.
* `visitPeer` is the body of the loop over the peer devices. Its last step raises `susp_quorum`.
* `sanitizeDevice` and `sanitizeState` are the loops.
-/

namespace Bsr.Quorum

open Handshake (NodeId)
open Request (DiskState)
open State

structure Pair (α : Type) where
  old : α
  new : α
deriving DecidableEq, Repr

namespace Pair

/-- A change of the slot `NEW`. -/
def set {α : Type} (p : Pair α) (a : α) : Pair α := { p with new := a }

@[simp] theorem set_old {α : Type} (p : Pair α) (a : α) : (p.set a).old = p.old := rfl
@[simp] theorem set_new {α : Type} (p : Pair α) (a : α) : (p.set a).new = a := rfl

/-- Both slots hold `a`. -/
def same {α : Type} (a : α) : Pair α := ⟨a, a⟩

end Pair

/-- The order of `enum bsr_repl_state`. -/
def replRank : ReplState → Nat
  | .off => 0
  | .established => 1
  | .startingSyncS => 2
  | .startingSyncT => 3
  | .wfBitmapS => 4
  | .wfBitmapT => 5
  | .wfSyncUuid => 6
  | .syncSource => 7
  | .syncTarget => 8
  | .verifyS => 9
  | .verifyT => 10
  | .pausedSyncS => 11
  | .pausedSyncT => 12
  | .ahead => 13
  | .behind => 14

/-- `repl_state < L_ESTABLISHED`. -/
def isOff (r : ReplState) : Bool := decide (replRank r < replRank .established)

inductive FencingPolicy where
  | dontCare | resource | stonith
deriving DecidableEq, Repr

structure NetConf where
  twoPrimaries : Bool := false
  /-- `verify_alg[0] != 0`. -/
  verifyAlg : Bool := false

structure Connection where
  cstate : Pair ConnState
  peerRole : Pair Role := .same .unknown
  suspFen : Pair Bool := .same false
  fencingPolicy : FencingPolicy := .dontCare
  agreedProVersion : Nat := 114
  netConf : Option NetConf := some {}

structure PeerDevice where
  disk : Pair DiskState
  repl : Pair ReplState
  resyncSuspUser : Pair Bool := .same false
  resyncSuspPeer : Pair Bool := .same false
  resyncSuspDependency : Pair Bool := .same false
  resyncSuspOtherC : Pair Bool := .same false
  /-- `L_NEGOTIATING` has the number of `L_OFF`, `L_NEG_NO_RESULT` that of `L_BEHIND`. -/
  negotiationResult : ReplState := .off
  uuidsReceived : Bool := false
  uuidStable : Bool := false
  uuidGotStable : Bool := false
  resyncAborted : Bool := false
  initialStateSent : Bool := false
  initialStateReceived : Bool := false
  /-- `bsr_inspect_resync_side` for the slot `NOW`, which the loop does not write. -/
  inspectResyncSide : ReplState → Bool := fun _ => false

/-- The entry of a node in the meta data: `bitmap_index` and the flags. -/
structure NodeMd where
  bitmapIndex : Option Nat := none
  nodeExists : Bool := false
  peerFencing : Bool := false
  peerDeviceSeen : Bool := false
  peerOutdated : Bool := false

structure Device where
  disk : Pair DiskState
  suspQuorum : Pair Bool := .same false
  /-- The order of `for_each_peer_device`. -/
  peerIds : List NodeId
  nodup : peerIds.Nodup
  peer : NodeId → PeerDevice
  md : NodeId → NodeMd := fun _ => {}
  mdNodeId : NodeId
  mdConsistent : Bool := true
  mdWasUpToDate : Bool := true
  openRoCnt : Nat := 0
  openRwCnt : Nat := 0

structure Resource where
  nodeId : NodeId
  role : Pair Role
  susp : Pair Bool := .same false
  suspNod : Pair Bool := .same false
  quorum : Int
  /-- `on_no_data == OND_SUSPEND_IO`. -/
  suspendOnNoData : Bool := false
  /-- The order of `for_each_connection`. -/
  connections : List NodeId
  conn : NodeId → Connection
  devices : List Device
  negotiationResultTouched : Bool := false
  /-- `CS_HARD`. -/
  hard : Bool
  /-- `CS_IGN_OUTD_FAIL`. -/
  ignOutdFail : Bool := false

namespace Device

variable (d : Device)

/-- `__change_disk_state`. -/
def setDisk (s : DiskState) : Device := { d with disk := d.disk.set s }

variable (i : NodeId)

def update (f : PeerDevice → PeerDevice) : Device :=
  { d with peer := Function.update d.peer i (f (d.peer i)) }

/-- `__change_repl_state`. -/
def setRepl (r : ReplState) : Device :=
  d.update i fun p => { p with repl := p.repl.set r }

/-- `__change_peer_disk_state`. -/
def setPeerDisk (s : DiskState) : Device :=
  d.update i fun p => { p with disk := p.disk.set s }

/-- `__change_resync_susp_other_c`. -/
def setSuspOtherC (b : Bool) : Device :=
  d.update i fun p => { p with resyncSuspOtherC := p.resyncSuspOtherC.set b }

/-- `get_ldev`: the local disk can be accessed, as far as the slot `NOW` says. -/
def getLdev : Bool :=
  decide (d.disk.old ≠ .diskless ∧ DiskState.inconsistent.rank ≤ d.disk.old.rank)

def others : List NodeId := d.peerIds.filter (· ≠ i)

end Device

variable (r : Resource)

variable (d : Device)

/-- What `calc_quorum` sees of a device, with the disk states of the peers given by `disk`. -/
def quorumView (disk : NodeId → DiskState) : QuorumView where
  myNodeId := r.nodeId
  bitmapIndex := fun i => (d.md i).bitmapIndex
  nodeExists := fun i => (d.md i).nodeExists
  peerDisk := fun i => if i ∈ d.peerIds then some (disk i) else none

/-- `calc_quorum(device, OLD)`. -/
def hadQuorum : Bool :=
  calcQuorum r.quorum (quorumView r d fun i => (d.peer i).disk.old)

/-- `calc_quorum(device, NEW)`. -/
def haveQuorum : Bool :=
  calcQuorum r.quorum (quorumView r d fun i => (d.peer i).disk.new)

def lostContactToPeerData (disk : Pair DiskState) : Bool :=
  decide ((DiskState.inconsistent.rank ≤ disk.old.rank ∧ disk.old ≠ .unknown ∧
      disk.old ≠ .outdated) ∧
    (disk.new.rank < DiskState.inconsistent.rank ∨ disk.new = .unknown ∨ disk.new = .outdated))

/-! ### Helpers of the loop -/

def resyncSuspended (p : PeerDevice) : Bool :=
  p.resyncSuspUser.new || p.resyncSuspPeer.new || p.resyncSuspDependency.new ||
    p.resyncSuspOtherC.new

def isSyncTargetOtherC (i : NodeId) : Bool :=
  (d.others i).any fun j =>
    (d.peer j).repl.new = .syncTarget ∨ (d.peer j).repl.new = .pausedSyncT

/-- The loop over the other connections which sets `resync_susp_other_c`. -/
def raiseOtherC (start : Bool) (d : Device) (j : NodeId) : Device :=
  let d1 := d.setSuspOtherC j true
  if start ∧ DiskState.inconsistent.rank ≤ (d.peer j).disk.new.rank ∧
      (d.peer j).repl.new = .established then
    d1.setRepl j .pausedSyncT
  else d1

/-- The loop that clears it and stops at the first sync target which may go on. The flag says that
it has stopped. -/
def clearOtherC (i : NodeId) : List NodeId → Device → Device × Bool
  | [], d => (d, false)
  | j :: js, d =>
    if (d.peer j).repl.new = .pausedSyncS then clearOtherC i js d
    else
      let d1 := d.setSuspOtherC j false
      if (d.peer j).repl.new = .pausedSyncT ∧ resyncSuspended (d1.peer j) = false then
        let d2 := d1.setRepl j .syncTarget
        let d3 := if d2.disk.new ≠ .inconsistent then d2.setDisk .inconsistent else d2
        (if (d3.peer i).repl.new = .behind then d3.setSuspOtherC i true else d3, true)
      else clearOtherC i js d1

/-- The loop that clears it on the sync sources. -/
def clearSources (j : NodeId) : Device :=
  let d1 := d.setSuspOtherC j false
  if (d1.peer j).repl.new = .pausedSyncS ∧ resyncSuspended (d1.peer j) = false then
    d1.setRepl j .syncSource
  else d1

def setResyncSuspOtherC (i : NodeId) (val start : Bool) : Device :=
  if val then (d.others i).foldl (raiseOtherC start) d
  else
    let cleared := clearOtherC i (d.others i) d
    if cleared.2 then cleared.1 else (d.others i).foldl clearSources cleared.1

/-- `may_be_up_to_date`: what one node says. -/
def mayBeUpToDateNode (i : NodeId) : Bool :=
  let m := d.md i
  if i = d.mdNodeId then true
  else if m.bitmapIndex = none ∧ m.nodeExists = false then true
  else if m.peerFencing = false then true
  else
    match if i ∈ d.peerIds then (d.peer i).disk.new else .unknown with
    | .diskless => !m.peerDeviceSeen || m.peerOutdated
    | .attaching | .detaching | .failed | .negotiating | .unknown => m.peerOutdated
    | .inconsistent | .outdated | .consistent | .upToDate => true

def mayBeUpToDate : Bool := (List.finRange 32).all (mayBeUpToDateNode d)

def diskStateFromMd : DiskState :=
  if !d.mdConsistent then .inconsistent
  else if !d.mdWasUpToDate then .outdated
  else if mayBeUpToDate d then .upToDate
  else .consistent

/-! ### Disk state negotiation -/

/-- The first loop over the peers; `none` stands for `goto stay_negotiating`. -/
structure Negotiation where
  all : Nat := 0
  target : Nat := 0
  noResult : Nat := 0
  upToDateNeighbor : Bool := false

def negotiatePeer (n : Negotiation) (i : NodeId) : Option Negotiation :=
  let nr := (d.peer i).negotiationResult
  let pdsk := (d.peer i).disk.new
  if pdsk = .unknown ∨ pdsk.rank < DiskState.negotiating.rank then some n
  else
    let n := { n with
      upToDateNeighbor := n.upToDateNeighbor || pdsk = .upToDate
      all := n.all + 1 }
    -- `L_NEG_NO_RESULT`, then `L_NEGOTIATING`
    if nr = .behind then some { n with noResult := n.noResult + 1 }
    else if nr = .off then none
    else if nr = .wfBitmapT then some { n with target := n.target + 1 }
    else some n

def negotiated (n : Negotiation) : DiskState :=
  if 0 < n.noResult ∧ n.noResult = n.all then .detaching
  else if n.target ≠ 0 then .inconsistent
  else if n.upToDateNeighbor then .upToDate
  else diskStateFromMd d

/-- The second loop over the peers. -/
def applyNegotiation (i : NodeId) : Device :=
  let nr := (d.peer i).negotiationResult
  if (r.conn i).cstate.new.rank < ConnState.connected.rank ∨ nr = .off then d
  else if nr = .behind then d.setRepl i .established
  else if nr = .wfBitmapS ∧ d.disk.new = .inconsistent then
    (d.setSuspOtherC i true).setRepl i .pausedSyncS
  else d.setRepl i nr

def negotiate : Device :=
  if d.disk.old = .negotiating ∧ d.disk.new = .negotiating then
    match d.peerIds.foldlM (negotiatePeer d) {} with
    | none => d
    | some n => d.peerIds.foldl (applyNegotiation r) (d.setDisk (negotiated d n))
  else d

/-! ### The body of the loop -/

variable (i : NodeId)

/-- A peer that is not connected does not suspend the resync, and only an outdated disk is known. -/
def dropPeer (d : Device) : Device :=
  if isOff (d.peer i).repl.new then
    let d1 := d.update i fun p => { p with resyncSuspPeer := p.resyncSuspPeer.set false }
    if DiskState.unknown.rank < (d1.peer i).disk.new.rank ∨
        (d1.peer i).disk.new.rank < DiskState.outdated.rank then
      d1.setPeerDisk i .unknown
    else d1
  else d

def clearDependency (d : Device) : Device :=
  if (r.conn i).cstate.new = .standalone ∧ d.disk.new = .diskless ∧ r.role.new = .secondary then
    d.update i fun p => { p with resyncSuspDependency := p.resyncSuspDependency.set false }
  else d

/-- Abort resync if a disk fails or detaches. -/
def abortFailed (d : Device) : Device :=
  if replRank .established < replRank (d.peer i).repl.new ∧
      (d.disk.new.rank ≤ DiskState.failed.rank ∨
        (d.peer i).disk.new.rank ≤ DiskState.failed.rank) then
    d.setRepl i .established
  else d

def restrictSide (d : Device) : Device :=
  let repl := (d.peer i).repl
  if (replRank .startingSyncS ≤ replRank repl.new ∧ replRank repl.new ≤ replRank .pausedSyncT) ∧
      ((repl.new ≠ .startingSyncS ∧ repl.new ≠ .startingSyncT) ∨
        replRank .established ≤ replRank repl.old) ∧
      (d.peer i).inspectResyncSide repl.new = false then
    d.setRepl i .established
  else d

/-- Abort resync if a disk state goes unsyncable. -/
def abortUnsyncable (d : Device) : Device :=
  let p := d.peer i
  if ((p.repl.new = .syncTarget ∨ p.repl.new = .pausedSyncT) ∧
        p.disk.new.rank ≤ DiskState.inconsistent.rank) ∨
      ((p.repl.new = .syncSource ∨ p.repl.new = .pausedSyncS) ∧
        d.disk.new.rank ≤ DiskState.inconsistent.rank) then
    (d.setRepl i .established).update i fun p => { p with resyncAborted := true }
  else d

/-- Resume aborted resync. -/
def resumeAborted (d : Device) : Device :=
  let p := d.peer i
  let inc := DiskState.inconsistent.rank
  if (d.disk.old.rank ≤ inc ∧ p.disk.old.rank ≤ inc) ∧
      (d.disk.new.rank ≤ inc ∨ p.disk.new.rank ≤ inc) ∧ p.resyncAborted then
    if d.disk.new = .outdated ∨ d.disk.new = .consistent ∨ d.disk.new = .upToDate then
      (d.setRepl i .syncSource).update i fun p => { p with resyncAborted := false }
    else if p.disk.new = .outdated ∨ p.disk.new = .consistent ∨ p.disk.new = .upToDate then
      (d.setRepl i .syncTarget).update i fun p => { p with resyncAborted := false }
    else d
  else d

/-- `D_CONSISTENT` vanishes when we get connected, before protocol version 110. -/
def vanishConsistent (d : Device) : Device :=
  let repl := (d.peer i).repl.new
  if (r.conn i).agreedProVersion < 110 ∧ replRank .established ≤ replRank repl ∧
      replRank repl < replRank .ahead then
    let d1 := if d.disk.new = .consistent then d.setDisk .upToDate else d
    if (d1.peer i).disk.new = .consistent then d1.setPeerDisk i .upToDate else d1
  else d

/-- The least and the largest disk state of a replication state: of the disk, then of the peer. -/
def diskBounds : ReplState → (DiskState × DiskState) × (DiskState × DiskState)
  | .off => ((.diskless, .upToDate), (.inconsistent, .unknown))
  | .wfBitmapT | .pausedSyncT | .startingSyncT | .wfSyncUuid | .behind =>
    ((.inconsistent, .outdated), (.outdated, .upToDate))
  | .verifyS | .verifyT => ((.upToDate, .upToDate), (.upToDate, .upToDate))
  | .established => ((.diskless, .upToDate), (.diskless, .upToDate))
  | .wfBitmapS | .pausedSyncS | .startingSyncS | .ahead =>
    ((.outdated, .upToDate), (.inconsistent, .consistent))
  | .syncTarget => ((.inconsistent, .inconsistent), (.outdated, .upToDate))
  | .syncSource => ((.inconsistent, .upToDate), (.inconsistent, .inconsistent))

/-- Implications of the replication state on the disk state. -/
def clipDisk (d : Device) : Device :=
  let b := (diskBounds (d.peer i).repl.new).1
  let d1 := if b.2.rank < d.disk.new.rank then d.setDisk b.2 else d
  if d1.disk.new.rank < b.1.rank then d1.setDisk b.1 else d1

/-- The same on the disk state of the peer, which is not raised in `L_STARTING_SYNC_T`. -/
def clipPeerDisk (d : Device) : Device :=
  let b := (diskBounds (d.peer i).repl.new).2
  let d1 := if b.2.rank < (d.peer i).disk.new.rank then d.setPeerDisk i b.2 else d
  if (d1.peer i).disk.new.rank < b.1.rank ∧ (d1.peer i).repl.new ≠ .startingSyncT then
    d1.setPeerDisk i b.1
  else d1

/-- Pause a sync source until it finishes resync as target on other connections. -/
def pauseSource (d : Device) : Device :=
  if (d.peer i).repl.old ≠ .syncSource ∧ (d.peer i).repl.new = .syncSource ∧
      isSyncTargetOtherC d i then
    d.setSuspOtherC i true
  else d

def pauseOrResume (d : Device) : Device :=
  if resyncSuspended (d.peer i) then
    if (d.peer i).repl.new = .syncSource then d.setRepl i .pausedSyncS
    else if (d.peer i).repl.new = .syncTarget then d.setRepl i .pausedSyncT
    else d
  else if (d.peer i).repl.new = .pausedSyncS then d.setRepl i .syncSource
  else if (d.peer i).repl.new = .pausedSyncT then d.setRepl i .syncTarget
  else d

/-- A sync target suspends the resync on the other connections, and lets them go on afterwards. -/
def tellOthers (d : Device) : Device :=
  let d1 :=
    if (d.peer i).repl.old ≠ .syncTarget ∧ (d.peer i).repl.new = .syncTarget then
      setResyncSuspOtherC d i true false
    else d
  let d2 :=
    if ((d1.peer i).repl.old = .wfBitmapT ∧
          (d1.peer i).repl.new ≠ .syncTarget ∧ (d1.peer i).repl.new ≠ .wfBitmapT) ∨
        ((d1.peer i).repl.old = .syncTarget ∧ (d1.peer i).repl.new ≠ .syncTarget) then
      setResyncSuspOtherC d1 i false false
    else d1
  let d3 :=
    if (d2.peer i).repl.old ≠ .startingSyncT ∧ (d2.peer i).repl.new = .startingSyncT then
      setResyncSuspOtherC d2 i true false
    else d2
  if (d3.peer i).repl.old = .startingSyncT ∧
      (d3.peer i).repl.new ≠ .startingSyncT ∧ (d3.peer i).repl.new ≠ .wfBitmapT then
    setResyncSuspOtherC d3 i false false
  else d3

/-- A detach is a cluster wide transaction: prevent `D_DISKLESS` to `D_FAILED`. -/
def keepDiskless (d : Device) : Device :=
  if (d.peer i).disk.old = .diskless ∧
      ((d.peer i).disk.new = .failed ∨ (d.peer i).disk.new = .detaching) then
    d.setPeerDisk i .diskless
  else d

/-- Upgrade myself from `D_OUTDATED` and from `D_CONSISTENT`. -/
def upgradeDisk (d : Device) : Device :=
  let p := d.peer i
  let d1 :=
    if p.repl.new = .established ∧ d.disk.new = .outdated ∧
        DiskState.consistent.rank ≤ p.disk.new.rank ∧ p.uuidsReceived ∧ p.uuidStable ∧
        (isOff p.repl.old ∨ p.uuidGotStable ∨ p.disk.old = .outdated) then
      d.setDisk p.disk.new
    else d
  let d2 :=
    if isOff p.repl.old ∧ !isOff p.repl.new ∧ d1.disk.new = .consistent ∧ mayBeUpToDate d1 then
      d1.setDisk .upToDate
    else d1
  d2.update i fun p => { p with uuidGotStable := false }

/-- The quorum check, at the end of the body. -/
def checkQuorum (d : Device) : Device :=
  if r.quorum ≠ qouOff ∧ r.role.new = .primary ∧ d.getLdev ∧
      lostContactToPeerData (d.peer i).disk ∧ hadQuorum r d ∧ haveQuorum r d = false then
    { d with suspQuorum := d.suspQuorum.set true }
  else d

/-- The steps that fix the disk states, up to where `sanitize_state` looks at the fencing policy. -/
def settleDisks (d : Device) : Device :=
  clipPeerDisk i <| clipDisk i <| vanishConsistent r i <| resumeAborted i <| abortUnsyncable i <|
    restrictSide i <| abortFailed i <| clearDependency r i <| dropPeer i d

/-- The steps from there to the quorum check. -/
def settleResync (d : Device) : Device :=
  upgradeDisk i <| keepDiskless i <| tellOthers i <| pauseOrResume i <| pauseSource i d

/-- What the loop collects besides the states. -/
structure Scan where
  dev : Device
  lostConnection : Bool := false
  goodOld : Nat := 0
  goodNew : Nat := 0
  /-- The connections which suspend I/O while the fence-peer handler runs. -/
  fenced : List NodeId := []

def needsFencing (d : Device) : Bool :=
  let p := d.peer i
  (r.conn i).fencingPolicy = .stonith ∧
    (r.role.new = .primary ∧ isOff p.repl.new ∧ p.disk.new = .unknown) ∧
    (r.role.old ≠ .primary ∨ p.disk.old ≠ .unknown)

def visitPeer (s : Scan) (i : NodeId) : Scan :=
  let dropped := dropPeer i s.dev
  let d := settleDisks r i s.dev
  { dev := checkQuorum r i (settleResync i d)
    lostConnection := s.lostConnection ||
      (!isOff (dropped.peer i).repl.old && isOff (dropped.peer i).repl.new)
    goodOld := s.goodOld + if (d.peer i).disk.old = .upToDate then 1 else 0
    goodNew := s.goodNew + if (d.peer i).disk.new = .upToDate then 1 else 0
    fenced := if needsFencing r i d then i :: s.fenced else s.fenced }

/-! ### The loops -/

/-- What comes before the loop over the peers. -/
def beforePeers (d : Device) : Device :=
  let d1 := if d.disk.old = .diskless ∧ d.disk.new = .detaching then d.setDisk .diskless else d
  let d2 :=
    if r.ignOutdFail ∧ d1.disk.old.rank < DiskState.outdated.rank ∧ d1.disk.new = .outdated then
      d1.setDisk d1.disk.old
    else d1
  negotiate r d2

def scanPeers (d : Device) : Scan :=
  d.peerIds.foldl (visitPeer r) { dev := beforePeers r d }

/-- `maybe_crashed_primary && !connected_primaries`, from the loop over the connections. -/
def crashedPrimary : Bool :=
  (r.connections.any fun i =>
    let c := r.conn i
    c.peerRole.old = .primary ∧ c.cstate.old = .connected ∧
      ((ConnState.timeout.rank ≤ c.cstate.new.rank ∧
          c.cstate.new.rank ≤ ConnState.protocolError.rank) ∨
        (c.cstate.new = .disconnecting ∧ r.hard))) &&
  !(r.connections.any fun i => (r.conn i).peerRole.new = .primary)

/-- What comes after the loop over the peers. -/
def afterPeers (s : Scan) : Device :=
  let d1 :=
    if s.lostConnection ∧ s.dev.disk.new = .negotiating then
      s.dev.setDisk (diskStateFromMd s.dev)
    else s.dev
  if crashedPrimary r ∧ d1.disk.new = .upToDate ∧ r.role.old = .secondary then
    d1.setDisk .consistent
  else d1

def sanitizeDevice (d : Device) : Device := afterPeers r (scanPeers r d)

/-- Suspend I/O if there is no accessible data. -/
def lacksData (d : Device) : Bool :=
  let s := scanPeers r d
  let goodOld := s.goodOld + if s.dev.disk.old = .upToDate then 1 else 0
  let goodNew := s.goodNew + if s.dev.disk.new = .upToDate then 1 else 0
  r.suspendOnNoData ∧ (r.role.new = .primary ∧ goodNew = 0) ∧
    ¬ (r.role.old = .primary ∧ goodOld = 0)

/-- A connection that is not established does not know the role of the peer. -/
def forgetPeerRole (c : Connection) : Connection :=
  if c.cstate.new.rank < ConnState.connected.rank then
    { c with peerRole := c.peerRole.set .unknown }
  else c

def sanitizeState : Resource :=
  let r1 := { r with conn := fun i => forgetPeerRole (r.conn i) }
  { r1 with
    conn := fun i =>
      if r1.devices.any fun d => decide (i ∈ (scanPeers r1 d).fenced) then
        { r1.conn i with suspFen := (r1.conn i).suspFen.set true }
      else r1.conn i
    suspNod := if r1.devices.any (lacksData r1) then r1.suspNod.set true else r1.suspNod
    devices := r1.devices.map (sanitizeDevice r1) }

end Bsr.Quorum
