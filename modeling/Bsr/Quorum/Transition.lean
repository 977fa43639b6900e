import Bsr.Quorum.Sanitize

/-!
# Accepting or refusing a state change

`try_state_change` sanitizes the wanted state and then looks at the transition.

* `isValidTransition` refuses what even the environment cannot bring about.
* `isValidSoftTransition` refuses more, but not for a change with `CS_HARD`. Here a loss of quorum
  is refused.
* `tryStateChange` gives the result and the sanitized state.
-/

namespace Bsr.Quorum

open Handshake (NodeId)
open Request (DiskState)
open State

/-- `if (cond) return rv;`. -/
def refuseIf (cond : Bool) (rv : StateRv) : Except StateRv Unit :=
  if cond then .error rv else .ok ()

def peerChanged (p : PeerDevice) : Bool :=
  p.disk.old ≠ p.disk.new ∨ p.repl.old ≠ p.repl.new ∨
    p.resyncSuspUser.old ≠ p.resyncSuspUser.new ∨
    p.resyncSuspPeer.old ≠ p.resyncSuspPeer.new ∨
    p.resyncSuspDependency.old ≠ p.resyncSuspDependency.new ∨
    p.resyncSuspOtherC.old ≠ p.resyncSuspOtherC.new

def deviceChanged (d : Device) : Bool :=
  decide (d.disk.old ≠ d.disk.new ∨ d.suspQuorum.old ≠ d.suspQuorum.new) ||
    d.peerIds.any fun i => peerChanged (d.peer i)

def connectionChanged (c : Connection) : Bool :=
  c.cstate.old ≠ c.cstate.new ∨ c.peerRole.old ≠ c.peerRole.new ∨
    c.suspFen.old ≠ c.suspFen.new

variable (r : Resource)

def stateHasChanged : Bool :=
  r.negotiationResultTouched ||
    decide (r.role.old ≠ r.role.new ∨ r.susp.old ≠ r.susp.new ∨ r.suspNod.old ≠ r.suspNod.new) ||
    (r.connections.any fun i => connectionChanged (r.conn i)) || r.devices.any deviceChanged

variable (d : Device)

/-- `state_has_changed` clears `UUID_FLAG_GOT_STABLE` of all peer devices and the flag it tests. -/
def clearGotStable : Device :=
  { d with peer := fun i => { d.peer i with uuidGotStable := false } }

def clearFlags : Resource :=
  { r with negotiationResultTouched := false, devices := r.devices.map clearGotStable }

/-! ### Transitions which are refused in any case -/

def isValidConnTransition (oc nc : ConnState) : Except StateRv Unit := do
  if oc = nc then return
  refuseIf (oc = .standalone ∧ nc = .disconnecting) .alreadyStandalone
  refuseIf (oc = .standalone ∧ nc ≠ .unconnected) .needConnection
  refuseIf (oc.isLost ∧ nc ≠ .unconnected ∧ nc ≠ .disconnecting) .inTransientState
  refuseIf (oc = .disconnecting ∧ nc ≠ .standalone) .inTransientState

/-- The peer devices of the connection to node `i`. -/
def peerDevices (i : NodeId) : List PeerDevice :=
  (r.devices.filter fun d => i ∈ d.peerIds).map fun d => d.peer i

def isValidTransition : Except StateRv Unit := do
  r.connections.forM fun i => do
    isValidConnTransition (r.conn i).cstate.old (r.conn i).cstate.new
    (peerDevices r i).forM fun p =>
      refuseIf ((r.conn i).cstate.old.rank < ConnState.connected.rank ∧ !isOff p.repl.new)
        .needConnection
  r.devices.forM fun d =>
    refuseIf ((d.disk.new = .failed ∨ d.disk.new = .detaching) ∧ d.disk.old = .diskless)
      .isDiskless

/-! ### Soft transitions -/

def twoPrimaries (c : Connection) : Bool :=
  match c.netConf with
  | none => false
  | some nc => nc.twoPrimaries

/-- Two primaries, as far as a promotion of this node is concerned. -/
def softPromotion : Except StateRv Unit :=
  r.connections.forM fun i =>
    refuseIf (r.role.old ≠ .primary ∧ r.role.new = .primary ∧
      (r.conn i).netConf.isSome ∧ !twoPrimaries (r.conn i) ∧ (r.conn i).peerRole.new = .primary)
      .twoPrimaries

def softConnection (i : NodeId) : Except StateRv Unit := do
  let c := r.conn i
  refuseIf (c.cstate.new = .disconnecting ∧ c.cstate.old = .standalone) .alreadyStandalone
  refuseIf (c.cstate.new = .connecting ∧ c.cstate.old.rank < ConnState.unconnected.rank)
    .noNetConfig
  refuseIf (c.cstate.new = .disconnecting ∧ c.cstate.old = .unconnected) .inTransientState
  -- while establishing a connection only `cstate` may change
  refuseIf (¬ (c.cstate.old = .connected ∨
      (c.cstate.new = .connected ∧ c.cstate.old = .connecting)) ∧
    (peerDevices r i).any fun p => p.initialStateSent && !p.initialStateReceived) .inTransientState
  let becomesPrimary := decide (c.peerRole.new = .primary ∧ c.peerRole.old ≠ .primary) &&
    !twoPrimaries c
  refuseIf (becomesPrimary && decide (r.role.old = .primary)) .twoPrimaries
  refuseIf (becomesPrimary && r.devices.any fun d => d.openRoCnt ≠ 0) .primaryReader

def anyDiskUpToDate (which : Pair DiskState → DiskState) : Bool :=
  decide (which d.disk = .upToDate) || d.peerIds.any fun i => which (d.peer i).disk = .upToDate

/-- The checks of a device up to the quorum. -/
def softDisk : Except StateRv Unit := do
  let oldUpToDate := anyDiskUpToDate d Pair.old
  let newUpToDate := anyDiskUpToDate d Pair.new
  refuseIf (r.role.old ≠ .secondary ∧ r.role.new = .secondary ∧ d.openRwCnt ≠ 0) .deviceInUse
  refuseIf (DiskState.attaching.rank < d.disk.new.rank ∧ d.disk.old = .diskless) .isDiskless
  -- `Inconsistent` to `Outdated` is allowed at the end of a resync
  refuseIf (d.disk.new = .outdated ∧ d.disk.old.rank < DiskState.outdated.rank ∧
      d.disk.old ≠ .attaching ∧
      ¬ d.peerIds.any fun i =>
        (d.peer i).repl.old = .syncTarget ∧ (d.peer i).repl.new = .established)
    .lowerThanOutdated
  refuseIf (¬ (r.role.old = .primary ∧ !oldUpToDate) ∧ (r.role.new = .primary ∧ !newUpToDate))
    .noUpToDateDisk
  refuseIf (¬ (r.role.old = .primary ∧ d.disk.old.rank ≤ DiskState.outdated.rank) ∧
      (r.role.new = .primary ∧ d.disk.new.rank ≤ DiskState.outdated.rank))
    .noUpToDateDisk
  refuseIf (d.openRoCnt ≠ 0 ∧ oldUpToDate ∧ !newUpToDate) .noUpToDateDisk

/-- A node that gets the role, or has it, does not give up the quorum. -/
def softQuorum : Except StateRv Unit :=
  refuseIf (r.role.new = .primary ∧ r.quorum ≠ qouOff ∧ d.getLdev ∧
    (r.role.old = .primary → hadQuorum r d) ∧ haveQuorum r d = false) .noQuorum

/-- The replication states of a node that is behind one of its peers. -/
def isBehind : ReplState → Bool
  | .wfSyncUuid | .wfBitmapT | .startingSyncT | .syncTarget | .pausedSyncT | .behind => true
  | _ => false

def localDiskMayBeOutdated : Bool :=
  if r.role.new = .primary then false
  else if d.peerIds.any fun i =>
      (r.conn i).peerRole.new = .primary ∧ replRank .off < replRank (d.peer i).repl.new then
    d.peerIds.any fun i => isBehind (d.peer i).repl.new
  else true

def isVerify (s : ReplState) : Bool := s = .verifyS ∨ s = .verifyT

def isStartingSync (s : ReplState) : Bool := s = .startingSyncS ∨ s = .startingSyncT

/-- The checks of a peer device; `negotiating` is the count of `D_NEGOTIATING` so far. -/
def softPeer (negotiating : Nat) (i : NodeId) :
    Except StateRv Nat := do
  let p := d.peer i
  let est := replRank .established
  let inc := DiskState.inconsistent.rank
  let outd := DiskState.outdated.rank
  let negotiating := negotiating + if p.disk.new = .negotiating then 1 else 0
  refuseIf (1 < negotiating) .inTransientState
  refuseIf (p.repl.new = .wfBitmapT ∧ p.disk.new = .outdated ∧ p.disk.old.rank < outd ∧
    p.disk.old ≠ .attaching) .lowerThanOutdatedPeer
  refuseIf ((r.conn i).fencingPolicy ≠ .dontCare ∧
    ¬ (r.role.old = .primary ∧ isOff p.repl.old ∧ ¬ p.disk.old.rank ≤ outd) ∧
    (r.role.new = .primary ∧ isOff p.repl.new ∧ ¬ p.disk.new.rank ≤ outd)) .primaryNop
  refuseIf (¬ (est < replRank p.repl.old ∧ d.disk.old.rank < inc) ∧
    (est < replRank p.repl.new ∧ d.disk.new.rank < inc)) .noLocalDisk
  refuseIf (¬ (est < replRank p.repl.old ∧ p.disk.old.rank < inc) ∧
    (est < replRank p.repl.new ∧ p.disk.new.rank < inc)) .noRemoteDisk
  refuseIf (outd < d.disk.old.rank ∧ d.disk.new = .outdated ∧ !localDiskMayBeOutdated r d)
    .connectedOutdates
  refuseIf (!isVerify p.repl.old ∧ isVerify p.repl.new ∧
    ¬ (r.conn i).netConf.any NetConf.verifyAlg) .noVerifyAlg
  refuseIf (p.repl.old = .syncSource ∧ p.repl.new = .wfBitmapS) .resyncRunning
  refuseIf (p.repl.old = .syncTarget ∧ p.repl.new = .wfBitmapT) .resyncRunning
  refuseIf (p.repl.new ≠ p.repl.old ∧ isStartingSync p.repl.new ∧ est < replRank p.repl.old)
    .resyncRunning
  refuseIf (isVerify p.repl.new ∧ isOff p.repl.old) .needConnection
  refuseIf (isVerify p.repl.new ∧ p.repl.new ≠ p.repl.old ∧ est < replRank p.repl.old)
    .resyncRunning
  refuseIf (isStartingSync p.repl.new ∧ isOff p.repl.old) .needConnection
  -- the last check asks for `repl_state[OLD] < L_OFF`, and `L_OFF` is the least state
  return negotiating

def softDevice : Except StateRv Unit := do
  softDisk r d
  softQuorum r d
  let _ ← d.peerIds.foldlM (softPeer r d) (if d.disk.new = .negotiating then 1 else 0)

def isValidSoftTransition : Except StateRv Unit := do
  softPromotion r
  r.connections.forM (softConnection r)
  r.devices.forM (softDevice r)

/-! ### The state change -/

/-- The result, an error if the change is refused, and the state with the sanitized slots. -/
def tryStateChange : Except StateRv StateRv × Resource :=
  let r1 := clearFlags r
  if !stateHasChanged r then (.ok .nothingToDo, r1)
  else
    let r2 := sanitizeState r1
    let rv := do
      isValidTransition r2
      if !r2.hard then isValidSoftTransition r2
      return .success
    (rv, r2)

end Bsr.Quorum
