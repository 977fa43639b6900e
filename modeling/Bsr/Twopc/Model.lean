import Bsr.State.Enums

/-!
# Two-phase commit: connections and votes

A cluster-wide state change is prepared on all nodes that can be reached and then committed or
aborted. The votes of the peers are bits in the flags of the connections, set by other threads.

* `Conn` has these bits and what is read of the connection besides;
* `clusterWideReplyReady` ends the wait for the votes, `getClusterWideReply` reads them;
* `primaryNodesAllowed` and `checkPrimariesDistances` are the checks of the initiator on the sum of
  the replies.

Sets of nodes are 64-bit masks. References, messages and the statistics are left out.
-/

namespace Bsr.Twopc

open State

/-! ## Masks and packets -/

def nodeMask (id : Nat) : BitVec 64 :=
  1#64 <<< id

/-- `mask & NODE_MASK(id)`. -/
def hasNode (mask : BitVec 64) (id : Nat) : Bool :=
  mask &&& nodeMask id != 0

variable {id : Nat}

theorem hasNode_iff {m : BitVec 64} : hasNode m id = true ↔ m.getLsbD id = true := by
  rw [hasNode, nodeMask, bne_iff_ne]
  constructor
  · intro h
    by_contra hbit
    refine h (BitVec.eq_of_getLsbD_eq fun i hi => ?_)
    by_cases hid : i = id
    · subst hid
      simp [hbit]
    simp only [BitVec.getLsbD_and]
    by_cases hlt : i < id
    · simp [hlt]
    · have : i - id ≠ 0 := by omega
      simp [this]
  · intro h h0
    have hlt : id < 64 := BitVec.lt_of_getLsbD h
    have hbit := congrArg (fun b => b.getLsbD id) h0
    rw [BitVec.getLsbD_and, h] at hbit
    simp [hlt] at hbit

theorem hasNode_nodeMask_self (hid : id < 64) : hasNode (nodeMask id) id = true := by
  rw [hasNode_iff, nodeMask]
  simp [hid]

theorem hasNode_nodeMask {id t : Nat} (h : hasNode (nodeMask t) id = true) : id = t := by
  rw [hasNode_iff, nodeMask] at h
  simp at h
  omega

theorem hasNode_or {a b : BitVec 64} :
    hasNode (a ||| b) id = true ↔ hasNode a id = true ∨ hasNode b id = true := by
  rw [hasNode_iff, hasNode_iff, hasNode_iff, BitVec.getLsbD_or, Bool.or_eq_true]

inductive Cmd where
  | prepare | prepRsz | commit | abort
deriving DecidableEq, Repr

inductive Vote where
  | yes | no | retry
deriving DecidableEq, Repr

/-- `struct bsr_connection`: the peer, the states and the bits `TWOPC_*` of the flags. -/
structure Conn where
  peerNodeId : Nat
  agreedProVersion : Nat := 110
  cstate : ConnState := .connected
  peerRole : Role := .secondary
  /-- `net_conf->two_primaries`. -/
  twoPrimaries : Bool := false
  prepared : Bool := false
  yes : Bool := false
  no : Bool := false
  retry : Bool := false
deriving DecidableEq, Repr

/-- `struct twopc_reply`: the transaction, and the sum of the replies to it. -/
structure Reply where
  /-- `-1` is `none`. -/
  initiatorNodeId : Option Nat := none
  tid : Nat := 0
  targetNodeId : Option Nat := none
  reachableNodes : BitVec 64 := 0
  targetReachableNodes : BitVec 64 := 0
  primaryNodes : BitVec 64 := 0
  weakNodes : BitVec 64 := 0
  isDisconnect : Bool := false
  isAborted : Bool := false
deriving DecidableEq, Repr

def directlyConnectedNodes : List Conn → BitVec 64
  | [] => 0
  | c :: cs =>
    if c.cstate.rank < ConnState.connected.rank then directlyConnectedNodes cs
    else nodeMask c.peerNodeId ||| directlyConnectedNodes cs

/-! ## Votes -/

/-- The loop of `cluster_wide_reply_ready`. -/
def replyReady : Bool → List Conn → Bool
  | ready, [] => ready
  | ready, c :: cs =>
    if !c.prepared then replyReady ready cs
    else if c.no || c.retry then true
    else if !c.yes then replyReady false cs
    else replyReady ready cs

/-- `cluster_wide_reply_ready`; `abortLocal` is `TWOPC_ABORT_LOCAL`. -/
def clusterWideReplyReady (abortLocal : Bool) (cs : List Conn) : Bool :=
  if abortLocal then true else replyReady true cs

/-- A refusal that counts. When the change is a disconnect, the error of a lost connection does
not. -/
def Conn.refuses (disconnecting : Bool) (c : Conn) : Bool :=
  c.no && !(disconnecting && c.cstate.isLost)

/-- The loop of `get_cluster_wide_reply`. -/
def wideReply (disconnecting : Bool) : StateRv → List Conn → StateRv
  | rv, [] => rv
  | rv, c :: cs =>
    if !c.prepared then wideReply disconnecting rv cs
    else if c.retry then .concurrentStChg
    else wideReply disconnecting (if c.refuses disconnecting then .cwFailedByPeer else rv) cs

def getClusterWideReply (abortLocal disconnecting : Bool) (cs : List Conn) : StateRv :=
  if abortLocal then .concurrentStChg else wideReply disconnecting .cwSuccess cs

def Conn.addVote (v : Vote) (c : Conn) : Conn :=
  match v with
  | .yes => { c with yes := true }
  | .no => { c with no := true }
  | .retry => { c with retry := true }

/-- `twopc_connection_down`, while a transaction is on. -/
def Conn.down (cstate : ConnState) (c : Conn) : Conn :=
  { c with cstate := cstate, no := c.no || c.prepared }

/-! ## Checks of the initiator -/

def primaryNodesAllowed (reply : Reply) (cs : List Conn) : StateRv :=
  if cs.any fun c => hasNode reply.primaryNodes c.peerNodeId && !c.twoPrimaries then .twoPrimaries
  else .success

def checkPrimariesDistances (nodeId : Nat) (haveLocalDisk : Bool) (reply : Reply) (cs : List Conn) : StateRv :=
  if reply.primaryNodes &&& reply.weakNodes = 0 then .success
  else
    let commonServer := ~~~reply.weakNodes
    if commonServer = 0 then .weaklyConnected
    else if hasNode reply.primaryNodes nodeId && haveLocalDisk then .weaklyConnected
    else if cs.any fun c => hasNode commonServer c.peerNodeId && !c.twoPrimaries then .twoPrimaries
    else .success

/-! ## What the loops find -/

variable {cs : List Conn}

/-- The wait ends when all have voted, or when one vote decides. -/
theorem replyReady_eq_true_iff {ready : Bool} : replyReady ready cs = true ↔
    (∃ c ∈ cs, c.prepared = true ∧ (c.no = true ∨ c.retry = true)) ∨
      ready = true ∧ ∀ c ∈ cs, c.prepared = true → c.yes = true := by
  induction cs generalizing ready with
  | nil => simp [replyReady]
  | cons c cs ih =>
    rw [replyReady]
    cases hprep : c.prepared with
    | false => simp [ih, hprep]
    | true =>
      cases hno : c.no <;> cases hretry : c.retry <;> cases hyes : c.yes <;> simp [ih, hprep, hno, hretry, hyes]

theorem wideReply_eq_cwSuccess_iff {disconnecting : Bool} {rv : StateRv} :
    wideReply disconnecting rv cs = .cwSuccess ↔ rv = .cwSuccess ∧
      ∀ c ∈ cs, c.prepared = true → c.retry = false ∧ c.refuses disconnecting = false := by
  induction cs generalizing rv with
  | nil => simp [wideReply]
  | cons c cs ih =>
    rw [wideReply]
    cases hprep : c.prepared with
    | false => simp [ih, hprep]
    | true =>
      cases hretry : c.retry with
      | true => simp [hprep, hretry]
      | false => cases href : c.refuses disconnecting <;> simp [ih, hprep, hretry, href]

/-- A change goes on only if nobody who was asked refuses or wants a retry. -/
theorem getClusterWideReply_eq_cwSuccess_iff {abortLocal disconnecting : Bool} :
    getClusterWideReply abortLocal disconnecting cs = .cwSuccess ↔ abortLocal = false ∧
      ∀ c ∈ cs, c.prepared = true → c.retry = false ∧ c.refuses disconnecting = false := by
  cases abortLocal <;> simp [getClusterWideReply, wideReply_eq_cwSuccess_iff]

theorem wideReply_cases (disconnecting : Bool) (rv : StateRv) (cs : List Conn) :
    wideReply disconnecting rv cs = rv ∨ wideReply disconnecting rv cs = .cwFailedByPeer ∨
      wideReply disconnecting rv cs = .concurrentStChg := by
  induction cs generalizing rv with
  | nil => exact .inl rfl
  | cons c cs ih =>
    rw [wideReply]
    split_ifs with hprep hretry href
    · exact ih rv
    · exact .inr (.inr rfl)
    · exact (ih .cwFailedByPeer).elim (fun h => .inr (.inl h)) .inr
    · exact ih rv

theorem isSuccess_getClusterWideReply {abortLocal disconnecting : Bool}
    (h : (getClusterWideReply abortLocal disconnecting cs).isSuccess = true) :
    getClusterWideReply abortLocal disconnecting cs = .cwSuccess := by
  unfold getClusterWideReply at h ⊢
  split_ifs at h ⊢
  · exact absurd h (by decide)
  rcases wideReply_cases disconnecting .cwSuccess cs with heq | heq | heq
  · exact heq
  · rw [heq] at h
    exact absurd h (by decide)
  · rw [heq] at h
    exact absurd h (by decide)

end Bsr.Twopc
