import Bsr.Lib.Reach
import Bsr.Twopc.Model

/-!
# The coordinator of a cluster-wide state change

`change_cluster_wide_state` of `bsr_state.c`, cut where other threads can come in between: they
deliver votes, lose connections and ask the node to abort its own change (`TWOPC_ABORT_LOCAL`).

* `Pc` is where the function stands; `step` is one step of it, or one of the other threads;
* `sent` records the packets in the order in which they are handed to the connections;
* `votes` and `wokenLocal` record what was read at the end of the wait.

What is decided locally before and after (`change`, `try_state_change`, `end_state_change`) is given
by the events. The connections of the resource stay the same while the change is on, and a vote for
another transaction is no event.
-/

namespace Bsr.Twopc

open State

/-- `struct change_context` and the node; a field of `mask` that is not set is `none`. -/
structure Context where
  nodeId : Nat
  targetNodeId : Option Nat := none
  conn : Option ConnField := none
  role : Option Role := none
  /-- `CS_SERIALIZE`. -/
  serialize : Bool := true
  /-- `CS_DONT_RETRY`. -/
  dontRetry : Bool := false
  changeLocalStateLast : Bool := true

namespace Context

/-- `bDisconnecting`. -/
def disconnecting (ctx : Context) : Bool :=
  ctx.conn == some (.conn .disconnecting)

def connecting (ctx : Context) : Bool :=
  ctx.conn == some (.conn .connected)

/-- The change makes this node primary. -/
def promoting (ctx : Context) : Bool :=
  ctx.role == some .primary

end Context

/-- What is left to do after the second phase. -/
inductive After where
  | ret (rv : StateRv)
  | localChange (rv : StateRv)
deriving DecidableEq, Repr

/-- Where `change_cluster_wide_state` stands. -/
inductive Pc where
  | start
  /-- `__cluster_wide_request`, with the nodes still to come. -/
  | prepare (todo : List Nat)
  | wait
  /-- The wait has ended in time. -/
  | votes
  | result (rv : StateRv)
  /-- `twopc_phase2`, with the nodes still to come. -/
  | phase2 (success : Bool) (todo : List Nat) (after : After)
  | localChange (rv : StateRv)
  /-- The change is forced through locally. -/
  | hardChange
  | done (rv : StateRv)
deriving DecidableEq, Repr

/-- The resource, the variables of the function, and what it has sent. -/
structure Coord where
  conns : List Conn
  role : Role := .secondary
  abortLocal : Bool := false
  reply : Reply := {}
  pc : Pc := .start
  reachImmediately : BitVec 64 := 0
  havePeers : Bool := false
  sent : List (Nat × Cmd) := []
  /-- The connections when their votes were read. -/
  votes : Option (List Conn) := none
  /-- The wait was ended by `TWOPC_ABORT_LOCAL`. -/
  wokenLocal : Bool := false
  /-- What the votes came to. -/
  voteRv : Option StateRv := none
deriving DecidableEq, Repr

namespace Coord

def ids (s : Coord) : List Nat :=
  s.conns.map Conn.peerNodeId

/-- One connection is changed. -/
def modConn (s : Coord) (id : Nat) (f : Conn → Conn) : Coord :=
  { s with conns := s.conns.map fun c => if c.peerNodeId = id then f c else c }

end Coord

/-! ## The first phase -/

def supportsTwoPhaseCommit (cs : List Conn) : Bool :=
  cs.all fun c => c.cstate != .connected || decide (110 ≤ c.agreedProVersion)

variable (ctx : Context)

/-- The nodes in the order in which they are asked: the target first. -/
def requestOrder (ids : List Nat) : List Nat :=
  match ctx.targetNodeId with
  | none => ids
  | some t => ids.filter (· == t) ++ ids.filter (· != t)

/-- The transaction begins. -/
def beginRequest (reach : BitVec 64) (s : Coord) : Coord :=
  let reachable := directlyConnectedNodes s.conns ||| nodeMask ctx.nodeId
  let target := (ctx.targetNodeId.map nodeMask).getD 0
  let reply : Reply := {
    initiatorNodeId := some ctx.nodeId
    targetNodeId := ctx.targetNodeId
    reachableNodes :=
      if ctx.connecting then reachable ||| target
      else if ctx.disconnecting then reachable &&& ~~~target
      else reachable
    targetReachableNodes :=
      if ctx.connecting then reachable ||| target
      else if ctx.disconnecting then target
      else reachable }
  { s with reply := reply, reachImmediately := reach, pc := .prepare (requestOrder ctx s.ids) }

/-- From the beginning to `begin_remote_state_change`. `early` is the result when the change is
local or fails locally, `oldRv` that of `change_peer_state` with an old peer. -/
def begin (early : Option StateRv) (oldRv : StateRv) (workerBusy : Bool) (s : Coord) : Coord :=
  match early with
  | some rv => { s with pc := .done rv }
  | none =>
    if !supportsTwoPhaseCommit s.conns then { s with pc := .done oldRv }
    else if !ctx.serialize then { s with pc := .done .cwFailedByPeer }
    else if workerBusy then { s with pc := .done .concurrentStChg }
    else
      let reach := directlyConnectedNodes s.conns
      match ctx.targetNodeId with
      | none => beginRequest ctx reach s
      | some t =>
        match s.conns.find? fun c => c.peerNodeId == t with
        | none => { s with pc := .done .cwFailedByPeer }
        | some c =>
          if c.cstate = .connected ∨ c.cstate = .connecting ∧ ctx.connecting = true then
            beginRequest ctx (reach ||| nodeMask t) s
          else { s with pc := .done .cwFailedByPeer }

/-- A prepare is sent to the connection. -/
def Conn.asked (reach : BitVec 64) (c : Conn) : Bool :=
  decide (110 ≤ c.agreedProVersion) && hasNode reach c.peerNodeId

/-- `conn_send_twopc`; `sendOk` is what `conn_send_twopc_request` comes to. -/
def connSendTwopc (reach : BitVec 64) (sendOk : Bool) (c : Conn) : Conn :=
  if c.asked reach then { c with prepared := sendOk, yes := false, no := false, retry := false }
  else { c with prepared := false }

/-- One node of `__cluster_wide_request`. -/
def sendPrepare (sendOk : Bool) (id : Nat) (todo : List Nat) (s : Coord) : Coord :=
  let isSent := sendOk && s.conns.any fun c => c.peerNodeId == id && c.asked s.reachImmediately
  { s.modConn id (connSendTwopc s.reachImmediately sendOk) with
    pc := .prepare todo
    havePeers := s.havePeers || isSent
    sent := if isSent then s.sent ++ [(id, .prepare)] else s.sent }

/-! ## The votes -/

/-- The checks after all agreed. -/
def checkReplies (haveLocalDisk : Bool) (s : Coord) : StateRv × Reply :=
  let target := (ctx.targetNodeId.map nodeMask).getD 0
  let reachable := directlyConnectedNodes s.conns ||| nodeMask ctx.nodeId
  let directlyReachable :=
    if ctx.connecting then reachable ||| target
    else if ctx.disconnecting then reachable &&& ~~~target
    else reachable
  let reply :=
    if ctx.promoting || ctx.role.isNone && s.role == .primary then
      { s.reply with
        primaryNodes := s.reply.primaryNodes ||| nodeMask ctx.nodeId
        weakNodes := s.reply.weakNodes ||| ~~~directlyReachable }
    else s.reply
  let rv := if ctx.promoting then primaryNodesAllowed reply s.conns else .cwSuccess
  let rv := if ctx.promoting || ctx.connecting then
      checkPrimariesDistances ctx.nodeId haveLocalDisk reply s.conns else rv
  let rv := match ctx.targetNodeId with
    | none => rv
    | some t =>
      if hasNode reply.primaryNodes t &&
          s.conns.any fun c => c.peerNodeId != t && c.peerRole == .primary then .twoPrimaries
      else rv
  let m := reply.reachableNodes ||| reply.targetReachableNodes
  (rv, if !ctx.disconnecting || reply.reachableNodes &&& reply.targetReachableNodes != 0 then
      { reply with reachableNodes := m, targetReachableNodes := m } else reply)

/-- The votes are read. -/
def readVotes (haveLocalDisk : Bool) (s : Coord) : Coord :=
  let voteRv := getClusterWideReply s.abortLocal ctx.disconnecting s.conns
  let r := if voteRv = .cwSuccess then checkReplies ctx haveLocalDisk s else (voteRv, s.reply)
  { s with reply := r.2, pc := .result r.1, votes := some s.conns, voteRv := some voteRv }

/-! ## The second phase -/

/-- The votes came too late, or the change has to be tried again. -/
def isRetry (rv : StateRv) : Bool :=
  rv == .timeout || rv == .concurrentStChg

/-- What follows from the result. -/
def conclude (rv : StateRv) (s : Coord) : Coord :=
  if ctx.disconnecting && isRetry rv then
    -- "twopc timeout occurred, no more retries"
    { s with pc := .hardChange }
  else if isRetry rv && !ctx.dontRetry then
    { s with pc := if s.havePeers then .phase2 false s.ids (.ret .nothingToDo) else .done .nothingToDo }
  else if s.havePeers && ctx.changeLocalStateLast then
    { s with pc := .phase2 rv.isSuccess s.ids (.localChange rv) }
  else { s with pc := .localChange rv }

/-- The local change; `endRv` is what `end_state_change` comes to. -/
def localChange (endRv rv : StateRv) (s : Coord) : Coord :=
  let rv := if rv.isSuccess then endRv else rv
  { s with pc := if s.havePeers && !ctx.changeLocalStateLast then .phase2 rv.isSuccess s.ids (.ret rv)
      else .done rv }

/-- The packet of the second phase. -/
def phase2Cmd (success : Bool) : Cmd :=
  if success then .commit else .abort

/-- One connection of `twopc_phase2`; whether the packet gets through is not looked at. -/
def sendPhase2 (success : Bool) (id : Nat) (todo : List Nat) (after : After) (s : Coord) : Coord :=
  { s with
    pc := .phase2 success todo after
    sent := if hasNode s.reachImmediately id then s.sent ++ [(id, phase2Cmd success)] else s.sent }

def After.pc : After → Pc
  | ret rv => .done rv
  | localChange rv => .localChange rv

/-! ## Steps -/

/-- Steps of the coordinator, and of the threads around it. -/
inductive CoordEvent where
  | begin (early : Option StateRv) (oldRv : StateRv) (workerBusy : Bool)
  | request (sendOk : Bool)
  | ready
  | timeOut
  | readVotes (haveLocalDisk : Bool)
  | conclude
  | phase2
  | localChange (endRv : StateRv)
  /-- `got_twopc_reply`, with the masks of the packet. -/
  | vote (id : Nat) (v : Vote) (reachable primary weak : BitVec 64)
  /-- A connection is lost. -/
  | down (id : Nat) (cstate : ConnState)
  /-- The states of a connection change in another way. -/
  | peerState (id : Nat) (cstate : ConnState) (peerRole : Role)
  | setAbortLocal (b : Bool)
  | setRole (r : Role)

/-- A reply is added up. -/
def addReply (id : Nat) (v : Vote) (reachable primary weak : BitVec 64) (reply : Reply) : Reply :=
  if v = .yes then
    let reply := if reply.targetNodeId = some id then
        { reply with targetReachableNodes := reply.targetReachableNodes ||| reachable }
      else { reply with reachableNodes := reply.reachableNodes ||| reachable }
    { reply with
      primaryNodes := reply.primaryNodes ||| primary
      weakNodes := reply.weakNodes ||| weak }
  else reply

def step (s : Coord) : CoordEvent → Option Coord
  | .begin early oldRv workerBusy =>
    if s.pc = .start then some (begin ctx early oldRv workerBusy s) else none
  | .request sendOk =>
    match s.pc with
    | .prepare [] => some { s with pc := if s.havePeers then .wait else .result .success }
    | .prepare (id :: todo) => some (sendPrepare sendOk id todo s)
    | _ => none
  | .ready =>
    if s.pc = .wait ∧ clusterWideReplyReady s.abortLocal s.conns = true then
      some { s with pc := .votes, wokenLocal := s.abortLocal }
    else none
  | .timeOut =>
    if s.pc = .wait then some { s with pc := .result .timeout, voteRv := some .timeout } else none
  | .readVotes haveLocalDisk => if s.pc = .votes then some (readVotes ctx haveLocalDisk s) else none
  | .conclude =>
    match s.pc with
    | .result rv => some (conclude ctx rv s)
    | _ => none
  | .phase2 =>
    match s.pc with
    | .phase2 _ [] after => some { s with pc := after.pc }
    | .phase2 success (id :: todo) after => some (sendPhase2 success id todo after s)
    | _ => none
  | .localChange endRv =>
    match s.pc with
    | .localChange rv => some (localChange ctx endRv rv s)
    | .hardChange => some { s with pc := .done endRv }
    | _ => none
  | .vote id v reachable primary weak =>
    some { s.modConn id (Conn.addVote v) with reply := addReply id v reachable primary weak s.reply }
  | .down id cstate => if cstate.isLost then some (s.modConn id (Conn.down cstate)) else none
  | .peerState id cstate peerRole => some (s.modConn id fun c => { c with cstate := cstate, peerRole := peerRole })
  | .setAbortLocal b => some { s with abortLocal := b }
  | .setRole r => some { s with role := r }

/-- A node before the change; every peer has one connection. -/
structure Coord.Start (s : Coord) : Prop where
  pc : s.pc = .start
  sent : s.sent = []
  reach : s.reachImmediately = 0
  havePeers : s.havePeers = false
  votes : s.votes = none
  voteRv : s.voteRv = none
  nodup : s.ids.Nodup
  /-- `BSR_NODE_ID_MAX`. -/
  small : ∀ id ∈ s.ids, id < 32

def CoordReachable : Coord → Prop :=
  Lib.Reachable Coord.Start fun s e s' => step ctx s e = some s'

end Bsr.Twopc
