import Bsr.Lib.Reach
import Bsr.Twopc.Model

/-!
# A participant of cluster-wide state changes

`process_twopc` of `bsr_receiver.c` with the timer, the work items and the queue around it.

* `checkConcurrentTransactions` compares a packet with the transaction at hand;
* `enter` is the section of `process_twopc` under `req_lock`, up to
  `resource->twopc_reply = *reply`; what follows is `finish`. Packets of other connections, the
  timer and the worker come in between;
* a prepare that has to wait for a local change is kept in `waiting` (`abort_local_transaction`);
* `log` records what was prepared, aborted and committed.

What the state change itself comes to is given by the events. Metadata flags, messages and
references are left out, and so are peers older than protocol 110.
-/

namespace Bsr.Twopc

open State

/-! ## Packets and the resource -/

/-- `struct p_twopc_request`; a field of `mask` that is not set is `none`. -/
structure Packet where
  cmd : Cmd
  initiatorNodeId : Nat
  tid : Nat
  targetNodeId : Option Nat := none
  conn : Option ConnField := none
  peer : Option Role := none
deriving DecidableEq, Repr

def Cmd.isPrepare : Cmd → Bool
  | prepare | prepRsz => true
  | commit | abort => false

/-- `enum twopc_type`. -/
inductive TwopcType where
  | stateChange | resize
deriving DecidableEq, Repr

/-- `twopc_work.cb`. -/
inductive Work where
  | nestedTwopcWork | abortNestedTwopcWork
deriving DecidableEq, Repr

/-- A handler of `process_twopc`: the connection, its `reply` and the packet. -/
structure Handler where
  peer : Nat
  reply : Reply
  p : Packet
deriving DecidableEq, Repr

/-- `struct queued_twopc`; `addr` tells them apart. -/
structure Queued extends Handler where
  addr : Nat
deriving DecidableEq, Repr

/-- What a transaction, given by its initiator and its `tid`, went through on this node. -/
inductive Entry where
  | prepared (initiator tid : Nat)
  | aborted (initiator tid : Nat)
  | committed (initiator tid : Nat)
deriving DecidableEq, Repr

/-- The fields of `struct bsr_resource` for transactions. -/
structure Participant where
  nodeId : Nat
  conns : List Conn
  role : Role := .secondary
  remoteStateChange : Bool := false
  reply : Reply := {}
  twopcType : TwopcType := .stateChange
  /-- `twopc_prepare_reply_cmd`, when it is set. -/
  prepareReplyCmd : Option Vote := none
  /-- `TWOPC_EXECUTED`. -/
  executed : Bool := false
  abortLocal : Bool := false
  /-- `twopc_timer` is pending. -/
  timer : Bool := false
  work : Option Work := none
  /-- `twopc_parents`, by node. -/
  parents : List Nat := []
  queue : List Queued := []
  /-- Taken off the queue and given to the worker. -/
  started : List Queued := []
  startingQueuedTwopc : Option Nat := none
  nextAddr : Nat := 0
  waiting : List Handler := []
  inFlight : List Handler := []
  /-- Answers to prepares: the node, the vote and the transaction. -/
  out : List (Nat × Vote × Option Nat × Nat) := []
  /-- Connections that are closed because of a packet. -/
  closed : List Nat := []
  log : List Entry := []
deriving DecidableEq, Repr

namespace Participant

variable (s : Participant)

/-- `bsr_send_twopc_reply`. -/
def sendReply (peer : Nat) (v : Vote) (reply : Reply) : Participant :=
  { s with out := s.out ++ [(peer, v, reply.initiatorNodeId, reply.tid)] }

def queueQueuedTwopc : Participant :=
  match s.queue with
  | [] => s
  | q :: queue =>
    { s with queue := queue, started := s.started ++ [q], startingQueuedTwopc := some q.addr }

def clearRemoteStateChange : Participant :=
  queueQueuedTwopc { s with
    remoteStateChange := false
    reply := { s.reply with initiatorNodeId := none, tid := 0 }
    parents := [] }

/-- The transaction at hand is given up. -/
def logAbort : Participant :=
  match s.reply.initiatorNodeId with
  | none => s
  | some i => { s with log := s.log ++ [.aborted i s.reply.tid] }

/-- The nested work is queued, when there is none and the votes are complete. -/
def queueNested : Participant :=
  if clusterWideReplyReady s.abortLocal s.conns && s.work.isNone then
    { s with work := some .nestedTwopcWork }
  else s

/-- The same after a vote; when the transaction is this node's own, the coordinator waits for it
instead. -/
def voted : Participant :=
  if s.reply.initiatorNodeId = some s.nodeId then s else s.queueNested

/-- One connection is changed. -/
def modConn (peer : Nat) (f : Conn → Conn) : Participant :=
  { s with conns := s.conns.map fun c => if c.peerNodeId = peer then f c else c }

/-- A connection among the parents, once. -/
def addParent (peer : Nat) : Participant :=
  if peer ∈ s.parents then s else { s with parents := peer :: s.parents }

def twopcEndNested (v : Vote) (asWork : Bool) : Participant :=
  let s := if asWork then { s with work := none } else s
  if s.reply.tid = 0 then s
  else { s with
    prepareReplyCmd := some v
    out := s.out ++ s.parents.map fun n => (n, v, s.reply.initiatorNodeId, s.reply.tid)
    parents := [] }

/-- `nested_twopc_request`; `asked` are the nodes that the packet was passed on to. -/
def nestedTwopcRequest (cmd : Cmd) (asked : List Nat) : Participant :=
  let s := { s with conns := s.conns.map fun c =>
    if c.peerNodeId ∈ asked then { c with prepared := true, yes := false, no := false, retry := false }
    else { c with prepared := false } }
  if cmd.isPrepare ∧ asked = [] then s.twopcEndNested .yes false else s

end Participant

/-! ## Concurrent transactions -/

/-- `enum csc_rv`; `CSC_UPDATE` is the same number as `CSC_MATCH`. -/
inductive CscRv where
  | clear | reject | abortLocal | queue | tidMiss | isMatch
deriving DecidableEq, Repr

/-- The order of node ids; `-1` is below all. -/
def initiatorLt (a b : Option Nat) : Bool :=
  match a, b with
  | _, none => false
  | none, some _ => true
  | some a, some b => decide (a < b)

variable (s : Participant)

/-- The disconnect at hand gives way to another transaction (`CSC_UPDATE`). -/
def isUpdate (reply : Reply) : Bool :=
  s.remoteStateChange && initiatorLt s.reply.initiatorNodeId reply.initiatorNodeId &&
    s.reply.isDisconnect && reply.tid != s.reply.tid

def checkConcurrentTransactions (h : Handler) : CscRv :=
  let connecting := s.conns.any fun c => c.peerNodeId == h.peer && c.cstate == .connecting
  if !s.remoteStateChange then .clear
  else if initiatorLt h.reply.initiatorNodeId s.reply.initiatorNodeId then
    if s.reply.initiatorNodeId = some s.nodeId then .abortLocal else .queue
  else if initiatorLt s.reply.initiatorNodeId h.reply.initiatorNodeId then
    if isUpdate s h.reply then .isMatch else .reject
  else if h.reply.tid ≠ s.reply.tid then
    if connecting && s.reply.targetNodeId != some s.nodeId && h.reply.targetNodeId == some
        s.nodeId && h.p.conn == some (.conn .connected) && !s.reply.isDisconnect then .clear
    else .tidMiss
  else .isMatch

/-- What `check_concurrent_transactions` does besides: for `CSC_UPDATE` the transaction at hand is
dropped. -/
def dropUpdated (reply : Reply) : Participant :=
  if isUpdate s reply then { s.logAbort with timer := false }.clearRemoteStateChange else s

/-! ## `process_twopc` -/

/-- `resource->twopc_reply = *reply`, with what the packet adds to it. -/
def setReply (h : Handler) : Participant :=
  let self := nodeMask s.nodeId
  let initiator := (h.reply.initiatorNodeId.map nodeMask).getD 0
  let conn := if s.twopcType = .stateChange then h.p.conn else none
  let reply := h.reply
  let reply := if conn = some (.conn .connected) then
      { reply with reachableNodes := reply.reachableNodes ||| initiator } else reply
  let reply := if conn = some (.conn .disconnecting) then
      { reply with reachableNodes := reply.reachableNodes &&& ~~~initiator, isDisconnect := true } else reply
  let primary := h.p.peer = some .primary ∨ h.p.peer = none ∧ s.role = .primary
  let reply := if h.p.cmd = .prepare ∧ primary then
      { reply with primaryNodes := self, weakNodes := ~~~reply.reachableNodes } else reply
  { s with reply := reply, inFlight := { h with reply := reply } :: s.inFlight }

def accept (h : Handler) : Participant :=
  if h.reply.isAborted then s
  else setReply { s with
    startingQueuedTwopc := none
    remoteStateChange := true
    twopcType := if h.p.cmd = .prepare then .stateChange else .resize
    prepareReplyCmd := none
    executed := false
    log := s.log ++ [.prepared h.p.initiatorNodeId h.p.tid] } h

/-- A commit or an abort of the transaction is carried out, once. -/
def execute (h : Handler) : Participant :=
  if s.executed then s
  else setReply { s with
    executed := true
    log := s.log ++ [if h.p.cmd = .commit then .committed h.p.initiatorNodeId h.p.tid
      else .aborted h.p.initiatorNodeId h.p.tid] } h

/-- The label `match`: the transaction was prepared already. `val` is not yet read there, so its
role is never `R_PRIMARY`. -/
def matchPrepared (h : Handler) : Participant :=
  match s.prepareReplyCmd with
  | some v => s.sendReply h.peer v s.reply
  | none => ((s.addParent h.peer).modConn h.peer (Conn.addVote .yes)).queueNested

/-- `queue_twopc`; `allocOk` is whether there is memory. -/
def queueTwopc (h : Handler) (allocOk : Bool) : Participant :=
  if s.queue.any fun q => q.reply.tid == h.reply.tid &&
      q.reply.initiatorNodeId == h.reply.initiatorNodeId && q.peer == h.peer then s
  else if allocOk then
    { s with queue := s.queue ++ [{ h with addr := s.nextAddr }], nextAddr := s.nextAddr + 1 }
  else s.sendReply h.peer .retry h.reply

/-- `abort_starting_twopc`, and else `abort_queued_twopc`: they look at the `tid` only. -/
def abortQueued (tid : Nat) : Participant :=
  if s.started.any fun q => some q.addr == s.startingQueuedTwopc && q.reply.tid == tid then
    { s with started := s.started.map fun q =>
      if some q.addr = s.startingQueuedTwopc ∧ q.reply.tid = tid then
        { q with reply := { q.reply with isAborted := true } } else q }
  else { s with queue := s.queue.eraseP fun q => q.reply.tid == tid }

/-- A commit for a transaction that this node knows nothing of any more. -/
def ignoreCommit (h : Handler) : Participant :=
  if s.twopcType = .stateChange ∧ h.p.cmd = .commit ∧ h.reply.targetNodeId = some s.nodeId ∧
      h.p.conn = some (.repl .startingSyncS) then { s with closed := h.peer :: s.closed }
  else s

/-- `process_twopc` up to the release of `req_lock`. -/
def enter (allocOk : Bool) (h : Handler) : Participant :=
  let csc := checkConcurrentTransactions s h
  let s := dropUpdated s h.reply
  if csc = .clear ∧ h.p.cmd ≠ .abort then
    if !h.p.cmd.isPrepare then ignoreCommit s h else accept s h
  else if csc = .isMatch ∧ !h.p.cmd.isPrepare then execute s h
  else if csc = .abortLocal ∧ h.p.cmd.isPrepare then
    -- "Aborting local state change to yield to remote state change"
    { s with abortLocal := true, waiting := s.waiting ++ [h] }
  else if h.p.cmd = .abort then abortQueued s h.reply.tid
  else if csc = .reject then s.sendReply h.peer .retry h.reply
  else if !h.p.cmd.isPrepare then s
  else
    match csc with
    | .queue => queueTwopc s h allocOk
    | .tidMiss => s.sendReply h.peer .retry h.reply
    | .isMatch => matchPrepared s h
    | _ => s

/-- `enum alt_rv`. -/
inductive AltRv where
  | locked | isMatch | timeout
deriving DecidableEq, Repr

def whenDoneLock (forTid : Nat) : AltRv :=
  if !s.remoteStateChange then .locked else if s.reply.tid = forTid then .isMatch else .timeout

/-- `process_twopc` after `abort_local_transaction`. -/
def resume (h : Handler) : Participant :=
  let s := { s with abortLocal := false, waiting := s.waiting.erase h }
  match whenDoneLock s h.reply.tid with
  | .locked => accept s h
  | .isMatch => matchPrepared s h
  -- "Aborting local state change failed. Rejecting remote state change"
  | .timeout => s.sendReply h.peer .retry h.reply

/-- `process_twopc` after the release of `req_lock`. `rv` is what the state change came to. -/
def finish (h : Handler) (rv : StateRv) (asked : List Nat) : Participant :=
  let s := { s with inFlight := s.inFlight.erase h }
  if rv = .twoPrimaries then
    -- "Split-Brain close the connection with two or more primary settings."
    { s with closed := h.peer :: s.closed }
  else if h.p.cmd.isPrepare then
    let s := { s.addParent h.peer with timer := true }
    if rv.isSuccess then s.nestedTwopcRequest h.p.cmd asked
    else if rv = .inTransientState then s.sendReply h.peer .retry h.reply
    else { s with prepareReplyCmd := some .no }.sendReply h.peer .no h.reply
  else ({ s with timer := false }.nestedTwopcRequest h.p.cmd asked).clearRemoteStateChange

/-! ## The timer and the work items -/

def twopcTimerFn : Participant :=
  if s.work = none then { s with timer := false, work := some .abortNestedTwopcWork } else s

def abortNestedTwopcWork : Participant :=
  let s := if s.reply.initiatorNodeId.isSome then
      { s.logAbort with
        remoteStateChange := false
        reply := { s.reply with initiatorNodeId := none }
        parents := [] }
    else s
  { s with work := none }.queueQueuedTwopc

def nestedTwopcWork : Participant :=
  let rv := getClusterWideReply s.abortLocal false s.conns
  s.twopcEndNested (if rv.isSuccess then .yes else if rv = .concurrentStChg then .retry else .no) true

/-- The others of the transaction are moved behind the first one. -/
def gatherSame (q : Queued) (started : List Queued) : Participant :=
  let same := fun r : Queued => r.reply.tid == q.reply.tid && r.reply.initiatorNodeId == q.reply.initiatorNodeId
  { s with
    started := s.queue.filter same ++ started
    queue := s.queue.filter fun r => !same r }

/-- `starting_queued_twopc` is forgotten when it is freed. -/
def forgetStarting (q : Queued) : Participant :=
  if s.startingQueuedTwopc = some q.addr then { s with startingQueuedTwopc := none } else s

/-- `queued_twopc_work`: the first that was started. -/
def queuedTwopcWork (tooLate allocOk : Bool) : Option Participant :=
  match s.started with
  | [] => none
  | q :: started =>
    let s := gatherSame s q started
    some (forgetStarting
      (if tooLate then s.sendReply q.peer .retry q.reply else enter s allocOk q.toHandler) q)

/-! ## Steps -/

/-- Packets, the threads that work on them, and what else touches the transaction. -/
inductive PartEvent where
  /-- `receive_twopc`, on the connection to `peer`; `reachable` are the nodes connected to this
  one. -/
  | receive (peer : Nat) (p : Packet) (reachable : BitVec 64) (allocOk : Bool)
  | resume (h : Handler)
  | finish (h : Handler) (rv : StateRv) (asked : List Nat)
  | timer
  | work
  | queuedTimer
  | queuedWork (tooLate allocOk : Bool)
  /-- `got_twopc_reply` for the transaction at hand. -/
  | vote (peer : Nat) (v : Vote)
  /-- `twopc_connection_down`. -/
  | down (peer : Nat) (cstate : ConnState)
  /-- `conn_disconnect`: the requests of the peer are removed. -/
  | disconnect (peer : Nat)
  /-- A change of this node begins, and ends. -/
  | localBegin (tid : Nat)
  | localEnd
  /-- `complete_remote_state_change` has waited long enough. -/
  | localGiveUp
  | setRole (r : Role)
  | peerState (peer : Nat) (cstate : ConnState)

def partStep : PartEvent → Option Participant
  | .receive peer p reachable allocOk =>
    -- a node never receives its own transactions
    if p.initiatorNodeId = s.nodeId then none
    else some (enter s allocOk ⟨peer, {
      initiatorNodeId := some p.initiatorNodeId
      tid := p.tid
      targetNodeId := p.targetNodeId
      reachableNodes := reachable ||| nodeMask s.nodeId }, p⟩)
  | .resume h => if h ∈ s.waiting then some (resume s h) else none
  | .finish h rv asked => if h ∈ s.inFlight then some (finish s h rv asked) else none
  | .timer => if s.timer then some (twopcTimerFn s) else none
  | .work =>
    match s.work with
    | none => none
    | some .nestedTwopcWork => some (nestedTwopcWork s)
    | some .abortNestedTwopcWork => some (abortNestedTwopcWork s)
  | .queuedTimer => some s.queueQueuedTwopc
  | .queuedWork tooLate allocOk => queuedTwopcWork s tooLate allocOk
  | .vote peer v => some (s.modConn peer (Conn.addVote v)).voted
  | .down peer cstate =>
    if cstate.isLost ∧ s.reply.initiatorNodeId.isSome then some (s.modConn peer (Conn.down cstate)).voted
    else none
  | .disconnect peer =>
    some (if s.reply.initiatorNodeId = some peer then
      { s.logAbort with timer := false }.clearRemoteStateChange else s)
  | .localBegin tid =>
    if s.remoteStateChange then none
    else some { s with
      remoteStateChange := true
      twopcType := .stateChange
      reply := { initiatorNodeId := some s.nodeId, tid := tid } }
  | .localEnd => if s.reply.initiatorNodeId = some s.nodeId then some s.clearRemoteStateChange else none
  | .localGiveUp => some (s.logAbort.clearRemoteStateChange.twopcEndNested .no true)
  | .setRole r => some { s with role := r }
  | .peerState peer cstate => some (s.modConn peer fun c => { c with cstate := cstate })

/-- A node without a transaction. -/
structure Participant.Start (s : Participant) : Prop where
  remoteStateChange : s.remoteStateChange = false
  initiator : s.reply.initiatorNodeId = none
  queue : s.queue = []
  started : s.started = []
  waiting : s.waiting = []
  inFlight : s.inFlight = []
  log : s.log = []

end Bsr.Twopc
