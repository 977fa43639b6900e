import Bsr.ActLog.Runs
import Bsr.Request.Events

/-!
# From a write to the local disk

`bsr_request_prepare` and the submitter thread `do_submit` (`bsr_req.c`) bring the extents of a
write into the activity log before the write is submitted. When no slot is left,
`bsr_al_oos_io_nonblock` marks the write out of sync instead.

* `bsrAlBeginIoFastpath` and `bsrAlBeginIoNonblock` get the references on the extents;
* `prepareAlTransactionNonblock` and `sendAndSubmitPending` are the two halves of a round of the
  submitter, with the commit of the transaction in between;
* every submission is recorded with what was on the metadata disk at that moment.

Requests have a private bio here: without one nothing goes to the disk. The waiting, the plugs and
the statistics are left out.
-/

namespace Bsr.Submitter

open Lru ActLog

/-! ## Extents -/

/-- `struct bsr_interval`: the sectors of a request. -/
structure Interval where
  sector : Nat
  size : Nat
deriving DecidableEq, Repr

namespace Interval

/-- The first extent; an extent of the activity log is 4 MiB, `2 ^ 13` sectors. -/
def first (i : Interval) : Nat :=
  i.sector / 2 ^ 13

def last (i : Interval) : Nat :=
  if i.size = 0 then i.first else (i.sector + i.size / 512 - 1) / 2 ^ 13

def extents (i : Interval) : List Nat :=
  List.range' i.first (i.last + 1 - i.first)

end Interval

/-- What the submitter reads of a request: `rq_state[0]` and `rq_state[1 + node_id]` have the flag
`RQ_IN_AL_OOS`. -/
structure Req where
  i : Interval
  discard : Bool := false
  inAlOos : Bool := false
  peerInAlOos : Nat → Bool := fun _ => false

/-- The device while a step is taken. -/
structure Env extends Request.Env where
  /-- `cstate[NOW] == C_CONNECTED`. -/
  connected : Nat → Bool := fun _ => false
  /-- `repl_state[NOW] == L_AHEAD`. -/
  ahead : Nat → Bool := fun _ => false
  alSuspended : Bool := false
  newCurUuid : Bool := false
  fakeAlUsed : Nat := 0
  /-- `find_active_resync_extent` finds the extent locked by a resync. -/
  resyncActive : Nat → Bool := fun _ => false
  /-- The resync is asked to give way. -/
  wakeUp : Bool := false
  /-- Writes of the bitmap reach the disk. -/
  bmWriteOk : Bool := true

/-! ## References on the activity log -/

variable (env : Env)

def bsrAlBeginIoFastpath (lc : LruCache) (i : Interval) : Except LcBug (LruCache × Bool) :=
  if i.first ≠ i.last then .ok (lc, false)
  else if env.resyncActive i.first then .ok (lc, false)
  else
    match lcTryGet lc i.first with
    | .error b => .error b
    | .ok (lc, r) => .ok (lc, r.isSome)

/-- What `bsr_al_begin_io_nonblock` returns instead of 0. -/
inductive AlErr where
  | enobufs
  | ebusy
  | ewouldblock
deriving DecidableEq, Repr

def availableUpdateSlots (lc : LruCache) : Nat :=
  if lc.nrElements < lc.used + env.fakeAlUsed then 0
  else min (lc.nrElements - (lc.used + env.fakeAlUsed)) (lc.maxPendingChanges - lc.pendingChanges)

/-- The last loop of `bsr_al_begin_io_nonblock`. A failure is only logged. -/
def getExtents (lc : LruCache) : List Nat → Except LcBug LruCache
  | [] => .ok lc
  | enr :: rest =>
    match lcGetCumulative lc enr with
    | .error b => .error b
    | .ok (lc, _) => getExtents lc rest

def bsrAlBeginIoNonblock (lc : LruCache) (i : Interval) :
    Except LcBug (LruCache × Option AlErr) :=
  if availableUpdateSlots env lc < 1 + i.last - i.first then
    .ok (if lc.pendingChanges = 0 then { lc with starving := true } else lc, some .enobufs)
  else if i.extents.any env.resyncActive then
    .ok (lc, some (if env.wakeUp then .ebusy else .ewouldblock))
  else
    match getExtents { lc with starving := false } i.extents with
    | .error b => .error b
    | .ok lc => .ok (lc, none)

/-- `put_actlog`: an extent that is not there is only logged. -/
def putActlog (lc : LruCache) : List Nat → Except LcBug LruCache
  | [] => .ok lc
  | enr :: rest =>
    match lcFind lc enr with
    | .error b => .error b
    | .ok none => putActlog lc rest
    | .ok (some e) =>
      if (lc.lcElement e).refcnt = 0 then putActlog lc rest
      else
        match lcPut lc e with
        | .error b => .error b
        | .ok (lc, _) => putActlog lc rest

/-! ## The state of the submitter -/

/-- A write that was submitted, with the metadata disk as it was then. -/
structure Submission where
  i : Interval
  alSuspended : Bool
  al : AlState
  bmDisk : Nat → Nat → Bool

/-- `struct waiting_for_act_log`, for requests or for peer requests. -/
structure Wfa (α : Type) where
  incoming : List α := []
  moreIncoming : List α := []
  later : List α := []
  pending : List α := []

structure State where
  al : AlState
  /-- The out-of-sync bits in memory and on disk. -/
  bm : Nat → Nat → Bool
  bmDisk : Nat → Nat → Bool
  /-- `submit.writes` and `submit.peer_writes`. -/
  writes : List Req
  peerWrites : List Interval
  requests : Wfa Req
  peerRequests : Wfa Interval
  /-- `bsr_al_begin_io_commit` of this round has returned. -/
  committed : Bool
  /-- Writes at the disk that hold their extents. -/
  active : List Interval
  /-- References of everyone else. -/
  others : Nat → Nat
  submissions : List Submission

variable (s : State)

/-- `bsr_send_and_submit` and `__bsr_submit_peer_request`, as far as the local disk goes. -/
def submit (i : Interval) (inActlog : Bool) : State :=
  { s with
    active := if inActlog then i :: s.active else s.active
    submissions := ⟨i, env.alSuspended, s.al, s.bmDisk⟩ :: s.submissions }

def setActLog (lc : LruCache) : State :=
  { s with al := { s.al with actLog := lc } }

/-- `bsr_request_prepare`, and the submission of what it returns. -/
def bsrRequestPrepare (req : Req) : Except LcBug State :=
  if req.discard then .ok { s with writes := s.writes ++ [req] }
  else if req.i.size = 0 then .ok (submit env s req.i false)
  else if env.newCurUuid then .ok { s with writes := s.writes ++ [req] }
  else if env.alSuspended then .ok (submit env s req.i false)
  else
    match bsrAlBeginIoFastpath env s.al.actLog req.i with
    | .error b => .error b
    | .ok (lc, false) => .ok { setActLog s lc with writes := s.writes ++ [req] }
    | .ok (lc, true) => .ok (submit env (setActLog s lc) req.i true)

/-! ## `do_submit` -/

/-- The first loop of `submit_fast_path`; what stays incoming comes back. -/
def fastPathPeers (env : Env) : List Interval → State → Except LcBug (List Interval × State)
  | [], s => .ok ([], s)
  | i :: rest, s =>
    match bsrAlBeginIoFastpath env s.al.actLog i with
    | .error b => .error b
    | .ok (lc, false) =>
      match fastPathPeers env rest (setActLog s lc) with
      | .error b => .error b
      | .ok (left, s) => .ok (i :: left, s)
    | .ok (lc, true) => fastPathPeers env rest (submit env (setActLog s lc) i true)

/-- The second loop of `submit_fast_path`. -/
def fastPathRequests (env : Env) : List Req → State → Except LcBug (List Req × State)
  | [], s => .ok ([], s)
  | req :: rest, s =>
    if (decide (req.i.size ≠ 0) && !env.alSuspended) = true then
      match bsrAlBeginIoFastpath env s.al.actLog req.i with
      | .error b => .error b
      | .ok (lc, false) =>
        match fastPathRequests env rest (setActLog s lc) with
        | .error b => .error b
        | .ok (left, s) => .ok (req :: left, s)
      | .ok (lc, true) => fastPathRequests env rest (submit env (setActLog s lc) req.i true)
    else fastPathRequests env rest (submit env s req.i false)

def submitFastPath : Except LcBug State :=
  match fastPathPeers env s.peerRequests.incoming s with
  | .error b => .error b
  | .ok (peers, s) =>
    match fastPathRequests env s.requests.incoming s with
    | .error b => .error b
    | .ok (reqs, s) => .ok { s with
        peerRequests := { s.peerRequests with incoming := peers }
        requests := { s.requests with incoming := reqs } }

/-- The bits of a request, set with `bsr_set_out_of_sync`. -/
def setOutOfSync (md : Request.DeviceMd) (env : Env) (bm : Nat → Nat → Bool)
    (i : Interval) (p : Nat) : Nat → Nat → Bool :=
  (Request.bsrSetOutOfSync md env.toEnv
    (Request.bsrReqNew .write i.sector i.size .null (fun _ => false) bm) p).1.oos

/-- The first loop of `bsr_al_oos_io_nonblock`; what was marked before a failure stays marked. -/
def alOosPeers (md : Request.DeviceMd) (env : Env) :
    List Nat → (Nat → Nat → Bool) → Req → (Nat → Nat → Bool) × Req × Bool
  | [], bm, req => (bm, req, true)
  | p :: rest, bm, req =>
    if env.connected p then
      if 116 ≤ env.agreedProVersion p then
        if env.ahead p then
          alOosPeers md env rest (setOutOfSync md env bm req.i p)
            { req with peerInAlOos := Function.update req.peerInAlOos p true }
        else (bm, req, false)
      else (bm, req, false)
    else alOosPeers md env rest bm req

def bsrAlOosIoNonblock (md : Request.DeviceMd) (env : Env) (bm : Nat → Nat → Bool) (req : Req) :
    (Nat → Nat → Bool) × Req × Bool :=
  let marked := alOosPeers md env env.peers bm req
  if marked.2.2 then (marked.1, { marked.2.1 with inAlOos := true }, true) else marked

/-- The loop over the peer requests of `prepare_al_transaction_nonblock`; what stays incoming comes
back. -/
def preparePeers (env : Env) : List Interval → State → Except LcBug (List Interval × State)
  | [], s => .ok ([], s)
  | i :: rest, s =>
    match bsrAlBeginIoNonblock env s.al.actLog i with
    | .error b => .error b
    | .ok (lc, some .enobufs) => .ok (i :: rest, setActLog s lc)
    | .ok (lc, some _) =>
      preparePeers env rest { setActLog s lc with
        peerRequests := { s.peerRequests with later := s.peerRequests.later ++ [i] } }
    | .ok (lc, none) =>
      preparePeers env rest { setActLog s lc with
        peerRequests := { s.peerRequests with pending := s.peerRequests.pending ++ [i] } }

/-- The loop over the requests; the first one without a slot ends it. -/
def prepareRequests (md : Request.DeviceMd) (env : Env) :
    List Req → State → Except LcBug (List Req × State)
  | [], s => .ok ([], s)
  | req :: rest, s =>
    match bsrAlBeginIoNonblock env s.al.actLog req.i with
    | .error b => .error b
    | .ok (lc, some .enobufs) =>
      let marked := bsrAlOosIoNonblock md env s.bm req
      if marked.2.2 then
        .ok (rest, { setActLog s lc with
          bm := marked.1
          requests := { s.requests with pending := s.requests.pending ++ [marked.2.1] } })
      else .ok (marked.2.1 :: rest, { setActLog s lc with bm := marked.1 })
    | .ok (lc, some _) =>
      prepareRequests md env rest { setActLog s lc with
        requests := { s.requests with later := s.requests.later ++ [req] } }
    | .ok (lc, none) =>
      prepareRequests md env rest { setActLog s lc with
        requests := { s.requests with pending := s.requests.pending ++ [req] } }

/-- `prepare_al_transaction_nonblock`. `wfa_next_request` serves `more_incoming` first; a peer
request that finds no slot does not stop the requests. -/
def prepareAlTransactionNonblock (md : Request.DeviceMd) (env : Env) (s : State) : Except LcBug State :=
  if s.al.actLog.locked then .ok s
  else
    match preparePeers env (s.peerRequests.moreIncoming ++ s.peerRequests.incoming) s with
    | .error b => .error b
    | .ok (peers, s) =>
      match prepareRequests md env (s.requests.moreIncoming ++ s.requests.incoming) s with
      | .error b => .error b
      | .ok (reqs, s) => .ok { s with
          peerRequests := { s.peerRequests with incoming := peers, moreIncoming := [] }
          requests := { s.requests with incoming := reqs, moreIncoming := [] } }

/-- `bsr_bm_write`: the changed pages, of all slots. -/
def bsrBmWrite : State :=
  if env.bmWriteOk then { s with bmDisk := s.bm } else s

/-- The second loop of `send_and_submit_pending`; `isBmWrite` says that the bitmap was written for
this batch. -/
def submitPendingRequests (env : Env) : List Req → Bool → State → State
  | [], _, s => s
  | req :: rest, isBmWrite, s =>
    if req.inAlOos then
      let written :=
        if (!isBmWrite && env.peers.any req.peerInAlOos) = true then bsrBmWrite env s else s
      submitPendingRequests env rest true (submit env written req.i false)
    else submitPendingRequests env rest isBmWrite (submit env s req.i true)

def sendAndSubmitPending : State :=
  let s := s.peerRequests.pending.foldl (fun s i => submit env s i true) s
  let s := submitPendingRequests env s.requests.pending false s
  { s with
    peerRequests := { s.peerRequests with pending := [] }
    requests := { s.requests with pending := [] }
    committed := false }

/-! ## Steps -/

/-- What happens to the submitter, the activity log and the bitmap of a device. -/
inductive Event where
  | arrive (req : Req)
  | arrivePeer (i : Interval)
  /-- `grab_new_incoming_requests`. -/
  | grab (more : Bool)
  /-- `wfa_splice_init(&wfa, later, incoming)`. -/
  | spliceLater
  | fastPath
  | prepare
  /-- `bsr_al_begin_io_commit`, here or in another thread, up to its I/O and from there. -/
  | beginCommit
  | writeDone
  /-- The commit of this round returns: it has seen no pending change. -/
  | commitReturns
  | submitPending
  /-- `bsr_al_complete_io`. -/
  | complete (i : Interval)
  /-- Other users of the activity log: `lc_get` and `lc_try_get`, and so on. -/
  | otherGet (enr : Nat) (mayChange : Bool)
  | otherPut (e : Nat)
  | otherDel (e : Nat)
  | otherTryLock
  | otherUnlock
  | checkAlSize (alExtents : Nat)
  /-- Any other change of the bits, in memory and on disk. -/
  | bitmap (bm bmDisk : Nat → Nat → Bool)

def liftLru (res : Except LcBug LruCache) : Except AlBug State :=
  match res with
  | .error b => .error (.lru b)
  | .ok lc => .ok (setActLog s lc)

def liftBug (res : Except LcBug State) : Except AlBug State :=
  match res with
  | .error b => .error (.lru b)
  | .ok s => .ok s

def liftAl (res : Except AlBug AlState) : Except AlBug State :=
  match res with
  | .error b => .error b
  | .ok al => .ok { s with al := al }

namespace Event

def exec (md : Request.DeviceMd) (L : AlLayout) (env : Env) (s : State) : Event → Except AlBug State
  | arrive req => liftBug (bsrRequestPrepare env s req)
  | arrivePeer i => .ok { s with peerWrites := s.peerWrites ++ [i] }
  | grab false => .ok { s with
      writes := [], requests := { s.requests with incoming := s.requests.incoming ++ s.writes }
      peerWrites := []
      peerRequests := { s.peerRequests with incoming := s.peerRequests.incoming ++ s.peerWrites } }
  | grab true => .ok { s with
      writes := [], requests := { s.requests with moreIncoming := s.requests.moreIncoming ++ s.writes }
      peerWrites := []
      peerRequests :=
        { s.peerRequests with moreIncoming := s.peerRequests.moreIncoming ++ s.peerWrites } }
  | spliceLater => .ok { s with
      requests := { s.requests with
        incoming := s.requests.later ++ s.requests.incoming, later := [] }
      peerRequests := { s.peerRequests with
        incoming := s.peerRequests.later ++ s.peerRequests.incoming, later := [] } }
  | fastPath => liftBug (submitFastPath env s)
  | prepare => liftBug (prepareAlTransactionNonblock md env { s with committed := false })
  | beginCommit => liftAl s (bsrAlBeginIoCommit s.al)
  | writeDone => liftAl s (AlEvent.writeDone.exec L s.al)
  | commitReturns => .ok { s with committed := true }
  | submitPending => .ok (sendAndSubmitPending env s)
  | complete i => liftLru { s with active := s.active.erase i } (putActlog s.al.actLog i.extents)
  | otherGet enr mayChange =>
    match lcGetBase s.al.actLog enr mayChange false with
    | .error b => .error (.lru b)
    | .ok (lc, none) => .ok (setActLog s lc)
    | .ok (lc, some _) => .ok { setActLog s lc with
        others := Function.update s.others enr (s.others enr + 1) }
  | otherPut e =>
    let enr := (s.al.actLog.lcElement e).lcNewNumber
    liftLru { s with others := Function.update s.others enr (s.others enr - 1) }
      ((lcPut s.al.actLog e).map Prod.fst)
  | otherDel e => liftLru s ((lcDel s.al.actLog e).map Prod.fst)
  | otherTryLock => .ok (setActLog s (lcTryLock s.al.actLog).1)
  | otherUnlock => .ok (setActLog s (lcUnlock s.al.actLog))
  | checkAlSize alExtents => .ok { s with al := bsrCheckAlSize s.al alExtents }
  | bitmap bm bmDisk => .ok { s with bm := bm, bmDisk := bmDisk }

/-- Requests lie inside the device, whose extents have numbers below `LC_FREE`; a write is submitted
after the commit returned, and completed once; the others put what they hold and unlock what they
have locked; the transaction counter does not wrap. -/
def Legal (md : Request.DeviceMd) (L : AlLayout) (s : State) : Event → Prop
  | arrive req => req.inAlOos = false ∧ req.i.sector + req.i.size / 512 ≤ md.nrSectors ∧
      req.i.size % 512 = 0 ∧ req.i.size ≤ Request.bsrMaxBatchBioSize
  | arrivePeer i => i.sector + i.size / 512 ≤ md.nrSectors ∧ i.size % 512 = 0 ∧
      i.size ≤ Request.bsrMaxBatchBioSize
  | writeDone => AlEvent.writeDone.Legal L s.al
  | commitReturns => s.al.actLog.pendingChanges = 0
  | submitPending => s.committed = true
  | complete i => i ∈ s.active
  | otherGet enr _ => enr ≠ lcFree
  | otherPut e => e < s.al.actLog.nrElements ∧ 0 < (s.al.actLog.lcElement e).refcnt ∧
      (s.al.actLog.lcElement e).lcNumber = (s.al.actLog.lcElement e).lcNewNumber ∧
      0 < s.others (s.al.actLog.lcElement e).lcNewNumber
  | otherDel e => e < s.al.actLog.nrElements ∧ (s.al.actLog.lcElement e).refcnt = 0
  | otherUnlock => s.al.inFlight = none
  | checkAlSize alExtents => (AlEvent.checkAlSize alExtents).Legal L s.al
  | _ => True

end Event

/-- Nothing has been submitted, nobody holds an extent. -/
structure Start (L : AlLayout) (s : State) : Prop where
  al : AlStart L s.al
  writes : s.writes = [] ∧ s.peerWrites = []
  requests : s.requests = {} ∧ s.peerRequests = {}
  active : s.active = []
  others : ∀ enr, s.others enr = 0
  committed : s.committed = false
  submissions : s.submissions = []

def Step (md : Request.DeviceMd) (L : AlLayout) (s : State) (e : Env × Event) (s' : State) : Prop :=
  e.2.Legal md L s ∧ e.2.exec md L e.1 s = .ok s'

end Bsr.Submitter
