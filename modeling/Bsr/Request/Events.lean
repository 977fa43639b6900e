import Bsr.Request.Model

/-!
# Request events (`__req_mod`) and their callers

* `ReqEvent.mods` and `reqMod` are the table of `__req_mod`;
* `bsrSendAndSubmit`, `bsrRequestEndio` and the retry worker are the callers that send more than one
  event;
* `ReqStep` is one critical section under `req_lock`, with the promises its callers keep.
-/

namespace Bsr.Request

/-! ## `__req_mod` -/

/-- The request events of `enum bsr_req_event`. `RESTART_FROZEN_DISK_IO`, which is a `BUG()` that no
caller reaches, and the events without a case are left out. -/
inductive ReqEvent where
  | toBeSent (p : Nat)
  | toBeSubmitted
  | completedOk
  | abortDiskIo
  | writeCompletedWithError
  | readCompletedWithError
  | readAheadCompletedWithError
  | discardCompletedNotsupp
  | discardCompletedWithError
  | queueForNetRead (p : Nat)
  | queueForNetWrite (p : Nat)
  | queueForPendingOos (p : Nat)
  | queueForSendOos (p : Nat)
  | readRetryRemoteCanceled (p : Nat)
  | sendCanceled (p : Nat)
  | sendFailed (p : Nat)
  | handedOverToNetwork (p : Nat)
  | oosHandedToNetwork (p : Nat)
  | connectionLostWhilePending (p : Nat)
  | discardWrite (p : Nat)
  | writeAckedByPeerAndSis (p : Nat)
  | writeAckedByPeer (p : Nat)
  | recvAckedByPeer (p : Nat)
  | postponeWrite (p : Nat)
  | negAcked (p : Nat)
  | failFrozenDiskIo (p : Nat)
  | resend (p : Nat)
  | barrierAcked (p : Nat)
  | dataReceived (p : Nat)
  | queueAsBsrBarrier
  | oosSetToLocal (p : Nat)
deriving DecidableEq, Repr

def isPendingWriteProtocolA (s : ReqState) (p : Nat) : Bool :=
  s.op.isWrite && (s.net p).pending && !(s.net p).expReceiveAck && !(s.net p).expWriteAck

/-- The local completion of a bio that failed. -/
def completedWithError : List Mod :=
  [{ clear := { loc := { pending := true } }, set := { loc := { completed := true } } }]

/-- No longer on the queue of the sender. -/
def leftQueue (p : Nat) : List Mod :=
  [{ peer := p, clear := { net := { queued := true } } }]

def ackCommon (p : Nat) : List Mod :=
  [{ peer := p, clear := { net := { pending := true } }, set := { net := { ok := true } } }]

/-- `BARRIER_ACKED`: allowed to complete requests even while suspended; only those that have been on
the wire become done. -/
def barrierMods (s : ReqState) (p : Nat) : List Mod :=
  if s.op.isWrite = false then []
  else
    (if (s.net p).pending then ackCommon p else []) ++
      [{ peer := p, clear := { loc := { susp := true } }
         set := { net := { done := (s.net p).masked } } }]

/-- The calls of `mod_rq_state` an event makes. -/
def ReqEvent.mods (env : Env) (s : ReqState) : ReqEvent → List Mod
  | toBeSent p => [{ peer := p, set := { net := { pending := true } } }]
  | toBeSubmitted => [{ set := { loc := { pending := true } } }]
  | completedOk =>
    [{ clear := { loc := { pending := true } }
       set := { loc := { completed := true, ok := true } } }]
  | abortDiskIo => [{ set := { loc := { aborted := true } } }]
  | writeCompletedWithError => completedWithError
  | readCompletedWithError => completedWithError
  | readAheadCompletedWithError => completedWithError
  | discardCompletedNotsupp => completedWithError
  | discardCompletedWithError => completedWithError
  | queueForNetRead p => [{ peer := p, set := { net := { queued := true } } }]
  | queueForNetWrite p => [{ peer := p, set := { net := { queued := true, expBarrAck := true } } }]
  | queueForPendingOos p =>
    [{ peer := p, set := { net := { oosPending := true, pending := true } } }]
  | queueForSendOos p =>
    [{ peer := p, clear := { net := { oosPending := true, pending := true } }
       set := { net := { oosNetQueued := true, queued := true } } }]
  | readRetryRemoteCanceled p => leftQueue p
  | sendCanceled p => leftQueue p
  | sendFailed p => leftQueue p
  | handedOverToNetwork p =>
    -- this is what is dangerous about protocol A: pretend it was written on the peer
    if isPendingWriteProtocolA s p then
      [{ peer := p, clear := { net := { queued := true, pending := true } }
         set := { net := { sent := true, ok := true } } }]
    else
      [{ peer := p, clear := { net := { queued := true } }, set := { net := { sent := true } } }]
  | oosHandedToNetwork p =>
    [{ peer := p, clear := { net := { queued := true } }, set := { net := { done := true } } }]
  | connectionLostWhilePending p =>
    [{ peer := p, clear := { loc := { susp := true }, net := { ok := true, pending := true } }
       set := { net := { done := true } } }]
  | discardWrite p =>
    [{ peer := p, clear := { net := { pending := true } }
       set := { net := { done := true, ok := true } } }]
  | writeAckedByPeerAndSis p => ackCommon p
  | writeAckedByPeer p => ackCommon p
  | recvAckedByPeer p => ackCommon p
  | postponeWrite _ => []
  | negAcked p =>
    [{ peer := p, clear := { net := { ok := true, pending := true } }
       set := { net := { done := true } } }]
  | failFrozenDiskIo p =>
    if s.loc.completed then [{ peer := p, clear := { loc := { susp := true } } }] else []
  | resend p =>
    if (!s.op.isWrite && !(s.net p).masked) = true then
      [{ peer := p, clear := { loc := { susp := true } } }]
    else if (s.net p).ok = false then
      [{ peer := p, clear := { loc := { susp := true } }
         set := { net := { queued := true, pending := true } } }]
    else barrierMods s p
  | barrierAcked p => barrierMods s p
  | dataReceived p =>
    [{ peer := p, clear := { net := { pending := true } }
       set := { net := { ok := true, done := true } } }]
  | queueAsBsrBarrier =>
    env.peers.map fun p => { peer := some p, set := { net := { ok := true, done := true } } }
  | oosSetToLocal p => [{ peer := p, set := { net := { oosLocalDone := true } } }]

/-- The ack to wait for, as the wire protocol says. -/
def expectAck (f : NetFlags) : WireProtocol → NetFlags
  | .protA => f
  | .protB => { f with expReceiveAck := true }
  | .protC => { f with expWriteAck := true }

variable (md : DeviceMd)

variable (env : Env)

variable (s : ReqState)

/-- What an event writes without `mod_rq_state`. -/
def ReqEvent.assign : ReqEvent → ReqState
  | toBeSent p =>
    { s with net := Function.update s.net p (expectAck (s.net p) (env.wireProtocol p)) }
  | readCompletedWithError => bsrSetSync md env s (fun _ => true) (fun _ => true)
  | writeAckedByPeerAndSis p =>
    { s with net := Function.update s.net p { s.net p with sis := true } }
  | postponeWrite _ => { s with postponed := true }
  | _ => s

def reqMod (ev : ReqEvent) : ReqState :=
  (ev.mods env s).foldl (modRqState md env) (ev.assign md env s)

/-! ## Submission, local completion and retry -/

/-- What decides how a request is submitted. -/
structure Route where
  /-- `bsr_should_do_remote`. -/
  remote : Nat → Bool := fun _ => false
  /-- `bsr_should_send_out_of_sync`. -/
  sendOos : Nat → Bool := fun _ => false
  connected : Nat → Bool := fun _ => true
  mayDoWrites : Bool := true
  /-- `find_peer_device_for_read`, which drops the private bio if it finds one. -/
  readPeer : Option Nat := none
  mayDoLocalRead : Bool := true
  /-- There is an older write in the transfer log. -/
  olderWrite : Bool := false
  /-- `bsr_check_plugged` finds a plug. -/
  plugged : Bool := false

/-- The body of the loop of `bsr_process_write_request`. -/
def processPeer (r : Route) (s : ReqState) (p : Nat) : ReqState :=
  if (!r.remote p && !r.sendOos p) = true then
    if (md.bitmapIndex p).isSome && !r.connected p then reqMod md env s (.oosSetToLocal p) else s
  else if r.remote p then
    reqMod md env (reqMod md env s (.toBeSent p)) (.queueForNetWrite p)
  else
    let set := bsrSetOutOfSync md env s p
    if 113 ≤ env.agreedProVersion p then reqMod md env set.1 (.queueForPendingOos p)
    else if (set.2 || (s.net p).inAlOos) = true then reqMod md env set.1 (.queueForSendOos p)
    else set.1

def bsrProcessWriteRequest (r : Route) (s : ReqState) : ReqState :=
  env.peers.foldl (processPeer md env r) s

/-- Another holder takes a kref. -/
def hold : ReqState :=
  { s with kref := s.kref + 1, holders := s.holders + 1 }

/-- The request enters the transfer log; the previous write there will hold it. -/
def addToTl (r : Route) (s : ReqState) : ReqState :=
  if s.size = 0 then s
  else if (s.op.isWrite && r.olderWrite) = true then hold { s with onTl := true }
  else { s with onTl := true }

/-- The plug remembers a request that is sent to some peer. -/
def updatePlug (r : Route) (sent : Bool) (s : ReqState) : ReqState :=
  if (sent && r.plugged) = true then hold s else s

/-- The private bio is marked pending within the same spinlock that queued the request. -/
def submitPrivateBio : ReqState :=
  if s.privateBio = .null then s else reqMod md env s .toBeSubmitted

/-- `bsr_send_and_submit` up to its last put. -/
def sendAndSubmit (r : Route) (s : ReqState) : ReqState :=
  if env.suspended then { s with postponed := true, privateBio := .null }
  else if s.op.isWrite then
    let s := addToTl r s
    if s.privateBio ≠ .null ∧ r.mayDoWrites = false then { s with privateBio := .null }
    else if s.size = 0 then
      submitPrivateBio md env (updatePlug r true (reqMod md env s .queueAsBsrBarrier))
    else
      submitPrivateBio md env
        (updatePlug r (env.peers.any r.remote) (bsrProcessWriteRequest md env r s))
  else
    match r.readPeer with
    | none =>
      if s.privateBio = .null ∨ r.mayDoLocalRead = false then { s with privateBio := .null }
      else submitPrivateBio md env (addToTl r s)
    | some p =>
      let s := addToTl r { s with privateBio := .null }
      updatePlug r true (reqMod md env (reqMod md env s (.toBeSent p)) (.queueForNetRead p))

def bsrSendAndSubmit (r : Route) (s : ReqState) : ReqState :=
  dropRefs md env { sendAndSubmit md env r s with submitting := false } 1 0

/-- The event `bsr_request_endio` chooses. -/
def endioEvent (op : BioOp) (error : Int) : ReqEvent :=
  if error = 0 then .completedOk
  else
    match op with
    | .discard =>
      if error = -errOpNotSupp then .discardCompletedNotsupp else .discardCompletedWithError
    | .readAhead => .readAheadCompletedWithError
    | .read => .readCompletedWithError
    | .write => .writeCompletedWithError

/-- Out-of-sync information held back until the local write is done is marked again and queued. -/
def sendPendingOos (p : Nat) : ReqState :=
  if (decide (113 ≤ env.agreedProVersion p) && (s.net p).oosPending) = true then
    reqMod md env (bsrSetOutOfSync md env s p).1 (.queueForSendOos p)
  else s

def bsrRequestEndio (error : Int) : ReqState :=
  reqMod md env
    (env.peers.foldl (sendPendingOos md env) { s with privateBio := .errPtr error })
    (endioEvent s.op error)

/-- `bsr_req_new`, and `bsr_request_prepare` on a node without a disk (`privateBio = .null`). -/
def bsrReqNew (op : BioOp) (sector size : Nat) (privateBio : PrivateBio) (inAlOos : Nat → Bool)
    (oos : Nat → Nat → Bool) : ReqState where
  op := op
  sector := sector
  size := size
  loc := {}
  net := fun p => { inAlOos := inAlOos p }
  postponed := false
  onTl := false
  completionRef := 1
  kref := 1
  masterBio := true
  privateBio := privateBio
  submitting := true
  holders := 0
  completions := []
  restarts := 0
  retried := 0
  zeroed := 0
  destroyed := false
  oos := oos

/-! ## Steps -/

inductive ReqStep where
  | submit (r : Route)
  | event (ev : ReqEvent)
  | endio (error : Int)
  | retry
  | hold
  | release

/-- The events that reach a request after its submission, other than its local completion. -/
def ReqEvent.later : ReqEvent → Bool
  | toBeSent _ => false
  | toBeSubmitted => false
  | completedOk => false
  | writeCompletedWithError => false
  | readCompletedWithError => false
  | readAheadCompletedWithError => false
  | discardCompletedNotsupp => false
  | discardCompletedWithError => false
  | queueForNetRead _ => false
  | queueForNetWrite _ => false
  | queueForPendingOos _ => false
  | queueForSendOos _ => false
  | queueAsBsrBarrier => false
  | oosSetToLocal _ => false
  | _ => true

namespace ReqStep

def exec : ReqStep → ReqState
  | submit r => bsrSendAndSubmit md env r s
  | event ev => reqMod md env s ev
  | endio error => bsrRequestEndio md env s error
  | retry => krefSub md env { s with retried := s.retried + 1 } 1
  | hold => Request.hold s
  | release => krefSub md env { s with holders := s.holders - 1 } 1

/-- A request is submitted first and once; its bio is completed once, and not successfully after it
was aborted, which is a panic; `tl_abort_disk_io` looks for pending bios; the peer of an event
exists; the retry worker gets what was handed to it; a kref is taken from a live request and dropped
by who holds it. -/
def Legal : ReqStep → Prop
  | submit r => s.submitting = true ∧ ∀ p ∈ r.readPeer, p ∈ env.peers
  | event ev => s.submitting = false ∧ ev.later = true ∧ (ev = .abortDiskIo → s.loc.pending = true) ∧
      ∀ m ∈ ev.mods env s, ∀ p ∈ m.peer, p ∈ env.peers
  | endio error => s.submitting = false ∧ s.loc.pending = true ∧ (s.loc.aborted = true → error ≠ 0)
  | retry => s.submitting = false ∧ s.retried < s.restarts
  | hold => s.submitting = false ∧ 0 < s.kref
  | release => s.submitting = false ∧ 0 < s.holders

instance (env : Env) (s : ReqState) (st : ReqStep) : Decidable (st.Legal env s) := by
  cases st <;> exact inferInstanceAs (Decidable (_ ∧ _))

end ReqStep

/-- A request as `bsr_req_new` makes it. -/
def Fresh : Prop :=
  ∃ op sector size bio inAlOos oos, s = bsrReqNew op sector size bio inAlOos oos

def Step (e : Env × ReqStep) (s' : ReqState) : Prop :=
  (∀ p ∈ e.1.peers, p ≤ md.maxNodeId) ∧ e.2.Legal e.1 s ∧ s' = e.2.exec md e.1 s

end Bsr.Request
