import Bsr.PeerAck.Model
import Bsr.Replicate.Dagtag

/-!
# A primary, its secondaries and the peer acks between them

The writes of a primary on their way through the system: each is sent to a secondary with its data
or skipped for it, acknowledged (`RQ_NET_OK`) or not, done for all connections, and destroyed in the
order of submission. The acks go through `peer_ack_list` and the control stream of each connection;
a secondary applies an ack to all of its `peer_requests` up to the one it names.

* `Event.exec` is one step; the connections stay up;
* `queued`, `group` and `Ack.covers` record which destroyed writes an ack stands for;
* `received` and `applied` record what a secondary has got and what its acks have covered.
-/

namespace Bsr.PeerAck

open Lib Replicate Function

def Request.write (req : Request) : Write :=
  { req with }

structure Live where
  req : Request
  /-- The nodes whose sender has come to it. -/
  handled : Finset Nat := ∅
  /-- The nodes with `RQ_NET_DONE`. -/
  done : Finset Nat := ∅
deriving DecidableEq

/-- `struct p_peer_ack`, with the requests it stands for. -/
structure Ack where
  dagtag : Int
  mask : Finset Nat
  covers : List Request

/-- An ack that a secondary has applied: the bits of the nodes in the mask are cleared for these
writes, and those of the others are set. -/
structure Applied where
  mask : Finset Nat
  writes : List Write
deriving DecidableEq

structure Sys where
  res : Resource
  /-- `resource->dagtag_sector`. -/
  resourceDagtag : Int := 0
  /-- `transfer_log`. -/
  live : List Live := []
  links : Nat → Link
  /-- The control streams. -/
  acks : Nat → List Ack := fun _ => []
  /-- The acks of each connection on `peer_ack_list`. -/
  queued : Nat → List Ack := fun _ => []
  /-- The requests that `peer_ack_req` stands for. -/
  group : List Request := []
  /-- All requests that were destroyed. -/
  history : List Request := []
  received : Nat → List Write := fun _ => []
  applied : Nat → List Applied := fun _ => []
  /-- A peer ack did not find its request. -/
  lost : Bool := false

namespace Sys

def nodes (s : Sys) : List Nat :=
  s.res.conns.map Conn.peerNodeId

/-- `bsr_queue_peer_ack` as the connections see it. -/
def enqueue (s : Sys) (p : Request) : Nat → List Ack := fun x =>
  if x ∈ ackTargets s.res p then s.queued x ++ [⟨p.dagtag, peerAckMask s.res p, s.group⟩] else s.queued x

def retire (s : Sys) (req : Request) (lastRef : Bool) : Sys :=
  let s' := { s with res := reqDestroy s.res req lastRef, history := s.history ++ [req] }
  match s.res.peerAckReq with
  | none => { s' with group := [req] }
  | some p =>
    if mustQueue s.res req p lastRef then { s' with queued := s.enqueue p, group := [req] }
    else { s' with group := s.group ++ [req] }

end Sys

/-- The first write that a sender has not come to yet. -/
def nextFor (x : Nat) (ls : List Live) : Option Live :=
  ls.find? fun l => decide (x ∉ l.handled)

/-- The sender of a connection has come to a write. -/
def Live.handle (x : Nat) (sent : Bool) (l : Live) : Live :=
  { l with
    handled := insert x l.handled
    req := if sent then { l.req with sent := insert x l.req.sent } else l.req }

def handleFirst (x : Nat) (sent : Bool) : List Live → List Live
  | [] => []
  | l :: ls => if x ∈ l.handled then l :: handleFirst x sent ls else l.handle x sent :: ls

/-- `RQ_NET_OK` for a write that was sent. -/
def Live.netOk (x : Nat) (l : Live) : Live :=
  if x ∈ l.req.sent then { l with req := { l.req with ok := insert x l.req.ok } } else l

def Live.netDone (x : Nat) (l : Live) : Live :=
  { l with done := insert x l.done }

/-- The write with a dagtag is changed. -/
def onWrite (d : Int) (f : Live → Live) (ls : List Live) : List Live :=
  ls.map fun l => if l.req.dagtag = d then f l else l

/-- A write that was postponed has no dagtag and was sent to nobody. -/
def postponed (sector sectors : Nat) : Request where
  dagtag := 0
  sector := sector
  sectors := sectors

inductive Event where
  | write (sector sectors : Nat)
  | sendData (x : Nat)
  | skip (x : Nat)
  | recv (x : Nat) (hasDisk : Bool)
  | netOk (x : Nat) (d : Int)
  | netDone (x : Nat) (d : Int)
  | destroy (lastRef : Bool)
  /-- A write is destroyed that was postponed before it got a dagtag. -/
  | destroyPostponed (sector sectors : Nat) (lastRef : Bool)
  | flush
  /-- The ack sender of a connection sends the next ack. -/
  | sendAck (x : Nat)
  | recvAck (x : Nat)

namespace Event

variable (s : Sys)

def exec : Event → Sys
  | write sector sectors =>
    { s with
      resourceDagtag := s.resourceDagtag + sectors
      live := s.live ++ [{ req := { dagtag := s.resourceDagtag + sectors, sector := sector, sectors := sectors } }] }
  | sendData x =>
    match nextFor x s.live with
    | none => s
    | some l =>
      { s with
        live := handleFirst x true s.live
        links := update s.links x ((s.links x).send s.resourceDagtag l.req.write) }
  | skip x => { s with live := handleFirst x false s.live }
  | recv x hasDisk =>
    { s with
      links := update s.links x ((s.links x).recv hasDisk)
      received := update s.received x (s.received x ++ (s.links x).arriving.toList) }
  | netOk x d => { s with live := onWrite d (Live.netOk x) s.live }
  | netDone x d => { s with live := onWrite d (Live.netDone x) s.live }
  | destroy lastRef =>
    match s.live with
    | [] => s
    | l :: ls => { s.retire l.req lastRef with live := ls }
  | destroyPostponed sector sectors lastRef => s.retire (postponed sector sectors) lastRef
  | flush =>
    match s.res.peerAckReq with
    | none => s
    | some p => { s with res := flushPeerAcks s.res, queued := s.enqueue p, group := [] }
  | sendAck x =>
    match processPeerAck s.res x with
    | none => s
    | some (req, res) =>
      { s with
        res := res
        acks := update s.acks x
          (s.acks x ++ [⟨req.dagtag, peerAckMask s.res req, ((s.queued x).head?.map Ack.covers).getD []⟩])
        queued := update s.queued x (s.queued x).tail }
  | recvAck x =>
    match s.acks x with
    | [] => s
    | a :: as =>
      let s := { s with acks := update s.acks x as }
      match gotPeerAck (s.links x).receiver a.dagtag with
      | none => { s with lost := true }
      | some c =>
        { s with
          links := update s.links x { s.links x with receiver := c.2 }
          applied := update s.applied x (s.applied x ++ [⟨a.mask, c.1.map PeerRequest.write⟩]) }

/-- A write has at least one sector; only secondaries take part; a connection is done with a write
when its sender has come to it and what was sent has arrived; the oldest write is destroyed when all
are done with it. -/
def Legal : Event → Prop
  | write _ sectors => 0 < sectors
  | sendData x => x ∈ s.nodes
  | skip x => x ∈ s.nodes
  | recv x _ => x ∈ s.nodes
  | netOk x _ => x ∈ s.nodes
  | netDone x d => x ∈ s.nodes ∧
      ∀ l ∈ s.live, l.req.dagtag = d → x ∈ l.handled ∧ l.req.write ∉ (s.links x).inFlight
  | destroy _ => ∀ l ∈ s.live.head?, ∀ x ∈ s.nodes, x ∈ l.done
  | destroyPostponed .. => True
  | flush => True
  | sendAck x => x ∈ s.nodes
  | recvAck x => x ∈ s.nodes

/-- The request that is dropped in favour of a younger one was not sent to more secondaries. -/
def KeepsTargets (req : Request) (lastRef : Bool) : Prop :=
  ∀ p, s.res.peerAckReq = some p → mustQueue s.res req p lastRef = false →
    ∀ x ∈ s.nodes, x ∈ p.sent → x ∈ req.sent

/-- The first write of a connection misses the guess of the sender, no write is refused, and a
request that stands for older ones was sent to all secondaries that got those. -/
def Guarded : Event → Prop
  | sendData x => ∀ l, nextFor x s.live = some l → (s.links x).MissesGuess s.resourceDagtag l.req.write
  | recv x hasDisk => (s.links x).arriving ≠ none → hasDisk = true
  | destroy lastRef => ∀ l ∈ s.live.head?, KeepsTargets s l.req lastRef
  | destroyPostponed sector sectors lastRef => KeepsTargets s (postponed sector sectors) lastRef
  | _ => True

def Step (e : Event) (s' : Sys) : Prop :=
  e.Legal s ∧ s' = e.exec s

end Event

/-- All connections were just made. -/
structure Start (s : Sys) : Prop where
  up : ∀ c ∈ s.res.conns, 110 ≤ c.agreedProVersion ∧ c.connected = true
  small : ∀ x ∈ s.nodes, x ≤ s.res.maxNodeId
  req : s.res.peerAckReq = none
  list : s.res.peerAckList = []
  live : s.live = []
  fresh : ∀ x ∈ s.nodes, (s.links x).sender.seenAnyWriteYet = false ∧ (s.links x).stream = [] ∧
    (s.links x).receiver.peerRequests = [] ∧ (s.links x).expected = (s.links x).receiver.lastDagtagSector ∧
    (s.links x).refused = false
  acks : ∀ x, s.acks x = []
  queued : ∀ x, s.queued x = []
  group : s.group = []
  received : ∀ x, s.received x = []
  applied : ∀ x, s.applied x = []
  lost : s.lost = false

/-- No ack for a secondary is left anywhere. -/
structure Quiet (s : Sys) (x : Nat) : Prop where
  live : s.live = []
  req : s.res.peerAckReq = none
  list : ∀ req ∈ s.res.peerAckList, x ∉ req.peerAck
  acks : s.acks x = []

/-- What peer acks are for. -/
structure Sound (s : Sys) : Prop where
  /-- A bit is cleared only for a node that has acknowledged every write the ack covers. -/
  cleared : ∀ x ∈ s.nodes, ∀ a ∈ s.applied x, ∀ y ∈ a.mask, ∀ w ∈ a.writes,
    ∃ req ∈ s.history, req.write = w ∧ y ∈ req.ok
  /-- The acks cover the received writes one after the other. -/
  covered : ∀ x ∈ s.nodes, (s.received x).Nodup ∧
    s.received x = (s.applied x).flatMap Applied.writes ++ (s.links x).receiver.peerRequests.map PeerRequest.write
  /-- In the end none is left. -/
  complete : ∀ x ∈ s.nodes, Quiet s x → (s.links x).receiver.peerRequests = []
  found : s.lost = false

end Bsr.PeerAck
