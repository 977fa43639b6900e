import Mathlib

/-!
# Peer acks on the primary

A primary tells each secondary which other nodes have a write as well. `bsr_req_destroy` of
`bsr_req.c` keeps the last destroyed write back (`peer_ack_req`) and lets it stand for all writes
before it that were acknowledged by the same nodes; `bsr_queue_peer_ack` hands it to the
connections.

* `reqDestroy` is the part of `bsr_req_destroy` for a write, `flushPeerAcks` is
  `bsr_flush_peer_acks`;
* `processPeerAck` takes the next ack of a connection from the list, `peerAckMask` is the mask of
  its packet.

A resource never writes `2 ^ 64` sectors, so dagtags are numbers.
-/

namespace Bsr.PeerAck

/-- `struct bsr_request` of a write, as far as it is used after it is done. -/
structure Request where
  /-- `dagtag_sector`. -/
  dagtag : Int
  sector : Nat
  /-- `i.size >> 9`. -/
  sectors : Nat
  /-- The nodes with `RQ_NET_SENT`. -/
  sent : Finset Nat := ∅
  /-- The nodes with `RQ_NET_OK`. -/
  ok : Finset Nat := ∅
  /-- The nodes with `RQ_PEER_ACK`. -/
  peerAck : Finset Nat := ∅
deriving DecidableEq

/-- `struct bsr_connection`. -/
structure Conn where
  peerNodeId : Nat
  agreedProVersion : Nat := 116
  connected : Bool := true
deriving DecidableEq

/-- `struct bsr_resource`. -/
structure Resource where
  conns : List Conn
  maxNodeId : Nat
  peerAckWindow : Nat
  lastPeerAckedDagtag : Int := 0
  peerAckReq : Option Request := none
  peerAckList : List Request := []
deriving DecidableEq

def dagtagNewerEq (a b : Int) : Bool :=
  decide (0 ≤ a - b)

variable (r : Resource)

variable (req : Request)

/-- The connections that get an ack for a request. -/
def ackTargets : List Nat :=
  (r.conns.filter fun c => decide (110 ≤ c.agreedProVersion) && c.connected && decide (c.peerNodeId ∈ req.sent)).map
    Conn.peerNodeId

/-- What `bsr_queue_peer_ack` adds to the list; a request that is for nobody is freed. -/
def ackEntry : List Request :=
  if ackTargets r req = [] then [] else [{ req with peerAck := (ackTargets r req).toFinset }]

def queuePeerAck : Resource :=
  { r with peerAckList := r.peerAckList ++ ackEntry r req }

def peerAckDiffers (req1 req2 : Request) : Bool :=
  (List.range (r.maxNodeId + 1)).any fun i => decide (i ∈ req1.ok) != decide (i ∈ req2.ok)

def peerAckWindowFull : Bool :=
  dagtagNewerEq req.dagtag (r.lastPeerAckedDagtag + r.peerAckWindow)

/-- The ack that was kept back has to go out; `lastRef` is `was_last_ref && ap_actlog_cnt`. -/
def mustQueue (req peerAckReq : Request) (lastRef : Bool) : Bool :=
  peerAckDiffers r req peerAckReq || lastRef || peerAckWindowFull r req

/-- `bsr_req_destroy` for a write with data. -/
def reqDestroy (lastRef : Bool) : Resource :=
  -- the resource, and the local variable `peer_ack_req`
  let after : Resource × Option Request :=
    match r.peerAckReq with
    | none => (r, none)
    | some p =>
      if mustQueue r req p lastRef then (queuePeerAck r p, none)
      -- the request is freed
      else (r, none)
  { after.1 with
    peerAckReq := some req
    lastPeerAckedDagtag := if after.2 = none then req.dagtag else after.1.lastPeerAckedDagtag }

/-- `bsr_flush_peer_acks`, also when a primary becomes secondary. -/
def flushPeerAcks : Resource :=
  match r.peerAckReq with
  | none => r
  | some p => { queuePeerAck { r with lastPeerAckedDagtag := p.dagtag } p with peerAckReq := none }

/-- The mask that `bsr_send_peer_ack` sends. -/
def peerAckMask : Finset Nat :=
  ((r.conns.map Conn.peerNodeId).filter fun i => decide (i ∈ req.ok)).toFinset

/-- The flag of one connection is cleared; a request without flags leaves the list. -/
def clearPeerAck (node : Nat) : List Request → List Request
  | [] => []
  | req :: reqs =>
    if node ∈ req.peerAck then
      let req' := { req with peerAck := req.peerAck.erase node }
      if req'.peerAck = ∅ then reqs else req' :: reqs
    else req :: clearPeerAck node reqs

/-- One round of `process_peer_ack_list`: the request whose ack is sent, and the list afterwards. -/
def processPeerAck (node : Nat) : Option (Request × Resource) :=
  (r.peerAckList.find? fun req => decide (node ∈ req.peerAck)).map fun req =>
    (req, { r with peerAckList := clearPeerAck node r.peerAckList })

/-! ## What a destroyed write does -/

/-- The ack that a destroyed write lets out. -/
def outgoing (lastRef : Bool) : List Request :=
  match r.peerAckReq with
  | none => []
  | some p => if mustQueue r req p lastRef then ackEntry r p else []

/-- The local variable is empty in every case, so the window starts anew with every write. -/
theorem reqDestroy_eq (lastRef : Bool) : reqDestroy r req lastRef =
      { r with
        peerAckReq := some req
        lastPeerAckedDagtag := req.dagtag
        peerAckList := r.peerAckList ++ outgoing r req lastRef } := by
  unfold reqDestroy outgoing
  cases r.peerAckReq with
  | none => simp
  | some p => cases hqueue : mustQueue r req p lastRef <;> simp [hqueue, queuePeerAck]

theorem flushPeerAcks_eq {r : Resource} {p : Request} (h : r.peerAckReq = some p) : flushPeerAcks r =
      { r with
        peerAckReq := none
        lastPeerAckedDagtag := p.dagtag
        peerAckList := r.peerAckList ++ ackEntry r p } := by
  unfold flushPeerAcks
  rw [h]
  rfl

/-- Requests with the same acknowledgements from all nodes are kept together. -/
theorem not_peerAckDiffers_iff {r : Resource} {req1 req2 : Request} :
    peerAckDiffers r req1 req2 = false ↔ ∀ i ≤ r.maxNodeId, i ∈ req1.ok ↔ i ∈ req2.ok := by
  unfold peerAckDiffers
  simp

end Bsr.PeerAck
