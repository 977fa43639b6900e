import Bsr.Lib.Cut
import Bsr.Lib.Reach

/-!
# Dagtags on both ends of a connection

Every write has a dagtag, the number of sectors written before it and by it. It is not sent with the
data: `receive_Data` counts on from the last one. `process_one_request` of `bsr_sender.c` sends a
`P_DAGTAG` first when the write does not follow the last one sent on this connection, so that the
receiver can count on from there.

* `sendWrite` and `receive` are the two ends, `gotPeerAck` is the search for the request of a peer
  ack;
* the sender starts with a guess that no write is meant to meet (`reInitIfFirstWrite`);
* a receiver without a disk refuses a write and does not count it;
* `Event.Guarded` are the steps for which both counts stay together.
-/

namespace Bsr.Replicate

open Lib

structure Write where
  /-- `dagtag_sector`. -/
  dagtag : Int
  sector : Nat
  /-- `i.size >> 9`. -/
  sectors : Nat
deriving DecidableEq, Repr

/-- The packets that are about dagtags; of a write its size is sent. -/
inductive Packet where
  | dagtag (d : Int)
  | data (w : Write)
deriving DecidableEq, Repr

/-- `connection->send`. -/
structure Sender where
  seenAnyWriteYet : Bool := false
  currentDagtagSector : Int := 0
deriving DecidableEq, Repr

/-- `(BIO_MAX_VECS << PAGE_SHIFT) >> 9`. -/
def bioMaxSectors : Nat := 2048

variable (resourceDagtag : Int)

/-- `re_init_if_first_write`; the count of the resource may be ahead of the write. -/
def reInitIfFirstWrite (c : Sender) : Sender :=
  if c.seenAnyWriteYet then c
  else { seenAnyWriteYet := true, currentDagtagSector := resourceDagtag - bioMaxSectors - 1 }

/-- The dagtag that the receiver has to count on from. -/
def Write.base (w : Write) : Int :=
  w.dagtag - w.sectors

/-- `process_one_request` for a write that is sent with its data. -/
def sendWrite (c : Sender) (w : Write) : Sender × List Packet :=
  let c' := reInitIfFirstWrite resourceDagtag c
  ({ c' with currentDagtagSector := w.dagtag },
    if w.base ≠ c'.currentDagtagSector then [.dagtag w.base, .data w] else [.data w])

/-- A stored write with the dagtag it was given. -/
structure PeerRequest where
  write : Write
  /-- `dagtag_sector`. -/
  dagtag : Int
deriving DecidableEq, Repr

/-- The request of a stored write with the right dagtag. -/
def Write.request (w : Write) : PeerRequest :=
  ⟨w, w.dagtag⟩

structure Receiver where
  lastDagtagSector : Int
  /-- `peer_requests`, in the order of arrival. -/
  peerRequests : List PeerRequest := []
deriving DecidableEq, Repr

/-- `receive_dagtag` and `receive_Data`; without a disk the write is refused. -/
def receive (hasDisk : Bool) (r : Receiver) : Packet → Receiver
  | .dagtag d => { r with lastDagtagSector := d }
  | .data w =>
    if hasDisk then
      { lastDagtagSector := r.lastDagtagSector + w.sectors
        peerRequests := r.peerRequests ++ [⟨w, r.lastDagtagSector + w.sectors⟩] }
    else r

/-- The search of `got_peer_ack`: the requests covered, and those that stay; `none` is `-EIO`. -/
def gotPeerAck (r : Receiver) (dagtag : Int) : Option (List PeerRequest × Receiver) :=
  (cutAfter (fun pr => decide (dagtag = pr.dagtag)) r.peerRequests).map fun c =>
    (c.1, { r with peerRequests := c.2 })

/-! ## Packets in flight -/

/-- The count after the packets, if every write is counted. -/
def countAfter : Int → List Packet → Int
  | last, [] => last
  | _, .dagtag d :: ps => countAfter d ps
  | _, .data w :: ps => countAfter w.dagtag ps

/-- Every write follows what was counted before. -/
def Follows : Int → List Packet → Prop
  | _, [] => True
  | _, .dagtag d :: ps => Follows d ps
  | last, .data w :: ps => last + w.sectors = w.dagtag ∧ Follows w.dagtag ps

theorem countAfter_append (last : Int) (ps qs : List Packet) :
    countAfter last (ps ++ qs) = countAfter (countAfter last ps) qs := by
  induction ps generalizing last with
  | nil => rfl
  | cons p ps ih => cases p <;> exact ih _

theorem follows_append {last : Int} {ps qs : List Packet} :
    Follows last (ps ++ qs) ↔ Follows last ps ∧ Follows (countAfter last ps) qs := by
  induction ps generalizing last with
  | nil => simp [Follows, countAfter]
  | cons p ps ih =>
    cases p with
    | dagtag d => exact ih
    | data w => simp [Follows, countAfter, ih, and_assoc]

/-- After its packets the receiver counts on from the write. -/
theorem countAfter_sendWrite (last resourceDagtag : Int) (c : Sender) (w : Write) :
    countAfter last (sendWrite resourceDagtag c w).2 = w.dagtag := by
  unfold sendWrite
  dsimp only
  split_ifs <;> rfl

variable {w : Write}

/-- What is sent follows the last write of the connection; the first write has to miss the guess. -/
theorem follows_sendWrite {last resourceDagtag : Int} {c : Sender}
    (hknown : c.seenAnyWriteYet = true → last = c.currentDagtagSector)
    (hfirst : c.seenAnyWriteYet = false → w.base ≠ resourceDagtag - bioMaxSectors - 1) :
    Follows last (sendWrite resourceDagtag c w).2 := by
  have hown : w.base + w.sectors = w.dagtag := by
    unfold Write.base
    omega
  unfold sendWrite reInitIfFirstWrite
  cases hseen : c.seenAnyWriteYet with
  | false => simp [Follows, hfirst hseen, hown]
  | true =>
    rw [if_pos rfl]
    dsimp only
    split_ifs with hne
    · exact ⟨hown, trivial⟩
    · rw [not_not] at hne
      exact ⟨(hknown hseen).trans hne.symm ▸ hown, trivial⟩

/-! ## One connection -/

/-- The two ends and the data stream between them, with what the receiver would have counted if it
counted the refused writes as well. -/
structure Link where
  sender : Sender := {}
  stream : List Packet := []
  receiver : Receiver
  expected : Int
  /-- A write was refused since the last `P_DAGTAG`. -/
  refused : Bool := false
deriving DecidableEq

namespace Link

def send (l : Link) (w : Write) : Link :=
  let c := sendWrite resourceDagtag l.sender w
  { l with sender := c.1, stream := l.stream ++ c.2 }

/-- The receiver takes the next packet. -/
def recv (hasDisk : Bool) (l : Link) : Link :=
  match l.stream with
  | [] => l
  | .dagtag d :: ps =>
    { l with stream := ps, receiver := receive hasDisk l.receiver (.dagtag d), expected := d, refused := false }
  | .data w :: ps =>
    { l with
      stream := ps
      receiver := receive hasDisk l.receiver (.data w)
      expected := w.dagtag
      refused := l.refused || !hasDisk }

/-- The write that the next packet brings. -/
def arriving (l : Link) : Option Write :=
  match l.stream with
  | .data w :: _ => some w
  | _ => none

def dataOf : List Packet → List Write
  | [] => []
  | .dagtag _ :: ps => dataOf ps
  | .data w :: ps => w :: dataOf ps

def inFlight (l : Link) : List Write :=
  dataOf l.stream

theorem dataOf_append (ps qs : List Packet) : dataOf (ps ++ qs) = dataOf ps ++ dataOf qs := by
  induction ps with
  | nil => rfl
  | cons p ps ih => cases p <;> simp [dataOf, ih]

@[simp] theorem inFlight_send (l : Link) (w : Write) :
    (l.send resourceDagtag w).inFlight = l.inFlight ++ [w] := by
  have hdata : dataOf (sendWrite resourceDagtag l.sender w).2 = [w] := by
    unfold sendWrite
    dsimp only
    split_ifs <;> rfl
  rw [inFlight, send, dataOf_append, hdata, inFlight]

theorem inFlight_recv (hasDisk : Bool) (l : Link) :
    l.inFlight = l.arriving.toList ++ (l.recv hasDisk).inFlight := by
  unfold inFlight arriving recv
  cases hs : l.stream with
  | nil => simp [hs]
  | cons p ps => cases p <;> simp [dataOf]

/-- The counts of both ends go together. -/
structure Agrees (l : Link) : Prop where
  /-- Until the first write nothing is in flight. -/
  fresh : l.sender.seenAnyWriteYet = false → l.stream = []
  known : l.sender.seenAnyWriteYet = true → countAfter l.expected l.stream = l.sender.currentDagtagSector
  follows : Follows l.expected l.stream
  counted : l.refused = false → l.receiver.lastDagtagSector = l.expected

/-- The first write of the connection misses the guess of the sender. -/
def MissesGuess (l : Link) (w : Write) : Prop :=
  l.sender.seenAnyWriteYet = false → w.base ≠ resourceDagtag - bioMaxSectors - 1

variable {l : Link}

theorem Agrees.send (h : l.Agrees) {resourceDagtag : Int}
    (hguess : l.MissesGuess resourceDagtag w) : (l.send resourceDagtag w).Agrees := by
  have hseen : (l.send resourceDagtag w).sender.seenAnyWriteYet = true := by
    unfold Link.send sendWrite reInitIfFirstWrite
    cases hs : l.sender.seenAnyWriteYet <;> simp [hs]
  refine ⟨fun hs => ?_, fun _ => ?_, ?_, h.counted⟩
  · rw [hseen] at hs
    exact absurd hs (by decide)
  · exact (countAfter_append _ _ _).trans (countAfter_sendWrite _ _ _ _)
  · exact follows_append.2 ⟨h.follows, follows_sendWrite h.known hguess⟩

theorem Agrees.seen (h : l.Agrees) (hs : l.stream ≠ []) : l.sender.seenAnyWriteYet = true := by
  cases hseen : l.sender.seenAnyWriteYet with
  | true => rfl
  | false => exact absurd (h.fresh hseen) hs

/-- A write that is stored when none was refused before gets the dagtag of the sender. -/
theorem Agrees.arriving (h : l.Agrees) (hw : l.arriving = some w) (hrefused : l.refused = false) :
    l.receiver.lastDagtagSector + w.sectors = w.dagtag := by
  have hfollows := h.follows
  unfold Link.arriving at hw
  split at hw
  · rename_i v ps hs
    cases hw
    rw [hs] at hfollows
    rw [h.counted hrefused]
    exact hfollows.1
  · cases hw

variable {hasDisk : Bool}

theorem Agrees.recv (h : l.Agrees)
    (hguard : hasDisk = true → l.arriving ≠ none → l.refused = false) : (l.recv hasDisk).Agrees := by
  have hseen := h.seen
  have hknown := h.known
  have hfollows := h.follows
  unfold Link.recv
  split
  · exact h
  all_goals
    rename_i w _ hs
    rw [hs] at hseen hknown hfollows
    have hseen := hseen (List.cons_ne_nil _ _)
    refine ⟨fun hfresh => absurd (hseen.symm.trans hfresh) (by decide), fun _ => hknown hseen, ?_, fun hno => ?_⟩
  · exact hfollows
  · rfl
  · exact hfollows.2
  · have harr : l.arriving = some w := by rw [Link.arriving, hs]
    cases hasDisk with
    | false => simp at hno
    | true => exact h.arriving harr (hguard rfl (by simp [harr]))

open Link

theorem refused_recv (hrefused : l.refused = false) (hguard : l.arriving ≠ none → hasDisk = true) :
    (l.recv hasDisk).refused = false := by
  cases hs : l.stream with
  | nil => simpa [recv, hs] using hrefused
  | cons p ps =>
    cases p with
    | dagtag d => simp [recv, hs]
    | data w => simp [recv, hs, hrefused, hguard (by simp [arriving, hs])]

theorem peerRequests_recv (h : l.Agrees) (hguard : hasDisk = true → l.arriving ≠ none → l.refused = false) :
    (l.recv hasDisk).receiver.peerRequests =
      l.receiver.peerRequests ++ if hasDisk then l.arriving.toList.map Write.request else [] := by
  cases hs : l.stream with
  | nil => simp [recv, arriving, hs]
  | cons p ps =>
    cases p with
    | dagtag d => simp [recv, arriving, hs, receive]
    | data w =>
      have harr : l.arriving = some w := by simp [arriving, hs]
      cases hasDisk with
      | false => simp [recv, hs, receive]
      | true =>
        have hcount := h.arriving harr (hguard rfl (by simp [harr]))
        simp [recv, hs, receive, harr, Write.request, hcount]

end Link

end Bsr.Replicate
