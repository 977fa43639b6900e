import Bsr.Handshake.Uuids
import Bsr.Replicate.Dagtag
import Bsr.Request.Model

/-!
# Two secondaries that have lost their primary

The secondaries tell each other the dagtag up to which they have counted the writes of the primary
(`P_PEER_DAGTAG`), and the one that is ahead becomes the source of a resync.

* `receivePeerDagtag` is the choice of one node, and whether its state engine goes along;
* `Conn` is the stream of the primary to a secondary. A write is sent with its data, or only as a
  `P_OUT_OF_SYNC`, which has no dagtag and is not counted;
* the next write that is sent with its data moves the count past such a notification
  (`source_lacks_write`). `Event.Guarded` are the sends after which the count still tells what the
  node holds, in comparison with the other one.
-/

namespace Bsr.Replicate.Reconcile

open Lib Handshake State Request Function

/-! ## The choice -/

/-- A peer device and its device, as `receive_peer_dagtag` sees them. -/
structure Volume where
  replState : ReplState := .established
  currentUuid : Uuid := 0
  peerCurrentUuid : Uuid := 0
  diskState : DiskState := .consistent
  peerDiskState : DiskState := .consistent

/-- A secondary when `P_PEER_DAGTAG` comes. -/
structure Node where
  /-- There is a connection for the lost node. -/
  knowsLostPeer : Bool := true
  /-- It is still connected after a ping. -/
  lostPeerConnected : Bool := false
  volumes : List Volume
  /-- `lost_peer->last_dagtag_sector`. -/
  lastDagtagSector : Int

/-- The states stay as they are, or the new replication state; with `established` comes for which
volumes the bitmap is cleared. -/
inductive Choice where
  | unchanged
  | wfBitmapS
  | wfBitmapT
  | established (cleared : List Bool)
deriving DecidableEq, Repr

namespace Volume

variable (v : Volume)

/-- `repl_state[NOW] > L_ESTABLISHED` or another current UUID. -/
def busy : Bool :=
  !(decide (v.replState = .off) || decide (v.replState = .established)) ||
    decide (v.peerCurrentUuid ≠ v.currentUuid)

/-- The disk of the peer cannot be a source (DW-891). -/
def weakPeer : Bool :=
  decide (v.peerDiskState.rank ≤ DiskState.inconsistent.rank)

/-- `L_WF_BITMAP_S` is refused: `sanitize_state` gives the own disk at least `D_OUTDATED`, and
`__is_valid_soft_transition` answers `SS_LOWER_THAN_OUTDATED` or `SS_IS_DISKLESS`. -/
def refusesSource : Bool :=
  decide (v.diskState.rank < DiskState.outdated.rank) && decide (v.diskState ≠ .attaching)

/-- `L_WF_BITMAP_T` is refused: `SS_IS_DISKLESS`. -/
def refusesTarget : Bool :=
  decide (v.diskState = .diskless)

/-- `bsr_bm_clear_many_bits` for the slot of the peer. -/
def clears : Bool :=
  !v.weakPeer && decide (DiskState.outdated.rank ≤ v.diskState.rank)

end Volume

namespace Node

variable (n : Node)

/-- The state change of the node that is ahead. -/
def becomesSource : Choice :=
  if n.volumes.any Volume.refusesSource then .unchanged else .wfBitmapS

/-- DW-891 and the state change of the node that is behind. -/
def becomesTarget : Choice :=
  if n.volumes.any Volume.weakPeer || n.volumes.any Volume.refusesTarget then .unchanged
  else .wfBitmapT

end Node

/-- `receive_peer_dagtag`, with the objections that its state change meets on the own disks. -/
def receivePeerDagtag (n : Node) (dagtag : Int) : Choice :=
  if !n.knowsLostPeer || n.lostPeerConnected || n.volumes.any Volume.busy then .unchanged
  else if 0 < n.lastDagtagSector - dagtag then n.becomesSource
  else if n.lastDagtagSector - dagtag < 0 then n.becomesTarget
  else .established (n.volumes.map Volume.clears)

/-- Source and target, or both are established, by choice or because they stay as they are. -/
def Complementary : Choice → Choice → Prop
  | .wfBitmapS, .wfBitmapT | .wfBitmapT, .wfBitmapS => True
  | .established _, .established _ | .unchanged, .unchanged => True
  | _, _ => False

/-- The node has lost the primary, and there is nothing else between it and its peer. -/
def Node.Ready (n : Node) : Prop :=
  n.knowsLostPeer = true ∧ n.lostPeerConnected = false ∧ ∀ v ∈ n.volumes, v.busy = false

/-- The volume has a disk, and its peer knows in which state. -/
def Volume.SeenBy (v w : Volume) : Prop :=
  w.peerDiskState = v.diskState ∧ DiskState.inconsistent.rank ≤ v.diskState.rank

/-- Two nodes that are ready, have disks and know the disks of each other. -/
structure Node.Facing (n m : Node) : Prop where
  ready : n.Ready ∧ m.Ready
  disks : List.Forall₂ (fun v w => v.SeenBy w ∧ w.SeenBy v) n.volumes m.volumes

variable {n m : Node} {dagtag : Int}

theorem Node.Facing.symm (h : n.Facing m) : m.Facing n :=
  ⟨h.ready.symm, h.disks.flip.imp fun _ _ => And.symm⟩

/-- The node that is behind objects exactly where the one that is ahead is refused. -/
theorem any_refusesSource {vs ws : List Volume}
    (h : List.Forall₂ (fun v w => v.SeenBy w ∧ w.SeenBy v) vs ws) :
    (ws.any Volume.weakPeer || ws.any Volume.refusesTarget) = vs.any Volume.refusesSource := by
  induction h with
  | nil => rfl
  | @cons v w vs ws hdisk _ ih =>
    obtain ⟨⟨hsees, hv⟩, -, hw⟩ := hdisk
    have htarget : w.refusesTarget = false := by
      cases hd : w.diskState <;> simp_all [Volume.refusesTarget, DiskState.rank]
    have hsource : w.weakPeer = v.refusesSource := by
      cases hd : v.diskState <;> simp_all [Volume.weakPeer, Volume.refusesSource, DiskState.rank]
    simp only [List.any_cons, htarget, hsource, Bool.false_or, Bool.or_assoc, ih]

theorem Node.Facing.becomes (h : n.Facing m) : Complementary n.becomesSource m.becomesTarget ∧
    Complementary m.becomesTarget n.becomesSource := by
  rw [becomesSource, becomesTarget, any_refusesSource h.disks]
  split_ifs
  · exact ⟨trivial, trivial⟩
  · exact ⟨trivial, trivial⟩

theorem Node.Ready.choice (h : n.Ready) (dagtag : Int) : receivePeerDagtag n dagtag =
    if 0 < n.lastDagtagSector - dagtag then n.becomesSource
    else if n.lastDagtagSector - dagtag < 0 then n.becomesTarget
    else .established (n.volumes.map Volume.clears) := by
  have hbusy : n.volumes.any Volume.busy = false := by simpa using h.2.2
  simp [receivePeerDagtag, h.1, h.2.1, hbusy]

theorem Node.Facing.complementary (h : n.Facing m) : Complementary
    (receivePeerDagtag n m.lastDagtagSector) (receivePeerDagtag m n.lastDagtagSector) := by
  rw [h.ready.1.choice, h.ready.2.choice]
  split_ifs
  all_goals first
    | exact h.becomes.1
    | exact h.symm.becomes.2
    | trivial
    | omega

theorem lt_of_wfBitmapS (h : receivePeerDagtag n dagtag = .wfBitmapS) :
    dagtag < n.lastDagtagSector := by
  unfold receivePeerDagtag Node.becomesTarget at h
  split_ifs at h
  omega

theorem lt_of_wfBitmapT (h : receivePeerDagtag n dagtag = .wfBitmapT) :
    n.lastDagtagSector < dagtag := by
  unfold receivePeerDagtag Node.becomesSource at h
  split_ifs at h
  omega

theorem eq_of_established {cleared : List Bool}
    (h : receivePeerDagtag n dagtag = .established cleared) : n.lastDagtagSector = dagtag := by
  unfold receivePeerDagtag Node.becomesSource Node.becomesTarget at h
  split_ifs at h
  omega

/-! ## The streams of the primary -/

/-- What is on the data stream of a connection. -/
inductive Item where
  | packet (p : Packet)
  | outOfSync (w : Write)
deriving DecidableEq, Repr

namespace Item

def packet? : Item → Option Packet
  | packet p => some p
  | outOfSync _ => none

/-- The write that comes with its data. -/
def data? : Item → Option Write
  | packet (.data w) => some w
  | _ => none

/-- The write of which the secondary is only told. -/
def told? : Item → Option Write
  | outOfSync w => some w
  | _ => none

def write? : Item → Option Write
  | packet (.dagtag _) => none
  | packet (.data w) | outOfSync w => some w

end Item

/-- The stream of the primary to one secondary. -/
structure Conn where
  sender : Sender := {}
  /-- How many writes the sender has come to. -/
  handled : Nat := 0
  wire : List Item := []
  receiver : Receiver
  /-- What the secondary has received, without the writes that it refused. -/
  got : List Item := []

namespace Conn

variable (c : Conn)

/-- `process_one_request` for a write with its data. -/
def sendData (resourceDagtag : Int) (w : Write) : Conn :=
  let sent := sendWrite resourceDagtag c.sender w
  { c with sender := sent.1, handled := c.handled + 1, wire := c.wire ++ sent.2.map .packet }

/-- `process_one_request` for a write that is not to be replicated. -/
def sendOutOfSync (w : Write) : Conn :=
  { c with handled := c.handled + 1, wire := c.wire ++ [.outOfSync w] }

/-- The secondary takes the next packet. -/
def recv (hasDisk : Bool) : Conn :=
  match c.wire with
  | [] => c
  | .packet p :: wire =>
    { c with
      wire := wire
      receiver := receive hasDisk c.receiver p
      got := if (Item.packet p).data?.isSome && !hasDisk then c.got else c.got ++ [.packet p] }
  | .outOfSync w :: wire => { c with wire := wire, got := c.got ++ [.outOfSync w] }

/-- The next packet brings a write with its data. -/
def bringsData : Bool :=
  c.wire.head?.any fun i => i.data?.isSome

/-- The writes that the secondary has received with their data. -/
def held : List Write :=
  c.got.filterMap Item.data?

/-- All that has been sent, when no write is refused. -/
def items : List Item :=
  c.got ++ c.wire

/-- The writes sent with their data. -/
def sentData : List Write :=
  c.items.filterMap Item.data?

/-- The writes sent as notifications. -/
def sentTold : List Write :=
  c.items.filterMap Item.told?

end Conn

structure Sys where
  /-- `resource->dagtag_sector` of the primary. -/
  resourceDagtag : Int
  writes : List Write := []
  /-- The streams to the two secondaries. -/
  conns : Bool → Conn

/-- The write that the sender of a connection comes to next. -/
def Sys.next? (s : Sys) (x : Bool) : Option Write :=
  s.writes[(s.conns x).handled]?

inductive Event where
  | write (sector sectors : Nat)
  | sendData (x : Bool)
  | sendOutOfSync (x : Bool)
  | recv (x : Bool) (hasDisk : Bool)

namespace Event

def exec (s : Sys) : Event → Sys
  | write sector sectors =>
    { s with
      resourceDagtag := s.resourceDagtag + sectors
      writes := s.writes ++ [⟨s.resourceDagtag + sectors, sector, sectors⟩] }
  | sendData x =>
    match s.next? x with
    | none => s
    | some w =>
      { s with conns := update s.conns x ((s.conns x).sendData s.resourceDagtag w) }
  | sendOutOfSync x =>
    match s.next? x with
    | none => s
    | some w => { s with conns := update s.conns x ((s.conns x).sendOutOfSync w) }
  | recv x hasDisk => { s with conns := update s.conns x ((s.conns x).recv hasDisk) }

def Legal : Event → Prop
  | write _ sectors => 0 < sectors
  | _ => True

/-- The first write of a connection misses the guess of the sender, and no write is refused. A write
is sent with its data only to a secondary that has not been told of a write which the other one got
with its data, and not once the other one, only told of it, has got a later one with its data. -/
def Guarded (s : Sys) : Event → Prop
  | sendData x => ∀ w ∈ s.next? x,
      ((s.conns x).sender.seenAnyWriteYet = false → w.base ≠ s.resourceDagtag - bioMaxSectors - 1) ∧
      (∀ v ∈ (s.conns x).sentTold, v ∉ (s.conns (!x)).sentData) ∧
      (w ∈ (s.conns (!x)).sentTold → ∀ u ∈ (s.conns (!x)).sentData, u.dagtag ≤ w.base)
  | recv x hasDisk => (s.conns x).bringsData = true → hasDisk = true
  | _ => True

def Step (s : Sys) (e : Event) (s' : Sys) : Prop :=
  e.Legal ∧ s' = e.exec s

end Event

/-- The streams begin, and no secondary counts ahead of the primary. -/
structure Start (s : Sys) : Prop where
  writes : s.writes = []
  fresh : ∀ x, (s.conns x).sender.seenAnyWriteYet = false ∧ (s.conns x).handled = 0 ∧
    (s.conns x).items = [] ∧ (s.conns x).receiver.lastDagtagSector ≤ s.resourceDagtag

/-! ## One stream -/

/-- A `P_DAGTAG` stands right before the write it announces. -/
def Paired : List Item → Prop
  | [] => True
  | .packet (.dagtag d) :: items =>
    (∃ w rest, items = .packet (.data w) :: rest ∧ d = w.base) ∧ Paired items
  | .packet (.data _) :: items => Paired items
  | .outOfSync _ :: items => Paired items

theorem Paired.append {items items' : List Item} (h : Paired items) (h' : Paired items') :
    Paired (items ++ items') := by
  induction items with
  | nil => exact h'
  | cons i items ih =>
    rcases i with (d | w) | w
    · obtain ⟨⟨w, rest, rfl, hd⟩, hitems⟩ := h
      exact ⟨⟨w, rest ++ items', rfl, hd⟩, ih hitems⟩
    · exact ih h
    · exact ih h

/-- The packets of a write that is sent with its data. -/
theorem sendWrite_items (resourceDagtag : Int) (c : Sender) (w : Write) :
    Paired ((sendWrite resourceDagtag c w).2.map .packet) ∧
      ((sendWrite resourceDagtag c w).2.map Item.packet).filterMap Item.write? = [w] ∧
      ((sendWrite resourceDagtag c w).2.map Item.packet).filterMap Item.data? = [w] ∧
      ((sendWrite resourceDagtag c w).2.map Item.packet).filterMap Item.told? = [] := by
  unfold sendWrite
  dsimp only
  split_ifs
  · exact ⟨⟨⟨w, [], rfl, rfl⟩, trivial⟩, rfl, rfl, rfl⟩
  · exact ⟨trivial, rfl, rfl, rfl⟩

theorem base_le (w : Write) : w.base ≤ w.dagtag := by
  unfold Write.base
  omega

/-- What the count says after a part of the stream: it has passed the writes that came with their
data, it has not passed the writes to come, and it is not beyond the data sent so far. -/
structure Counted (start count : Int) (got wire : List Item) : Prop where
  start_le : start ≤ count
  below : ∀ w ∈ got.filterMap Item.data?, w.dagtag ≤ count
  above : ∀ w ∈ wire.filterMap Item.write?, count ≤ w.base
  reached : ∀ b, start ≤ b → (∀ u ∈ (got ++ wire).filterMap Item.data?, u.dagtag ≤ b) → count ≤ b

open List

theorem counted {got wire : List Item} {start : Int} (hpaired : Paired (got ++ wire))
    (hstart : ∀ w ∈ (got ++ wire).filterMap Item.write?, start ≤ w.base)
    (hordered : ((got ++ wire).filterMap Item.write?).Pairwise fun v w => v.dagtag ≤ w.base) :
    Counted start (countAfter start (got.filterMap Item.packet?)) got wire := by
  induction got generalizing start with
  | nil => exact ⟨Int.le_refl _, nofun, hstart, fun b hb _ => hb⟩
  | cons i got ih =>
    rcases i with (d | w) | w
    · obtain ⟨⟨w, rest, hnext, rfl⟩, hrest⟩ := hpaired
      change got ++ wire = _ at hnext
      have hmem : w ∈ (got ++ wire).filterMap Item.write? := by simp [hnext, Item.write?]
      have hcount := @ih w.base hrest (fun v hv => ?_) hordered
      · have hdata : w ∈ (got ++ wire).filterMap Item.data? := by simp [hnext, Item.data?]
        refine ⟨(hstart w hmem).trans hcount.start_le, hcount.below, hcount.above, ?_⟩
        intro b _ hall
        exact hcount.reached b ((base_le w).trans (hall w hdata)) hall
      · change ((got ++ wire).filterMap Item.write?).Pairwise _ at hordered
        rw [hnext] at hv hordered
        obtain rfl | hv := mem_cons.1 hv
        · exact Int.le_refl _
        · exact (base_le w).trans ((pairwise_cons.1 hordered).1 v hv)
    · obtain ⟨hlater, hordered⟩ := pairwise_cons.1 hordered
      have hcount := @ih w.dagtag hpaired hlater hordered
      refine ⟨?_, forall_mem_cons.2 ⟨hcount.start_le, hcount.below⟩, hcount.above, ?_⟩
      · exact ((hstart w mem_cons_self).trans (base_le w)).trans hcount.start_le
      · intro b _ hall
        exact hcount.reached b (hall w mem_cons_self) fun u hu => hall u (mem_cons_of_mem _ hu)
    · have hcount := ih hpaired (fun v hv => hstart v (mem_cons_of_mem _ hv))
        (pairwise_cons.1 hordered).2
      exact ⟨hcount.start_le, hcount.below, hcount.above, hcount.reached⟩

/-- The writes of the primary follow each other. -/
structure Ordered (resourceDagtag : Int) (ws : List Write) : Prop where
  pairwise : ws.Pairwise fun v w => v.dagtag ≤ w.base
  pos : ∀ w ∈ ws, 0 < w.sectors
  capped : ∀ w ∈ ws, w.dagtag ≤ resourceDagtag

/-- The stream of the writes `ws` to a secondary whose count was `start`. -/
structure Conn.Inv (start : Int) (ws : List Write) (c : Conn) : Prop where
  handled_le : c.handled ≤ ws.length
  writes : c.items.filterMap Item.write? = ws.take c.handled
  paired : Paired c.items
  follows : Follows start (c.items.filterMap Item.packet?)
  sender : c.sender.seenAnyWriteYet = true →
    countAfter start (c.items.filterMap Item.packet?) = c.sender.currentDagtagSector
  count : c.receiver.lastDagtagSector = countAfter start (c.got.filterMap Item.packet?)
  start_le : ∀ w ∈ ws, start ≤ w.base

namespace Conn

variable {start resourceDagtag : Int} {ws : List Write} {c : Conn} {w : Write} {hasDisk : Bool}

@[simp] theorem sentData_sendData : (c.sendData resourceDagtag w).sentData = c.sentData ++ [w] := by
  simp [sentData, items, sendData, (sendWrite_items resourceDagtag c.sender w).2.2.1]

@[simp] theorem sentTold_sendData : (c.sendData resourceDagtag w).sentTold = c.sentTold := by
  simp [sentTold, items, sendData, (sendWrite_items resourceDagtag c.sender w).2.2.2]

@[simp] theorem sentData_sendOutOfSync : (c.sendOutOfSync w).sentData = c.sentData := by
  simp [sentData, items, sendOutOfSync, Item.data?]

@[simp] theorem sentTold_sendOutOfSync : (c.sendOutOfSync w).sentTold = c.sentTold ++ [w] := by
  simp [sentTold, items, sendOutOfSync, Item.told?]

/-- What has been sent stays so when it is received. -/
theorem items_recv (hguard : c.bringsData = true → hasDisk = true) :
    (c.recv hasDisk).items = c.items := by
  cases hwire : c.wire with
  | nil => simp [recv, hwire]
  | cons i wire =>
    rcases i with (d | w) | w
    · simp [recv, hwire, items, Item.data?]
    · obtain rfl := hguard (by simp [bringsData, hwire, Item.data?])
      simp [recv, hwire, items]
    · simp [recv, hwire, items]

variable (h : c.Inv start ws)

include h

theorem Inv.write (hbase : start ≤ w.base) : c.Inv start (ws ++ [w]) := by
  refine { h with handled_le := ?_, writes := ?_, start_le := ?_ }
  · rw [length_append]
    exact Nat.le_add_right_of_le h.handled_le
  · rw [take_append_of_le_length h.handled_le]
    exact h.writes
  · simpa [or_imp, forall_and, hbase] using h.start_le

/-- The sender comes to its next write and puts it on the stream in one way or the other. -/
theorem Inv.handle (hw : ws[c.handled]? = some w) {sender : Sender} {new : List Item}
    (hwrite : new.filterMap Item.write? = [w]) (hpaired : Paired new)
    (hfollows : Follows (countAfter start (c.items.filterMap Item.packet?))
      (new.filterMap Item.packet?))
    (hsender : sender.seenAnyWriteYet = true →
      countAfter (countAfter start (c.items.filterMap Item.packet?)) (new.filterMap Item.packet?) =
        sender.currentDagtagSector) :
    Inv start ws { c with handled := c.handled + 1, sender := sender, wire := c.wire ++ new } := by
  obtain ⟨hlt, -⟩ := List.getElem?_eq_some_iff.1 hw
  refine ⟨hlt, ?_, ?_, ?_, ?_, h.count, h.start_le⟩ <;>
    simp only [items, ← append_assoc, filterMap_append]
  · rw [← filterMap_append, take_add_one, hw, hwrite]
    exact congrArg (· ++ [w]) h.writes
  · exact h.paired.append hpaired
  · rw [follows_append, ← filterMap_append]
    exact ⟨h.follows, hfollows⟩
  · rw [countAfter_append, ← filterMap_append]
    exact hsender

theorem Inv.sendData (hw : ws[c.handled]? = some w)
    (hguess : c.sender.seenAnyWriteYet = false → w.base ≠ resourceDagtag - bioMaxSectors - 1) :
    (c.sendData resourceDagtag w).Inv start ws := by
  obtain ⟨hpaired, hwrite, -⟩ := sendWrite_items resourceDagtag c.sender w
  have hpackets : ((sendWrite resourceDagtag c.sender w).2.map Item.packet).filterMap Item.packet? =
      (sendWrite resourceDagtag c.sender w).2 := by
    simp [comp_def, Item.packet?]
  refine h.handle hw hwrite hpaired ?_ ?_
  · rw [hpackets]
    exact follows_sendWrite h.sender hguess
  · rw [hpackets, countAfter_sendWrite]
    exact fun _ => rfl

theorem Inv.sendOutOfSync (hw : ws[c.handled]? = some w) : (c.sendOutOfSync w).Inv start ws :=
  h.handle hw rfl trivial trivial h.sender

theorem Inv.recv (hguard : c.bringsData = true → hasDisk = true) :
    (c.recv hasDisk).Inv start ws := by
  have hitems := items_recv hguard
  have hkeep : (c.recv hasDisk).sender = c.sender ∧ (c.recv hasDisk).handled = c.handled ∧
      (c.recv hasDisk).receiver.lastDagtagSector =
        countAfter start ((c.recv hasDisk).got.filterMap Item.packet?) := by
    cases hwire : c.wire with
    | nil => simpa [Conn.recv, hwire] using h.count
    | cons i wire =>
      rcases i with (d | w) | w
      · simp [Conn.recv, hwire, receive, Item.data?, Item.packet?, countAfter_append, countAfter]
      · have hfollows := h.follows
        obtain rfl := hguard (by simp [bringsData, hwire, Item.data?])
        simp only [items, hwire, filterMap_append, follows_append, ← h.count] at hfollows
        simp [Conn.recv, hwire, receive, Item.packet?, countAfter_append, countAfter, hfollows.2.1]
      · simpa [Conn.recv, hwire, Item.packet?, filterMap_cons] using h.count
  refine ⟨?_, ?_, ?_, ?_, ?_, hkeep.2.2, h.start_le⟩
  all_goals simp only [hitems, hkeep.1, hkeep.2.1]
  · exact h.handled_le
  · exact h.writes
  · exact h.paired
  · exact h.follows
  · exact h.sender

theorem Inv.mem_of_item {i : Item} (hi : i ∈ c.items) (hw : i.write? = some w) :
    w ∈ ws.take c.handled := by
  rw [← h.writes]
  exact mem_filterMap.2 ⟨i, hi, hw⟩

theorem Inv.mem_of_sentData (hw : w ∈ c.sentData) : w ∈ ws.take c.handled := by
  obtain ⟨i, hi, hdata⟩ := mem_filterMap.1 hw
  refine h.mem_of_item hi ?_
  rcases i with (d | v) | v
  · cases hdata
  · exact hdata
  · cases hdata

variable (hordered : Ordered resourceDagtag ws)

include hordered

theorem Inv.counted : Counted start c.receiver.lastDagtagSector c.got c.wire := by
  have hpairwise : (c.items.filterMap Item.write?).Pairwise fun v w => v.dagtag ≤ w.base := by
    rw [h.writes]
    exact hordered.pairwise.sublist (take_sublist _ _)
  rw [h.count]
  refine Reconcile.counted h.paired (fun w hw => h.start_le w ?_) hpairwise
  obtain ⟨i, hi, hwrite⟩ := mem_filterMap.1 hw
  exact mem_of_mem_take (h.mem_of_item hi hwrite)

/-- The writes that are not sent yet come after those that are. -/
theorem Inv.sentData_le (hw : w ∈ ws.drop c.handled) : ∀ u ∈ c.sentData, u.dagtag ≤ w.base := by
  have hpairwise := hordered.pairwise
  rw [← take_append_drop c.handled ws, pairwise_append] at hpairwise
  exact fun u hu => hpairwise.2.2 u (h.mem_of_sentData hu) w hw

/-- Every write up to the count has been received in one way or the other. -/
theorem Inv.received (hw : w ∈ ws) (hle : w.dagtag ≤ c.receiver.lastDagtagSector) :
    w ∈ c.held ∨ w ∈ c.sentTold := by
  have hcount := h.counted hordered
  have hpos := hordered.pos w hw
  have hpassed : ¬ c.receiver.lastDagtagSector ≤ w.base := by
    unfold Write.base
    omega
  have hmem := hw
  rw [← take_append_drop c.handled ws, mem_append, ← h.writes, items, filterMap_append,
    mem_append] at hmem
  obtain (hgot | hwire) | hdrop := hmem
  · obtain ⟨i, hi, hwrite⟩ := mem_filterMap.1 hgot
    rcases i with (d | v) | v
    · cases hwrite
    · exact .inl (mem_filterMap.2 ⟨_, hi, hwrite⟩)
    · exact .inr (mem_filterMap.2 ⟨_, mem_append_left _ hi, hwrite⟩)
  · exact absurd (hcount.above w hwire) hpassed
  · exact absurd (hcount.reached _ (h.start_le w hw) (h.sentData_le hordered hdrop)) hpassed

end Conn

/-! ## Runs -/

/-- Where one secondary was only told of a write that the other one got with its data, it has got no
later write with its data. -/
def Fair (conns : Bool → Conn) : Prop :=
  ∀ x, ∀ v ∈ (conns x).sentTold, v ∈ (conns (!x)).sentData →
    ∀ u ∈ (conns x).sentData, u.dagtag ≤ v.base

structure Inv (s : Sys) : Prop where
  ordered : Ordered s.resourceDagtag s.writes
  conn : ∀ x, ∃ start ≤ s.resourceDagtag, (s.conns x).Inv start s.writes
  fair : Fair s.conns

variable {s : Sys}

theorem Start.inv (h : Start s) : Inv s where
  ordered := by
    rw [h.writes]
    exact ⟨.nil, by simp, by simp⟩
  conn x := by
    obtain ⟨hseen, hhandled, hitems, hlast⟩ := h.fresh x
    have hgot := (append_eq_nil_iff.1 hitems).1
    refine ⟨_, hlast, ?_⟩
    refine ⟨?_, ?_, ?_, ?_, ?_, ?_, ?_⟩ <;>
      simp [hseen, hhandled, hitems, hgot, h.writes, Paired, Follows, countAfter]
  fair x v hv := by simp [Conn.sentTold, (h.fresh x).2.2.1] at hv

theorem Inv.update (h : Inv s) {x : Bool} {c : Conn}
    (hc : ∃ start ≤ s.resourceDagtag, c.Inv start s.writes)
    (hfair : Fair (update s.conns x c)) :
    Inv { s with conns := update s.conns x c } := by
  refine ⟨h.ordered, fun y => ?_, hfair⟩
  by_cases hy : y = x
  · subst hy
    simpa using hc
  · simpa [hy] using h.conn y

/-- Fairness after one connection has changed, seen from both sides. -/
theorem fair_update {conns : Bool → Conn} {x : Bool} {c : Conn}
    (hown : ∀ v ∈ c.sentTold, v ∈ (conns (!x)).sentData → ∀ u ∈ c.sentData, u.dagtag ≤ v.base)
    (hother : ∀ v ∈ (conns (!x)).sentTold, v ∈ c.sentData →
      ∀ u ∈ (conns (!x)).sentData, u.dagtag ≤ v.base) : Fair (update conns x c) := by
  intro y
  obtain rfl | rfl : y = x ∨ y = !x := by cases x <;> cases y <;> simp
  · simpa using hown
  · simpa using hother

open Event

theorem Inv.step {s s' : Sys} {e : Event} (h : Inv s) (hguard : e.Guarded s) (hstep : e.Step s s') :
    Inv s' := by
  obtain ⟨hlegal, rfl⟩ := hstep
  cases e with
  | write sector sectors =>
    have hbase : Write.base ⟨s.resourceDagtag + sectors, sector, sectors⟩ = s.resourceDagtag := by
      simp [Write.base]
    refine ⟨⟨?_, fun w hw => ?_, fun w hw => ?_⟩, fun x => ?_, h.fair⟩
    · refine pairwise_append.2 ⟨h.ordered.pairwise, pairwise_singleton .., fun v hv w hw => ?_⟩
      rw [mem_singleton.1 hw, hbase]
      exact h.ordered.capped v hv
    · obtain hw | hw := mem_append.1 hw
      · exact h.ordered.pos w hw
      · exact mem_singleton.1 hw ▸ hlegal
    · obtain hw | hw := mem_append.1 hw
      · have hle := h.ordered.capped w hw
        dsimp only [exec]
        omega
      · rw [mem_singleton.1 hw]
        exact Int.le_refl _
    · obtain ⟨start, hstart, hconn⟩ := h.conn x
      exact ⟨start, by dsimp only [exec]; omega, hconn.write (hstart.trans_eq hbase.symm)⟩
  | sendData x =>
    dsimp only [exec]
    split
    · exact h
    · rename_i w hw
      obtain ⟨start, hstart, hconn⟩ := h.conn x
      obtain ⟨hguess, htold, hdata⟩ := hguard w hw
      refine h.update ⟨start, hstart, hconn.sendData hw hguess⟩ (fair_update ?_ ?_)
      · intro v hv hsent
        rw [Conn.sentTold_sendData] at hv
        exact absurd hsent (htold v hv)
      · intro v hv hsent
        rw [Conn.sentData_sendData, mem_append, mem_singleton] at hsent
        obtain hsent | rfl := hsent
        · exact h.fair (!x) v hv (by rwa [Bool.not_not])
        · exact hdata hv
  | sendOutOfSync x =>
    dsimp only [exec]
    split
    · exact h
    · rename_i w hw
      obtain ⟨start, hstart, hconn⟩ := h.conn x
      refine h.update ⟨start, hstart, hconn.sendOutOfSync hw⟩ (fair_update ?_ ?_)
      · intro v hv hsent
        rw [Conn.sentData_sendOutOfSync]
        rw [Conn.sentTold_sendOutOfSync, mem_append, mem_singleton] at hv
        obtain hv | rfl := hv
        · exact h.fair x v hv hsent
        · refine hconn.sentData_le h.ordered (mem_of_getElem? (i := 0) ?_)
          rwa [getElem?_drop]
      · intro v hv hsent
        rw [Conn.sentData_sendOutOfSync] at hsent
        exact h.fair (!x) v hv (by rwa [Bool.not_not])
  | recv x hasDisk =>
    obtain ⟨start, hstart, hconn⟩ := h.conn x
    have hitems := Conn.items_recv hguard
    refine h.update ⟨start, hstart, hconn.recv hguard⟩ (fair_update ?_ ?_) <;>
      simp only [Conn.sentData, Conn.sentTold, hitems]
    · exact h.fair x
    · intro v hv hsent
      exact h.fair (!x) v hv (by rwa [Bool.not_not])

/-- The secondary that has counted as far as the other one holds what the other one holds. -/
theorem Inv.holds (h : Inv s) {x : Bool}
    (hle : (s.conns (!x)).receiver.lastDagtagSector ≤ (s.conns x).receiver.lastDagtagSector) :
    ∀ w ∈ (s.conns (!x)).held, w ∈ (s.conns x).held := by
  intro w hw
  obtain ⟨start, -, hconn⟩ := h.conn x
  obtain ⟨_, -, hother⟩ := h.conn (!x)
  have hsent : w ∈ (s.conns (!x)).sentData := by
    rw [Conn.sentData, Conn.items, filterMap_append]
    exact mem_append_left _ hw
  have hmem := mem_of_mem_take (hother.mem_of_sentData hsent)
  have hcount := Int.le_trans ((hother.counted h.ordered).below w hw) hle
  refine (hconn.received h.ordered hmem hcount).resolve_right fun htold => ?_
  -- a notification that the count has passed: then the other one has not got the data
  have hbase := (hconn.counted h.ordered).reached w.base (hconn.start_le w hmem)
    (h.fair x w htold hsent)
  have hpos := h.ordered.pos w hmem
  unfold Write.base at hbase
  omega

instance (e : Event) : Decidable e.Legal := by
  cases e <;> unfold Event.Legal <;> infer_instance

instance (s : Sys) (e : Event) : Decidable (e.Guarded s) := by
  cases e <;> unfold Event.Guarded <;> infer_instance

/-- The streams to the secondaries begin. -/
def fresh : Sys where
  resourceDagtag := 0
  conns _ := { receiver := { lastDagtagSector := 0 } }

theorem fresh_start : Start fresh :=
  ⟨rfl, fun _ => ⟨rfl, rfl, rfl, Int.le_refl _⟩⟩

/-- The first write is sent to both with its data and a `P_DAGTAG`, of the second one the first
secondary is only told. -/
def toldLast : List Event :=
  [.write 0 8, .sendData false, .sendData true, .recv false true, .recv false true,
    .recv true true, .recv true true, .write 8 8, .sendOutOfSync false, .recv false true,
    .sendData true, .recv true true]

/-- A secondary with one volume that has counted up to a dagtag. -/
def secondary (lastDagtagSector : Int) : Node where
  volumes := [{}]
  lastDagtagSector := lastDagtagSector

theorem secondary_facing (d e : Int) : (secondary d).Facing (secondary e) :=
  ⟨⟨⟨rfl, rfl, by simp [secondary, Volume.busy]⟩, rfl, rfl, by simp [secondary, Volume.busy]⟩,
    .cons ⟨⟨rfl, by decide⟩, rfl, by decide⟩ .nil⟩

end Bsr.Replicate.Reconcile
