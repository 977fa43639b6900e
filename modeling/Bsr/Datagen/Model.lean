import Bsr.Handshake.Compare
import Bsr.Lib.Recent

/-!
# The UUIDs in the meta data and what a resync does with them

A node keeps its current UUID, a bitmap UUID with its dagtag for every node and the history. When a
resync from a peer is finished, the node takes over the bitmap UUIDs of the peer for the nodes the
peer is ahead of, clears the others and takes over the current UUID; what is replaced goes to the
history.

* `pushHistory` and `pullHistory` work on a `Lib.Recent`; `historyOf_pushHistory` says that it is
  the history of the handshake;
* `setBitmapSlots` goes over all nodes, and `setBitmapSlots_eq` says in one piece what it leaves
  behind;
* `resyncFinished` is `bsr_uuid_resync_finished`, and `resyncFinishedRollback` is meant to undo it.
-/

namespace Bsr.Datagen

open Lib Handshake List Function

/-- `md.history_uuids`. -/
abbrev HistoryUuids := Recent Uuid 32

theorem length_noHistory : (replicate 32 (0 : Uuid)).length = 32 :=
  length_replicate

/-- `struct bsr_peer_md`. -/
structure PeerMd where
  bitmapUuid : Uuid := 0
  bitmapDagtag : Nat := 0
  bitmapIndex : Option Nat := none
  /-- `MDF_NODE_EXISTS`. -/
  nodeExists : Bool := false
  /-- `MDF_PEER_DIFF_CUR_UUID`. -/
  diffCurUuid : Bool := false
deriving DecidableEq, Repr

/-- The part of `struct bsr_md` under `uuid_lock`. -/
structure Md where
  nodeId : NodeId
  currentUuid : Uuid
  peers : NodeId → PeerMd := fun _ => {}
  historyUuids : HistoryUuids := ⟨replicate 32 0, length_noHistory⟩
deriving DecidableEq

theorem Md.ext {md md' : Md} (hid : md.nodeId = md'.nodeId) (hcurrent : md.currentUuid = md'.currentUuid)
    (hpeers : md.peers = md'.peers) (hhistory : md.historyUuids = md'.historyUuids) : md = md' := by
  cases md
  cases md'
  simp_all

/-- What is read of the resource and of the peer devices. -/
structure Device where
  /-- `role[NOW] == R_PRIMARY`. -/
  primary : Bool := false
  dagtagSector : Nat := 0
  /-- `current_uuid` of each peer device there is. -/
  peerCurrentUuid : NodeId → Option Uuid := fun _ => none

/-- The peer device of the source of a resync. -/
structure Source where
  nodeId : NodeId
  currentUuid : Uuid
  bitmapUuids : NodeId → Uuid := fun _ => 0

/-! ## History -/

/-- What goes to the history of a UUID; `UUID_JUST_CREATED` never does. -/
def historyValue (val : Uuid) : Option Uuid :=
  if val = uuidJustCreated then none else some (withoutPrimary val)

/-- `_bsr_uuid_push_history`. -/
def pushHistory (history : HistoryUuids) (val : Uuid) : HistoryUuids :=
  match historyValue val with
  | none => history
  | some u => history.push u

/-- What `_bsr_uuid_push_history` leaves in `old_val`. -/
def pushOldVal (history : HistoryUuids) (val oldVal : Uuid) : Uuid :=
  match historyValue val with
  | none => oldVal
  | some u => if u ∈ history.entries then oldVal else history.oldest 0

/-- What `_bsr_uuid_pull_history` leaves; it returns the first entry. -/
def pullHistory (history : HistoryUuids) (val : Option Uuid) : HistoryUuids :=
  history.pull (val.getD 0)

/-- The history as the handshake has it. -/
def historyOf (history : NodeId → Uuid) : HistoryUuids :=
  ⟨ofFn history, by simp⟩

open List

theorem mem_historyOf {history : NodeId → Uuid} {u : Uuid} : u ∈ (historyOf history).entries ↔ ∃ i, history i = u :=
  mem_ofFn

/-- Both models of the history agree. -/
theorem historyOf_pushHistory (history : NodeId → Uuid) (val : Uuid) :
    historyOf (Handshake.pushHistory history val) = pushHistory (historyOf history) val := by
  unfold Handshake.pushHistory pushHistory historyValue
  split_ifs with _ hmem
  · rfl
  · exact (Recent.push_of_mem (mem_historyOf.2 hmem)).symm
  · apply Recent.ext
    refine Eq.trans ?_ (Recent.entries_push (mt mem_historyOf.1 hmem)).symm
    simp [historyOf]

theorem foldl_pushHistory (history : HistoryUuids) (vals : List Uuid) :
    vals.foldl pushHistory history = (vals.filterMap historyValue).foldl Recent.push history := by
  induction vals generalizing history with
  | nil => rfl
  | cons val vals ih =>
    rw [foldl_cons, ih, pushHistory]
    cases hval : historyValue val <;> simp [hval]

/-! ## Current UUID and bitmap slots -/

variable (dev : Device)

variable (md : Md)

/-- `__bsr_uuid_set_current`. -/
def setCurrent (val : Uuid) : Md :=
  { md with currentUuid := if dev.primary then val ||| uuidPrimary else withoutPrimary val }

theorem historyUuids_setCurrent (val : Uuid) :
    (setCurrent dev md val).historyUuids = md.historyUuids := rfl

theorem withoutPrimary_setCurrent (val : Uuid) :
    withoutPrimary (setCurrent dev md val).currentUuid = withoutPrimary val := by
  unfold setCurrent withoutPrimary
  cases dev.primary with
  | false => simp [BitVec.and_assoc]
  | true =>
    grind

/-- A slot with a new bitmap UUID. -/
def PeerMd.withBitmapUuid (dagtagSector : Nat) (p : PeerMd) (val : Uuid) : PeerMd :=
  { p with bitmapUuid := val, bitmapDagtag := if val = 0 then 0 else dagtagSector }

/-- `__bsr_uuid_set_bitmap`. -/
def setBitmap (n : NodeId) (val : Uuid) : Md :=
  { md with peers := update md.peers n ((md.peers n).withBitmapUuid dev.dagtagSector val) }

theorem peers_setBitmap_self (n : NodeId) (val : Uuid) :
    (setBitmap dev md n val).peers n = (md.peers n).withBitmapUuid dev.dagtagSector val := by
  simp [setBitmap]

theorem peers_setBitmap_of_ne {n m : NodeId} (hne : m ≠ n) (val : Uuid) :
    (setBitmap dev md n val).peers m = md.peers m := by
  simp [setBitmap, hne]

def uuidSetBitmap (n : NodeId) (val : Uuid) : Md :=
  let previous := (md.peers n).bitmapUuid
  let md := if previous = 0 then md else { md with historyUuids := pushHistory md.historyUuids previous }
  setBitmap dev md n val

/-- The meta data, the slots that are kept for a rollback, and the mask of modified slots. -/
structure Slots where
  md : Md
  oldPeerMd : NodeId → PeerMd
  modified : Finset NodeId

/-- The UUID and the dagtag of a slot are copied. -/
def PeerMd.copyBitmap (p saved : PeerMd) : PeerMd :=
  { p with bitmapUuid := saved.bitmapUuid, bitmapDagtag := saved.bitmapDagtag }

/-- One node in `__set_bitmap_slots`. -/
def setBitmapSlot (bitmapUuids : NodeId → Uuid) (doNodes : Finset NodeId) (s : Slots) (n : NodeId) :
    Slots :=
  if n = s.md.nodeId ∨ n ∉ doNodes then s
  else if (s.md.peers n).bitmapUuid = bitmapUuids n then s
  else
    { md := setBitmap dev { s.md with historyUuids := pushHistory s.md.historyUuids (s.md.peers n).bitmapUuid } n
        (bitmapUuids n)
      oldPeerMd := update s.oldPeerMd n ((s.oldPeerMd n).copyBitmap (s.md.peers n))
      modified := insert n s.modified }

def setBitmapSlots (bitmapUuids : NodeId → Uuid) (doNodes : Finset NodeId) (md : Md)
    (oldPeerMd : NodeId → PeerMd) : Slots :=
  (finRange 32).foldl (setBitmapSlot dev bitmapUuids doNodes) ⟨md, oldPeerMd, ∅⟩

def testBitmapSlotsOfPeer (peer : Source) : Finset NodeId :=
  Finset.univ.filter fun n => peer.bitmapUuids n ≠ 0 ∧
    ∃ found ∈ dev.peerCurrentUuid n, withoutPrimary peer.currentUuid ≠ withoutPrimary found

/-- What `bsr_uuid_resync_finished` returns and what it leaves in the variables of its caller. -/
structure Finished where
  md : Md
  newer : Finset NodeId
  oldPeerMd : NodeId → PeerMd
  removedHistory : Uuid
  beforeUuid : Uuid

/-- `bsr_uuid_resync_finished`; `oldPeerMd` and `removedHistory` are the variables of the caller
before the call. -/
def resyncFinished (peer : Source) (md : Md) (oldPeerMd : NodeId → PeerMd) (removedHistory : Uuid) :
    Finished :=
  let slots := testBitmapSlotsOfPeer dev peer
  let newer := setBitmapSlots dev peer.bitmapUuids slots md oldPeerMd
  let equal := setBitmapSlots dev (fun _ => 0) slotsᶜ newer.md newer.oldPeerMd
  let md' := { equal.md with historyUuids := pushHistory equal.md.historyUuids equal.md.currentUuid }
  { md := setCurrent dev md' peer.currentUuid
    newer := newer.modified
    oldPeerMd := equal.oldPeerMd
    removedHistory := pushOldVal equal.md.historyUuids equal.md.currentUuid removedHistory
    beforeUuid := equal.md.currentUuid }

/-- One node in `__rollback_bitmap_slots`. -/
def rollbackBitmapSlot (oldPeerMd : NodeId → PeerMd) (doNodes : Finset NodeId) (md : Md) (n : NodeId) : Md :=
  if n = md.nodeId ∨ n ∉ doNodes then md
  else if (md.peers n).bitmapUuid = 0 then md
  else { md with peers := update md.peers n ((md.peers n).copyBitmap (oldPeerMd n)) }

def rollbackBitmapSlots (oldPeerMd : NodeId → PeerMd) (doNodes : Finset NodeId) (md : Md) : Md :=
  (finRange 32).foldl (rollbackBitmapSlot oldPeerMd doNodes) md

/-- `bsr_uuid_resync_finished_rollback`. -/
def resyncFinishedRollback (f : Finished) : Md :=
  let md := { f.md with historyUuids := pullHistory f.md.historyUuids (some f.removedHistory) }
  { rollbackBitmapSlots f.oldPeerMd f.newer md with currentUuid := f.beforeUuid }

/-! ## What the loops leave -/

/-- The slot is given another bitmap UUID. -/
def Overwritten (bitmapUuids : NodeId → Uuid) (doNodes : Finset NodeId) (n : NodeId) : Prop :=
  n ≠ md.nodeId ∧ n ∈ doNodes ∧ (md.peers n).bitmapUuid ≠ bitmapUuids n

instance (md : Md) (bitmapUuids : NodeId → Uuid) (doNodes : Finset NodeId) (n : NodeId) :
    Decidable (Overwritten md bitmapUuids doNodes n) :=
  inferInstanceAs (Decidable (_ ∧ _ ∧ _))

section SetBitmapSlots

variable (dev : Device) (bitmapUuids : NodeId → Uuid) (doNodes : Finset NodeId)

theorem setBitmapSlot_eq (s : Slots) (n : NodeId) : setBitmapSlot dev bitmapUuids doNodes s n =
      if Overwritten s.md bitmapUuids doNodes n then
        { md := setBitmap dev { s.md with historyUuids := pushHistory s.md.historyUuids (s.md.peers n).bitmapUuid } n
            (bitmapUuids n)
          oldPeerMd := update s.oldPeerMd n ((s.oldPeerMd n).copyBitmap (s.md.peers n))
          modified := insert n s.modified }
      else s := by
  unfold setBitmapSlot Overwritten
  by_cases hself : n = s.md.nodeId
  · simp [hself]
  by_cases hdo : n ∈ doNodes
  · by_cases hsame : (s.md.peers n).bitmapUuid = bitmapUuids n <;> simp [hself, hdo, hsame]
  · simp [hdo]

theorem overwritten_setBitmap {md : Md} {history : HistoryUuids} {n m : NodeId} {val : Uuid} (hne : m ≠ n) :
    Overwritten (setBitmap dev { md with historyUuids := history } n val) bitmapUuids doNodes m ↔
      Overwritten md bitmapUuids doNodes m := by
  simp [Overwritten, setBitmap, hne]

/-- What is left after the nodes `ns`: a slot that is overwritten goes to the history and to the
saved slots. -/
structure SlotsAfter (ns : List NodeId) (s r : Slots) : Prop where
  nodeId : r.md.nodeId = s.md.nodeId
  currentUuid : r.md.currentUuid = s.md.currentUuid
  peers : ∀ n, r.md.peers n =
    if n ∈ ns ∧ Overwritten s.md bitmapUuids doNodes n then
      (s.md.peers n).withBitmapUuid dev.dagtagSector (bitmapUuids n)
    else s.md.peers n
  historyUuids : r.md.historyUuids = ((ns.filter (Overwritten s.md bitmapUuids doNodes ·)).map
    fun n => (s.md.peers n).bitmapUuid).foldl pushHistory s.md.historyUuids
  oldPeerMd : ∀ n, r.oldPeerMd n =
    if n ∈ ns ∧ Overwritten s.md bitmapUuids doNodes n then (s.oldPeerMd n).copyBitmap (s.md.peers n)
    else s.oldPeerMd n
  modified : ∀ n, n ∈ r.modified ↔ n ∈ s.modified ∨ n ∈ ns ∧ Overwritten s.md bitmapUuids doNodes n

theorem foldl_setBitmapSlot {ns : List NodeId} (hns : ns.Nodup) (s : Slots) :
    SlotsAfter dev bitmapUuids doNodes ns s (ns.foldl (setBitmapSlot dev bitmapUuids doNodes) s) := by
  induction ns generalizing s with
  | nil => exact ⟨rfl, rfl, by simp, by simp, by simp, by simp⟩
  | cons m ns ih =>
    obtain ⟨hm, hns⟩ := nodup_cons.1 hns
    have hrest := ih hns (setBitmapSlot dev bitmapUuids doNodes s m)
    rw [foldl_cons]
    rw [setBitmapSlot_eq] at hrest ⊢
    by_cases hover : Overwritten s.md bitmapUuids doNodes m
    · rw [if_pos hover] at hrest ⊢
      -- the slots of the rest are still as they were
      have hkeep : ∀ {history : HistoryUuids} {n : NodeId}, n ≠ m →
          (Overwritten (setBitmap dev { s.md with historyUuids := history } m (bitmapUuids m)) bitmapUuids doNodes n ↔
            Overwritten s.md bitmapUuids doNodes n) :=
        fun hne => overwritten_setBitmap dev bitmapUuids doNodes hne
      have hne : ∀ {n}, n ∈ ns → n ≠ m := fun hn h => hm (h ▸ hn)
      refine ⟨hrest.nodeId, hrest.currentUuid, fun n => ?_, ?_, fun n => ?_, fun n => ?_⟩
      · rw [hrest.peers]
        by_cases hn : n = m
        · subst hn
          simp [hm, hover, peers_setBitmap_self]
        · simp [hn, hkeep hn, peers_setBitmap_of_ne]
      · rw [hrest.historyUuids, filter_cons_of_pos (by simpa using hover)]
        rw [filter_congr fun n hn => decide_eq_decide.2 (hkeep (hne hn)), map_cons, foldl_cons]
        congr 1
        refine map_congr_left fun n hn => ?_
        rw [peers_setBitmap_of_ne _ _ (hne (mem_of_mem_filter hn))]
      · rw [hrest.oldPeerMd]
        by_cases hn : n = m
        · subst hn
          simp [hm, hover]
        · simp [hn, hkeep hn, peers_setBitmap_of_ne]
      · rw [hrest.modified]
        by_cases hn : n = m
        · subst hn
          simp [hover]
        · simp [hn, hkeep hn]
    · rw [if_neg hover] at hrest ⊢
      have hsame : ∀ n, (n ∈ m :: ns ∧ Overwritten s.md bitmapUuids doNodes n) ↔
          (n ∈ ns ∧ Overwritten s.md bitmapUuids doNodes n) := by
        intro n
        by_cases hn : n = m
        · subst hn
          simp [hover]
        · simp [hn]
      refine ⟨hrest.nodeId, hrest.currentUuid, fun n => ?_, ?_, fun n => ?_, fun n => ?_⟩
      · simp only [hsame, hrest.peers]
      · rw [hrest.historyUuids, filter_cons_of_neg (by simpa using hover)]
      · simp only [hsame, hrest.oldPeerMd]
      · rw [hsame, hrest.modified]

theorem setBitmapSlots_after (md : Md) (oldPeerMd : NodeId → PeerMd) :
    SlotsAfter dev bitmapUuids doNodes (finRange 32) ⟨md, oldPeerMd, ∅⟩
      (setBitmapSlots dev bitmapUuids doNodes md oldPeerMd) :=
  foldl_setBitmapSlot dev bitmapUuids doNodes (nodup_finRange 32) _

end SetBitmapSlots

end Bsr.Datagen
