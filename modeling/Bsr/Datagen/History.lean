import Bsr.Datagen.Rollback
import Bsr.Lib.Reach
import Bsr.Request.Model

/-!
# The history over runs

All that changes `md.history_uuids`: a UUID that is replaced goes there from many places, the start
of a resync that did not get through takes the newest entry back, and so does the rollback of a
finished resync.

* `Evolves` says what an operation may do: new UUIDs that are not zero come to the front, and drive
  out the last entry only if there is no place left; a pull takes the newest entry out;
* `Event.Guarded` leaves out that a slot without a UUID goes to a history that is full.
  `__set_bitmap_slots` does not look whether the slot is empty, other than its siblings:
`pushHistory_zero` says what happens then. -/

namespace Bsr.Datagen

open Lib Handshake Request Function

/-! ## The other operations -/

/-- A peer device as `rotate_current_into_bitmap` sees it. -/
structure RotatePeer where
  pdsk : DiskState
  /-- `cstate[NEW] < C_CONNECTED`. -/
  disconnecting : Bool := false

/-- The arguments of `rotate_current_into_bitmap` and what it reads of the resource. -/
structure Rotation where
  weakNodes : Finset NodeId := ∅
  dagtag : Nat
  /-- There is no connection object. -/
  noConnections : Bool := false
  peerDevice : NodeId → Option RotatePeer

/-- Node `n` gets the current UUID as its bitmap UUID. -/
def Rotation.doIt (r : Rotation) (n : NodeId) : Bool :=
  match r.peerDevice n with
  | none => true
  | some p =>
    (decide (p.pdsk.rank ≤ DiskState.unknown.rank) && decide (p.pdsk ≠ .negotiating)) || decide
      (n ∈ r.weakNodes) || (p.disconnecting && decide (p.pdsk = .inconsistent))

/-- One node in `rotate_current_into_bitmap`; the second part is `got_new_bitmap_uuid`. -/
def rotateSlot (r : Rotation) (s : Md × Finset NodeId) (n : NodeId) : Md × Finset NodeId :=
  let md := s.1
  let p := md.peers n
  let unused := decide (p.bitmapIndex = none) && !p.nodeExists &&
    !(decide (md.currentUuid = uuidJustCreated) && r.noConnections)
  if n = md.nodeId ∨ unused = true ∨ p.bitmapUuid ≠ 0 ∨ r.doIt n = false then s
  else
    let uuid := if md.currentUuid = uuidJustCreated then 0 else md.currentUuid
    let p' := { p with bitmapUuid := uuid, bitmapDagtag := if uuid = 0 then p.bitmapDagtag else r.dagtag }
    ({ md with peers := update md.peers n p' }, insert n s.2)

def rotateCurrentIntoBitmap (r : Rotation) (md : Md) : Md × Finset NodeId :=
  (List.finRange 32).foldl (rotateSlot r) (md, ∅)

variable (dev : Device)

/-- `__bsr_uuid_new_current`: a new current UUID, if a slot has got the old one. -/
def newCurrent (r : Rotation) (md : Md) (val : Uuid) : Md :=
  let c := rotateCurrentIntoBitmap r md
  if c.2 = ∅ then md else setCurrent dev c.1 val

/-- `bsr_uuid_received_new_current` where it sets the current UUID. -/
def receivedNewCurrent (r : Rotation) (md : Md) (val : Uuid) : Md :=
  setCurrent dev (rotateCurrentIntoBitmap r md).1 val

/-- `uuid_fixup_resync_start2`: the bitmap UUID comes back from the history. -/
def undoResyncStart (md : Md) (n : NodeId) : Md :=
  setBitmap dev { md with historyUuids := pullHistory md.historyUuids none } n (md.historyUuids.entries.headD 0)

/-- What `bsr_uuid_detect_finished_resyncs` reads of the peer device; the conditions of both places
where a bitmap is forgotten stand without the one on the UUIDs. -/
structure Detection where
  peer : Source
  inconsistentOos : Bool := false
  consistentWithPri : Bool := false

variable (d : Detection)

variable (md : Md)

/-- Both nodes have the same current UUID. -/
def Detection.sameCurrent : Prop :=
  withoutPrimary d.peer.currentUuid = withoutPrimary md.currentUuid

instance (d : Detection) (md : Md) : Decidable (d.sameCurrent md) :=
  inferInstanceAs (Decidable (_ = _))

/-- One node in `bsr_uuid_detect_finished_resyncs`. -/
def detectSlot (n : NodeId) : Md :=
  let p := md.peers n
  if n = md.nodeId ∨ (p.bitmapIndex = none ∧ p.nodeExists = false) then md
  else if d.peer.bitmapUuids n = 0 ∧ (p.bitmapUuid ≠ 0 ∨ p.diffCurUuid = true) ∧ d.sameCurrent md then
    if p.bitmapUuid = 0 then { md with peers := update md.peers n { p with diffCurUuid := false } }
    else
      { md with
        historyUuids := pushHistory md.historyUuids p.bitmapUuid
        peers := update md.peers n { p with bitmapUuid := 0, diffCurUuid := false } }
  else md

/-- The bitmap UUID of the peer goes to the history where its bitmap is forgotten. -/
def forgetSlot (forgets : Bool) (md : Md) : Md :=
  let uuid := (md.peers d.peer.nodeId).bitmapUuid
  if forgets = true ∧ d.sameCurrent md ∧ uuid ≠ 0 then { md with historyUuids := pushHistory md.historyUuids uuid }
  else md

/-- `bsr_uuid_detect_finished_resyncs`. -/
def detectFinishedResyncs : Md :=
  forgetSlot d d.consistentWithPri (forgetSlot d d.inconsistentOos ((List.finRange 32).foldl (detectSlot d) md))

/-! ## Runs -/

inductive Event where
  /-- A bitmap UUID goes to the history, as in `__cancel_other_resyncs`. -/
  | push (val : Uuid)
  | undoResyncStart (dev : Device) (n : NodeId)
  | setBitmap (dev : Device) (n : NodeId) (val : Uuid)
  | newCurrent (dev : Device) (r : Rotation) (val : Uuid)
  | receivedNewCurrent (dev : Device) (r : Rotation) (val : Uuid)
  | resyncFinished (dev : Device) (peer : Source)
  /-- A rollback with what the finished resync has left for it. -/
  | rollback (f : Finished)
  | detectFinishedResyncs (d : Detection)

namespace Event

def exec : Event → Md
  | push val => { md with historyUuids := pushHistory md.historyUuids val }
  | undoResyncStart dev n => Datagen.undoResyncStart dev md n
  | setBitmap dev n val => uuidSetBitmap dev md n val
  | newCurrent dev r val => Datagen.newCurrent dev r md val
  | receivedNewCurrent dev r val => Datagen.receivedNewCurrent dev r md val
  | resyncFinished dev peer => (Datagen.resyncFinished dev peer md (fun _ => {}) 0).md
  | rollback f => resyncFinishedRollback { f with md := md }
  | detectFinishedResyncs d => Datagen.detectFinishedResyncs d md

/-- What a finished resync sends to the history. -/
def finishedValues (peer : Source) (md : Md) : List Uuid :=
  (replacedUuids dev peer md ++ [md.currentUuid]).filterMap historyValue

/-- No zero goes to a history without a free place; a rollback gives back a zero, or to a full
history an entry that is not there. -/
def Guarded : Event → Prop
  | push val => historyValue val ≠ some 0 ∨ 0 ∈ md.historyUuids.entries
  | setBitmap _ n _ => (md.peers n).bitmapUuid ≠ uuidPrimary
  | resyncFinished dev peer => 0 ∉ finishedValues dev peer md ∨
      (finishedValues dev peer md).length ≤ md.historyUuids.entries.count 0
  | rollback f => f.removedHistory = 0 ∨
      (0 ∉ md.historyUuids.entries ∧ f.removedHistory ∉ md.historyUuids.entries.tail)
  | detectFinishedResyncs _ => ∀ n, (md.peers n).bitmapUuid ≠ uuidPrimary
  | _ => True

def Step (e : Event) (md' : Md) : Prop :=
  md' = e.exec md

/-- What an operation does to the history. -/
def Evolves (h h' : HistoryUuids) : Event → Prop
  | undoResyncStart .. => h'.entries = h.entries.tail ++ [0]
  | rollback f => h'.entries = h.entries.tail ++ [f.removedHistory]
  | _ => Relation.ReflTransGen (Recent.Inserts 0) h h'

end Event

def Start : Prop :=
  md.historyUuids.Proper 0

/-! ## Each operation -/

/-- The history stays in order and only gets new entries. -/
def Grows (h h' : HistoryUuids) : Prop :=
  h'.Proper 0 ∧ Relation.ReflTransGen (Recent.Inserts 0) h h'

section Steps

variable {h h' h'' : HistoryUuids}

theorem Grows.refl (hproper : h.Proper 0) : Grows h h :=
  ⟨hproper, .refl⟩

theorem Grows.trans (hfirst : Grows h h') (hsecond : Grows h' h'') : Grows h h'' :=
  ⟨hsecond.1, hfirst.2.trans hsecond.2⟩

theorem Grows.foldl (hproper : h.Proper 0) {vals : List Uuid}
    (hroom : 0 ∉ vals.filterMap historyValue ∨ (vals.filterMap historyValue).length ≤ h.entries.count 0) :
    Grows h (vals.foldl pushHistory h) := by
  rw [foldl_pushHistory]
  exact hproper.foldl_push hroom

theorem Grows.push (hproper : h.Proper 0) {val : Uuid}
    (hval : historyValue val ≠ some 0 ∨ 0 ∈ h.entries) : Grows h (pushHistory h val) := by
  have hone : pushHistory h val = [val].foldl pushHistory h := rfl
  rw [hone]
  refine Grows.foldl hproper ?_
  cases hv : historyValue val with
  | none => simp [hv]
  | some u =>
    obtain hval | hmem := hval
    · have hu : u ≠ 0 := fun hu => hval (hu ▸ hv)
      simpa [hv] using .inl hu.symm
    · simpa [hv] using .inr hmem

/-- Only zero and the bare flag of a primary leave nothing. -/
theorem historyValue_ne_zero {val : Uuid} (hzero : val ≠ 0) (hflag : val ≠ uuidPrimary) :
    historyValue val ≠ some 0 := by
  unfold historyValue withoutPrimary
  split_ifs with hnew
  · exact nofun
  intro heq
  have hand : val &&& ~~~uuidPrimary = 0 := Option.some.inj heq
  -- what is left of the UUID is its lowest bit
  have hlow : val = val &&& uuidPrimary := by
    have hsplit : val = (val &&& ~~~uuidPrimary) ||| (val &&& uuidPrimary) := by
      ext i hi
      grind
    rw [hand] at hsplit
    exact hsplit.trans BitVec.zero_or
  have hsmall : val.toNat < 2 := by
    have hnat := congrArg BitVec.toNat hlow
    have hmod : (val &&& uuidPrimary).toNat = val.toNat % 2 := (BitVec.toNat_and ..).trans (Nat.and_one_is_mod _)
    omega
  have hcases : val.toNat = 0 ∨ val.toNat = 1 := by omega
  obtain hnat | hnat := hcases
  · exact hzero (BitVec.eq_of_toNat_eq hnat)
  · exact hflag (BitVec.eq_of_toNat_eq hnat)

/-- A slot without a UUID that goes to a full history drives out its last entry. -/
theorem pushHistory_zero (hfull : 0 ∉ h.entries) : (pushHistory h 0).entries = 0 :: h.entries.dropLast :=
  Recent.entries_push_eq hfull

theorem rotateSlot_history (r : Rotation) (s : Md × Finset NodeId) (n : NodeId) :
    (rotateSlot r s n).1.historyUuids = s.1.historyUuids := by
  unfold rotateSlot
  dsimp only
  split_ifs <;> rfl

open List

theorem rotate_history (r : Rotation) (md : Md) :
    (rotateCurrentIntoBitmap r md).1.historyUuids = md.historyUuids := by
  unfold rotateCurrentIntoBitmap
  generalize finRange 32 = ns
  exact foldlRecOn (motive := fun s : Md × Finset NodeId => s.1.historyUuids = md.historyUuids) ns _
    rfl fun s hs n _ => (rotateSlot_history r s n).trans hs

variable {md : Md}

theorem newCurrent_history (r : Rotation) (val : Uuid) :
    (newCurrent dev r md val).historyUuids = md.historyUuids := by
  unfold newCurrent
  dsimp only
  split_ifs
  · rfl
  · rw [historyUuids_setCurrent, rotate_history]

theorem receivedNewCurrent_history (r : Rotation) (val : Uuid) :
    (receivedNewCurrent dev r md val).historyUuids = md.historyUuids := by
  rw [receivedNewCurrent, historyUuids_setCurrent, rotate_history]

theorem setBitmap_grows (hproper : md.historyUuids.Proper 0) (dev : Device) {n : NodeId}
    (hflag : (md.peers n).bitmapUuid ≠ uuidPrimary) (val : Uuid) :
    Grows md.historyUuids (uuidSetBitmap dev md n val).historyUuids := by
  unfold uuidSetBitmap
  dsimp only
  split_ifs with hzero
  · exact .refl hproper
  · exact .push hproper (.inl (historyValue_ne_zero hzero hflag))

theorem resyncFinished_grows (hproper : md.historyUuids.Proper 0) {dev : Device} {peer : Source}
    (hguard : (Event.resyncFinished dev peer).Guarded md) (oldPeerMd : NodeId → PeerMd) (removedHistory : Uuid) :
    Grows md.historyUuids (resyncFinished dev peer md oldPeerMd removedHistory).md.historyUuids := by
  have hgrows : Grows md.historyUuids
      ((replacedUuids dev peer md ++ [md.currentUuid]).foldl pushHistory md.historyUuids) :=
    .foldl hproper hguard
  rw [foldl_append] at hgrows
  rw [(resyncFinished_left dev peer md oldPeerMd removedHistory).historyUuids]
  exact hgrows

theorem zero_ne_primary : (0 : Uuid) ≠ uuidPrimary := by decide

theorem detectSlot_grows (hproper : md.historyUuids.Proper 0)
    (hflag : ∀ n, (md.peers n).bitmapUuid ≠ uuidPrimary) (n : NodeId) :
    Grows md.historyUuids (detectSlot d md n).historyUuids ∧
      ∀ m, ((detectSlot d md n).peers m).bitmapUuid ≠ uuidPrimary := by
  have hupdate : ∀ p : PeerMd, p.bitmapUuid ≠ uuidPrimary →
      ∀ m, (update md.peers n p m).bitmapUuid ≠ uuidPrimary := by
    intro p hp m
    by_cases hm : m = n
    · rw [hm, update_self]
      exact hp
    · rw [update_of_ne hm]
      exact hflag m
  unfold detectSlot
  dsimp only
  split_ifs with hskip hdone hzero
  · exact ⟨.refl hproper, hflag⟩
  · exact ⟨.refl hproper, hupdate _ (hflag n)⟩
  · exact ⟨.push hproper (.inl (historyValue_ne_zero hzero (hflag n))), hupdate _ zero_ne_primary⟩
  · exact ⟨.refl hproper, hflag⟩

theorem foldl_detectSlot_grows (ns : List NodeId) (hproper : md.historyUuids.Proper 0)
    (hflag : ∀ n, (md.peers n).bitmapUuid ≠ uuidPrimary) :
    Grows md.historyUuids (ns.foldl (detectSlot d) md).historyUuids ∧
      ∀ m, ((ns.foldl (detectSlot d) md).peers m).bitmapUuid ≠ uuidPrimary := by
  refine foldlRecOn (motive := fun md' : Md => Grows md.historyUuids md'.historyUuids ∧
    ∀ m, (md'.peers m).bitmapUuid ≠ uuidPrimary) ns _ ⟨.refl hproper, hflag⟩ fun md' h n _ => ?_
  obtain ⟨hgrows, hflag'⟩ := detectSlot_grows d h.1.1 h.2 n
  exact ⟨h.1.trans hgrows, hflag'⟩

theorem forgetSlot_grows (forgets : Bool) (hproper : md.historyUuids.Proper 0)
    (hflag : ∀ n, (md.peers n).bitmapUuid ≠ uuidPrimary) :
    Grows md.historyUuids (forgetSlot d forgets md).historyUuids ∧
      ∀ m, ((forgetSlot d forgets md).peers m).bitmapUuid ≠ uuidPrimary := by
  unfold forgetSlot
  dsimp only
  split_ifs with hforget
  · exact ⟨.push hproper (.inl (historyValue_ne_zero hforget.2.2 (hflag _))), hflag⟩
  · exact ⟨.refl hproper, hflag⟩

theorem detectFinishedResyncs_grows (hproper : md.historyUuids.Proper 0)
    (hflag : ∀ n, (md.peers n).bitmapUuid ≠ uuidPrimary) :
    Grows md.historyUuids (detectFinishedResyncs d md).historyUuids := by
  obtain ⟨hslots, hflag⟩ := foldl_detectSlot_grows d (finRange 32) hproper hflag
  obtain ⟨hfirst, hflag⟩ := forgetSlot_grows d d.inconsistentOos hslots.1 hflag
  obtain ⟨hsecond, -⟩ := forgetSlot_grows d d.consistentWithPri hfirst.1 hflag
  exact (hslots.trans hfirst).trans hsecond

theorem entries_pullHistory (val : Option Uuid) : (pullHistory h val).entries = h.entries.tail ++ [val.getD 0] := by
  have hne : h.entries ≠ [] := ne_nil_of_length_eq_add_one h.length_entries
  rw [pullHistory, Recent.entries_pull, tail_append_of_ne_nil hne]

theorem rollback_history (f : Finished) :
    (resyncFinishedRollback { f with md := md }).historyUuids =
      pullHistory md.historyUuids (some f.removedHistory) := by
  unfold resyncFinishedRollback
  dsimp only
  rw [rollbackBitmapSlots_eq]

theorem exec_evolves {e : Event} (hproper : md.historyUuids.Proper 0) (hguard : e.Guarded md) :
    (e.exec md).historyUuids.Proper 0 ∧ e.Evolves md.historyUuids (e.exec md).historyUuids := by
  cases e with
  | push val => exact Grows.push hproper hguard
  | undoResyncStart dev n => exact ⟨hproper.pull_blank, entries_pullHistory none⟩
  | setBitmap dev n val => exact setBitmap_grows hproper dev hguard val
  | newCurrent dev r val =>
    simp only [Event.exec, newCurrent_history]
    exact Grows.refl hproper
  | receivedNewCurrent dev r val =>
    simp only [Event.exec, receivedNewCurrent_history]
    exact Grows.refl hproper
  | resyncFinished dev peer => exact resyncFinished_grows hproper hguard _ _
  | rollback f =>
    simp only [Event.exec, rollback_history]
    refine ⟨?_, entries_pullHistory _⟩
    obtain hzero | ⟨hfull, hfresh⟩ := hguard
    · rw [hzero]
      exact hproper.pull_blank
    by_cases hzero : f.removedHistory = 0
    · rw [hzero]
      exact hproper.pull_blank
    · exact hproper.pull_full hfull hzero hfresh
  | detectFinishedResyncs d => exact detectFinishedResyncs_grows d hproper hguard

/-- A rollback right after its finished resync gives back what was driven out. -/
theorem rollback_guarded (hproper : md.historyUuids.Proper 0) {dev : Device} {peer : Source}
    (hguard : (Event.resyncFinished dev peer).Guarded md) (oldPeerMd : NodeId → PeerMd) :
    (Event.rollback (resyncFinished dev peer md oldPeerMd 0)).Guarded (resyncFinished dev peer md oldPeerMd 0).md := by
  have hafter := (resyncFinished_grows hproper hguard oldPeerMd 0).1
  have hleft := resyncFinished_left dev peer md oldPeerMd 0
  have hbefore : (historyAfterSlots dev peer md).Proper 0 := by
    refine (Grows.foldl hproper ?_).1
    simp only [Event.Guarded, Event.finishedValues, filterMap_append, mem_append, not_or,
      length_append] at hguard
    exact hguard.imp (fun h => h.1) fun h => by omega
  simp only [Event.Guarded]
  rw [hleft.historyUuids] at hafter
  rw [hleft.historyUuids, hleft.removedHistory]
  generalize historyAfterSlots dev peer md = h at hafter hbefore ⊢
  unfold pushHistory at hafter ⊢
  unfold pushOldVal
  cases hval : historyValue md.currentUuid with
  | none => exact .inl rfl
  | some c =>
    rw [hval] at hafter
    dsimp only at hafter ⊢
    by_cases hc : c ∈ h.entries
    · exact .inl (if_pos hc)
    rw [if_neg hc]
    refine hbefore.oldest_fresh ?_ hc
    -- a zero in front of other entries is not in order
    rintro rfl
    have hzero := hafter.all_blank (Recent.entries_push_eq hc)
    obtain ⟨u, l, hu⟩ := exists_cons_of_length_eq_add_one h.length_entries
    have hl : l ≠ [] := by
      rintro rfl
      have hlen := h.length_entries
      simp [hu] at hlen
    have hmem : u ∈ h.entries.dropLast := by
      rw [hu, dropLast_cons_of_ne_nil hl]
      exact mem_cons_self
    exact hc (hzero u hmem ▸ (dropLast_sublist _).subset hmem)

/-- A resync that is finished and rolled back at once leaves the history in order. -/
theorem rollback_stays_proper (hproper : md.historyUuids.Proper 0) {dev : Device} {peer : Source}
    (hguard : (Event.resyncFinished dev peer).Guarded md) (oldPeerMd : NodeId → PeerMd) :
    (resyncFinishedRollback (resyncFinished dev peer md oldPeerMd 0)).historyUuids.Proper 0 := by
  have hafter := (resyncFinished_grows hproper hguard oldPeerMd 0).1
  have hguarded := rollback_guarded hproper hguard oldPeerMd
  generalize resyncFinished dev peer md oldPeerMd 0 = f at hafter hguarded ⊢
  exact (exec_evolves hafter hguarded).1

end Steps

/-- In a run of guarded operations the history holds distinct UUIDs, with zeros behind them; new
ones come in at the front and drive out the last one only if there is no place left, and only a pull
takes one out. -/
theorem history_stays_proper {md : Md}
    (h : Reachable Start (fun md e md' => Event.Guarded md e ∧ Event.Step md e md') md) :
    md.historyUuids.Proper 0 ∧
      ∀ e : Event, e.Guarded md → e.Evolves md.historyUuids (e.exec md).historyUuids := by
  have hproper : md.historyUuids.Proper 0 := by
    refine h.invariant (fun _ hstart => hstart) fun md e md' hproper hstep => ?_
    obtain ⟨hguard, rfl⟩ := hstep
    exact (exec_evolves hproper hguard).1
  exact ⟨hproper, fun e hguard => (exec_evolves hproper hguard).2⟩

/-- New meta data. -/
def created : Md where
  nodeId := 0
  currentUuid := uuidJustCreated

theorem created_start : Start created :=
  ⟨[], rfl, List.nodup_nil, nofun⟩

/-- One UUID goes to an empty history. -/
theorem history_stays_proper_one : ((Event.push 0x10).exec created).historyUuids.Proper 0 :=
  (history_stays_proper (.next (.push 0x10) (.start created_start) ⟨.inr (by decide), rfl⟩)).1

/-- The first finished resync is taken back. -/
theorem rollback_stays_proper_first : (resyncFinishedRollback
      (resyncFinished {} nodeOneUuids (nodeZeroMd 0x30) (fun _ => {}) 0)).historyUuids.Proper 0 :=
  rollback_stays_proper ⟨[], rfl, List.nodup_nil, nofun⟩ (.inr (by decide +kernel)) _

/-- The start of a resync is undone: the entry goes, though there are free places. -/
theorem pull_drops_entry : ∃ md, Reachable Start (fun md e md' => Event.Step md e md') md ∧
    0x10 ∈ md.historyUuids.entries ∧ 0 ∈ md.historyUuids.entries ∧
      0x10 ∉ ((Event.undoResyncStart {} 1).exec md).historyUuids.entries := by
  refine ⟨(Event.push 0x10).exec created, .next (.push 0x10) (.start created_start) rfl, ?_⟩
  decide

end Bsr.Datagen
