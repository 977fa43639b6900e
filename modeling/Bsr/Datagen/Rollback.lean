import Bsr.Datagen.Model

/-!
# Undoing a finished resync

`bsr_resync_finished` updates the UUIDs before it takes the lock under which it looks whether the
resync is still going on. If it is not, `bsr_uuid_resync_finished_rollback` is to put the UUIDs
back.

* `Restorable` says when it does: no slot was cleared, and just one value has gone to the history.
  The slots that were cleared are not in the mask that is rolled back, and only one entry of the
  history is taken back;
* `Call.resyncFinished` is `bsr_resync_finished` up to the point where the resync is completed. It
  returns without a rollback if the replication state is now Ahead or Behind.
-/

namespace Bsr.Datagen

open Lib Handshake State List Finset

/-! ## What the finished resync leaves -/

section Finished

variable (dev : Device) (peer : Source) (md : Md) (oldPeerMd : NodeId → PeerMd) (removedHistory : Uuid)

/-- The slots that take over the bitmap UUID of the peer. -/
abbrev TakenOver (n : NodeId) : Prop :=
  Overwritten md peer.bitmapUuids (testBitmapSlotsOfPeer dev peer) n

/-- The slots that are cleared. -/
abbrev Cleared (n : NodeId) : Prop :=
  Overwritten md (fun _ => 0) (testBitmapSlotsOfPeer dev peer)ᶜ n

/-- The bitmap UUIDs of the slots with a property, by node id. -/
def slotUuids (P : NodeId → Prop) [DecidablePred P] : List Uuid :=
  ((finRange 32).filter (P ·)).map fun n => (md.peers n).bitmapUuid

/-- The bitmap UUIDs that are replaced, in the order in which they go to the history. -/
def replacedUuids : List Uuid :=
  slotUuids md (TakenOver dev peer md) ++ slotUuids md (Cleared dev peer md)

/-- The history after them. -/
def historyAfterSlots : HistoryUuids :=
  (replacedUuids dev peer md).foldl pushHistory md.historyUuids

/-- What is left for the caller of `bsr_uuid_resync_finished`. -/
structure Left (f : Finished) : Prop where
  nodeId : f.md.nodeId = md.nodeId
  currentUuid : withoutPrimary f.md.currentUuid = withoutPrimary peer.currentUuid
  beforeUuid : f.beforeUuid = md.currentUuid
  newer : ∀ n, n ∈ f.newer ↔ TakenOver dev peer md n
  peers : ∀ n, f.md.peers n =
    if TakenOver dev peer md n then (md.peers n).withBitmapUuid dev.dagtagSector (peer.bitmapUuids n)
    else if Cleared dev peer md n then (md.peers n).withBitmapUuid dev.dagtagSector 0
    else md.peers n
  oldPeerMd : ∀ n, TakenOver dev peer md n → f.oldPeerMd n = (oldPeerMd n).copyBitmap (md.peers n)
  historyUuids : f.md.historyUuids = pushHistory (historyAfterSlots dev peer md) md.currentUuid
  removedHistory : f.removedHistory = pushOldVal (historyAfterSlots dev peer md) md.currentUuid removedHistory

variable {dev peer md} in
theorem Cleared.not_takenOver {n : NodeId} (h : Cleared dev peer md n) : ¬ TakenOver dev peer md n := fun htaken =>
  mem_compl.1 h.2.1 htaken.2.1

theorem resyncFinished_left :
    Left dev peer md oldPeerMd removedHistory (resyncFinished dev peer md oldPeerMd removedHistory) := by
  unfold resyncFinished
  dsimp only
  have hnewer := setBitmapSlots_after dev peer.bitmapUuids (testBitmapSlotsOfPeer dev peer) md oldPeerMd
  generalize setBitmapSlots dev peer.bitmapUuids (testBitmapSlotsOfPeer dev peer) md oldPeerMd = newer at hnewer ⊢
  have hequal := setBitmapSlots_after dev (fun _ => 0) (testBitmapSlotsOfPeer dev peer)ᶜ newer.md newer.oldPeerMd
  generalize setBitmapSlots dev (fun _ => 0) (testBitmapSlotsOfPeer dev peer)ᶜ newer.md
    newer.oldPeerMd = equal at hequal ⊢
  have hnewer_peers : ∀ n, newer.md.peers n =
      if TakenOver dev peer md n then (md.peers n).withBitmapUuid dev.dagtagSector (peer.bitmapUuids n)
      else md.peers n := by
    intro n
    rw [hnewer.peers]
    simp
  -- a slot that is not taken over reaches the second loop as it was
  have hkept : ∀ n, n ∉ testBitmapSlotsOfPeer dev peer → newer.md.peers n = md.peers n := by
    intro n hn
    rw [hnewer_peers, if_neg fun h => hn h.2.1]
  have hcleared : ∀ n, Overwritten newer.md (fun _ => 0) (testBitmapSlotsOfPeer dev peer)ᶜ n ↔
      Cleared dev peer md n := by
    intro n
    unfold Cleared Overwritten
    rw [hnewer.nodeId]
    refine and_congr_right fun _ => and_congr_right fun hn => ?_
    rw [hkept n (mem_compl.1 hn)]
  have hhistory : equal.md.historyUuids = historyAfterSlots dev peer md := by
    rw [hequal.historyUuids, hnewer.historyUuids, historyAfterSlots, replacedUuids, foldl_append]
    rw [filter_congr fun n _ => decide_eq_decide.2 (hcleared n)]
    refine congrArg (foldl pushHistory _) (map_congr_left fun n hn => ?_)
    have hn : Cleared dev peer md n := by simpa using (mem_filter.1 hn).2
    rw [hkept n (mem_compl.1 hn.2.1)]
  have hcurrent : equal.md.currentUuid = md.currentUuid := hequal.currentUuid.trans hnewer.currentUuid
  rw [hhistory, hcurrent]
  refine ⟨hequal.nodeId.trans hnewer.nodeId, withoutPrimary_setCurrent .., rfl, fun n => ?_,
    fun n => ?_, fun n hn => ?_, rfl, rfl⟩
  · rw [hnewer.modified]
    simp
  · refine (hequal.peers n).trans ?_
    by_cases hn : Cleared dev peer md n
    · rw [if_pos ⟨mem_finRange n, (hcleared n).2 hn⟩, if_neg hn.not_takenOver, if_pos hn]
      rw [hkept n (mem_compl.1 hn.2.1)]
    · rw [if_neg fun h => hn ((hcleared n).1 h.2), if_neg hn]
      exact hnewer_peers n
  · refine (hequal.oldPeerMd n).trans ?_
    rw [if_neg fun h => ((hcleared n).1 h.2).not_takenOver hn]
    exact (hnewer.oldPeerMd n).trans (if_pos ⟨mem_finRange n, hn⟩)

end Finished

/-! ## The rollback -/

section Rollback

/-- The slot is modified and not empty. -/
abbrev Restores (md : Md) (doNodes : Finset NodeId) (n : NodeId) : Prop :=
  n ≠ md.nodeId ∧ n ∈ doNodes ∧ (md.peers n).bitmapUuid ≠ 0

section

variable (oldPeerMd : NodeId → PeerMd) (doNodes : Finset NodeId)

include oldPeerMd doNodes

theorem rollbackBitmapSlot_eq (md : Md) (n : NodeId) : rollbackBitmapSlot oldPeerMd doNodes md n =
      { md with
        peers := Function.update md.peers n
          (if Restores md doNodes n then (md.peers n).copyBitmap (oldPeerMd n) else md.peers n) } := by
  unfold rollbackBitmapSlot
  by_cases h : Restores md doNodes n
  · rw [if_neg (by simp [h.1, h.2.1]), if_neg h.2.2, if_pos h]
  rw [if_neg h, Function.update_eq_self]
  split_ifs with hskip hzero
  · rfl
  · rfl
  · obtain ⟨hself, hdo⟩ := not_or.1 hskip
    exact absurd ⟨hself, not_not.1 hdo, hzero⟩ h

theorem foldl_rollbackBitmapSlot {ns : List NodeId} (hns : ns.Nodup) (md : Md) :
    ns.foldl (rollbackBitmapSlot oldPeerMd doNodes) md =
      { md with
        peers := fun n =>
          if n ∈ ns ∧ Restores md doNodes n then (md.peers n).copyBitmap (oldPeerMd n) else md.peers n } := by
  induction ns generalizing md with
  | nil => simp
  | cons m ns ih =>
    obtain ⟨hm, hns⟩ := nodup_cons.1 hns
    rw [foldl_cons, ih hns, rollbackBitmapSlot_eq]
    congr 1
    funext n
    by_cases hn : n = m
    · subst hn
      simp [hm]
    · simp [Restores, hn]

theorem rollbackBitmapSlots_eq (md : Md) : rollbackBitmapSlots oldPeerMd doNodes md =
      { md with
        peers := fun n => if Restores md doNodes n then (md.peers n).copyBitmap (oldPeerMd n) else md.peers n } := by
  rw [rollbackBitmapSlots, foldl_rollbackBitmapSlot oldPeerMd doNodes (nodup_finRange 32)]
  simp only [mem_finRange, true_and]

end

variable {dev : Device} {peer : Source} {md : Md} {oldPeerMd : NodeId → PeerMd} {removedHistory : Uuid}

variable {f : Finished}

section

variable (h : Left dev peer md oldPeerMd removedHistory f)

include h

theorem rollback_peers (n : NodeId) : (resyncFinishedRollback f).peers n =
      if Cleared dev peer md n then (md.peers n).withBitmapUuid dev.dagtagSector 0 else md.peers n := by
  unfold resyncFinishedRollback
  dsimp only
  rw [rollbackBitmapSlots_eq]
  dsimp only
  by_cases htaken : TakenOver dev peer md n
  · have hclear : ¬ Cleared dev peer md n := fun hc => hc.not_takenOver htaken
    have hset : f.md.peers n = (md.peers n).withBitmapUuid dev.dagtagSector (peer.bitmapUuids n) :=
      (h.peers n).trans (if_pos htaken)
    -- the bitmap UUID of the peer is not zero
    have hpeer : peer.bitmapUuids n ≠ 0 := ((Finset.mem_filter.1 htaken.2.1).2).1
    have hall : n ≠ f.md.nodeId ∧ n ∈ f.newer ∧ (f.md.peers n).bitmapUuid ≠ 0 := by
      refine ⟨h.nodeId ▸ htaken.1, (h.newer n).2 htaken, ?_⟩
      rw [hset]
      exact hpeer
    rw [if_pos hall, if_neg hclear, hset, h.oldPeerMd n htaken]
    rfl
  · rw [if_neg fun hall => htaken ((h.newer n).1 hall.2.1), h.peers n, if_neg htaken]

theorem rollback_md :
    (resyncFinishedRollback f).nodeId = md.nodeId ∧ (resyncFinishedRollback f).currentUuid = md.currentUuid ∧
      (resyncFinishedRollback f).historyUuids = pullHistory f.md.historyUuids (some f.removedHistory) := by
  unfold resyncFinishedRollback
  dsimp only
  rw [rollbackBitmapSlots_eq]
  exact ⟨h.nodeId, h.beforeUuid, rfl⟩

/-- A slot that was not empty is not the same after it was cleared. -/
theorem peers_restored_iff :
    (resyncFinishedRollback f).peers = md.peers ↔ ∀ n, ¬ Cleared dev peer md n := by
  constructor
  · intro heq n hn
    have hslot := (rollback_peers h n).symm.trans (congrFun heq n)
    rw [if_pos hn] at hslot
    exact hn.2.2 (congrArg PeerMd.bitmapUuid hslot).symm
  · intro hnone
    funext n
    rw [rollback_peers h, if_neg (hnone n)]

end

/-- The entries after a new one came to the front. -/
def withFirst (u : Uuid) (history : HistoryUuids) : List Uuid :=
  u :: history.entries.dropLast

/-- The history comes back after `vals` and `currentUuid` went there and one entry is taken back:
just the current UUID was new; or just one of `vals`, and the last place was empty; or nothing, and
the history is empty. -/
def HistoryRestorable (history : HistoryUuids) (vals : List Uuid) (currentUuid : Uuid) : Prop :=
  ((∀ v ∈ vals, v ∈ history.entries) ∧ ∃ c ∈ historyValue currentUuid, c ∉ history.entries) ∨
    (∃ before u after, vals = before ++ u :: after ∧ (∀ v ∈ before, v ∈ history.entries) ∧ u ∉ history.entries ∧
      (∀ v ∈ after, v ∈ withFirst u history) ∧ (∀ c ∈ historyValue currentUuid, c ∈ withFirst u history) ∧
      history.oldest 0 = 0) ∨
    ((∀ v ∈ vals, v ∈ history.entries) ∧ (∀ u ∈ history.entries, u = 0) ∧ ∀ c ∈ historyValue currentUuid, c = 0)

variable {history : HistoryUuids}

open Recent

theorem entries_push_withFirst {u : Uuid} (h : u ∉ history.entries) :
    (history.push u).entries = withFirst u history :=
  entries_push_eq h

theorem pull_push_new {val c : Uuid} (hval : historyValue val = some c)
    (hnew : c ∉ history.entries) :
    pullHistory (pushHistory history val) (some (pushOldVal history val 0)) = history := by
  simp only [pushHistory, pushOldVal, hval, if_neg hnew]
  exact pull_push hnew

theorem pull_push_known {val : Uuid} (hknown : ∀ c ∈ historyValue val, c ∈ history.entries) :
    pullHistory (pushHistory history val) (some (pushOldVal history val 0)) = history.pull 0 := by
  cases hval : historyValue val with
  | none => simp [pullHistory, pushHistory, pushOldVal, hval]
  | some c =>
    have hc : c ∈ history.entries := hknown c hval
    simp [pullHistory, pushHistory, pushOldVal, hval, hc, push_of_mem hc]

theorem history_restored_iff {vals : List Uuid} {currentUuid : Uuid} (hlen : vals.length < 32) :
    pullHistory (pushHistory (vals.foldl push history) currentUuid)
        (some (pushOldVal (vals.foldl push history) currentUuid 0)) = history ↔
      HistoryRestorable history vals currentUuid := by
  -- with one new value, it is the first of the list
  have hone : ∀ u, history.fresh vals = [u] → u ∉ history.entries →
      (vals.foldl push history).entries = withFirst u history := by
    intro u hu hnew
    rw [foldl_push, hu, ← entries_push_withFirst hnew, entries_push hnew]
    rfl
  by_cases hknown : ∀ c ∈ historyValue currentUuid, c ∈ (vals.foldl push history).entries
  · rw [pull_push_known hknown, pull_foldl_push_eq_self_iff hlen]
    constructor
    · rintro (⟨hnil, hzero⟩ | ⟨⟨u, hu⟩, hlast⟩)
      · have hin := fresh_eq_nil_iff.1 hnil
        rw [(foldl_push_eq_self_iff hlen).2 hin] at hknown
        exact .inr (.inr ⟨hin, hzero, fun c hc => hzero c (hknown c hc)⟩)
      · obtain ⟨before, after, hsplit, hbefore, hnew, hafter⟩ := fresh_eq_singleton_iff.1 hu
        rw [hone u hu hnew] at hknown
        rw [entries_push_withFirst hnew] at hafter
        exact .inr (.inl ⟨before, u, after, hsplit, hbefore, hnew, hafter, hknown, hlast⟩)
    · rintro (⟨hin, c, hc, hnew⟩ | ⟨before, u, after, hsplit, hbefore, hnew, hafter, -, hlast⟩ | ⟨hin, hzero, -⟩)
      · rw [(foldl_push_eq_self_iff hlen).2 hin] at hknown
        exact absurd (hknown c hc) hnew
      · rw [← entries_push_withFirst hnew] at hafter
        exact .inr ⟨⟨u, fresh_eq_singleton_iff.2 ⟨before, after, hsplit, hbefore, hnew, hafter⟩⟩, hlast⟩
      · exact .inl ⟨fresh_eq_nil_iff.2 hin, hzero⟩
  · obtain ⟨c, hc, hnew⟩ : ∃ c ∈ historyValue currentUuid, c ∉ (vals.foldl push history).entries := by
      simpa using hknown
    rw [pull_push_new hc hnew, foldl_push_eq_self_iff hlen]
    constructor
    · intro hin
      rw [(foldl_push_eq_self_iff hlen).2 hin] at hnew
      exact .inl ⟨hin, c, hc, hnew⟩
    rintro (⟨hin, -⟩ | ⟨before, u, after, hsplit, hbefore, hu, hafter, hcur, -⟩ | ⟨hin, -⟩)
    · exact hin
    · rw [← entries_push_withFirst hu] at hafter
      rw [hone u (fresh_eq_singleton_iff.2 ⟨before, after, hsplit, hbefore, hu, hafter⟩) hu] at hnew
      exact absurd (hcur c hc) hnew
    · exact hin

/-- The rollback undoes the finished resync: no slot is cleared, and the history comes back. -/
structure Restorable (dev : Device) (peer : Source) (md : Md) : Prop where
  slots : ∀ n, ¬ Cleared dev peer md n
  history : HistoryRestorable md.historyUuids
    ((slotUuids md (TakenOver dev peer md)).filterMap historyValue) md.currentUuid

theorem length_slotUuids_lt : (slotUuids md (TakenOver dev peer md)).length < 32 := by
  rw [slotUuids, length_map]
  refine Nat.lt_of_lt_of_eq (length_filter_lt_length_iff_exists.2 ⟨md.nodeId, mem_finRange _, ?_⟩)
    length_finRange
  simp [Overwritten]

theorem rollback_eq_iff :
    resyncFinishedRollback (resyncFinished dev peer md oldPeerMd 0) = md ↔ Restorable dev peer md := by
  have hleft := resyncFinished_left dev peer md oldPeerMd 0
  obtain ⟨hid, hcurrent, hhistory⟩ := rollback_md hleft
  rw [hleft.historyUuids, hleft.removedHistory] at hhistory
  have hsplit : resyncFinishedRollback (resyncFinished dev peer md oldPeerMd 0) = md ↔
      (resyncFinishedRollback (resyncFinished dev peer md oldPeerMd 0)).peers = md.peers ∧
        (resyncFinishedRollback (resyncFinished dev peer md oldPeerMd 0)).historyUuids = md.historyUuids := by
    constructor
    · intro h
      rw [h]
      exact ⟨rfl, rfl⟩
    · rintro ⟨hp, hh⟩
      exact Md.ext hid hcurrent hp hh
  rw [hsplit, peers_restored_iff hleft, hhistory]
  have hcond : (∀ n, ¬ Cleared dev peer md n) → historyAfterSlots dev peer md =
      ((slotUuids md (TakenOver dev peer md)).filterMap historyValue).foldl push md.historyUuids := by
    intro hnone
    have hempty : slotUuids md (Cleared dev peer md) = [] := by
      rw [slotUuids, filter_eq_nil_iff.2 fun n _ => by simpa using hnone n]
      rfl
    rw [historyAfterSlots, replacedUuids, hempty, append_nil, foldl_pushHistory]
  have hlen : ((slotUuids md (TakenOver dev peer md)).filterMap historyValue).length < 32 :=
    Nat.lt_of_le_of_lt (length_filterMap_le ..) length_slotUuids_lt
  constructor
  · rintro ⟨hnone, hh⟩
    rw [hcond hnone] at hh
    exact ⟨hnone, (history_restored_iff hlen).1 hh⟩
  · rintro ⟨hnone, hh⟩
    refine ⟨hnone, ?_⟩
    rw [hcond hnone]
    exact (history_restored_iff hlen).2 hh

end Rollback

/-! ## The whole call -/

/-- What `bsr_resync_finished` reads besides the UUIDs. -/
structure Call where
  /-- The replication state when the call begins, before the UUIDs are updated, and under
  `req_lock`. -/
  replEntry : ReplState
  replNow : ReplState
  replLocked : ReplState
  /-- The call is made by the worker. -/
  onWorker : Bool := false
  /-- `bsr_rs_del_all` has not succeeded. -/
  rsBusy : Bool := false
  /-- There is memory for a work item. -/
  kmalloc : Bool := true
  /-- `get_ldev`. -/
  hasDisk : Bool := true
  rsFailed : Nat := 0
  /-- `was_resync_stable`. -/
  stable : Bool := true
  uuidsReceived : Bool := true
  agreedProVersion : Nat := 115

/-- The ways out of `bsr_resync_finished`. -/
inductive Outcome where
  | queued | noDisk | ahead | behind | ended | completes
deriving DecidableEq, Repr

namespace Call

/-- The call is put off to the sender. -/
def queues (c : Call) : Bool :=
  (((decide (c.replEntry = .syncSource) || decide (c.replEntry = .pausedSyncS)) && c.onWorker) || c.rsBusy) && c.kmalloc

/-- `bsr_uuid_resync_finished` is called. -/
def updates (c : Call) (peer : Source) (md : Md) : Bool :=
  (decide (c.replNow = .syncTarget) || decide (c.replNow = .pausedSyncT)) && decide (c.rsFailed = 0) && c.stable &&
    decide (withoutPrimary md.currentUuid ≠ withoutPrimary peer.currentUuid) && c.uuidsReceived

/-- `bsr_resync_finished` up to where it completes the resync. -/
def resyncFinished (c : Call) (dev : Device) (peer : Source) (md : Md) (oldPeerMd : NodeId → PeerMd) : Outcome × Md :=
  if c.queues then (.queued, md)
  else if !c.hasDisk then (.noDisk, md)
  else
    let f := Datagen.resyncFinished dev peer md oldPeerMd 0
    let md' := if c.updates peer md then f.md else md
    match c.replLocked with
    | .ahead => (.ahead, md')
    | .behind => (.behind, md')
    | .off | .established =>
      (.ended, if 115 ≤ c.agreedProVersion && c.updates peer md then resyncFinishedRollback f else md')
    | _ => (.completes, md')

/-- The resync has come to an end otherwise. -/
def Ended (c : Call) : Prop :=
  c.replLocked = .off ∨ c.replLocked = .established

/-- The replication state under the lock is one with which the resync is completed. -/
def GoesOn (c : Call) : Prop :=
  ¬ c.Ended ∧ c.replLocked ≠ .ahead ∧ c.replLocked ≠ .behind

end Call

section Calls

variable {dev : Device} {peer : Source} {md : Md} {oldPeerMd : NodeId → PeerMd}

theorem resyncFinished_ne {c : Call} (h : c.updates peer md = true) {removedHistory : Uuid} :
    (resyncFinished dev peer md oldPeerMd removedHistory).md ≠ md := by
  intro heq
  have hcurrent := (resyncFinished_left dev peer md oldPeerMd removedHistory).currentUuid
  rw [heq] at hcurrent
  simp only [Call.updates, Bool.and_eq_true, decide_eq_true_eq] at h
  exact h.1.2 hcurrent

/-- An unfinished resync leaves the UUIDs alone exactly if none was updated, or the update is rolled
back and can be; and the rollback undoes the update exactly if no slot is cleared and one entry is
to be taken back from the history. -/
theorem unfinished_resync_keeps_uuids (c : Call) (hproto : 115 ≤ c.agreedProVersion) :
    (((c.resyncFinished dev peer md oldPeerMd).1 ≠ .completes → (c.resyncFinished dev peer md oldPeerMd).2 = md) ↔
        (c.queues = false → c.hasDisk = true → c.updates peer md = true →
          c.GoesOn ∨ c.Ended ∧ Restorable dev peer md)) ∧
      (resyncFinishedRollback (resyncFinished dev peer md oldPeerMd 0) = md ↔ Restorable dev peer md) := by
  have hroll : resyncFinishedRollback (resyncFinished dev peer md oldPeerMd 0) = md ↔ Restorable dev peer md :=
    rollback_eq_iff
  have hne : c.updates peer md = true → (resyncFinished dev peer md oldPeerMd 0).md ≠ md :=
    fun hup => resyncFinished_ne hup
  refine ⟨?_, hroll⟩
  unfold Call.resyncFinished
  generalize resyncFinished dev peer md oldPeerMd 0 = f at hroll hne
  by_cases hqueue : c.queues = true
  · simp [hqueue]
  by_cases hdisk : c.hasDisk = true
  · rw [if_neg hqueue, if_neg (by simp [hdisk])]
    by_cases hup : c.updates peer md = true
    · cases hlocked : c.replLocked <;>
        simp [hqueue, hdisk, hup, hproto, hne, hroll, hlocked, Call.GoesOn, Call.Ended]
    · cases hlocked : c.replLocked <;> simp [hup]
  · simp [hqueue, hdisk]

end Calls

/-- A resync from node 1 that was broken off just when it was finished. -/
def brokenOff (replLocked : ReplState) : Call where
  replEntry := .syncTarget
  replNow := .syncTarget
  replLocked := replLocked

/-- Node 1 has the newer data. -/
def nodeOneUuids : Source where
  nodeId := 1
  currentUuid := 0x20

/-- Node 0 with a bitmap UUID for node 2. -/
def nodeZeroMd (bitmapUuid : Uuid) : Md where
  nodeId := 0
  currentUuid := 0x10
  peers := Function.update (fun _ => {}) 2 { bitmapUuid := bitmapUuid, bitmapDagtag := 8 }

theorem slots_nodeOne : testBitmapSlotsOfPeer {} nodeOneUuids = ∅ := by
  simp [testBitmapSlotsOfPeer]

/-- Without bitmap UUIDs the current UUID is all that went to the history. -/
theorem unfinished_resync_keeps_uuids_established :
    ((brokenOff .established).resyncFinished {} nodeOneUuids { nodeId := 0, currentUuid := 0x10 } fun _ => {}).2 =
      { nodeId := 0, currentUuid := 0x10 } := by
  refine (unfinished_resync_keeps_uuids (brokenOff .established) (by decide)).1.2
    (fun _ _ _ => .inr ⟨.inr rfl, ?_⟩) nofun
  refine ⟨fun n h => h.2.2 rfl, .inl ⟨?_, 0x10, rfl, by simp⟩⟩
  exact nofun

/-- The bitmap UUID for node 2 is cleared and not restored; and with the state Behind nothing is
restored at all. -/
theorem unfinished_resync_loses_uuids :
    (((brokenOff .established).resyncFinished {} nodeOneUuids (nodeZeroMd 0x30) fun _ => {}).1 = .ended ∧
        (((brokenOff .established).resyncFinished {} nodeOneUuids (nodeZeroMd 0x30) fun _ => {}).2.peers 2).bitmapUuid
          = 0) ∧
      ((brokenOff .behind).resyncFinished {} nodeOneUuids (nodeZeroMd 0) fun _ => {}).1 = .behind ∧
        ((brokenOff .behind).resyncFinished {} nodeOneUuids (nodeZeroMd 0) fun _ => {}).2.currentUuid = 0x20 := by
  refine ⟨⟨rfl, ?_⟩, rfl, rfl⟩
  have hleft := resyncFinished_left {} nodeOneUuids (nodeZeroMd 0x30) (fun _ => {}) 0
  have hcleared : Cleared {} nodeOneUuids (nodeZeroMd 0x30) 2 := ⟨by decide, by simp [slots_nodeOne], by decide⟩
  have hslot := (rollback_peers hleft 2).trans (if_pos hcleared)
  exact congrArg PeerMd.bitmapUuid hslot

end Bsr.Datagen
