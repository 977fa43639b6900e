import Bsr.Lru.Holds
import Bsr.MetaData.ApplyAl

/-!
# Recovery after a crash

`meta_apply_al` of `bsrmeta.c` replays the activity log, applies the extents it finds to the bitmap
and initialises the log again.

* `Within` says that all labels of the cache and of the log are extents of the device. The labels
  come from the calls of the cache only, so a run that gets no other extents keeps it;
* `recovery_marks_committed`: wherever a primary crashes, `apply-al` leaves every committed extent
  out of sync in every slot, sets no bit that is not in the log, and leaves a log that a next run
  can start from.

Only the format of version 9 is modelled; the superblock is written without errors.
-/

namespace Bsr.MetaData

open Lib Bitmap ActLog Lru Function

/-! ## `meta_apply_al` -/

/-- `qsort` of the array of hot extents. -/
def sortHot (hotExtent : Nat → Nat) : List Nat :=
  ((List.range alExtentsMax).map hotExtent).mergeSort fun a b => decide (a ≤ b)

def initializeAl (L : AlLayout) (disk : Nat → DiskBlock) (k : Nat) : DiskBlock :=
  if ∃ o < L.alSize4k, k = L.mdOffset + L.alOffset + 8 * o then ⟨AlHistory.blankBlock, true⟩ else disk k

/-- `on_disk_buffer` after the log is read: its size is a 32-bit product, and what is beyond
`buffer_size` stays as it was in the buffer. -/
def readLog (L : AlLayout) (alDisk stale : Nat → DiskBlock) (k : Nat) : DiskBlock :=
  if k < L.mdOffset + L.alOffset + 8 * min (L.alSize4k % 2 ^ 20) 8192 then alDisk k else stale k

/-- `meta_apply_al`: the exit code, the bitmap and the log. The superblock says whether the node was
primary. -/
def metaApplyAl (L : AlLayout) (alDisk stale : Nat → DiskBlock) (primaryInd : Bool) (cfg : BmCfg)
    (bm : Nat → Bool) : Except Exit (Nat × (Nat → Bool) × (Nat → DiskBlock)) :=
  let replay := replayAl84 L (readLog L alDisk stale)
  let err := replay.1
  if err < 0 ∧ primaryInd = true then .ok (if err = -61 then 1 else 2, bm, alDisk)
  else
    let applied := if 0 < err ∧ primaryInd = true then applyAl cfg (sortHot replay.2) bm else .ok bm
    applied.map fun bm => (0, bm, if err = 0 then alDisk else initializeAl L alDisk)

theorem sortHot_sorted (hotExtent : Nat → Nat) : (sortHot hotExtent).Pairwise (· ≤ ·) := by
  have h := @List.pairwise_mergeSort Nat (fun a b => decide (a ≤ b))
    (fun a b c hab hbc => by simp only [decide_eq_true_eq] at *; omega)
    (fun a b => by simp only [Bool.or_eq_true, decide_eq_true_eq]; omega)
    ((List.range alExtentsMax).map hotExtent)
  exact h.imp fun hab => by simpa using hab

theorem mem_sortHot {hotExtent : Nat → Nat} {e : Nat} :
    e ∈ sortHot hotExtent ↔ ∃ slot < alExtentsMax, hotExtent slot = e := by
  rw [sortHot]
  simp [List.mem_map]

theorem cell_initializeAl (L : AlLayout) (disk : Nat → DiskBlock) (p : Nat) :
    L.cell (initializeAl L disk) p = ⟨AlHistory.blankBlock, true⟩ :=
  if_pos ⟨_, L.stripe_lt (Nat.mod_lt p L.alSize4k_pos), rfl⟩

theorem replayAl84_readLog {L : AlLayout} (hbuf : L.alSize4k ≤ 8192) (alDisk stale : Nat → DiskBlock) :
    replayAl84 L (readLog L alDisk stale) = replayAl84 L alDisk := by
  have hcell : ∀ p, L.alDisk (readLog L alDisk stale) (L.alTrNumberToOnDiskSlot p) =
      L.alDisk alDisk (L.alTrNumberToOnDiskSlot p) := fun p => by
    have hlt : L.alTrNumberToOnDiskSlot p < L.alSize4k := L.stripe_lt (Nat.mod_lt p L.alSize4k_pos)
    exact if_pos (by omega)
  simp only [replayAl84, hcell]

/-! ## Where the labels come from -/

section Labels

variable {P : Nat → Prop} {lc lc' : LruCache} {L : AlLayout} {s s' : AlState}

/-- Every label of the cache, committed or not, satisfies `P`. -/
def Labelled (P : Nat → Prop) (lc : LruCache) : Prop :=
  ∀ e, P (lc.lcElement e).lcNumber ∧ P (lc.lcElement e).lcNewNumber

theorem Labelled.keeps (h : Labelled P lc) (hfree : P lcFree) (hkeep : KeepsLabels lc lc') : Labelled P lc' := by
  intro f
  rcases hkeep f with ⟨hnum, hnew⟩ | ⟨hnum, hnew⟩
  · rw [hnum, hnew]
    exact h f
  · rw [hnum, hnew]
    exact ⟨hfree, hfree⟩

theorem Labelled.get (h : Labelled P lc) (hinv : LcInv lc) {enr : Nat} (henr : P enr)
    {mayChange mayUseUncommitted : Bool} {r : Option Nat}
    (hrun : lcGetBase lc enr mayChange mayUseUncommitted = .ok (lc', r)) : Labelled P lc' := by
  have heffect := lcGetBase_effect hinv hrun
  intro f
  cases r with
  | none =>
    rw [heffect.missed rfl]
    exact h f
  | some e =>
    have hgot := heffect.got e rfl
    by_cases hf : f = e
    · rw [hf, hgot.number, hgot.label]
      exact ⟨(h e).1, henr⟩
    · rw [hgot.others f hf]
      exact h f

theorem Labelled.committed (h : Labelled P lc) {r : Unit} (hrun : lcCommitted lc = .ok (lc', r)) :
    Labelled P lc' := by
  obtain ⟨_, hbody, rfl⟩ := guarded_eq hrun
  cases hbody
  refine List.foldlRecOn (motive := Labelled P) _ _ h fun lc h e _ f => ?_
  dsimp only [commitOne, setElement, listMove]
  rw [update_apply]
  split_ifs
  · exact ⟨(h e).2, (h e).2⟩
  · exact h f

/-- The extents that an event brings in satisfy `P`. -/
def Uses (P : Nat → Prop) : AlEvent → Prop
  | .use (.get enr) | .use (.getCumulative enr) | .use (.tryGet enr) => P enr
  | _ => True

/-- All labels of the cache, of the block under way and of the log satisfy `P`. -/
structure Within (P : Nat → Prop) (L : AlLayout) (s : AlState) : Prop where
  labels : Labelled P s.actLog
  flight : ∀ t, s.inFlight = some t → ∀ v, t.Names v → P v
  log : ∀ p < L.alSize4k, (L.cell s.disk p).al.transactionType = .update →
    ∀ v, (L.cell s.disk p).al.Names v → P v

variable (hfree : P lcFree) (h : Within P L s)

include hfree h

theorem Within.use (hinv : LcInv s.actLog) {call : LcCall} (huse : call.IsUse) (hcall : Uses P (.use call))
    {lc : LruCache} (hrun : call.exec s.actLog = .ok lc) : Within P L { s with actLog := lc } := by
  refine { h with labels := ?_ }
  cases call with
  | get enr | getCumulative enr | tryGet enr =>
    obtain ⟨_, hget⟩ := LcCall.map_fst_eq_ok hrun
    exact h.labels.get hinv hcall hget
  | put e =>
    obtain ⟨_, hput⟩ := LcCall.map_fst_eq_ok hrun
    exact h.labels.keeps hfree (lcPut_labels hput).1
  | del e =>
    obtain ⟨_, hdel⟩ := LcCall.map_fst_eq_ok hrun
    exact h.labels.keeps hfree (lcDel_labels hdel).1
  | tryLock =>
    cases hrun
    unfold lcTryLock
    split <;> exact h.labels
  | unlock =>
    cases hrun
    exact h.labels
  | committed | reset | set _ _ | tryLockForTransaction => exact absurd huse id

theorem Within.step (hinv : LcInv s.actLog) {ev : AlEvent} (hstep : ev.Step L s s')
    (huses : Uses P ev) : Within P L s' := by
  obtain ⟨hlegal, hexec⟩ := hstep
  cases ev with
  | use call =>
    simp only [AlEvent.exec] at hexec
    split at hexec
    · cases hexec
    · rename_i hrun
      cases hexec
      exact h.use hfree hinv hlegal.1 huses hrun
  | beginCommit =>
    simp only [AlEvent.exec, bsrAlBeginIoCommit, alWriteTransaction] at hexec
    split_ifs at hexec
    · cases hexec
      exact { h with }
    · cases hexec
      exact { h with }
    · cases hexec
      refine { h with flight := ?_ }
      -- the new block names labels of the cache
      rintro t ⟨⟩ v (⟨i, -, rfl⟩ | ⟨i, -, rfl⟩)
      · dsimp only [alTransaction]
        split
        · exact (h.labels _).1
        · exact hfree
      · dsimp only [alTransaction]
        split
        · exact (h.labels _).2
        · exact hfree
  | writeDone =>
    simp only [AlEvent.exec, finishCommit] at hexec
    split at hexec
    · cases hexec
      exact h
    rename_i t hflight
    split at hexec
    · cases hexec
    rename_i hrun
    cases hexec
    have hlabels := h.labels.committed hrun
    refine ⟨hlabels, by simp, fun p hp => ?_⟩
    rw [L.cell_update _ _ _ hp]
    split_ifs
    · exact fun _ => h.flight t hflight
    · exact h.log p hp
  | checkAlSize alExtents =>
    cases hexec
    unfold bsrCheckAlSize lcCreate
    split_ifs
    · exact h
    · exact h
    · exact h
    · exact { h with labels := fun _ => ⟨hfree, hfree⟩ }

/-- The replay finds no other labels, whatever the crash has left of the block under way. -/
theorem Within.replayed {alDisk : Nat → DiskBlock} {landed : Bool}
    (hcrash : CrashImage L s alDisk landed) (slot : Nat) : P ((replayAl84 L alDisk).2 slot) := by
  refine replayAl84_forall L alDisk hfree (fun b hb hintact htype v hv => ?_) slot
  cases hcrash with
  | before => exact h.log b hb htype v hv
  | torn ht garbage =>
    rw [L.cell_update _ _ _ hb] at hintact htype hv
    split_ifs at hintact htype hv
    exact h.log b hb htype v hv
  | landed ht =>
    rw [L.cell_update _ _ _ hb] at htype hv
    split_ifs at htype hv
    · exact h.flight _ ht v hv
    · exact h.log b hb htype v hv

end Labels

/-- No label, or an extent that starts on the device. -/
def OnDevice (size x : Nat) : Prop := x = lcFree ∨ 8192 * x < size

/-- A run that uses extents of the device only. -/
def RunsOn (size : Nat) (L : AlLayout) : AlState → Prop :=
  Reachable (AlStart L) fun s ev s' => ev.Step L s s' ∧ Uses (OnDevice size) ev

theorem RunsOn.within {size : Nat} {L : AlLayout} {s : AlState} (hs : RunsOn size L s) :
    Reached L s ∧ Within (OnDevice size) L s := by
  refine hs.invariant (P := fun s => Reached L s ∧ Within (OnDevice size) L s) (fun s hstart => ?_) ?_
  · refine ⟨.start hstart, ?_, by simp [hstart.idle], fun p hp htype => ?_⟩
    · obtain ⟨_, -, hcreate⟩ := hstart.created
      unfold lcCreate at hcreate
      split_ifs at hcreate
      rw [← Option.some.inj hcreate]
      exact fun _ => ⟨.inl rfl, .inl rfl⟩
    · rw [hstart.blank p hp] at htype
      cases htype
  · rintro s ev s' ⟨hreached, hwithin⟩ ⟨hstep, huses⟩
    exact ⟨hreached.next ev hstep, hwithin.step (.inl rfl) hreached.inv.lru hstep huses⟩

/-- After a crash of a primary, on a device that fits: `apply-al` returns 0, sets the bits of every
committed extent in every slot and of no extent that is not hot, and the log can be used again. -/
theorem recovery_marks_committed {L : AlLayout} {s : AlState} {slots : PeerSlots} {size hardSect : Nat}
    (hs : RunsOn size L s) {alDisk : Nat → DiskBlock} {landed : Bool} (hcrash : CrashImage L s alDisk landed)
    (hfits : Fits slots size) (hsize : size ≤ 2 ^ 41) (hsect : 0 < hardSect) (hdvd : hardSect ∣ 4096)
    (hbuf : L.alSize4k ≤ 8192) (hsome : (committedExtents s.actLog).Nonempty)
    (stale : Nat → DiskBlock) (bm : Nat → Bool) :
    ∃ bm' alDisk', metaApplyAl L alDisk stale true (applyCfg slots size hardSect) bm = .ok (0, bm', alDisk') ∧
      (∀ p < slots.val, ∀ b < (size + 7) / 8, (bm' (bitAddr slots.val p b) = true ↔
        bm (bitAddr slots.val p b) = true ∨ b / 1024 ∈ hotExtents L alDisk)) ∧
      committedExtents s.actLog ⊆ hotExtents L alDisk ∧
      ∀ p, L.cell alDisk' p = ⟨AlHistory.blankBlock, true⟩ := by
  obtain ⟨hreached, hwithin⟩ := hs.within
  obtain ⟨x, hx, e, he, hnum, hnew⟩ := hsome
  have hpos := (hreached.inv.replay_settled hcrash he hx hnum hnew).1
  obtain ⟨bm', hrun, hexact⟩ :=
    hfits.exact hsize hsect hdvd (sortHot_sorted (replayAl84 L alDisk).2) (fun e he => by
      obtain ⟨slot, -, rfl⟩ := mem_sortHot.1 he
      exact hwithin.replayed (.inl rfl) hcrash slot) bm
  refine ⟨bm', initializeAl L alDisk, ?_, fun p hp b hb => ?_, hreached.inv.covers_committed hcrash,
    cell_initializeAl L alDisk⟩
  · unfold metaApplyAl
    rw [replayAl84_readLog hbuf, if_neg (by omega), if_pos ⟨hpos, rfl⟩, hrun, if_neg (by omega)]
    rfl
  · rw [hexact.bits p hp b hb, mem_sortHot]
    have hsmall : b / 1024 ≠ lcFree := by
      unfold lcFree
      omega
    exact or_congr_right ⟨fun h => ⟨hsmall, h⟩, And.right⟩

/-- Extent 9 of a device with 16 extents is committed when the machine crashes. -/
theorem recovery_marks_committed_nine : ∃ s bm' alDisk', RunsOn (2 ^ 17) sampleLayout s ∧
      metaApplyAl sampleLayout s.disk s.disk true (applyCfg .one (2 ^ 17) 512) (fun _ => false) =
      .ok (0, bm', alDisk') ∧ bm' (bitAddr 1 0 9216) = true := by
  obtain ⟨lc, hcreate⟩ : ∃ lc, lcCreate alUpdatesPerTransaction 2 = some lc := ⟨_, rfl⟩
  have h₀ : RunsOn (2 ^ 17) sampleLayout (sampleStart lc) := .start ⟨⟨2, by decide, hcreate⟩,
    fun _ _ => rfl, rfl, show 13 < 2 ^ 32 by decide, show 0 < 2 ^ 16 by decide, Nat.dvd_zero _⟩
  cases hcreate
  have h₁ := Reachable.next (AlEvent.use (.get 9)) h₀
    ⟨⟨⟨trivial, show 9 ≠ lcFree by decide, nofun⟩, rfl⟩, .inr (by decide)⟩
  have h₂ := Reachable.next AlEvent.beginCommit h₁ ⟨⟨trivial, rfl⟩, trivial⟩
  have h₃ := Reachable.next AlEvent.writeDone h₂ ⟨⟨show 13 + 1 < 2 ^ 32 by decide, rfl⟩, trivial⟩
  obtain ⟨s, hs, hnine⟩ : ∃ s, RunsOn (2 ^ 17) sampleLayout s ∧ 9 ∈ committedExtents s.actLog :=
    ⟨_, h₃, by decide, 1, by decide, by decide, by decide⟩
  obtain ⟨bm', alDisk', hrun, hbits, hcovers, -⟩ := recovery_marks_committed hs .before
    (show Fits .one (2 ^ 17) from ⟨by decide, by decide⟩) (by decide) (show 0 < 512 by decide) (by decide)
    (by decide) ⟨9, hnine⟩ s.disk fun _ => false
  exact ⟨s, bm', alDisk', hs, hrun, (hbits 0 (by decide) 9216 (by decide)).2 (.inr (hcovers hnine))⟩

end Bsr.MetaData
