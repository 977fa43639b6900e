import Bsr.Lru.Labels
import Bsr.ActLog.History

/-!
# Runs of the activity log

Any sequence of uses of the active set, commits and changes of its size, from an initialised area.
The uses go on while a transaction is being written. `al_replay_covers_committed` is what the
activity log is for: whenever the machine crashes, the replay finds every committed extent.
-/

namespace Bsr.ActLog

open Function

open Lib Lru

/-- What happens to an activity log. -/
inductive AlEvent where
  | use (call : LcCall)
  | beginCommit
  | writeDone
  | checkAlSize (alExtents : Nat)
deriving DecidableEq, Repr

namespace AlEvent

def exec (L : AlLayout) (s : AlState) : AlEvent → Except AlBug AlState
  | .use call =>
    match call.exec s.actLog with
    | .error b => .error (.lru b)
    | .ok lc => .ok { s with actLog := lc }
  | .beginCommit => bsrAlBeginIoCommit s
  | .writeDone =>
    match s.inFlight with
    | none => .ok s
    | some t => finishCommit L s t
  | .checkAlSize alExtents => .ok (bsrCheckAlSize s alExtents)

/-- Callers use the cache as documented and unlock it only when they hold the lock; the transaction
counter does not wrap; the size is limited as `bsr_al_extents_max` says and not changed during a
commit. -/
def Legal (L : AlLayout) (s : AlState) : AlEvent → Prop
  | .use call => call.IsUse ∧ call.Legal s.actLog ∧ (call = .unlock → s.inFlight = none)
  | .beginCommit => True
  | .writeDone => s.alTrNumber + 1 < 2 ^ 32
  | .checkAlSize alExtents => 0 < alExtents ∧ alExtents ≤ L.bsrAlExtentsMax ∧ s.inFlight = none

def Step (L : AlLayout) (s : AlState) (ev : AlEvent) (s' : AlState) : Prop :=
  ev.Legal L s ∧ ev.exec L s = .ok s'

end AlEvent

/-- An initialised area and an empty active set. The counters may have any value an earlier use of
the device has left. -/
structure AlStart (L : AlLayout) (s : AlState) : Prop where
  created : ∃ nr, (0 < nr ∧ nr ≤ L.bsrAlExtentsMax) ∧
    lcCreate alUpdatesPerTransaction nr = some s.actLog
  blank : ∀ p < L.alSize4k, L.cell s.disk p = ⟨AlHistory.blankBlock, true⟩
  idle : s.inFlight = none
  number_lt : s.alTrNumber < 2 ^ 32
  cycle_lt : s.alTrCycle < 2 ^ 16
  cycle_aligned : alContextPerTransaction ∣ s.alTrCycle

def Reached (L : AlLayout) : AlState → Prop :=
  Reachable (AlStart L) (AlEvent.Step L)

/-! ## The invariant -/

/-- The history fits the disk, the committed labels and, during a write, the labels to be. -/
structure Logged (L : AlLayout) (s : AlState) (h : AlHistory) : Prop where
  ring : Ring L s.disk h s.alTrNumber
  committed : ∀ e < s.actLog.nrElements, (s.actLog.lcElement e).lcNumber ≠ lcFree →
    Recorded h s.actLog.nrElements s.alTrNumber e (s.actLog.lcElement e).lcNumber
  idle : s.inFlight = none → h.cycle s.alTrNumber = s.alTrCycle
  flight : ∀ t, s.inFlight = some t → h.block s.alTrNumber = t ∧ t.trNumber = s.alTrNumber ∧
    t.transactionType = .update ∧ h.cycle (s.alTrNumber + 1) = s.alTrCycle
  prepared : s.inFlight ≠ none → ∀ e < s.actLog.nrElements,
    (s.actLog.lcElement e).lcNewNumber ≠ lcFree →
    Recorded h s.actLog.nrElements (s.alTrNumber + 1) e (s.actLog.lcElement e).lcNewNumber

structure AlInv (L : AlLayout) (s : AlState) : Prop where
  lru : LcInv s.actLog
  quiet : s.actLog.paranoia = false
  max_eq : s.actLog.maxPendingChanges = alUpdatesPerTransaction
  nr_le : s.actLog.nrElements ≤ L.bsrAlExtentsMax
  cycle_lt : s.alTrCycle < 2 ^ 16
  cycle_aligned : alContextPerTransaction ∣ s.alTrCycle
  locked : s.inFlight ≠ none → s.actLog.locked = true
  logged : ∃ h, Logged L s h

section Steps

variable {L : AlLayout} {s s' : AlState}

theorem lcCreate_fresh {m nr : Nat} {lc : LruCache} (h : lcCreate m nr = some lc) (e : Nat) :
    (lc.lcElement e).lcNumber = lcFree := by
  unfold lcCreate at h
  split at h
  · cases h
  · cases h
    rfl

theorem AlStart.inv (h : AlStart L s) : AlInv L s := by
  obtain ⟨_, ⟨hpos, hmax⟩, hcreate⟩ := h.created
  obtain ⟨hlru, hquiet, hnr, hmaxp⟩ := lcCreate_inv hpos hcreate
  refine ⟨hlru, hquiet, hmaxp, hnr ▸ hmax, h.cycle_lt, h.cycle_aligned,
    fun hne => absurd h.idle hne, AlHistory.empty s.alTrNumber s.alTrCycle, ?_⟩
  constructor
  · refine ⟨Nat.le_refl _, fun n hlo hhi => ?_, fun n hlo hhi => ?_, fun n hlo hhi => ?_,
      fun p hp _ => ?_⟩
    · exact absurd hhi (Nat.not_lt.mpr hlo)
    · exact absurd hhi (Nat.not_lt.mpr hlo)
    · exact absurd hhi (Nat.not_lt.mpr hlo)
    · rw [h.blank p hp]
      rfl
  · intro e _ hne
    exact absurd (lcCreate_fresh hcreate e) hne
  · intro _
    rfl
  · intro t ht
    rw [h.idle] at ht
    cases ht
  · intro hne
    exact absurd h.idle hne

open AlEvent

theorem AlInv.use (h : AlInv L s) {call : LcCall} (hlegal : (use call).Legal L s)
    (hexec : (use call).exec L s = .ok s') : AlInv L s' := by
  obtain ⟨huse, hcall, hunlock⟩ := hlegal
  obtain ⟨lc, hrun, hquiet, hkept⟩ := LcCall.exec_kept h.lru h.quiet hcall
  simp only [exec, hrun] at hexec
  cases hexec
  obtain ⟨hist, hlog⟩ := h.logged
  have hlocked : s.inFlight ≠ none → KeepsLabels s.actLog lc ∧ lc.locked = true := by
    intro hne
    have hheld := LcCall.exec_locked huse (h.locked hne) hrun
    exact ⟨hheld.1, hheld.2 fun heq => hne (hunlock heq)⟩
  refine ⟨hkept.inv, hquiet, hkept.max_eq.trans h.max_eq, hkept.nr_eq.symm ▸ h.nr_le, h.cycle_lt,
    h.cycle_aligned, fun hne => (hlocked hne).2, hist, ?_⟩
  refine ⟨hlog.ring, ?_, hlog.idle, hlog.flight, ?_⟩
  · intro e he hne
    rw [hkept.nr_eq] at he ⊢
    rcases LcCall.exec_numbers huse h.lru h.quiet hcall hrun e with hsame | hgone
    · rw [hsame] at hne ⊢
      exact hlog.committed e he hne
    · exact absurd hgone hne
  · intro hflight e he hne
    rw [hkept.nr_eq] at he ⊢
    rcases (hlocked hflight).1 e with hsame | hgone
    · rw [hsame.2] at hne ⊢
      exact hlog.prepared hflight e he hne
    · exact absurd hgone.2 hne

/-- The context window and the changed slots of the new transaction continue the history. -/
theorem Logged.push {hist : AlHistory} (hlog : Logged L s hist) (h : AlInv L s)
    (hidle : s.inFlight = none) {h' : AlHistory} (hfirst : h'.first = hist.first)
    (hrecord : h'.record = update hist.record s.alTrNumber (recordOf s.actLog s.alTrCycle))
    (hcycle : h'.cycle = update hist.cycle (s.alTrNumber + 1)
      (nextCycle s.actLog.nrElements s.alTrCycle)) {e : Nat} (he : e < s.actLog.nrElements)
    (hne : (s.actLog.lcElement e).lcNewNumber ≠ lcFree) :
    Recorded h' s.actLog.nrElements (s.alTrNumber + 1) e (s.actLog.lcElement e).lcNewNumber := by
  have hnr := h.lru.nr_pos
  have hnow : h'.record s.alTrNumber e = recordOf s.actLog s.alTrCycle e := by
    rw [hrecord, update_self]
  have hstart : h'.cycle s.alTrNumber = s.alTrCycle := by
    rw [hcycle, update_of_ne (by omega), hlog.idle hidle]
  have hnext : h'.cycle (s.alTrNumber + 1) = nextCycle s.actLog.nrElements s.alTrCycle := by
    rw [hcycle, update_self]
  by_cases hmem : e ∈ s.actLog.list .toBeChanged
  · apply Recorded.changed
    · rw [hfirst]
      exact hlog.ring.first_le
    · rw [hnow, recordOf, if_pos hmem]
    · rw [hnext, nextCycle]
      split
      · exact Nat.dvd_zero _
      · exact Nat.dvd_add h.cycle_aligned (Nat.dvd_refl _)
    · rw [hnext, nextCycle]
      split <;> omega
  · have hsettled := h.lru.settled he hmem
    rw [hsettled] at hne ⊢
    have hold : Recorded h' s.actLog.nrElements s.alTrNumber e (s.actLog.lcElement e).lcNumber := by
      apply (hlog.committed e he hne).congr hfirst
      · intro n hn
        rw [hrecord, update_of_ne (by omega)]
      · intro n hn
        rw [hcycle, update_of_ne (by omega)]
    apply hold.extend hnr
    · rw [hnow, recordOf, if_neg hmem]
      split
      · exact .inr rfl
      · exact .inl rfl
    · rw [hnow, hstart, recordOf, if_neg hmem]
      intro hlo hhi
      rw [if_pos ⟨hlo, hhi, he⟩]
    · rw [hnext, hstart]

theorem alWriteTransaction_ok (hlen : (s.actLog.list .toBeChanged).length ≤ alUpdatesPerTransaction) :
    alWriteTransaction s = .ok { s with
      alTrCycle := nextCycle s.actLog.nrElements s.alTrCycle
      inFlight := some (alTransaction s.actLog s.alTrNumber s.alTrCycle) } :=
  if_neg (Nat.not_lt.mpr hlen)

theorem AlInv.beginCommit (h : AlInv L s) (hexec : beginCommit.exec L s = .ok s') :
    AlInv L s' := by
  obtain ⟨hist, hlog⟩ := h.logged
  simp only [exec, bsrAlBeginIoCommit] at hexec
  have hlru := fun dirty locked =>
    h.lru.with_flags s.actLog.paranoia dirty locked s.actLog.starving
  by_cases hlocked : s.actLog.locked = true
  · -- the lock is taken: nothing changes
    rw [if_pos (by simp [lcTryLockForTransaction, hlocked])] at hexec
    cases hexec
    exact ⟨hlru s.actLog.dirty true, h.quiet, h.max_eq, h.nr_le, h.cycle_lt, h.cycle_aligned,
      fun _ => rfl, hist, hlog.ring, hlog.committed, hlog.idle, hlog.flight, hlog.prepared⟩
  have hidle : s.inFlight = none := by
    by_contra hne
    exact hlocked (h.locked hne)
  rw [if_neg (by simp [lcTryLockForTransaction, hlocked])] at hexec
  by_cases hpending : (lcTryLockForTransaction s.actLog).1.pendingChanges = 0
  · rw [if_pos hpending] at hexec
    cases hexec
    exact ⟨hlru false false, h.quiet, h.max_eq, h.nr_le, h.cycle_lt, h.cycle_aligned,
      fun hne => absurd hidle hne, hist, hlog.ring, hlog.committed, hlog.idle, hlog.flight,
      hlog.prepared⟩
  have hlen : (s.actLog.list .toBeChanged).length ≤ alUpdatesPerTransaction := by
    rw [← h.lru.pending_eq, ← h.max_eq]
    exact h.lru.pending_le
  have hwrite := alWriteTransaction_ok
    (s := { s with actLog := (lcTryLockForTransaction s.actLog).1 }) hlen
  rw [if_neg hpending, hwrite] at hexec
  cases hexec
  have hnr : s.actLog.nrElements ≤ alExtentsMax := Nat.le_trans h.nr_le L.bsrAlExtentsMax_le.2
  have heffect : ∀ hot, applyBlock hot ⟨alTransaction s.actLog s.alTrNumber s.alTrCycle, true⟩ =
      overwrite (recordOf s.actLog s.alTrCycle) hot :=
    applyBlock_alTransaction hnr h.cycle_lt (fun e he => h.lru.changing_lt he) hlen
  refine ⟨hlru s.actLog.dirty true, h.quiet, h.max_eq, h.nr_le, ?_, ?_, fun _ => rfl,
    hist.push s.alTrNumber _ _ (nextCycle s.actLog.nrElements s.alTrCycle) heffect, ?_⟩
  · show nextCycle s.actLog.nrElements s.alTrCycle < 2 ^ 16
    unfold alExtentsMax at hnr
    rw [nextCycle]
    split <;> omega
  · show _ ∣ nextCycle s.actLog.nrElements s.alTrCycle
    rw [nextCycle]
    split
    · exact Nat.dvd_zero _
    · exact Nat.dvd_add h.cycle_aligned (Nat.dvd_refl _)
  · constructor
    · apply hlog.ring.congr
      · rfl
      · intro n hn
        exact update_of_ne (Nat.ne_of_lt hn) _ _
    · intro e he hne
      apply (hlog.committed e he hne).congr
      · rfl
      · intro n hn
        exact update_of_ne (Nat.ne_of_lt hn) _ _
      · intro n hn
        exact update_of_ne (Nat.ne_of_lt (Nat.lt_succ_of_le hn)) _ _
    · simp
    · intro t ht
      cases ht
      exact ⟨update_self .., rfl, rfl, update_self ..⟩
    · intro _ e he hne
      apply hlog.push h hidle _ _ _ he hne
      · rfl
      · rfl
      · rfl

theorem AlInv.written (h : AlInv L s) {t : AlTransaction} (hflight : s.inFlight = some t)
    {lc : LruCache} {r : Unit} (hrun : lcCommitted s.actLog = .ok (lc, r)) : AlInv L {
      actLog := lcUnlock lc
      alTrNumber := s.alTrNumber + 1
      alTrCycle := s.alTrCycle
      disk := update s.disk (L.alTrNumberToOnDiskSector s.alTrNumber) ⟨t, true⟩
      inFlight := none } := by
  obtain ⟨hist, hlog⟩ := h.logged
  obtain ⟨_, _, hrun', hquiet, hkept, hnumbers⟩ := lcCommitted_kept h.lru h.quiet
  rw [hrun] at hrun'
  cases hrun'
  obtain ⟨hblock, hnumber, hupdate, hcycle⟩ := hlog.flight t hflight
  refine ⟨hkept.inv.with_flags lc.paranoia false false lc.starving, hquiet,
    hkept.max_eq.trans h.max_eq, hkept.nr_eq.symm ▸ h.nr_le, h.cycle_lt, h.cycle_aligned,
    fun hne => absurd rfl hne, hist, ?_⟩
  constructor
  · dsimp only
    rw [← hblock]
    exact hlog.ring.write (hblock.symm ▸ hnumber) (hblock.symm ▸ hupdate)
  · -- what was prepared is now committed
    intro e he hne
    simp only [lcUnlock] at he hne ⊢
    rw [hkept.nr_eq] at he ⊢
    rw [hnumbers e he] at hne ⊢
    exact hlog.prepared (by rw [hflight]; simp) e he hne
  · intro _
    exact hcycle
  · intro _ ht'
    cases ht'
  · simp

theorem AlInv.writeDone (h : AlInv L s) (hlegal : writeDone.Legal L s)
    (hexec : writeDone.exec L s = .ok s') : AlInv L s' := by
  simp only [exec] at hexec
  split at hexec
  · cases hexec
    exact h
  rename_i t hflight
  obtain ⟨_, _, hrun, -⟩ := lcCommitted_kept h.lru h.quiet
  have hwrap : (s.alTrNumber + 1) % 2 ^ 32 = s.alTrNumber + 1 := Nat.mod_eq_of_lt hlegal
  simp only [finishCommit, hrun, hwrap] at hexec
  cases hexec
  exact h.written hflight hrun

theorem AlInv.checkAlSize (h : AlInv L s) {alExtents : Nat}
    (hlegal : (checkAlSize alExtents).Legal L s) : AlInv L (bsrCheckAlSize s alExtents) := by
  obtain ⟨hpos, hmax, hidle⟩ := hlegal
  obtain ⟨hist, hlog⟩ := h.logged
  unfold bsrCheckAlSize
  split
  · exact h
  split
  · exact h
  cases hcreate : lcCreate alUpdatesPerTransaction alExtents with
  | none => exact h
  | some n =>
    obtain ⟨hlru, hquiet, hnr, hmaxp⟩ := lcCreate_inv hpos hcreate
    refine ⟨hlru, hquiet, hmaxp, hnr.symm ▸ hmax, h.cycle_lt, h.cycle_aligned,
      fun hne => absurd hidle hne, hist, hlog.ring, ?_, hlog.idle, hlog.flight,
      fun hne => absurd hidle hne⟩
    intro e _ hne
    exact absurd (lcCreate_fresh hcreate e) hne

theorem Reached.inv (hs : Reached L s) : AlInv L s := by
  apply Reachable.invariant _ _ hs
  · intro s hstart
    exact hstart.inv
  rintro s ev _ hinv ⟨hlegal, hexec⟩
  cases ev with
  | use call => exact hinv.use hlegal hexec
  | beginCommit => exact hinv.beginCommit hexec
  | writeDone => exact hinv.writeDone hlegal hexec
  | checkAlSize alExtents =>
    cases hexec
    exact hinv.checkAlSize hlegal

end Steps

/-! ## Crashes -/

/-- What a crash can leave on the disk. A block under way is there, torn or not there; the flag says
whether it has landed. -/
inductive CrashImage (L : AlLayout) (s : AlState) : (Nat → DiskBlock) → Bool → Prop
  | before : CrashImage L s s.disk false
  | torn {t : AlTransaction} (ht : s.inFlight = some t) (garbage : AlTransaction) :
      CrashImage L s
        (Function.update s.disk (L.alTrNumberToOnDiskSector s.alTrNumber) ⟨garbage, false⟩) false
  | landed {t : AlTransaction} (ht : s.inFlight = some t) :
      CrashImage L s (Function.update s.disk (L.alTrNumberToOnDiskSector s.alTrNumber) ⟨t, true⟩) true

/-- The extents `replay_al_84` finds hot. -/
def hotExtents (L : AlLayout) (disk : Nat → DiskBlock) : Set Nat :=
  { x | x ≠ lcFree ∧ ∃ slot < alExtentsMax, (replayAl84 L disk).2 slot = x }

/-- The committed extents: `lc_find` finds these, and I/O to them needs no transaction. -/
def committedExtents (lc : LruCache) : Set Nat :=
  { x | x ≠ lcFree ∧ ∃ e < lc.nrElements,
    (lc.lcElement e).lcNumber = x ∧ (lc.lcElement e).lcNewNumber = x }

/-- With them, the extents that a change not committed yet will replace. -/
def labelledExtents (lc : LruCache) : Set Nat :=
  { x | x ≠ lcFree ∧ ∃ e < lc.nrElements, (lc.lcElement e).lcNumber = x }

section Crash

variable {L : AlLayout} {s : AlState} {disk : Nat → DiskBlock}

theorem AlInv.replay_committed (h : AlInv L s) (hcrash : CrashImage L s disk false) {e : Nat}
    (he : e < s.actLog.nrElements) (hne : (s.actLog.lcElement e).lcNumber ≠ lcFree) :
    0 < (replayAl84 L disk).1 ∧ (replayAl84 L disk).2 e = (s.actLog.lcElement e).lcNumber := by
  obtain ⟨_, hlog⟩ := h.logged
  have hrec := hlog.committed e he hne
  have hmx := L.alSize4k_pos
  cases hcrash with
  | before => exact hrec.replayed h.nr_le he hlog.ring.survivors (by omega)
  | torn ht garbage => exact hrec.replayed h.nr_le he (hlog.ring.torn garbage) (by omega)

theorem AlInv.replay_prepared (h : AlInv L s) (hcrash : CrashImage L s disk true) {e : Nat}
    (he : e < s.actLog.nrElements) (hne : (s.actLog.lcElement e).lcNewNumber ≠ lcFree) :
    0 < (replayAl84 L disk).1 ∧ (replayAl84 L disk).2 e = (s.actLog.lcElement e).lcNewNumber := by
  obtain ⟨_, hlog⟩ := h.logged
  cases hcrash with
  | landed ht =>
    obtain ⟨hblock, hnumber, hupdate, -⟩ := hlog.flight _ ht
    have hrec := hlog.prepared (by rw [ht]; simp) e he hne
    have hring := hlog.ring.write (hblock.symm ▸ hnumber) (hblock.symm ▸ hupdate)
    rw [hblock] at hring
    exact hrec.replayed h.nr_le he hring.survivors (by omega)

theorem AlInv.lt_alExtentsMax (h : AlInv L s) {e : Nat} (he : e < s.actLog.nrElements) :
    e < alExtentsMax :=
  Nat.lt_of_lt_of_le he (Nat.le_trans h.nr_le L.bsrAlExtentsMax_le.2)

/-- A committed extent is the label of its slot now and after the commit. -/
theorem AlInv.replay_settled (h : AlInv L s) {landed : Bool} (hcrash : CrashImage L s disk landed)
    {e x : Nat} (he : e < s.actLog.nrElements) (hx : x ≠ lcFree)
    (hnum : (s.actLog.lcElement e).lcNumber = x) (hnew : (s.actLog.lcElement e).lcNewNumber = x) :
    0 < (replayAl84 L disk).1 ∧ (replayAl84 L disk).2 e = x := by
  cases landed with
  | false =>
    rw [← hnum]
    exact h.replay_committed hcrash he (hnum.symm ▸ hx)
  | true =>
    rw [← hnew]
    exact h.replay_prepared hcrash he (hnew.symm ▸ hx)

theorem AlInv.covers_committed (h : AlInv L s) {landed : Bool}
    (hcrash : CrashImage L s disk landed) : committedExtents s.actLog ⊆ hotExtents L disk := by
  rintro x ⟨hx, e, he, hnum, hnew⟩
  exact ⟨hx, e, h.lt_alExtentsMax he, (h.replay_settled hcrash he hx hnum hnew).2⟩

end Crash

/-- Wherever a run crashes, with the last block there, torn or not there: the extents that
`replay_al_84` finds hot contain all committed extents, and also those about to be replaced unless
the block that replaces them has landed; and the replay reports that there is something to apply. -/
theorem al_replay_covers_committed (L : AlLayout) {s : AlState} (hs : Reached L s)
    {disk : Nat → DiskBlock} {landed : Bool} (hcrash : CrashImage L s disk landed) :
    committedExtents s.actLog ⊆ hotExtents L disk ∧
      (landed = false → labelledExtents s.actLog ⊆ hotExtents L disk) ∧
      ((committedExtents s.actLog).Nonempty → 0 < (replayAl84 L disk).1) := by
  have hinv := hs.inv
  refine ⟨hinv.covers_committed hcrash, ?_, ?_⟩
  · rintro rfl x ⟨hx, e, he, hnum⟩
    refine ⟨hx, e, hinv.lt_alExtentsMax he, ?_⟩
    rw [← hnum]
    exact (hinv.replay_committed hcrash he (hnum.symm ▸ hx)).2
  · rintro ⟨x, hx, e, he, hnum, hnew⟩
    exact (hinv.replay_settled hcrash he hx hnum hnew).1

/-- Two stripes of four blocks. -/
def sampleLayout : AlLayout where
  mdOffset := 0
  alOffset := 8
  alStripes := 2
  alStripeSize4k := 4
  lower := by decide
  upper := by decide

/-- An initialised area, with a transaction number left by an earlier use. -/
def sampleStart (lc : LruCache) : AlState where
  actLog := lc
  alTrNumber := 13
  alTrCycle := 0
  disk := fun _ => ⟨AlHistory.blankBlock, true⟩
  inFlight := none

/-- The transaction that makes extent 5 hot is torn by a crash after extent 9 was committed. -/
theorem al_replay_covers_committed_torn :
    ∃ s disk, Reached sampleLayout s ∧ CrashImage sampleLayout s disk false ∧
      9 ∈ committedExtents s.actLog ∧ 9 ∈ hotExtents sampleLayout disk ∧
      0 < (replayAl84 sampleLayout disk).1 := by
  obtain ⟨lc, hcreate⟩ : ∃ lc, lcCreate alUpdatesPerTransaction 2 = some lc := ⟨_, rfl⟩
  have hstart : Reached sampleLayout (sampleStart lc) := by
    apply Reachable.start
    refine ⟨⟨2, by decide, hcreate⟩, fun _ _ => rfl, rfl, ?_, ?_, ?_⟩
    · show 13 < 2 ^ 32
      decide
    · show 0 < 2 ^ 16
      decide
    · exact Nat.dvd_zero _
  cases hcreate
  have huse : ∀ enr, enr ≠ lcFree → ∀ s, (AlEvent.use (.get enr)).Legal sampleLayout s :=
    fun enr hne s => ⟨trivial, hne, fun h => by cases h⟩
  have hdone : ∀ s : AlState, s.alTrNumber + 1 < 2 ^ 32 → AlEvent.writeDone.Legal sampleLayout s :=
    fun s h => h
  have h₁ := Reachable.next (AlEvent.use (.get 9)) hstart ⟨huse 9 (by decide) _, rfl⟩
  have h₂ := Reachable.next AlEvent.beginCommit h₁ ⟨trivial, rfl⟩
  have h₃ := Reachable.next AlEvent.writeDone h₂ ⟨hdone _ (by decide), rfl⟩
  have h₄ := Reachable.next (AlEvent.use (.get 5)) h₃ ⟨huse 5 (by decide) _, rfl⟩
  have h₅ := Reachable.next AlEvent.beginCommit h₄ ⟨trivial, rfl⟩
  obtain ⟨s, t, hs, ht, hcommitted⟩ : ∃ s t, Reached sampleLayout s ∧ s.inFlight = some t ∧
      9 ∈ committedExtents s.actLog :=
    ⟨_, _, h₅, rfl, by decide, 1, by decide, by decide, by decide⟩
  have hcrash := CrashImage.torn (L := sampleLayout) ht AlHistory.blankBlock
  have hmain := al_replay_covers_committed sampleLayout hs hcrash
  exact ⟨s, _, hs, hcrash, hcommitted, hmain.1 hcommitted, hmain.2.2 ⟨9, hcommitted⟩⟩

end Bsr.ActLog
