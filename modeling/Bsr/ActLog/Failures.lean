import Bsr.ActLog.Runs

/-!
# Commits whose transaction is not written

`bsr_al_begin_io_commit` ignores what `al_write_transaction` returns (its `FIXME` asks for an
`lc_cancel`): the changes are committed whether or not the transaction has reached the disk. And
`__al_write_transaction` moves `al_tr_cycle` on before it writes.

* `CommitEnv` and `WriteEnd` are the ways in which a commit can end without its transaction: the
  option `al_updates`, a detached disk, no buffer, and errors of the bitmap or of the block write;
* `rotation` follows the context windows of the transactions that were written;
* `unwrap` is the log with a transaction counter that does not wrap: `AlInv` holds of it as long as
  every transaction is written and the ring takes a wrap of the counter;
* `committed_extents_logged`: then each committed extent is named by a valid block of the log, and
  the context rotation is the one on the disk.
-/

namespace Bsr.ActLog

open Lib Lru

/-- What `bsr_al_begin_io_commit` finds before it fills a transaction. -/
structure CommitEnv where
  alUpdates : Bool
  /-- `get_ldev` succeeds and the disk is at least `D_INCONSISTENT`. -/
  ldev : Bool
  /-- `bsr_md_get_buffer` yields a buffer. -/
  buffer : Bool
deriving DecidableEq, Repr

/-- How `__al_write_transaction` goes on when the transaction is filled in. A failed write leaves
anything in its block. -/
inductive WriteEnd where
  | written
  | bitmapFailed
  | updatesOff
  | writeFailed (left : DiskBlock)

/-- The log and, for the specification, where the written transactions leave the context
rotation. -/
structure LogState where
  al : AlState
  rotation : Nat

/-- `lc_committed` and `lc_unlock` at the end of `bsr_al_begin_io_commit`, when no transaction has
been written. -/
def commitUnwritten (s : AlState) : Except AlBug AlState :=
  match lcCommitted s.actLog with
  | .error b => .error (.lru b)
  | .ok (lc, _) => .ok { s with actLog := lcUnlock lc, inFlight := none }

/-- `bsr_al_begin_io_commit` with `al_write_transaction`, up to the submission of the write. -/
def beginIoCommit (env : CommitEnv) (s : AlState) : Except AlBug AlState :=
  let (lc, locked) := lcTryLockForTransaction s.actLog
  if locked = false then .ok { s with actLog := lc }
  else if lc.pendingChanges = 0 then .ok { s with actLog := lcUnlock lc }
  else if env.alUpdates = false then commitUnwritten { s with actLog := lc }
  -- -EIO and -ENODEV of al_write_transaction are dropped
  else if env.ldev = false then commitUnwritten { s with actLog := lc }
  else if env.buffer = false then commitUnwritten { s with actLog := lc }
  else alWriteTransaction { s with actLog := lc }

variable (L : AlLayout)

/-- The rest of `bsr_al_begin_io_commit`; `al_tr_cycle` keeps its new value in every case. -/
def endIoCommit (s : AlState) (t : AlTransaction) : WriteEnd → Except AlBug AlState
  | .written => finishCommit L s t
  | .bitmapFailed => commitUnwritten s
  | .updatesOff => commitUnwritten s
  | .writeFailed left => commitUnwritten { s with
      disk := Function.update s.disk (L.alTrNumberToOnDiskSector s.alTrNumber) left }

/-- What happens to an activity log whose writes may fail. -/
inductive LogEvent where
  | use (call : LcCall)
  | beginCommit (env : CommitEnv)
  | endCommit (w : WriteEnd)
  | checkAlSize (alExtents : Nat)

namespace LogEvent

variable (s : LogState)

def exec : LogEvent → Except AlBug LogState
  | .use call => ((AlEvent.use call).exec L s.al).map fun al => { s with al := al }
  | .beginCommit env => (beginIoCommit env s.al).map fun al => { s with al := al }
  | .endCommit w =>
    match s.al.inFlight with
    | none => .ok s
    | some t => (endIoCommit L s.al t w).map fun al =>
      { al := al
        rotation := match w with
          | .written => s.al.alTrCycle
          | _ => s.rotation }
  | .checkAlSize alExtents => .ok { s with al := bsrCheckAlSize s.al alExtents }

/-- As for `AlEvent`, but the transaction counter may wrap. -/
def Legal : LogEvent → Prop
  | .use call => (AlEvent.use call).Legal L s.al
  | .checkAlSize alExtents => (AlEvent.checkAlSize alExtents).Legal L s.al
  | _ => True

def Step (ev : LogEvent) (s' : LogState) : Prop :=
  ev.Legal L s ∧ ev.exec L s = .ok s'

/-- No commit of pending changes goes without its transaction; and the transaction counter wraps
only if the ring size divides its range, so that the ring goes on where it is. -/
def Writes : LogEvent → Prop
  | .beginCommit env =>
    s.al.actLog.locked = false → s.al.actLog.pendingChanges ≠ 0 → env = ⟨true, true, true⟩
  | .endCommit w => s.al.inFlight ≠ none →
      w = .written ∧ (s.al.alTrNumber + 1 < 2 ^ 32 ∨ L.alSize4k ∣ 2 ^ 32)
  | _ => True

end LogEvent

/-- A log area as `AlStart` describes it, with nothing written yet. -/
def LogStart (s : LogState) : Prop :=
  AlStart L s.al ∧ s.rotation = s.al.alTrCycle

/-- States of runs with any pattern of failures. -/
def LogReached : LogState → Prop :=
  Reachable (LogStart L) (LogEvent.Step L)

/-- States of runs in which every transaction is written. -/
def LogWritten : LogState → Prop :=
  Reachable (LogStart L) fun s (ev : LogEvent) s' => ev.Step L s s' ∧ ev.Writes L s

/-- A valid block of the log names the extent `x`. -/
def OnDisk (disk : Nat → DiskBlock) (x : Nat) : Prop :=
  ∃ b < L.alSize4k, (L.cell disk b).intact = true ∧
    (L.cell disk b).al.transactionType = .update ∧ (L.cell disk b).al.Names x

/-- The committed extents are on the disk, and between commits the context rotation stands where the
written transactions have left it. -/
structure CommitsLogged (L : AlLayout) (s : LogState) : Prop where
  committed : ∀ x ∈ committedExtents s.al.actLog, OnDisk L s.al.disk x
  rotation : s.al.inFlight = none → s.al.alTrCycle = s.rotation

/-! ## Runs in which every transaction is written -/

section Written

variable {L : AlLayout} {s s' : LogState}

theorem hotExtents_onDisk (disk : Nat → DiskBlock) {x : Nat} (hx : x ∈ hotExtents L disk) :
    OnDisk L disk x := by
  obtain ⟨hne, slot, -, rfl⟩ := hx
  apply (replayAl84_forall (P := fun v => v = lcFree ∨ OnDisk L disk v) L disk (.inl rfl) _
    slot).resolve_left hne
  intro b hb hintact hupdate v hv
  exact .inr ⟨b, hb, hintact, hupdate, hv⟩

theorem beginIoCommit_eq {env : CommitEnv} {al : AlState}
    (henv : al.actLog.locked = false → al.actLog.pendingChanges ≠ 0 → env = ⟨true, true, true⟩) :
    beginIoCommit env al = bsrAlBeginIoCommit al := by
  unfold beginIoCommit bsrAlBeginIoCommit
  cases hlocked : al.actLog.locked with
  | true => simp [lcTryLockForTransaction, hlocked]
  | false =>
    by_cases hpending : al.actLog.pendingChanges = 0
    · simp [lcTryLockForTransaction, hpending]
    · simp [henv hlocked hpending]

theorem except_map_ok {ε α β : Type} {f : α → β} {x : Except ε α} {y : β}
    (h : x.map f = .ok y) : ∃ a, x = .ok a ∧ f a = y := by
  cases x with
  | error e => cases h
  | ok a => exact ⟨a, rfl, Except.ok.inj h⟩

theorem bsrAlBeginIoCommit_keeps {al al' : AlState} (h : bsrAlBeginIoCommit al = .ok al') :
    al'.alTrNumber = al.alTrNumber ∧ al'.disk = al.disk ∧
      (al'.inFlight = none → al.inFlight = none ∧ al'.alTrCycle = al.alTrCycle) := by
  simp only [bsrAlBeginIoCommit, alWriteTransaction] at h
  split_ifs at h
  · cases h
    exact ⟨rfl, rfl, fun hidle => ⟨hidle, rfl⟩⟩
  · cases h
    exact ⟨rfl, rfl, fun hidle => ⟨hidle, rfl⟩⟩
  · cases h
    exact ⟨rfl, rfl, by simp⟩

theorem bsrCheckAlSize_keeps (al : AlState) (alExtents : Nat) :
    (bsrCheckAlSize al alExtents).alTrNumber = al.alTrNumber ∧
      (bsrCheckAlSize al alExtents).disk = al.disk ∧
      (bsrCheckAlSize al alExtents).inFlight = al.inFlight ∧
      (bsrCheckAlSize al alExtents).alTrCycle = al.alTrCycle := by
  unfold bsrCheckAlSize
  split_ifs
  · simp
  · simp
  · cases lcCreate alUpdatesPerTransaction alExtents <;> simp

/-! ### The log with a counter that does not wrap -/

def AlTransaction.renumber (t : AlTransaction) (n : Nat) : AlTransaction :=
  { t with trNumber := n }

/-- The log with transaction number `n`, on a disk whose blocks are numbered likewise. -/
def unwrap (al : AlState) (n : Nat) (disk : Nat → DiskBlock) : AlState :=
  { al with
    alTrNumber := n
    disk := disk
    inFlight := al.inFlight.map (·.renumber n) }

/-- `n` and `disk` number the transactions of `al` without wrapping. -/
structure Unwraps (L : AlLayout) (al : AlState) (n : Nat) (disk : Nat → DiskBlock) : Prop where
  inv : AlInv L (unwrap al n disk)
  number : al.alTrNumber = n % 2 ^ 32
  fits : n < 2 ^ 32 ∨ L.alSize4k ∣ 2 ^ 32
  blocks : ∀ p < L.alSize4k, ∃ m, L.cell disk p =
    ⟨(L.cell al.disk p).al.renumber m, (L.cell al.disk p).intact⟩

section Unwraps

variable {al al' : AlState} {n : Nat} {disk : Nat → DiskBlock}

variable (h : Unwraps L al n disk)

include h

theorem Unwraps.pos : al.alTrNumber % L.alSize4k = n % L.alSize4k := by
  rw [h.number]
  rcases h.fits with hlt | hdvd
  · rw [Nat.mod_eq_of_lt hlt]
  · exact Nat.mod_mod_of_dvd n hdvd

theorem Unwraps.onDisk {x : Nat} (hx : OnDisk L disk x) : OnDisk L al.disk x := by
  obtain ⟨b, hb, hintact, hupdate, hnames⟩ := hx
  obtain ⟨m, hm⟩ := h.blocks b hb
  rw [hm] at hintact hupdate hnames
  exact ⟨b, hb, hintact, hupdate, hnames⟩

omit h in
theorem Unwraps.start (hstart : AlStart L al) : Unwraps L al al.alTrNumber al.disk := by
  have hsame : unwrap al al.alTrNumber al.disk = al := by
    cases al
    cases hstart.idle
    rfl
  exact ⟨hsame.symm ▸ hstart.inv, (Nat.mod_eq_of_lt hstart.number_lt).symm, .inl hstart.number_lt,
    fun p _ => ⟨(L.cell al.disk p).al.trNumber, rfl⟩⟩

open AlEvent

theorem Unwraps.use {call : LcCall}
    (hlegal : (use call).Legal L al) (hexec : (use call).exec L al = .ok al') :
    Unwraps L al' n disk := by
  obtain ⟨huse, hcall, hunlock⟩ := hlegal
  simp only [exec] at hexec
  split at hexec
  · cases hexec
  rename_i lc hrun
  cases hexec
  refine { h with inv := h.inv.use (show (use call).Legal L _ from ⟨huse, hcall, ?_⟩) ?_ }
  · intro heq
    simp [unwrap, hunlock heq]
  · simp [exec, unwrap, hrun]

omit h in
theorem bsrAlBeginIoCommit_unwrap (hbegin : bsrAlBeginIoCommit al = .ok al') :
    bsrAlBeginIoCommit (unwrap al n disk) = .ok (unwrap al' n disk) := by
  have hact : (unwrap al n disk).actLog = al.actLog := rfl
  simp only [bsrAlBeginIoCommit, alWriteTransaction] at hbegin ⊢
  split_ifs at hbegin with hlocked hpending hlen
  · cases hbegin
    exact if_pos (hact ▸ hlocked)
  · cases hbegin
    exact (if_neg (hact ▸ hlocked)).trans (if_pos (hact ▸ hpending))
  · cases hbegin
    exact (if_neg (hact ▸ hlocked)).trans
      ((if_neg (hact ▸ hpending)).trans (if_neg (hact ▸ hlen)))

theorem Unwraps.beginCommit (hbegin : bsrAlBeginIoCommit al = .ok al')
    (hnumber : al'.alTrNumber = al.alTrNumber) (hdisk : al'.disk = al.disk) :
    Unwraps L al' n disk := by
  refine ⟨h.inv.beginCommit (bsrAlBeginIoCommit_unwrap hbegin), ?_, h.fits, ?_⟩
  · rw [hnumber, h.number]
  · rw [hdisk]
    exact h.blocks

theorem Unwraps.written {t : AlTransaction} (hflight : al.inFlight = some t)
    (hwrap : al.alTrNumber + 1 < 2 ^ 32 ∨ L.alSize4k ∣ 2 ^ 32)
    (hfinish : finishCommit L al t = .ok al') : Unwraps L al' (n + 1)
      (Function.update disk (L.alTrNumberToOnDiskSector n) ⟨t.renumber n, true⟩) ∧
      al'.alTrCycle = al.alTrCycle := by
  simp only [finishCommit] at hfinish
  split at hfinish
  · cases hfinish
  rename_i res hrun
  cases hfinish
  have hnumber := h.number
  refine ⟨⟨h.inv.written (by simp [unwrap, hflight]) hrun, ?_, ?_, ?_⟩, rfl⟩
  · show (al.alTrNumber + 1) % 2 ^ 32 = (n + 1) % 2 ^ 32
    omega
  · rcases h.fits with _ | hdvd
    · exact hwrap.imp_left fun _ => by omega
    · exact .inr hdvd
  · intro p hp
    rw [L.cell_update _ _ _ hp, L.cell_update _ _ _ hp, h.pos]
    split_ifs
    · exact ⟨n, rfl⟩
    · exact h.blocks p hp

omit h in
theorem bsrCheckAlSize_unwrap (al : AlState) (n : Nat) (disk : Nat → DiskBlock) (alExtents : Nat) :
    unwrap (bsrCheckAlSize al alExtents) n disk = bsrCheckAlSize (unwrap al n disk) alExtents := by
  unfold bsrCheckAlSize
  by_cases hsame : al.actLog.nrElements = alExtents
  · rw [if_pos hsame, if_pos (show (unwrap al n disk).actLog.nrElements = alExtents from hsame)]
  rw [if_neg hsame, if_neg (show ¬ (unwrap al n disk).actLog.nrElements = alExtents from hsame)]
  by_cases hused : ∃ e < al.actLog.nrElements, (al.actLog.lcElement e).refcnt ≠ 0
  · rw [if_pos hused]
    exact (if_pos hused).symm
  rw [if_neg hused]
  refine Eq.trans ?_ (if_neg hused).symm
  cases lcCreate alUpdatesPerTransaction alExtents <;> rfl

theorem Unwraps.checkAlSize {alExtents : Nat} (hlegal : (checkAlSize alExtents).Legal L al) :
    Unwraps L (bsrCheckAlSize al alExtents) n disk := by
  obtain ⟨hpos, hmax, hidle⟩ := hlegal
  obtain ⟨hnumber, hdisk, -⟩ := bsrCheckAlSize_keeps al alExtents
  refine ⟨?_, by rw [hnumber, h.number], h.fits, by rw [hdisk]; exact h.blocks⟩
  rw [bsrCheckAlSize_unwrap]
  exact h.inv.checkAlSize ⟨hpos, hmax, by simp [unwrap, hidle]⟩

end Unwraps

/-! ### Steps that write their transaction -/

/-- The unwrapped log satisfies `AlInv`; the rotation is that of the disk. -/
structure LogInv (L : AlLayout) (s : LogState) : Prop where
  unwraps : ∃ n disk, Unwraps L s.al n disk
  rotation : s.al.inFlight = none → s.al.alTrCycle = s.rotation

theorem LogInv.step (h : LogInv L s) {ev : LogEvent} (hstep : ev.Step L s s')
    (hwrites : ev.Writes L s) : LogInv L s' := by
  obtain ⟨⟨n, disk, hun⟩, hrot⟩ := h
  obtain ⟨hlegal, hexec⟩ := hstep
  cases ev with
  | use call =>
    obtain ⟨al, hcall, rfl⟩ := except_map_ok hexec
    refine ⟨⟨n, disk, hun.use hlegal hcall⟩, ?_⟩
    -- a use of the cache does not touch the transaction
    simp only [AlEvent.exec] at hcall
    split at hcall
    · cases hcall
    · cases hcall
      exact hrot
  | beginCommit env =>
    obtain ⟨al, hbegin, rfl⟩ := except_map_ok hexec
    rw [beginIoCommit_eq hwrites] at hbegin
    obtain ⟨hnumber, hdisk, hcycle⟩ := bsrAlBeginIoCommit_keeps hbegin
    refine ⟨⟨n, disk, hun.beginCommit hbegin hnumber hdisk⟩, ?_⟩
    intro hidle
    exact (hcycle hidle).2.trans (hrot (hcycle hidle).1)
  | endCommit w =>
    simp only [LogEvent.exec] at hexec
    split at hexec
    · cases hexec
      exact ⟨⟨n, disk, hun⟩, hrot⟩
    rename_i t hflight
    obtain ⟨rfl, hwrap⟩ := hwrites (by simp [hflight])
    obtain ⟨al, hfinish, rfl⟩ := except_map_ok hexec
    obtain ⟨hun', hcycle⟩ := hun.written hflight hwrap hfinish
    exact ⟨⟨n + 1, _, hun'⟩, fun _ => hcycle⟩
  | checkAlSize alExtents =>
    cases hexec
    obtain ⟨-, -, hflight, hcycle⟩ := bsrCheckAlSize_keeps s.al alExtents
    refine ⟨⟨n, disk, hun.checkAlSize hlegal⟩, ?_⟩
    intro hidle
    exact hcycle.trans (hrot (hflight ▸ hidle))

theorem LogWritten.inv (hs : LogWritten L s) : LogInv L s := by
  apply Reachable.invariant _ _ hs
  · rintro s ⟨hstart, hrot⟩
    exact ⟨⟨_, _, Unwraps.start hstart⟩, fun _ => hrot.symm⟩
  · rintro s _ _ hinv ⟨hstep, hwrites⟩
    exact hinv.step hstep hwrites

end Written

/-- In every state of a run in which each transaction reaches the disk and the ring takes every wrap
of the transaction counter, each committed extent is named by a valid block of the log, and the
context rotation stands where the written transactions have left it. -/
theorem committed_extents_logged (L : AlLayout) {s : LogState} (hs : LogWritten L s) :
    CommitsLogged L s := by
  obtain ⟨⟨n, disk, hun⟩, hrot⟩ := hs.inv
  refine ⟨?_, hrot⟩
  intro x hx
  have hhot : x ∈ hotExtents L disk := hun.inv.covers_committed .before hx
  exact hun.onDisk (hotExtents_onDisk disk hhot)

/-- A fresh log whose set of 920 extents needs two context windows. -/
theorem sampleLogStart {nr : Nat} {lc : LruCache} (hnr : 0 < nr ∧ nr ≤ 920)
    (hcreate : lcCreate alUpdatesPerTransaction nr = some lc) :
    LogStart sampleLayout ⟨sampleStart lc, 0⟩ := by
  refine ⟨⟨⟨nr, ⟨hnr.1, Nat.le_trans hnr.2 (by decide)⟩, hcreate⟩, fun _ _ => rfl, rfl, ?_, ?_, ?_⟩,
    rfl⟩
  · show 13 < 2 ^ 32
    decide
  · show 0 < 2 ^ 16
    decide
  · exact Nat.dvd_zero _

theorem legal_get {enr : Nat} (hne : enr ≠ lcFree) (s : AlState) :
    (AlEvent.use (.get enr)).Legal sampleLayout s :=
  ⟨trivial, hne, nofun⟩

/-- Extent 9 is taken into the log, and the transaction reaches the disk. -/
theorem committed_extents_logged_nine :
    ∃ s, LogWritten sampleLayout s ∧ 9 ∈ committedExtents s.al.actLog ∧
      OnDisk sampleLayout s.al.disk 9 ∧ s.al.alTrCycle = s.rotation := by
  obtain ⟨lc, hcreate⟩ : ∃ lc, lcCreate alUpdatesPerTransaction 2 = some lc := ⟨_, rfl⟩
  have h₀ : LogWritten sampleLayout _ :=
    Reachable.start (sampleLogStart ⟨by decide, by decide⟩ hcreate)
  cases hcreate
  have h₁ := Reachable.next (LogEvent.use (.get 9)) h₀ ⟨⟨legal_get (by decide) _, rfl⟩, trivial⟩
  have h₂ := Reachable.next (LogEvent.beginCommit ⟨true, true, true⟩) h₁
    ⟨⟨trivial, rfl⟩, fun _ _ => rfl⟩
  have h₃ := Reachable.next (LogEvent.endCommit .written) h₂
    ⟨⟨trivial, rfl⟩, fun _ => ⟨rfl, .inr (by decide)⟩⟩
  obtain ⟨s, hs, hidle, hcommitted⟩ : ∃ s, LogWritten sampleLayout s ∧ s.al.inFlight = none ∧
      9 ∈ committedExtents s.al.actLog :=
    ⟨_, h₃, rfl, by decide, 1, by decide, by decide, by decide⟩
  have hmain := committed_extents_logged sampleLayout hs
  exact ⟨s, hs, hcommitted, hmain.committed 9 hcommitted, hmain.rotation hidle⟩

/-- The write of the transaction that names extent 9 fails and leaves the block as it was. -/
theorem failedCommit_reached {nr : Nat} {lc : LruCache} {s₁ s₂ s₃ : LogState}
    (hnr : 0 < nr ∧ nr ≤ 920) (hcreate : lcCreate alUpdatesPerTransaction nr = some lc)
    (huse : (LogEvent.use (.get 9)).exec sampleLayout ⟨sampleStart lc, 0⟩ = .ok s₁)
    (hbegin : (LogEvent.beginCommit ⟨true, true, true⟩).exec sampleLayout s₁ = .ok s₂)
    (hend : (LogEvent.endCommit (.writeFailed ⟨AlHistory.blankBlock, true⟩)).exec sampleLayout s₂ =
      .ok s₃) : LogReached sampleLayout s₃ := by
  have h₀ : LogReached sampleLayout _ := Reachable.start (sampleLogStart hnr hcreate)
  have h₁ := Reachable.next (LogEvent.use (.get 9)) h₀ ⟨legal_get (by decide) _, huse⟩
  have h₂ := Reachable.next (LogEvent.beginCommit ⟨true, true, true⟩) h₁ ⟨trivial, hbegin⟩
  exact Reachable.next (LogEvent.endCommit _) h₂ ⟨trivial, hend⟩

set_option maxRecDepth 10000 in
/-- After a failed write extent 9 is committed and no block names it; and where a set of 920 extents
needs two context windows, the one of the failed transaction is skipped. -/
theorem failed_transaction_committed :
    (∃ s, LogReached sampleLayout s ∧ 9 ∈ committedExtents s.al.actLog ∧
      ¬ OnDisk sampleLayout s.al.disk 9) ∧
    ∃ s, LogReached sampleLayout s ∧ s.al.inFlight = none ∧ s.al.alTrCycle ≠ s.rotation := by
  constructor
  · obtain ⟨s, hs, hcommitted, hdisk⟩ : ∃ s, LogReached sampleLayout s ∧
        9 ∈ committedExtents s.al.actLog ∧
        s.al.disk = Function.update (fun _ => ⟨AlHistory.blankBlock, true⟩)
          (sampleLayout.alTrNumberToOnDiskSector 13) ⟨AlHistory.blankBlock, true⟩ :=
      ⟨_, failedCommit_reached (show 0 < 2 ∧ 2 ≤ 920 by decide) rfl rfl rfl rfl,
        ⟨by decide, 1, by decide, by decide, by decide⟩, rfl⟩
    refine ⟨s, hs, hcommitted, ?_⟩
    -- every block is still the one the area was initialised with
    rintro ⟨b, hb, -, hupdate, -⟩
    rw [hdisk, sampleLayout.cell_update _ _ _ hb] at hupdate
    split_ifs at hupdate
    · cases hupdate
    · cases hupdate
  · exact ⟨_, failedCommit_reached (show 0 < 920 ∧ 920 ≤ 920 by decide) rfl rfl rfl rfl, rfl, by decide +kernel⟩

end Bsr.ActLog
