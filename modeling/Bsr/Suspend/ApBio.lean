import Mathlib

/-!
# Suspending application I/O

`bsr_suspend_io` raises a counter that keeps new application I/O out, and waits for what is in
flight.

* `Device` has the counters and what else `inc_ap_bio_cond` looks at;
* `Sys` adds the thread that has passed the test of `inc_ap_bio_cond` and has yet to count itself
  (it holds `req_lock`, so there is one at most), and the callers of `bsr_suspend_io`;
* `step` makes one access to the counters that another thread can observe;
* `suspend_io_quiet_iff` says when the device is quiet for every caller that was told so.
-/

namespace Bsr.Suspend

/-- `READ` and `WRITE`. -/
inductive Rw where
  | read
  | write
  deriving DecidableEq, Repr

/-- `enum suspend_scope`. -/
inductive SuspendScope where
  | readAndWrite
  | writeOnly
  deriving DecidableEq, Repr

def SuspendScope.toNat : SuspendScope → Nat
  | readAndWrite => 0
  | writeOnly => 1

/-- What `bsr_suspend_io` and `inc_ap_bio` use of a device. -/
structure Device where
  suspendCnt : Nat := 0
  /-- `ap_bio_cnt`: the application I/O in flight. -/
  apBioCnt : Rw → Nat
  suspended : Bool := false
  /-- `bsr_state_is_stable`. -/
  stable : Bool := true
  /-- `pending_bitmap_work.n`. -/
  pendingBitmapWork : Nat := 0
  nrRequests : Nat
  reqWriteCnt : Nat := 0
  maxReqWriteCnt : Nat

def mayIncApBio (d : Device) : Bool :=
  if d.suspended then false
  else if d.suspendCnt ≠ 0 then false
  else if !d.stable then false
  else if d.pendingBitmapWork ≠ 0 then false
  else true

/-- The limit of `req_write_cnt`, `BSR_MAX_REQ_WRITE_CNT_DEF` where the setting is out of range. -/
def maxReqWriteCnt (d : Device) : Nat :=
  if d.maxReqWriteCnt < 10000 ∨ 1000000 < d.maxReqWriteCnt then 100000 else d.maxReqWriteCnt

/-- The test of `inc_ap_bio_cond`. -/
def incApBioCond (d : Device) (rw : Rw) : Bool :=
  if maxReqWriteCnt d < d.reqWriteCnt then false
  else mayIncApBio d && decide (d.apBioCnt rw < d.nrRequests)

/-- The wait expression as C reads it: `(ap_bio_cnt[WRITE] + ss) == READ_AND_WRITE` is the condition
of the conditional expression, so that the reads count only where this holds. -/
def countsReads (ss : SuspendScope) (writes : Nat) : Bool :=
  writes + ss.toNat == SuspendScope.readAndWrite.toNat

/-- A caller of `bsr_suspend_io`. -/
inductive Susp where
  /-- `suspend_cnt` is raised. -/
  | begun (ss : SuspendScope)
  /-- In `wait_event`, before `ap_bio_cnt[WRITE]` is read. -/
  | waiting (ss : SuspendScope)
  /-- In `wait_event`, before `ap_bio_cnt[READ]` is read. -/
  | readsNext (ss : SuspendScope)
  /-- Has returned after `wait_event`. -/
  | returned (ss : SuspendScope)
  /-- Has returned at once, the device was suspended already. -/
  | skipped
  deriving DecidableEq, Repr

structure Sys where
  dev : Device
  /-- The thread in `inc_ap_bio_cond` between the test and `atomic_inc`. -/
  passed : Option Rw := none
  suspenders : List Susp := []

inductive Act where
  /-- `inc_ap_bio_cond` finds that `rw` may start. -/
  | test (rw : Rw)
  /-- `atomic_inc(&device->ap_bio_cnt[rw])` in `inc_ap_bio_cond`. -/
  | inc
  /-- `dec_ap_bio`. -/
  | dec (rw : Rw)
  /-- `atomic_inc(&device->suspend_cnt)` in `bsr_suspend_io`. -/
  | suspend (ss : SuspendScope)
  /-- A caller of `bsr_suspend_io` goes on. -/
  | advance (i : Nat)
  /-- `bsr_resume_io`. -/
  | resume (i : Nat)
  /-- The other state of the device changes. -/
  | other (suspended stable : Bool) (pendingBitmapWork nrRequests reqWriteCnt maxReqWriteCnt : Nat)

/-- How a caller of `bsr_suspend_io` goes on. -/
def Susp.next (d : Device) : Susp → Susp
  | begun ss => if d.suspended then skipped else waiting ss
  | waiting ss => if countsReads ss (d.apBioCnt .write) then readsNext ss else returned ss
  | readsNext ss => if d.apBioCnt .read = 0 then returned ss else waiting ss
  | x => x

/-- `bsr_resume_io` follows a return. -/
def Susp.done : Susp → Bool
  | returned _ => true
  | skipped => true
  | _ => false

def step (s : Sys) : Act → Sys
  | .test rw => if s.passed = none ∧ incApBioCond s.dev rw = true then { s with passed := some rw } else s
  | .inc =>
    match s.passed with
    | none => s
    | some rw =>
      { s with
        dev := { s.dev with apBioCnt := Function.update s.dev.apBioCnt rw (s.dev.apBioCnt rw + 1) }
        passed := none }
  | .dec rw => { s with dev := { s.dev with apBioCnt := Function.update s.dev.apBioCnt rw (s.dev.apBioCnt rw - 1) } }
  | .suspend ss =>
    { s with
      dev := { s.dev with suspendCnt := s.dev.suspendCnt + 1 }
      suspenders := s.suspenders ++ [.begun ss] }
  | .advance i =>
    match s.suspenders[i]? with
    | none => s
    | some x => { s with suspenders := s.suspenders.set i (x.next s.dev) }
  | .resume i =>
    match s.suspenders[i]? with
    | none => s
    | some x =>
      if x.done then
        { s with
          dev := { s.dev with suspendCnt := s.dev.suspendCnt - 1 }
          suspenders := s.suspenders.eraseIdx i }
      else s
  | .other suspended stable pendingBitmapWork nrRequests reqWriteCnt maxReqWriteCnt =>
    { s with dev := { s.dev with suspended, stable, pendingBitmapWork, nrRequests, reqWriteCnt, maxReqWriteCnt } }

/-- No application write is in flight or let in, and for `READ_AND_WRITE` no read either: the wait
expression with the parentheses that it lacks. -/
structure Quiet (ss : SuspendScope) (s : Sys) : Prop where
  counts : s.dev.apBioCnt .write + (if ss = .readAndWrite then s.dev.apBioCnt .read else 0) = 0
  passed : ∀ rw, s.passed = some rw → rw = .read ∧ ss = .writeOnly

/-- The device is quiet for every caller that has returned and has not yet resumed. -/
def Sound (s : Sys) : Prop :=
  ∀ ss, Susp.returned ss ∈ s.suspenders → Quiet ss s

/-- Every state of a run is sound. -/
def SoundRun : Sys → List Act → Prop
  | s, [] => Sound s
  | s, a :: acts => Sound s ∧ SoundRun (step s a) acts

/-- A caller returns only when the device is quiet. -/
def StepOk (s : Sys) : Act → Prop
  | .advance i => ∀ x ss, s.suspenders[i]? = some x → x.next s.dev = .returned ss → Quiet ss s
  | _ => True

def StepsOk : Sys → List Act → Prop
  | _, [] => True
  | s, a :: acts => StepOk s a ∧ StepsOk (step s a) acts

/-! ## Proof -/

section

variable {s : Sys} {ss : SuspendScope}

theorem suspendCnt_of_incApBioCond {rw : Rw} (h : incApBioCond s.dev rw = true) : s.dev.suspendCnt = 0 := by
  unfold incApBioCond mayIncApBio at h
  by_contra hne
  simp [hne] at h

theorem Quiet.mono {s' : Sys} (h : Quiet ss s) (hle : ∀ rw, s'.dev.apBioCnt rw ≤ s.dev.apBioCnt rw)
    (hpassed : s'.passed = s.passed) : Quiet ss s' := by
  refine ⟨?_, fun rw hrw => h.passed rw (hpassed ▸ hrw)⟩
  have hwrite := hle .write
  have hread := hle .read
  have hcounts := h.counts
  split_ifs at hcounts ⊢ <;> omega

/-- A thread that was let in before a quiet device may still count itself, as it is out of scope. -/
theorem Quiet.inc (h : Quiet ss s) {rw : Rw} (hrw : s.passed = some rw) : Quiet ss { s with
      dev := { s.dev with apBioCnt := Function.update s.dev.apBioCnt rw (s.dev.apBioCnt rw + 1) }
      passed := none } := by
  obtain ⟨rfl, rfl⟩ := h.passed rw hrw
  exact ⟨h.counts, nofun⟩

open List

/-- The counter keeps new I/O out as long as there is a caller. -/
theorem counted_step (h : s.dev.suspendCnt = s.suspenders.length) (a : Act) :
    (step s a).dev.suspendCnt = (step s a).suspenders.length := by
  cases a with
  | test rw =>
    unfold step
    dsimp only
    split_ifs <;> exact h
  | inc =>
    unfold step
    cases s.passed <;> exact h
  | dec rw | other => exact h
  | suspend ss => simp [step, h]
  | advance i =>
    cases hx : s.suspenders[i]? with
    | none | some x => simpa [step, hx] using h
  | resume i =>
    cases hx : s.suspenders[i]? with
    | none => simpa [step, hx] using h
    | some x =>
      have hi : i < s.suspenders.length := (List.getElem?_eq_some_iff.1 hx).1
      cases hdone : x.done with
      | false => simpa [step, hx, hdone] using h
      | true =>
        simp only [step, hx, hdone, if_true, length_eraseIdx_of_lt hi]
        rw [h]

theorem sound_step (hcount : s.dev.suspendCnt = s.suspenders.length) (h : Sound s) {a : Act} :
    Sound (step s a) ↔ StepOk s a := by
  cases a with
  | test rw =>
    refine ⟨fun _ => trivial, fun _ => ?_⟩
    unfold step
    dsimp only
    split_ifs with henter
    · have hnil : s.suspenders = [] :=
        length_eq_zero_iff.1 (hcount ▸ suspendCnt_of_incApBioCond henter.2)
      intro ss hss
      rw [hnil] at hss
      exact absurd hss not_mem_nil
    · exact h
  | inc =>
    refine ⟨fun _ => trivial, fun _ => ?_⟩
    unfold step
    cases hrw : s.passed with
    | none => exact h
    | some rw => exact fun ss hss => (h ss hss).inc hrw
  | dec rw =>
    refine ⟨fun _ => trivial, fun _ ss hss => (h ss hss).mono (fun rw' => ?_) rfl⟩
    by_cases hrw : rw' = rw
    · subst hrw
      simp [step]
    · simp [step, hrw]
  | suspend ss' =>
    refine ⟨fun _ => trivial, fun _ ss hss => (h ss ?_).mono (fun _ => Nat.le_refl _) rfl⟩
    rcases mem_append.1 hss with hss | hss
    · exact hss
    · exact absurd (mem_singleton.1 hss) nofun
  | advance i =>
    cases hx : s.suspenders[i]? with
    | none => simpa [step, StepOk, hx] using h
    | some x =>
      have hi : i < s.suspenders.length := (List.getElem?_eq_some_iff.1 hx).1
      simp only [step, StepOk, hx]
      constructor
      · rintro hsound _ ss ⟨rfl⟩ hreturns
        have hquiet := hsound ss (hreturns ▸ mem_set hi _)
        exact hquiet.mono (fun _ => Nat.le_refl _) rfl
      · intro hok ss hss
        rcases mem_or_eq_of_mem_set hss with hss | hss
        · exact (h ss hss).mono (fun _ => Nat.le_refl _) rfl
        · exact (hok x ss rfl hss.symm).mono (fun _ => Nat.le_refl _) rfl
  | resume i =>
    refine ⟨fun _ => trivial, fun _ => ?_⟩
    cases hx : s.suspenders[i]? with
    | none => simpa [step, hx] using h
    | some x =>
      simp only [step, hx]
      split_ifs
      · exact fun ss hss => (h ss (mem_of_mem_eraseIdx hss)).mono (fun _ => Nat.le_refl _) rfl
      · exact h
  | other => exact ⟨fun _ => trivial, fun _ ss hss => (h ss hss).mono (fun _ => Nat.le_refl _) rfl⟩

theorem soundRun_iff_stepsOk (hcount : s.dev.suspendCnt = s.suspenders.length) (h : Sound s)
    {acts : List Act} : SoundRun s acts ↔ StepsOk s acts := by
  induction acts generalizing s with
  | nil => exact ⟨fun _ => trivial, fun _ => h⟩
  | cons a acts ih =>
    have hstep := sound_step hcount h (a := a)
    constructor
    · rintro ⟨-, hrun⟩
      have hsound : Sound (step s a) := by
        cases acts with
        | nil => exact hrun
        | cons => exact hrun.1
      exact ⟨hstep.1 hsound, (ih (counted_step hcount a) hsound).1 hrun⟩
    · rintro ⟨hok, hrest⟩
      exact ⟨h, (ih (counted_step hcount a) (hstep.2 hok)).2 hrest⟩

end

/-- In a run from any I/O in flight, every caller of `bsr_suspend_io` that has returned finds the
device quiet until it resumes, exactly when each caller returns while the device is quiet. -/
theorem suspend_io_quiet_iff (s : Sys) (hcnt : s.dev.suspendCnt = 0) (hnone : s.suspenders = [])
    (acts : List Act) : SoundRun s acts ↔ StepsOk s acts := by
  refine soundRun_iff_stepsOk ?_ ?_
  · rw [hcnt, hnone]
    rfl
  intro _ hss
  rw [hnone] at hss
  exact absurd hss List.not_mem_nil

/-- A device with some application I/O in flight. -/
def busy (writes reads : Nat) : Sys where
  dev :=
    { apBioCnt := fun rw => if rw = .write then writes else reads
      nrRequests := 8000
      maxReqWriteCnt := 100000 }

/-- The last read completes while `bsr_suspend_io` waits, and no other is let in. -/
theorem suspend_io_quiet_read :
    SoundRun (busy 0 1) [.suspend .readAndWrite, .advance 0, .advance 0, .advance 0,
      .dec .read, .advance 0, .advance 0, .test .read] := by
  refine (suspend_io_quiet_iff (busy 0 1) rfl rfl _).2
    ⟨trivial, ?_, ?_, ?_, trivial, ?_, ?_, trivial, trivial⟩
  iterate 4
    · rintro x ss ⟨rfl⟩ h
      cases h
  · rintro x ss ⟨rfl⟩ h
    obtain rfl : SuspendScope.readAndWrite = ss := Susp.returned.inj h
    exact ⟨rfl, nofun⟩

/-- With a write in flight `bsr_suspend_io` returns at once, for both scopes; and a writer that has
passed the test before counts itself after the return. -/
theorem suspend_io_not_quiet :
    ¬ SoundRun (busy 1 0) [.suspend .readAndWrite, .advance 0, .advance 0] ∧
      ¬ SoundRun (busy 1 0) [.suspend .writeOnly, .advance 0, .advance 0] ∧
        ¬ SoundRun (busy 0 0) [.test .write, .suspend .readAndWrite, .advance 0, .advance 0, .advance 0, .inc] := by
  refine ⟨fun h => ?_, fun h => ?_, fun h => ?_⟩
  · exact absurd (h.2.2.2 .readAndWrite (by decide)).counts (by decide)
  · exact absurd (h.2.2.2 .writeOnly (by decide)).counts (by decide)
  · exact absurd (h.2.2.2.2.2.2 .readAndWrite (by decide)).counts (by decide)

end Bsr.Suspend
