import Bsr.Lib.Reach
import Bsr.Resync.Split

/-!
# Resync replies and the writes received since their request

A run of a resync target: requests for ranges that are out of sync, replicated writes, replies to
the requests, and completions of what the replies have written.

* `Event.exec` is one step. `Sys.undone` records that a reply has written a sector that a replicated
  write received after the request had written before.
* `Event.Guarded` is what a step needs so that this cannot happen.
* `Inv` is kept by guarded steps: a block of an open request that is in sync is traced, and a sector
  written since the request lies in a block in sync or is marked.
-/

namespace Bsr.Resync

open Lib Bool

/-! ## Runs -/

/-- A request for the blocks from `sBb` to before `eBb`, and the writes received since. -/
structure Request where
  sBb : Nat
  eBb : Nat
  written : List (Nat × Nat)

/-- Its sectors; the last block may be cut at the end of the device. -/
def Request.sectors (r : Request) (capacity : Nat) : Nat × Nat :=
  (r.sBb * 8, min (r.eBb * 8) capacity - r.sBb * 8)

/-- Two ranges share a sector. -/
def overlaps (p q : Nat × Nat) : Bool :=
  decide (max p.1 q.1 < min (p.1 + p.2) (q.1 + q.2))

/-- Resync data is written over one of the writes. -/
def Request.undoneBy (r : Request) (pieces : List (Nat × Nat)) : Bool :=
  pieces.any fun p => r.written.any (overlaps p)

structure Sys where
  target : Target
  pending : List Request
  /-- The blocks of requests that are answered. -/
  replied : List (Nat × Nat)
  undone : Bool

inductive Event
  /-- `make_resync_request`. -/
  | request (sBb eBb : Nat)
  /-- A replicated write, received as sync target or while the resync is paused. -/
  | write (sector n : Nat) (syncTarget : Bool)
  /-- `P_RS_DATA_REPLY`. -/
  | reply (r : Request)
  /-- `P_RS_DEALLOCATED`. -/
  | thinReply (r : Request)
  /-- `P_RS_IS_IN_SYNC`. -/
  | isInSync (r : Request)
  /-- Resync data of a block is on disk. -/
  | complete (bb : Nat)

/-- The request is answered, with `pieces` written. -/
def Sys.answered (s : Sys) (r : Request) (t : Target) (pieces : List (Nat × Nat)) : Sys where
  target := t
  pending := s.pending.filter fun q => q.sBb ≠ r.sBb
  replied := (r.sBb, r.eBb) :: s.replied
  undone := s.undone || r.undoneBy pieces

namespace Event

def exec (s : Sys) : Event → Sys
  | request sBb eBb =>
    { s with
      target := { s.target with bmResyncFo := eBb, eResyncBb := max s.target.eResyncBb eBb }
      pending := ⟨sBb, eBb, []⟩ :: s.pending }
  | write sector n syncTarget =>
    { s with
      target := receiveData s.target sector n syncTarget
      pending := s.pending.map fun r => { r with written := (sector, n) :: r.written } }
  | reply r =>
    let range := r.sectors s.target.capacity
    let res := splitRecvResyncRead s.target range.1 range.2
    s.answered r res.1 res.2
  | thinReply r => s.answered r s.target [r.sectors s.target.capacity]
  | isInSync r =>
    let range := r.sectors s.target.capacity
    s.answered r (s.target.setInSync range.1 range.2).1 []
  | complete bb =>
    { s with target := { s.target with oos := Function.update s.target.oos bb false } }

/-- What can happen in a state. A request is for bits that are set, the first of them after
`bm_resync_fo`. -/
def Legal (s : Sys) : Event → Prop
  | request sBb eBb => s.target.bmResyncFo ≤ sBb ∧ sBb < eBb ∧
      (∀ b, s.target.bmResyncFo ≤ b → b < sBb → s.target.oos b = false) ∧
      ∀ b, sBb ≤ b → b < eBb → s.target.oos b = true
  | write sector n _ => 0 < n ∧ sector + n ≤ s.target.capacity
  | reply r | thinReply r | isInSync r => r ∈ s.pending
  | complete bb => ∃ p ∈ s.replied, p.1 ≤ bb ∧ bb < p.2

def Step (s : Sys) (e : Event) (s' : Sys) : Prop :=
  e.Legal s ∧ s' = e.exec s

/-- What keeps a reply from undoing a write: writes to open requests are received as sync target; a
reply has no write in a block that the end of the device cuts, and the entries of open requests that
it takes from the list lie between `s_rl_bb` and `e_rl_bb`; nothing was written to a range that is
deallocated. -/
def Guarded (s : Sys) : Event → Prop
  | write sector n syncTarget => syncTarget = true ∨
      ∀ r ∈ s.pending, overlaps (sector, n) (r.sectors s.target.capacity) = false
  | reply r =>
    let range := r.sectors s.target.capacity
    let tail := ((range.1 + range.2) / 8 * 8, (range.1 + range.2) % 8)
    (∀ w ∈ r.written, overlaps tail w = false) ∧
      ∀ m ∈ s.target.markedRl, stays s.target m = false →
        (∃ q ∈ s.pending, q.sBb ≠ r.sBb ∧ q.sBb ≤ m.bb ∧ m.bb < q.eBb) →
          s.target.sRlBb ≤ m.bb ∧ m.bb ≤ s.target.eRlBb
  | thinReply r => ∀ w ∈ r.written, overlaps (r.sectors s.target.capacity) w = false
  | _ => True

end Event

/-- `bsr_start_resync` as target: `s_resync_bb` is the first bit that is set. -/
structure Start (s : Sys) : Prop where
  capacity : s.target.capacity < 2 ^ 64
  bits : ∀ b, s.target.oos b = true → s.target.sResyncBb ≤ b ∧ 8 * b < s.target.capacity
  marks : s.target.markedRl = []
  hull : s.target.sRlBb = 2 ^ 64 - 1 ∧ s.target.eRlBb = 0
  window : s.target.eResyncBb = s.target.sResyncBb
  offset : s.target.bmResyncFo = 0
  idle : s.pending = [] ∧ s.replied = []
  safe : s.undone = false

/-! ## The invariant -/

/-- What holds of the bitmap and the list. -/
structure Target.Ok (t : Target) : Prop where
  capacity : t.capacity < 2 ^ 64
  bits : ∀ b, t.oos b = true → t.sResyncBb ≤ b ∧ 8 * b < t.capacity
  nodup : (t.markedRl.map (·.bb)).Nodup
  inside : Inside t.capacity t.markedRl

/-- What holds of an open request. -/
structure Request.Ok (t : Target) (r : Request) : Prop where
  lt : r.sBb < r.eBb
  first : t.sResyncBb ≤ r.sBb
  last : r.eBb ≤ t.eResyncBb
  offset : r.eBb ≤ t.bmResyncFo
  inside : 8 * r.eBb < t.capacity + 8
  traced : ∀ b, r.sBb ≤ b → b < r.eBb → t.oos b = false → t.Traced b
  marked : ∀ w ∈ r.written, ∀ x, w.1 ≤ x → x < w.1 + w.2 → r.sBb ≤ x / 8 → x / 8 < r.eBb →
    t.oos (x / 8) = true → ∃ m, markedAt t.markedRl (x / 8) = some m ∧ m.rl (x % 8) = true

structure Inv (s : Sys) : Prop where
  target : s.target.Ok
  request : ∀ r ∈ s.pending, r.Ok s.target
  apart : ∀ q ∈ s.pending, ∀ r ∈ s.pending, q.sBb = r.sBb ∨ q.eBb ≤ r.sBb ∨ r.eBb ≤ q.sBb
  replied : ∀ p ∈ s.replied, p.2 ≤ s.target.bmResyncFo ∧
    ∀ r ∈ s.pending, p.2 ≤ r.sBb ∨ r.eBb ≤ p.1
  safe : s.undone = false

theorem Start.inv {s : Sys} (h : Start s) : Inv s where
  target := ⟨h.capacity, h.bits, by simp [h.marks], by simp [h.marks, Inside]⟩
  request := by simp [h.idle.1]
  apart := by simp [h.idle.1]
  replied := by simp [h.idle.2]
  safe := h.safe

theorem overlaps_iff {p q : Nat × Nat} : overlaps p q = true ↔
    ∃ x, (p.1 ≤ x ∧ x < p.1 + p.2) ∧ q.1 ≤ x ∧ x < q.1 + q.2 := by
  unfold overlaps
  rw [decide_eq_true_eq]
  constructor
  · intro h
    exact ⟨max p.1 q.1, by omega⟩
  · rintro ⟨x, _, _⟩
    omega

/-! ## Steps that do not touch the list -/

section Steps

variable {s : Sys} {t t' : Target} {r : Request}

open Request

theorem Request.Ok.mem_sectors (h : r.Ok t) {x : Nat} (hx : x < t.capacity) :
    ((r.sectors t.capacity).1 ≤ x ∧ x < (r.sectors t.capacity).1 + (r.sectors t.capacity).2) ↔
      r.sBb ≤ x / 8 ∧ x / 8 < r.eBb := by
  simp only [sectors]
  omega

/-- The request still holds when bits of other blocks change. -/
theorem Request.Ok.frame (h : r.Ok t) {oos : Nat → Bool}
    (hoos : ∀ b, r.sBb ≤ b → b < r.eBb → oos b = t.oos b) : r.Ok { t with oos := oos } where
  lt := h.lt
  first := h.first
  last := h.last
  offset := h.offset
  inside := h.inside
  traced := fun b hlo hhi hb => h.traced b hlo hhi ((hoos b hlo hhi).symm.trans hb)
  marked := fun w hw x hx hx' hlo hhi hb =>
    h.marked w hw x hx hx' hlo hhi ((hoos _ hlo hhi).symm.trans hb)

theorem Target.Ok.frame (h : t.Ok) {oos : Nat → Bool} (hoos : ∀ b, oos b = true → t.oos b = true) :
    ({ t with oos := oos } : Target).Ok where
  capacity := h.capacity
  bits := fun b hb => h.bits b (hoos b hb)
  nodup := h.nodup
  inside := h.inside

open List

theorem Inv.answered (h : Inv s) (hr : r ∈ s.pending) {pieces : List (Nat × Nat)} (htarget : t.Ok)
    (hfo : t.bmResyncFo = s.target.bmResyncFo)
    (hrequest : ∀ q ∈ s.pending, q.sBb ≠ r.sBb → (q.eBb ≤ r.sBb ∨ r.eBb ≤ q.sBb) → q.Ok t)
    (hsafe : r.undoneBy pieces = false) : Inv (s.answered r t pieces) where
  target := htarget
  request := by
    intro q hq
    obtain ⟨hq, hne⟩ := mem_filter.mp hq
    have hne : q.sBb ≠ r.sBb := by simpa using hne
    exact hrequest q hq hne ((h.apart q hq r hr).resolve_left hne)
  apart := fun p hp q hq => h.apart p (mem_of_mem_filter hp) q (mem_of_mem_filter hq)
  replied := by
    intro p hp
    rcases mem_cons.mp hp with rfl | hp
    · refine ⟨hfo ▸ (h.request r hr).offset, fun q hq => ?_⟩
      obtain ⟨hq, hne⟩ := mem_filter.mp hq
      exact ((h.apart q hq r hr).resolve_left (by simpa using hne)).symm
    · refine ⟨hfo ▸ (h.replied p hp).1, fun q hq => ?_⟩
      exact (h.replied p hp).2 q (mem_of_mem_filter hq)
  safe := by simp [Sys.answered, h.safe, hsafe]

open Event

theorem Inv.thinReply (h : Inv s) (hr : r ∈ s.pending) (hguard : (thinReply r).Guarded s) :
    Inv ((thinReply r).exec s) := by
  refine h.answered hr h.target rfl (fun q hq _ _ => h.request q hq) ?_
  simpa [undoneBy, Event.Guarded] using hguard

theorem Inv.isInSync (h : Inv s) (hr : r ∈ s.pending) : Inv ((isInSync r).exec s) := by
  have hok := h.request r hr
  have hlt := hok.lt
  have hinside := hok.inside
  refine h.answered hr (h.target.frame fun b hb => ?_) rfl (fun q hq _ hapart => ?_) rfl
  · split_ifs at hb
    exact hb
  refine (h.request q hq).frame fun b hlo hhi => if_neg fun hwhole => ?_
  have hb := whole_inside (by simp only [sectors]; omega)
    (by simp only [sectors]; omega) hwhole
  simp only [sectors] at hb
  omega

theorem Inv.complete (h : Inv s) {bb : Nat} (hlegal : (complete bb).Legal s) :
    Inv ((complete bb).exec s) where
  target := by
    refine h.target.frame fun b hb => ?_
    by_cases heq : b = bb
    · simp [heq] at hb
    · simpa [heq] using hb
  request := by
    obtain ⟨p, hp, _, _⟩ := hlegal
    intro r hr
    have hapart := (h.replied p hp).2 r hr
    exact (h.request r hr).frame fun b hb hb' => Function.update_of_ne (by omega) _ _
  apart := h.apart
  replied := h.replied
  safe := h.safe

theorem Inv.newRequest (h : Inv s) {sBb eBb : Nat} (hlegal : (Event.request sBb eBb).Legal s) :
    Inv ((Event.request sBb eBb).exec s) := by
  obtain ⟨_, hlt, -, hset⟩ := hlegal
  have hbits := h.target.bits
  refine ⟨{ h.target with bits := hbits }, ?_, ?_, ?_, h.safe⟩
  · intro r hr
    rcases mem_cons.mp hr with rfl | hr
    · have hlast := (hbits (eBb - 1) (hset _ (by omega) (by omega))).2
      refine ⟨hlt, (hbits sBb (hset sBb (Nat.le_refl _) hlt)).1, Nat.le_max_right _ _,
        Nat.le_refl _, by dsimp only [exec]; omega, fun b hlo hhi hb => ?_, by simp⟩
      exact absurd ((hset b hlo hhi).symm.trans hb) Bool.noConfusion
    · have hok := h.request r hr
      have hoffset := hok.offset
      exact { hok with
        last := Nat.le_trans hok.last (Nat.le_max_left _ _)
        offset := by dsimp only [exec]; omega }
  · intro q hq r hr
    rcases mem_cons.mp hq with rfl | hq <;> rcases mem_cons.mp hr with rfl | hr
    · exact .inl rfl
    · have := (h.request r hr).offset
      exact .inr (.inr (by dsimp only; omega))
    · have := (h.request q hq).offset
      exact .inr (.inl (by dsimp only; omega))
    · exact h.apart q hq r hr
  · intro p hp
    obtain ⟨_, hapart⟩ := h.replied p hp
    refine ⟨by dsimp only [exec]; omega, fun r hr => ?_⟩
    rcases mem_cons.mp hr with rfl | hr
    · exact .inl (by dsimp only; omega)
    · exact hapart r hr

/-! ## Replicated writes -/

variable {sector n : Nat}

/-- A write that meets no open request and leaves no mark. -/
theorem Request.Ok.writePaused (h : r.Ok t) (hn : 0 < n)
    (hin : sector + n ≤ t.capacity) (hmiss : overlaps (sector, n) (r.sectors t.capacity) = false) :
    ({ r with written := (sector, n) :: r.written } : Request).Ok (t.setInSync sector n).1 := by
  have hno : ∀ x, sector ≤ x → x < sector + n → r.sBb ≤ x / 8 → ¬ x / 8 < r.eBb := by
    intro x hx hx' hlo hhi
    refine absurd (overlaps_iff.mpr ⟨x, ⟨hx, hx'⟩, ?_⟩) (not_eq_true _ ▸ hmiss)
    exact (h.mem_sectors (by omega)).mpr ⟨hlo, hhi⟩
  have hkeep : r.Ok (t.setInSync sector n).1 := by
    refine h.frame fun b hlo hhi => if_neg fun hwhole => ?_
    obtain ⟨hb, hb'⟩ := whole_inside hn hin hwhole
    exact hno (8 * b) hb hb' (by omega) (by omega)
  refine { hkeep with marked := fun w hw x hx hx' hlo hhi hb => ?_ }
  rcases mem_cons.mp hw with rfl | hw
  · exact absurd hhi (hno x hx hx' hlo)
  · exact hkeep.marked w hw x hx hx' hlo hhi hb

variable {b : Nat}

theorem setInSync_oos_le (t : Target) (sector n : Nat)
    (h : (t.setInSync sector n).1.oos b = true) : t.oos b = true := by
  rw [setInSync_oos] at h
  split_ifs at h
  exact h

theorem Target.Traced.mono (h : t.Traced b) (hkept : Kept t t') : t'.Traced b := by
  rcases h with ⟨hs, he⟩ | hlisted
  · exact .inl ⟨Nat.le_trans hkept.sRlBb hs, Nat.le_trans he hkept.eRlBb⟩
  obtain ⟨m, hm⟩ := Option.isSome_iff_exists.mp hlisted
  obtain ⟨_, hm', -⟩ := hkept.markedRl b m hm
  exact .inr (by simp [hm'])

theorem Request.Ok.writeMarked (h : r.Ok t) (hcap : t.capacity < 2 ^ 64) (hn : 0 < n)
    (hin : sector + n ≤ t.capacity) :
    ({ r with written := (sector, n) :: r.written } : Request).Ok (receiveData t sector n true) := by
  have hkept := listAddMarked_kept (t.setInSync sector n).1 sector (sector + n) n (t.setInSync sector n).2
  change Request.Ok (listAddMarked (t.setInSync sector n).1 sector (sector + n) n
    (t.setInSync sector n).2) _
  refine ⟨h.lt, hkept.sResyncBb ▸ h.first, hkept.eResyncBb ▸ h.last, hkept.bmResyncFo ▸ h.offset,
    hkept.capacity ▸ h.inside, fun b hlo hhi hb => ?_, fun w hw x hx hx' hlo hhi hb => ?_⟩
  · rw [hkept.oos] at hb
    cases hold : t.oos b with
    | false =>
      have htraced : (t.setInSync sector n).1.Traced b := h.traced b hlo hhi hold
      exact htraced.mono hkept
    | true =>
      -- the write has set the block in sync
      have hwhole : wholeStart sector ≤ b ∧ b < wholeEnd t.capacity sector n := by
        by_contra hno
        rw [setInSync_oos, if_neg hno, hold] at hb
        cases hb
      obtain ⟨hb', hb''⟩ := whole_inside hn hin hwhole
      exact listAddMarked_traced (t := (t.setInSync sector n).1) hn hin hcap (setInSync_count hwhole hold) hb' hb'' hb
  · rw [hkept.oos] at hb
    rcases mem_cons.mp hw with rfl | hw
    · rw [listAddMarked_markedRl]
      refine addedMarks_marked hn hin hcap ⟨?_, ?_⟩ hx hx' (fun hwhole => ?_) hb
      · exact Nat.le_trans h.first hlo
      · exact Nat.le_trans (Nat.le_of_lt hhi) h.last
      · rw [setInSync_oos, if_pos (whole_covers hin hwhole.1 hwhole.2)] at hb
        cases hb
    · obtain ⟨m, hm, hrl⟩ := h.marked w hw x hx hx' hlo hhi (setInSync_oos_le t sector n hb)
      obtain ⟨m', hm', hgrow⟩ := hkept.markedRl _ m hm
      exact ⟨m', hm', hgrow _ hrl⟩

theorem Target.Ok.receiveData (h : t.Ok) (hn : 0 < n) (hin : sector + n ≤ t.capacity)
    (syncTarget : Bool) : (receiveData t sector n syncTarget).Ok := by
  have hbits : (t.setInSync sector n).1.Ok := h.frame fun b hb => setInSync_oos_le t sector n hb
  cases syncTarget with
  | false => exact hbits
  | true =>
    have hkept := listAddMarked_kept (t.setInSync sector n).1 sector (sector + n) n
      (t.setInSync sector n).2
    change (listAddMarked (t.setInSync sector n).1 sector (sector + n) n (t.setInSync sector n).2).Ok
    refine ⟨hkept.capacity ▸ h.capacity, ?_, ?_, ?_⟩
    · rw [hkept.oos, hkept.sResyncBb, hkept.capacity]
      exact hbits.bits
    · rw [listAddMarked_markedRl]
      exact addedMarks_nodup h.nodup
    · rw [listAddMarked_markedRl, hkept.capacity]
      exact addedMarks_inside hin h.inside

theorem receiveData_bmResyncFo (t : Target) (sector n : Nat) (syncTarget : Bool) :
    (receiveData t sector n syncTarget).bmResyncFo = t.bmResyncFo := by
  cases syncTarget with
  | false => rfl
  | true => exact (listAddMarked_kept _ _ _ _ _).bmResyncFo

theorem Inv.write (h : Inv s) {syncTarget : Bool} (hlegal : (write sector n syncTarget).Legal s)
    (hguard : (write sector n syncTarget).Guarded s) :
    Inv ((write sector n syncTarget).exec s) := by
  obtain ⟨hn, hin⟩ := hlegal
  refine ⟨h.target.receiveData hn hin syncTarget, ?_, ?_, ?_, h.safe⟩
  · intro r' hr'
    obtain ⟨r, hr, rfl⟩ := mem_map.mp hr'
    cases syncTarget with
    | true => exact (h.request r hr).writeMarked h.target.capacity hn hin
    | false => exact (h.request r hr).writePaused hn hin (hguard.resolve_left Bool.noConfusion r hr)
  · intro _ hq' r' hr'
    obtain ⟨q, hq, rfl⟩ := mem_map.mp hq'
    obtain ⟨r, hr, rfl⟩ := mem_map.mp hr'
    exact h.apart q hq r hr
  · intro p hp
    obtain ⟨hoff, hapart⟩ := h.replied p hp
    refine ⟨(receiveData_bmResyncFo _ _ _ _).symm ▸ hoff, fun r' hr' => ?_⟩
    obtain ⟨r, hr, rfl⟩ := mem_map.mp hr'
    exact hapart r hr

/-! ## Resync data -/

theorem prunedOos_true (h : prunedOos t t.markedRl b = true) : t.oos b = true ∧
    ∀ m, markedAt t.markedRl b = some m → stays t m = true := by
  simp only [prunedOos, and_eq_true, all_eq_true] at h
  refine ⟨h.1, fun m hm => ?_⟩
  have hfull : m.isFull = false := by simpa [markedAt_bb hm] using h.2 m (markedAt_mem hm)
  simp [stays, hfull, markedAt_bb hm, h.1]

theorem Request.Ok.not_writable (h : r.Ok t) (hnodup : (t.markedRl.map (·.bb)).Nodup) {w : Nat × Nat}
    (hw : w ∈ r.written) {x : Nat} (hx : w.1 ≤ x) (hx' : x < w.1 + w.2) (hlo : r.sBb ≤ x / 8)
    (hhi : x / 8 < r.eBb) : ¬ Writable (pruned t) x := by
  have hmarked := h.marked w hw x hx hx' hlo hhi
  have hat : markedAt (pruned t).markedRl (x / 8) = (markedAt t.markedRl (x / 8)).filter (stays t) :=
    markedAt_filter hnodup _
  unfold Writable
  rw [hat]
  cases hm : markedAt t.markedRl (x / 8) with
  | none =>
    intro hoos
    obtain ⟨m, hm', -⟩ := hmarked (prunedOos_true hoos).1
    simp [hm] at hm'
  | some m =>
    cases hstays : stays t m with
    | true =>
      have hoos : t.oos (x / 8) = true := by
        have := (and_eq_true_iff.mp hstays).2
        rwa [markedAt_bb hm] at this
      obtain ⟨m', hm', hrl⟩ := hmarked hoos
      obtain rfl : m = m' := Option.some.inj (hm.symm.trans hm')
      simp [Option.filter_some, hstays, hrl]
    | false =>
      simp only [Option.filter_some, hstays, false_eq_true, if_false]
      intro hoos
      rw [(prunedOos_true hoos).2 m hm] at hstays
      cases hstays

/-- The receiver looks at the bitmap when such a sector is in the range. -/
theorem Request.Ok.not_unguarded (h : r.Ok t) {w : Nat × Nat} (hw : w ∈ r.written) {x eNextBb : Nat}
    (hx : w.1 ≤ x) (hx' : x < w.1 + w.2) (hlo : r.sBb ≤ x / 8) (hhi : x / 8 < r.eBb)
    (hnext : x / 8 < eNextBb) (hbound : eNextBb < 2 ^ 64) : ¬ Unguarded t r.sBb eNextBb := by
  rintro ⟨hnil, hmiss⟩
  have hnone : ∀ b, markedAt t.markedRl b = none := by
    intro b
    rw [hnil]
    rfl
  cases hoos : t.oos (x / 8) with
  | true =>
    obtain ⟨m, hm, -⟩ := h.marked w hw x hx hx' hlo hhi hoos
    simp [hnone] at hm
  | false =>
    rcases h.traced _ hlo hhi hoos with ⟨_, _⟩ | hlisted
    · have hpred : pred64 eNextBb = eNextBb - 1 := by
        unfold pred64
        omega
      simp only [isOutOfSyncAfterReplication, hpred, and_eq_false_iff, or_eq_false_iff,
        decide_eq_false_iff_not] at hmiss
      omega
    · simp [hnone] at hlisted

/-- A reply leaves the other requests as they are, if the entries it takes from the list lie between
`s_rl_bb` and `e_rl_bb`. -/
theorem Request.Ok.pruned (h : r.Ok t) (hnodup : (t.markedRl.map (·.bb)).Nodup)
    (hhull : ∀ m ∈ t.markedRl, stays t m = false → r.sBb ≤ m.bb → m.bb < r.eBb →
      t.sRlBb ≤ m.bb ∧ m.bb ≤ t.eRlBb) : r.Ok (pruned t) := by
  have hat : ∀ b, markedAt (Resync.pruned t).markedRl b = (markedAt t.markedRl b).filter (stays t) :=
    markedAt_filter hnodup
  refine { h with traced := fun b hlo hhi hb => ?_, marked := fun w hw x hx hx' hlo hhi hb => ?_ }
  · -- an entry of the block is taken from the list, since its bit is not set any more
    have hentry : ∀ m ∈ t.markedRl, m.bb = b → stays t m = false →
        (Resync.pruned t).Traced b := fun m hm hmb hstays => by
      subst hmb
      exact .inl (hhull m hm hstays hlo hhi)
    cases hoos : t.oos b with
    | false =>
      rcases h.traced b hlo hhi hoos with hcover | hlisted
      · exact .inl hcover
      · obtain ⟨m, hm⟩ := Option.isSome_iff_exists.mp hlisted
        exact hentry m (markedAt_mem hm) (markedAt_bb hm) (by simp [stays, markedAt_bb hm, hoos])
    | true =>
      have hfull : ∃ m ∈ t.markedRl, m.isFull = true ∧ m.bb = b := by
        simpa [Resync.pruned, prunedOos, hoos] using hb
      obtain ⟨m, hm, hfull, hmb⟩ := hfull
      exact hentry m hm hmb (by simp [stays, hfull])
  · obtain ⟨hoos, hstays⟩ := prunedOos_true hb
    obtain ⟨m, hm, hrl⟩ := h.marked w hw x hx hx' hlo hhi hoos
    exact ⟨m, by simp [hat, hm, Option.filter_some, hstays m hm], hrl⟩

theorem Target.Ok.pruned (h : t.Ok) : (pruned t).Ok where
  capacity := h.capacity
  bits := fun b hb => h.bits b (prunedOos_true hb).1
  nodup := (filter_sublist.map _).nodup h.nodup
  inside := fun m hm => h.inside m (mem_of_mem_filter hm)

theorem Inv.reply (h : Inv s) (hr : r ∈ s.pending) (hguard : (reply r).Guarded s) :
    Inv ((reply r).exec s) := by
  obtain ⟨htail, hhull⟩ := hguard
  have hok := h.request r hr
  have hlt := hok.lt
  have hinside := hok.inside
  have hcap := h.target.capacity
  have hn : 0 < (r.sectors s.target.capacity).2 := by
    simp only [sectors]
    omega
  have hspec : SplitRecv s.target (r.sectors s.target.capacity).1 (r.sectors s.target.capacity).2 _ :=
    splitRecvResyncRead_spec hn (fun m hm hfull => h.target.inside.full hm hfull) h.target.nodup
  obtain ⟨_, htarget, hout⟩ := hspec.target
  have hfirst : (r.sectors s.target.capacity).1 / 8 = r.sBb := by
    simp only [sectors]
    omega
  have hlast : ((r.sectors s.target.capacity).1 + (r.sectors s.target.capacity).2 - 1) / 8 = r.eBb - 1 := by
    simp only [sectors]
    omega
  rw [hfirst, hlast] at hout
  have hprunedOk := h.target.pruned
  refine h.answered hr ?_ (by rw [htarget]; rfl) (fun q hq hne hapart => ?_) ?_
  · rw [htarget]
    refine { hprunedOk with bits := fun b hb => ?_ }
    by_cases hrange : b < r.sBb ∨ r.eBb - 1 < b
    · exact hprunedOk.bits b ((hout b hrange).symm.trans hb)
    · have hfrom := hok.first
      exact ⟨by dsimp only [pruned]; omega, by dsimp only [pruned]; omega⟩
  · rw [htarget]
    refine Request.Ok.frame ?_ fun b hlo hhi => hout b (by omega)
    exact (h.request q hq).pruned h.target.nodup fun m hm hstays hlo hhi =>
      hhull m hm hstays ⟨q, hq, hne, hlo, hhi⟩
  · -- a sector written since the request is neither writable nor out of the receiver's sight
    rw [undoneBy, any_eq_false]
    intro p hp hany
    obtain ⟨w, hw, hover⟩ := any_eq_true.mp hany
    obtain ⟨x, ⟨hx, hx'⟩, hwx, hwx'⟩ := overlaps_iff.mp hover
    obtain ⟨_, _⟩ := hspec.inside p hp
    have hlo : r.sBb ≤ x / 8 := by omega
    have hhi : x / 8 < r.eBb := by
      omega
    have hwhole : x < ((r.sectors s.target.capacity).1 + (r.sectors s.target.capacity).2) / 8 * 8 := by
      by_contra hcut
      refine absurd (overlaps_iff.mpr ⟨x, ⟨?_, ?_⟩, hwx, hwx'⟩) (not_eq_true _ ▸ htail w hw)
      · exact Nat.not_lt.mp hcut
      · dsimp only
        omega
    rcases hspec.writable p hp x hx hx' hwhole with hwritable | hunguarded
    · exact hok.not_writable h.target.nodup hw hwx hwx' hlo hhi hwritable
    rw [hfirst] at hunguarded
    refine hok.not_unguarded hw hwx hwx' hlo hhi (by omega) ?_ hunguarded
    omega

end Steps

/-! ## Whole runs -/

theorem Inv.step {s s' : Sys} {e : Event} (h : Inv s) (hguard : e.Guarded s) (hstep : e.Step s s') :
    Inv s' := by
  obtain ⟨hlegal, rfl⟩ := hstep
  cases e with
  | request sBb eBb => exact h.newRequest hlegal
  | write sector n syncTarget => exact h.write hlegal hguard
  | reply r => exact h.reply hlegal hguard
  | thinReply r => exact h.thinReply hlegal hguard
  | isInSync r => exact h.isInSync hlegal
  | complete bb => exact h.complete hlegal

/-- A resync of blocks 10 and 20 that starts. -/
def twoBlocks : Sys where
  target :=
    { capacity := 240
      oos := fun b => decide (b = 10 ∨ b = 20)
      markedRl := []
      sRlBb := 2 ^ 64 - 1
      eRlBb := 0
      sResyncBb := 10
      eResyncBb := 10
      bmResyncFo := 0 }
  pending := []
  replied := []
  undone := false

theorem twoBlocks_start : Start twoBlocks where
  capacity := by decide
  bits := by
    intro b hb
    have hb : b = 10 ∨ b = 20 := by simpa [twoBlocks] using hb
    dsimp only [twoBlocks]
    omega
  marks := rfl
  hull := ⟨rfl, rfl⟩
  window := rfl
  offset := rfl
  idle := ⟨rfl, rfl⟩
  safe := rfl

/-- Both blocks are requested. -/
def twoRequests : Sys :=
  (Event.request 20 21).exec ((Event.request 10 11).exec twoBlocks)

theorem twoRequests_legal : (Event.request 10 11).Legal twoBlocks ∧
    (Event.request 20 21).Legal ((Event.request 10 11).exec twoBlocks) := by
  refine ⟨⟨by decide, by decide, fun b _ hb => ?_, fun b hb hb' => ?_⟩,
    ⟨by decide, by decide, fun b hb hb' => ?_, fun b hb hb' => ?_⟩⟩
  all_goals simp only [Event.exec, twoBlocks] at *
  · exact decide_eq_false (by omega)
  · exact decide_eq_true (by omega)
  · exact decide_eq_false (by omega)
  · exact decide_eq_true (by omega)

end Bsr.Resync
