import Bsr.Lib.Reach

/-!
# Resync data that cannot be written to its end

The requests that resync data is split into share a counter, and so do those of a block with marked
sectors. When one of them cannot be allocated or submitted, `split_recv_resync_read` sets the
counter to the number of requests it has submitted, while these complete.

* `exec` has one step for each access to the counter;
* `Released` is what should hold, and `Inv.step` shows that it does if no request was complete when
  the counter was set.
-/

namespace Bsr.Resync.Counter

open Lib

/-- One of the counters. -/
structure Shared where
  /-- What it was set to, for all requests that are to share it. -/
  total : Nat
  /-- `submit_count` at that time. -/
  before : Nat
  /-- The request that takes it to zero gives back the pending acknowledgement. -/
  acks : Bool

def splitCount (total : Nat) : Shared :=
  ⟨total, 0, true⟩

def unmarkedCount (unmarked submitCount : Nat) : Shared :=
  ⟨unmarked, submitCount, false⟩

/-- Where `split_recv_resync_read` is. -/
inductive Pc
  | submits
  | reads
  | stores
  | decrements
  | returned
deriving DecidableEq, Repr

structure Sys where
  count : Int
  /-- The value read, and then the one to be stored. -/
  tmp : Int := 0
  submitted : Nat := 0
  completed : Nat := 0
  freed : Nat := 0
  unacked : Int := 1
  pc : Pc := .submits
deriving DecidableEq, Repr

inductive Event
  | submit
  | complete
  | read
  /-- C does not say which operand of the difference is read first. -/
  | readAgain (swapped : Bool)
  | store
  | decrement
deriving DecidableEq, Repr

variable (c : Shared)

def exec (s : Sys) : Event → Sys
  | .submit => { s with submitted := s.submitted + 1 }
  | .complete =>
    let s := { s with count := s.count - 1, completed := s.completed + 1 }
    if s.count = 0 then
      { s with freed := s.freed + 1, unacked := if c.acks then s.unacked - 1 else s.unacked }
    else s
  | .read => { s with tmp := s.count, pc := .reads }
  | .readAgain swapped =>
    let submitCount : Int := c.before + s.submitted
    { s with
      tmp := (if swapped then s.count - (s.tmp - submitCount) else s.tmp - (s.count - submitCount)) + 1
      pc := .stores }
  | .store => { s with count := s.tmp, pc := .decrements }
  | .decrement =>
    let s := { s with count := s.count - 1, pc := .returned }
    if s.count = 0 then { s with freed := s.freed + 1 } else s

/-- The request that fails is one of those that were counted. -/
def legal (s : Sys) : Event → Bool
  | .submit => s.pc = .submits ∧ s.submitted + 1 < c.total
  | .complete => s.completed < s.submitted
  | .read => s.pc = .submits
  | .readAgain _ => s.pc = .reads
  | .store => s.pc = .stores
  | .decrement => s.pc = .decrements

def Step (s : Sys) (e : Event) (s' : Sys) : Prop :=
  legal c s e = true ∧ s' = exec c s e

def Start (s : Sys) : Prop :=
  0 < c.total ∧ s = { count := c.total }

/-- After the path has returned, the counter says how many requests are left; the last one frees it
and gives back the acknowledgement. -/
structure Released (c : Shared) (s : Sys) : Prop where
  zero : s.pc = .returned → (s.count = 0 ↔ s.completed = s.submitted)
  freed : s.freed = if s.pc = .returned ∧ s.completed = s.submitted then 1 else 0
  unacked : c.acks = true → s.unacked = 1 - s.freed

/-- The counter is set while no request is complete, to the number of those that share it, and a
request is left to give back the acknowledgement. -/
def guarded (s : Sys) : Event → Bool
  | .store => s.completed = 0 ∧ c.before = 0
  | .decrement => c.acks = true → s.completed < s.submitted
  | _ => true

structure Inv (c : Shared) (s : Sys) : Prop where
  counted : s.submitted < c.total
  le : s.completed ≤ s.submitted
  unacked : c.acks = true → s.unacked = 1 - s.freed
  freed : s.freed = if s.pc = .returned ∧ s.completed = s.submitted then 1 else 0
  count : s.count = match s.pc with
    | .decrements => s.submitted - s.completed + 1
    | .returned => s.submitted - s.completed
    | _ => c.total - s.completed
  tmp : s.completed = 0 → s.tmp = match s.pc with
    | .reads => (c.total : Int)
    | .stores => c.before + s.submitted + 1
    | _ => s.tmp

variable {c : Shared} {s s' : Sys} {e : Event}

theorem Start.inv (h : Start c s) : Inv c s := by
  obtain ⟨hpos, rfl⟩ := h
  constructor <;> simp [hpos]

theorem Inv.step (h : Inv c s) (hguard : guarded c s e = true) (hstep : Step c s e s') : Inv c s' := by
  obtain ⟨_, rfl⟩ := hstep
  obtain ⟨_, _, _, _, _, _⟩ := h
  -- until the path has returned the counter is above the number of requests that are left
  cases e <;> constructor <;> grind [exec, legal, guarded]

/-- In a run of guarded steps the requests that are left when the path fails release the counter. -/
theorem split_counter_released {c : Shared} {s : Sys}
    (h : Reachable (Start c) (fun s e s' => guarded c s e = true ∧ Step c s e s') s) : Released c s := by
  have hinv : Inv c s := h.invariant (fun _ => Start.inv) fun _ _ _ hinv hstep => hinv.step hstep.1 hstep.2
  refine ⟨fun hpc => ?_, hinv.freed, hinv.unacked⟩
  have hcount := hinv.count
  rw [hpc] at hcount
  dsimp only at hcount
  omega

/-- Two requests complete after the third has failed. -/
theorem split_counter_released_two :
    Released (splitCount 3) ([.submit, .submit, .read, .readAgain false, .store,
      .complete, .decrement, .complete].foldl (exec (splitCount 3)) { count := 3 }) := by
  have hrun : Along (exec (splitCount 3)) (fun s e => guarded (splitCount 3) s e = true ∧
      legal (splitCount 3) s e = true) { count := 3 } [.submit, .submit, .read, .readAgain false, .store, .complete,
      .decrement, .complete] := by decide
  exact split_counter_released (Reachable.along (fun s e h => ⟨h.1, h.2, rfl⟩) (.start ⟨by decide, rfl⟩) hrun)

theorem reachable_run (es : List Event) (hpos : 0 < c.total) (hrun : Along (exec c) (fun s e => legal c s e = true)
    { count := c.total } es) : Reachable (Start c) (Step c) (es.foldl (exec c) { count := c.total }) :=
  Reachable.along (fun _ _ h => ⟨h, rfl⟩) (.start ⟨hpos, rfl⟩) hrun

/-- One of two requests completes before the third fails: the counter stays at one for ever. Nothing
was submitted: the counter is freed and the acknowledgement is not given back. Two requests were
submitted before those of the block: its counter stays at two. -/
theorem split_counter_not_released :
    (∃ s, Reachable (Start (splitCount 3)) (Step (splitCount 3)) s ∧ s.pc = .returned ∧
      s.completed = s.submitted ∧ s.count = 1 ∧ s.freed = 0 ∧ s.unacked = 1) ∧
    (∃ s, Reachable (Start (splitCount 1)) (Step (splitCount 1)) s ∧ s.pc = .returned ∧
      s.completed = s.submitted ∧ s.freed = 1 ∧ s.unacked = 1) ∧
    ∃ s, Reachable (Start (unmarkedCount 3 2)) (Step (unmarkedCount 3 2)) s ∧ s.pc = .returned ∧
      s.completed = s.submitted ∧ s.count = 2 ∧ s.freed = 0 := by
  refine ⟨⟨_, reachable_run [.submit, .submit, .complete, .read, .readAgain false, .store, .decrement, .complete]
      (by decide) (by decide), ?_⟩, ⟨_, reachable_run [.read, .readAgain false, .store, .decrement] (by decide)
      (by decide), ?_⟩, ⟨_, reachable_run [.submit, .read, .readAgain false, .store, .decrement, .complete]
      (by decide) (by decide), ?_⟩⟩ <;> decide

end Bsr.Resync.Counter
