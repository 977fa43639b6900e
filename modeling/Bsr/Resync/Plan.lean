import Mathlib

/-!
# The plan of the resync controller

`bsr_rs_controller` spreads the correction that it finds over the next steps, in a fifo with one
value for each.

* `Fifo` is `struct fifo_buffer`, on machine integers;
* `plan_total_iff` says when `total` is the sum of the values: as long as no value below 8 leaves
  the fifo, which the controller counts as 8.
-/

namespace Bsr.Resync

open List

/-- `struct fifo_buffer`. -/
structure Fifo where
  headIndex : Nat := 0
  total : BitVec 32 := 0
  values : List (BitVec 32)

def fifoAlloc (size : Nat) : Fifo where
  values := replicate size 0

namespace Fifo

variable (fb : Fifo)

def set (value : BitVec 32) : Fifo :=
  { fb with values := fb.values.map fun _ => value }

def addVal (value : BitVec 32) : Fifo :=
  { fb with values := fb.values.map (· + value) }

/-- The value at the head. -/
def head : BitVec 32 :=
  fb.values.getD fb.headIndex 0

/-- `fifo_push`, which returns `head`. -/
def push (value : BitVec 32) : Fifo :=
  { fb with
    values := fb.values.set fb.headIndex value
    headIndex := if fb.values.length ≤ fb.headIndex + 1 then 0 else fb.headIndex + 1 }

end Fifo

/-- What a step of the controller finds: `struct peer_device_conf`, the protocol and the sectors. -/
structure Turn where
  hz : BitVec 32
  resyncRate : BitVec 32
  cFillTarget : BitVec 32
  cDelayTarget : BitVec 32
  cMaxRate : BitVec 32
  cMinRate : BitVec 32
  agreedProVersion : Nat
  rsInFlight : BitVec 32
  sectIn : BitVec 32

namespace Turn

variable (t : Turn) (plan : Fifo)

def sleepTime : BitVec 32 :=
  t.hz / 10

/-- The sectors of one step at a rate. -/
def perStep (rate : BitVec 32) : BitVec 32 :=
  rate * 2 * t.sleepTime / t.hz

def want (steps : BitVec 32) : BitVec 32 :=
  if t.rsInFlight + t.sectIn = 0 then t.perStep t.resyncRate * steps
  else if t.cFillTarget ≠ 0 then t.cFillTarget
  else t.sectIn * t.cDelayTarget * t.hz / (t.sleepTime * 10)

def steps : BitVec 32 :=
  BitVec.ofNat 32 plan.values.length

/-- The correction for each step. -/
def cps : BitVec 32 :=
  (t.want (steps plan) - t.rsInFlight - plan.total).sdiv (steps plan)

/-- What leaves the plan in this step. -/
def leaving : BitVec 32 :=
  (plan.addVal (t.cps plan)).head

def currCorr : BitVec 32 :=
  if (t.leaving plan).slt 8 then 8 else t.leaving plan

/-- The sectors to request. -/
def reqSect : BitVec 32 :=
  let req := t.sectIn + t.currCorr plan
  let req := if req.slt 0 then 0 else req
  if (t.perStep t.cMaxRate).slt req then t.perStep t.cMaxRate
  else if 115 ≤ t.agreedProVersion ∧ req.slt (t.perStep t.cMinRate) then t.perStep t.cMinRate
  else req

def rsController : Fifo × BitVec 32 :=
  ({ (plan.addVal (t.cps plan)).push 0 with
    total := plan.total + t.cps plan * steps plan - t.currCorr plan }, t.reqSect plan)

end Turn

inductive PlanEvent where
  /-- A turn; `bsr_rs_number_requests` makes none without steps. -/
  | control (t : Turn)
  /-- `bsr_rs_controller_reset`. -/
  | reset
  /-- A new `c_plan_ahead`. -/
  | resize (size : Nat) (allocOk : Bool)

namespace Fifo

variable {fb : Fifo}

def exec (fb : Fifo) : PlanEvent → Fifo
  | .control t => if fb.values = [] then fb else (t.rsController fb).1
  | .reset => { fb.set 0 with total := 0 }
  | .resize size allocOk => if size ≠ fb.values.length ∧ allocOk then fifoAlloc size else fb

/-- `total` counts every planned correction once. -/
def Balanced (fb : Fifo) : Prop :=
  fb.total = fb.values.sum

/-- No less than 8 leaves the plan. -/
def Ample (fb : Fifo) : PlanEvent → Prop
  | .control t => fb.values ≠ [] → 8 ≤ (t.leaving fb).toInt
  | _ => True

/-- In every state of a run. -/
def StaysBalanced (fb : Fifo) : List PlanEvent → Prop
  | [] => fb.Balanced
  | e :: rest => fb.Balanced ∧ (fb.exec e).StaysBalanced rest

/-- In every step of a run. -/
def StaysAmple (fb : Fifo) : List PlanEvent → Prop
  | [] => True
  | e :: rest => fb.Ample e ∧ (fb.exec e).StaysAmple rest

theorem sum_addVal (l : List (BitVec 32)) (v : BitVec 32) :
    (l.map (· + v)).sum = l.sum + v * BitVec.ofNat 32 l.length := by
  rw [sum_map_add, map_id', map_const', sum_replicate, nsmul_eq_mul, mul_comm]
  rfl

theorem sum_set_zero (l : List (BitVec 32)) (i : Nat) : (l.set i 0).sum + l.getD i 0 = l.sum := by
  rw [sum_set']
  split_ifs with hi <;> simp [hi]

/-- A turn keeps the balance exactly if it takes 8 or more out of the plan. -/
theorem Balanced.control (h : fb.Balanced) (t : Turn) :
    (t.rsController fb).1.Balanced ↔ 8 ≤ (t.leaving fb).toInt := by
  have hadd := sum_addVal fb.values (t.cps fb)
  have hpush := sum_set_zero (fb.addVal (t.cps fb)).values fb.headIndex
  have hsum : ((t.rsController fb).1).values.sum + t.leaving fb =
      fb.total + t.cps fb * Turn.steps fb := hpush.trans (hadd.trans (by rw [h, Turn.steps]))
  have hleft : (t.rsController fb).1.Balanced ↔ t.currCorr fb = t.leaving fb := by
    unfold Balanced
    have htotal : (t.rsController fb).1.total = fb.total + t.cps fb * Turn.steps fb - t.currCorr fb := rfl
    rw [htotal, ← hsum]
    grind
  rw [hleft, Turn.currCorr]
  have hslt : (t.leaving fb).slt 8 = true ↔ (t.leaving fb).toInt < 8 := by simp [BitVec.slt]
  split_ifs with hless
  · rw [hslt] at hless
    refine iff_of_false (fun heq => ?_) (by omega)
    rw [← heq] at hless
    exact absurd hless (by decide)
  · rw [hslt] at hless
    exact iff_of_true rfl (by omega)

theorem balanced_alloc (size : Nat) : (fifoAlloc size).Balanced := by
  simp [Balanced, fifoAlloc]

theorem Balanced.exec (h : fb.Balanced) (e : PlanEvent) : (fb.exec e).Balanced ↔ fb.Ample e := by
  cases e with
  | control t =>
    rw [Fifo.exec, Ample]
    split_ifs with hnone
    · exact iff_of_true h fun hsome => absurd hnone hsome
    · rw [h.control t, forall_prop_of_true hnone]
  | reset =>
    refine iff_of_true ?_ trivial
    simp [Balanced, Fifo.exec, Fifo.set]
  | resize size allocOk =>
    refine iff_of_true ?_ trivial
    rw [Fifo.exec]
    split_ifs
    · exact balanced_alloc size
    · exact h

theorem Balanced.run (h : fb.Balanced) (events : List PlanEvent) :
    fb.StaysBalanced events ↔ fb.StaysAmple events := by
  induction events generalizing fb with
  | nil => exact iff_of_true h trivial
  | cons e rest ih =>
    rw [StaysBalanced, StaysAmple, and_iff_right h, ← h.exec e]
    by_cases hnext : (fb.exec e).Balanced
    · rw [ih hnext, and_iff_right hnext]
    · refine iff_of_false (fun hstays => hnext ?_) fun hboth => hnext hboth.1
      cases rest with
      | nil => exact hstays
      | cons => exact hstays.1

end Fifo

/-- In every run from an empty plan. -/
theorem plan_total_iff (size : Nat) (events : List PlanEvent) :
    (fifoAlloc size).StaysBalanced events ↔ (fifoAlloc size).StaysAmple events :=
  (Fifo.balanced_alloc size).run events

/-- All is in flight that is wanted, and 8 sectors more are requested. -/
theorem plan_total_off : ¬ (fifoAlloc 1).StaysBalanced [.control ⟨1000, 250, 100, 10, 102400, 250, 115, 100, 0⟩] := by
  intro h
  have htotal : (-8 : BitVec 32) = 0 := h.2
  exact absurd htotal (by decide)

end Bsr.Resync
