import Mathlib

/-!
# The error exits of `receive_Data`

Once the peer request of a write is built, `receive_Data` (`bsr_receiver.c`) counts it in, step by
step: in the epoch, as unacknowledged, in the interval tree, in the activity log. An error on the
way goes to one of three labels, which undo a part of that.

* `Course` says what the write is and how the calls on the way end;
* `receiveWrite` follows the function from the built request to its exits;
* `Unwound` is what an error exit should leave behind, and `receiveWrite_unwound_iff` when it does.

The epoch's size, the lists of peer requests and the sequence numbers are left out.
-/

namespace Bsr.Receiver

/-- What is counted. -/
structure Counts where
  /-- `unacked_cnt`. -/
  unacked : Int
  /-- `epoch->active`. -/
  active : Int
  /-- `local_cnt`, the references on the local disk. -/
  localCnt : Int
  /-- The references on the extents of the activity log. -/
  refs : Nat → Nat
  /-- The interval of the request is in `write_requests`. -/
  inTree : Bool
  /-- How often the peer request has been freed. -/
  freed : Nat

/-- The result of `handle_write_conflicts`. -/
inductive Conflicts where
  | none
  /-- `-ENOENT`: the write is answered and done. -/
  | superseded
  | interrupted
deriving DecidableEq, Repr

/-- A write, and how the calls that `receive_Data` makes end. -/
structure Course where
  /-- `EE_SEND_WRITE_ACK`. -/
  sendWriteAck : Bool := false
  twoPrimaries : Bool := false
  agreedProVersion : Nat := 113
  /-- `EE_TRIM`, `EE_ZEROOUT`, `EE_WRITE_SAME` or `EE_IS_BARRIER`. -/
  special : Bool := false
  /-- `repl_state[NOW] >= L_SYNC_TARGET`. -/
  syncTarget : Bool := false
  /-- The peer's `disk_state[NOW] < D_INCONSISTENT`. -/
  peerWithoutDisk : Bool := false
  /-- The extents of the write. -/
  extents : List Nat
  /-- `wait_for_and_update_peer_seq` is interrupted. -/
  seqInterrupted : Bool := false
  conflicts : Conflicts := .none
  /-- The resync on the same sectors takes too long. -/
  timeout : Bool := false
  /-- `bsr_al_begin_io_for_peer` loses the connection after so many extents. -/
  abortedAfter : Option Nat := none
  fastpath : Bool := false
  nonblockFails : Bool := false
  submitFails : Bool := false
  /-- `list_add_marked` or `dedup_from_resync_pending` fails. -/
  markFails : Bool := false
  /-- The extent is committed when `put_actlog` looks for it. -/
  committed : Nat → Bool := fun _ => true

/-- How `receive_Data` ends. -/
inductive Exit where
  | superseded
  /-- Handed to the submitter. -/
  | queued
  | submitted
  /-- An error, after the request was submitted. -/
  | submittedError
  | error
deriving DecidableEq, Repr

def Exit.isError : Exit → Bool
  | .submittedError | .error => true
  | .superseded | .queued | .submitted => false

namespace Counts

variable (c : Counts)

/-- References on extents. -/
def alGet (extents : List Nat) : Counts :=
  { c with refs := fun e => if e ∈ extents then c.refs e + 1 else c.refs e }

/-- `put_actlog` over different extents: one that is not found committed, or not held, is only
logged. -/
def putActlog (found : Nat → Bool) (extents : List Nat) : Counts :=
  { c with refs := fun e => if e ∈ extents ∧ found e = true ∧ 0 < c.refs e then c.refs e - 1 else c.refs e }

/-- From the label `out_interrupted` on. -/
def outInterrupted : Counts :=
  { c with active := c.active - 1, localCnt := c.localCnt - 1, freed := c.freed + 1 }

/-- From the labels `timeout_ee_wait` and `disconnect_during_al_begin_io` on. -/
def disconnect : Counts :=
  outInterrupted { c with inTree := false }

end Counts

namespace Course

/-- The submission, and what follows it. `inActlog` is `EE_IN_ACTLOG`. -/
def submit (w : Course) (c : Counts) (inActlog : Bool) : Exit × Counts :=
  if w.submitFails then
    -- `bsr_al_complete_io`, in any case
    (.error, (c.putActlog (fun e => inActlog || w.committed e) w.extents).disconnect)
  else if w.markFails then (.submittedError, c)
  else (.submitted, c)

/-- The activity log part. -/
def beginAl (w : Course) (c : Counts) : Exit × Counts :=
  if w.agreedProVersion ≥ 110 ∨ w.peerWithoutDisk then
    if w.special then
      match w.abortedAfter with
      | some k =>
        let c := (c.alGet (w.extents.take k)).putActlog w.committed (w.extents.take k)
        let c := if w.sendWriteAck then { c with unacked := c.unacked - 1 } else c
        (.error, c.disconnect)
      | none => w.submit (c.alGet w.extents) true
    else if w.fastpath then w.submit (c.alGet w.extents) true
    else if w.agreedProVersion ≥ 113 then
      if w.nonblockFails then (.error, c.disconnect)
      else w.submit (c.alGet w.extents) true
    else (.queued, c)
  else w.submit c false

/-- `receive_Data`, from the built peer request on; `c` is what it found when it was called. -/
def receiveWrite (w : Course) (c : Counts) : Exit × Counts :=
  let c := { c with localCnt := c.localCnt + 1, active := c.active + 1 }
  let c := if w.sendWriteAck then { c with unacked := c.unacked + 1 } else c
  if w.twoPrimaries ∧ w.seqInterrupted then (.error, c.outInterrupted)
  -- `handle_write_conflicts` takes the interval out of the tree again
  else if w.twoPrimaries ∧ w.conflicts = .superseded then
    (.superseded, { c with localCnt := c.localCnt - 1 })
  else if w.twoPrimaries ∧ w.conflicts = .interrupted then (.error, c.outInterrupted)
  else
    let c := { c with inTree := c.inTree || w.twoPrimaries }
    if (w.agreedProVersion < 110 ∨ w.agreedProVersion ≥ 113) ∧ w.syncTarget ∧ w.timeout then (.error, c.disconnect)
    else w.beginAl c

end Course

/-- An error exit leaves everything as it was and frees the request once. -/
structure Unwound (c c' : Counts) : Prop where
  unacked : c'.unacked = c.unacked
  active : c'.active = c.active
  localCnt : c'.localCnt = c.localCnt
  refs : ∀ e, c'.refs e = c.refs e
  inTree : c'.inTree = c.inTree
  freed : c'.freed = c.freed + 1

/-! ## When it is unwound -/

namespace Course

/-- The call that makes `receive_Data` return an error. -/
inductive Failure where
  | seq
  | conflicts
  | timeout
  | forPeer (k : Nat)
  | nonblock
  | submit (inActlog : Bool)
  | marking
deriving DecidableEq, Repr

def submitFailure (w : Course) (inActlog : Bool) : Option Failure :=
  if w.submitFails then some (.submit inActlog) else if w.markFails then some .marking else none

/-- The first of the calls that fails. -/
def failure (w : Course) : Option Failure :=
  if w.twoPrimaries ∧ w.seqInterrupted then some .seq
  else if w.twoPrimaries ∧ w.conflicts = .superseded then none
  else if w.twoPrimaries ∧ w.conflicts = .interrupted then some .conflicts
  else if (w.agreedProVersion < 110 ∨ w.agreedProVersion ≥ 113) ∧ w.syncTarget ∧ w.timeout then some .timeout
  else if w.agreedProVersion ≥ 110 ∨ w.peerWithoutDisk then
    if w.special then
      match w.abortedAfter with
      | some k => some (.forPeer k)
      | none => w.submitFailure true
    else if w.fastpath then w.submitFailure true
    else if w.agreedProVersion ≥ 113 then if w.nonblockFails then some .nonblock else w.submitFailure true
    else none
  else w.submitFailure false

/-- The labels undo all that was done before the failure. -/
def Undone (w : Course) (c : Counts) : Option Failure → Prop
  | none => True
  | some .seq | some .conflicts | some .timeout | some .nonblock => w.sendWriteAck = false
  -- what was got and is not committed is not put
  | some (.forPeer k) => ∀ e ∈ w.extents.take k, w.committed e = true
  | some (.submit inActlog) =>
    w.sendWriteAck = false ∧ (inActlog = true ∨ ∀ e ∈ w.extents, w.committed e = true → c.refs e = 0)
  | some .marking => False

/-- The write is counted in. -/
def counted (w : Course) (c : Counts) (inTree : Bool) : Counts :=
  { c with
    localCnt := c.localCnt + 1
    active := c.active + 1
    unacked := if w.sendWriteAck then c.unacked + 1 else c.unacked
    inTree := inTree }

theorem receiveWrite_eq (w : Course) (c : Counts) : w.receiveWrite c =
      if w.twoPrimaries ∧ w.seqInterrupted then (.error, (w.counted c c.inTree).outInterrupted)
      else if w.twoPrimaries ∧ w.conflicts = .superseded then
        (.superseded, { w.counted c c.inTree with localCnt := c.localCnt })
      else if w.twoPrimaries ∧ w.conflicts = .interrupted then (.error, (w.counted c c.inTree).outInterrupted)
      else if (w.agreedProVersion < 110 ∨ w.agreedProVersion ≥ 113) ∧ w.syncTarget ∧ w.timeout then
        (.error, (w.counted c (c.inTree || w.twoPrimaries)).disconnect)
      else w.beginAl (w.counted c (c.inTree || w.twoPrimaries)) := by
  unfold receiveWrite counted
  cases w.sendWriteAck <;> simp

theorem counted_unacked_iff (w : Course) (c : Counts) (inTree : Bool) :
    (w.counted c inTree).unacked = c.unacked ↔ w.sendWriteAck = false := by
  unfold counted
  cases w.sendWriteAck with
  | false => simp
  | true =>
    simp only [if_true, Bool.true_eq_false, iff_false]
    omega

theorem interrupted_iff (w : Course) (c : Counts) :
    Unwound c (w.counted c c.inTree).outInterrupted ↔ w.sendWriteAck = false := by
  rw [← w.counted_unacked_iff c c.inTree]
  refine ⟨fun h => h.unacked, fun h => ⟨h, ?_, ?_, fun _ => rfl, rfl, rfl⟩⟩
  · exact Int.add_sub_cancel ..
  · exact Int.add_sub_cancel ..

variable {c : Counts}

variable (w : Course) (hc : c.inTree = false) (inTree : Bool)

include w hc inTree

/-- The labels that take the request from the lists, whatever was done to the activity log. -/
theorem disconnect_iff (unacked : Int) (refs : Nat → Nat) :
    Unwound c ({ w.counted c inTree with unacked := unacked, refs := refs }).disconnect ↔
      unacked = c.unacked ∧ ∀ e, refs e = c.refs e := by
  refine ⟨fun h => ⟨h.unacked, h.refs⟩, fun h => ⟨h.1, ?_, ?_, h.2, hc.symm, rfl⟩⟩
  · exact Int.add_sub_cancel ..
  · exact Int.add_sub_cancel ..

theorem counted_disconnect_iff : Unwound c (w.counted c inTree).disconnect ↔ w.sendWriteAck = false := by
  rw [← w.counted_unacked_iff c inTree]
  exact (w.disconnect_iff hc inTree _ _).trans (and_iff_left_of_imp fun _ _ => rfl)

omit w hc inTree in
theorem putActlog_alGet (c : Counts) (found : Nat → Bool) (l : List Nat) (e : Nat) :
    ((c.alGet l).putActlog found l).refs e =
      if e ∈ l ∧ found e = false then c.refs e + 1 else c.refs e := by
  unfold Counts.putActlog Counts.alGet
  by_cases he : e ∈ l
  · cases hfound : found e <;> simp [he, hfound]
  · simp [he]

theorem submit_iff : ((w.submit ((w.counted c inTree).alGet w.extents) true).1.isError = true →
      Unwound c (w.submit ((w.counted c inTree).alGet w.extents) true).2) ↔
      w.Undone c (w.submitFailure true) := by
  unfold submit submitFailure
  split_ifs with hsubmit hmark
  · simp only [Exit.isError, true_implies, Undone, true_or, and_true]
    refine (w.disconnect_iff hc inTree _ _).trans ?_
    rw [← w.counted_unacked_iff c inTree]
    refine and_iff_left_of_imp fun _ e => ?_
    refine (putActlog_alGet (w.counted c inTree) (fun e => true || w.committed e) w.extents e).trans ?_
    simp [counted]
  · simp only [Exit.isError, Undone, true_implies, iff_false]
    exact fun h => Nat.succ_ne_self _ h.freed.symm
  · simp [Exit.isError, Undone]

theorem submit_iff_outside :
    ((w.submit (w.counted c inTree) false).1.isError = true →
      Unwound c (w.submit (w.counted c inTree) false).2) ↔ w.Undone c (w.submitFailure false) := by
  unfold submit submitFailure
  split_ifs with hsubmit hmark
  · simp only [Exit.isError, true_implies, Undone, Bool.false_eq_true, false_or]
    refine (w.disconnect_iff hc inTree _ _).trans ?_
    rw [← w.counted_unacked_iff c inTree]
    refine and_congr_right fun _ => ⟨fun h e he hfound => ?_, fun h e => ?_⟩
    · have hsame := h e
      simp only [counted, he, hfound, Bool.false_or, true_and] at hsame
      split_ifs at hsame <;> omega
    simp only [counted, Bool.false_or]
    split_ifs with hput
    · have := h e hput.1 hput.2.1
      omega
    · rfl
  · simp only [Exit.isError, Undone, true_implies, iff_false]
    exact fun h => Nat.succ_ne_self _ h.freed.symm
  · simp [Exit.isError, Undone]

theorem forPeer_iff (k : Nat) :
    let c₁ := ((w.counted c inTree).alGet (w.extents.take k)).putActlog w.committed (w.extents.take k)
    Unwound c (if w.sendWriteAck then { c₁ with unacked := c₁.unacked - 1 } else c₁).disconnect ↔
      ∀ e ∈ w.extents.take k, w.committed e = true := by
  intro c₁
  have hunacked : (if w.sendWriteAck then { c₁ with unacked := c₁.unacked - 1 } else c₁) =
      { w.counted c inTree with unacked := c.unacked, refs := c₁.refs } := by
    cases hack : w.sendWriteAck with
    | false | true => simp [c₁, counted, hack, Counts.putActlog, Counts.alGet]
  rw [hunacked, disconnect_iff w hc, eq_self_iff_true, true_and]
  refine forall_congr' fun e => ?_
  rw [show c₁.refs e = _ from putActlog_alGet ..]
  by_cases he : e ∈ w.extents.take k
  · cases w.committed e <;> simp [he, counted]
  · simp [he, counted]

end Course

/-- An error exit of `receive_Data` leaves everything as it was exactly if the labels undo what was
done before the failure. -/
theorem receiveWrite_unwound_iff (w : Course) {c : Counts} (hc : c.inTree = false) :
    ((w.receiveWrite c).1.isError = true → Unwound c (w.receiveWrite c).2) ↔ w.Undone c w.failure := by
  rw [w.receiveWrite_eq c]
  unfold Course.failure
  split_ifs with hseq hsup hconf htime hal hspecial hfast hnew hfails
  · simpa [Exit.isError, Course.Undone] using w.interrupted_iff c
  · simp [Exit.isError, Course.Undone]
  · simpa [Exit.isError, Course.Undone] using w.interrupted_iff c
  · simpa only [Exit.isError, true_implies, Course.Undone] using w.counted_disconnect_iff hc _
  · rw [Course.beginAl, if_pos hal, if_pos hspecial]
    cases w.abortedAfter with
    | some k => simpa [Exit.isError, Course.Undone] using w.forPeer_iff hc (c.inTree || w.twoPrimaries) k
    | none => exact w.submit_iff hc _
  · rw [Course.beginAl, if_pos hal, if_neg hspecial, if_pos hfast]
    exact w.submit_iff hc _
  · rw [Course.beginAl, if_pos hal, if_neg hspecial, if_neg hfast, if_pos hnew, if_pos hfails]
    simpa only [Exit.isError, true_implies, Course.Undone] using w.counted_disconnect_iff hc _
  · rw [Course.beginAl, if_pos hal, if_neg hspecial, if_neg hfast, if_pos hnew, if_neg hfails]
    exact w.submit_iff hc _
  · rw [Course.beginAl, if_pos hal, if_neg hspecial, if_neg hfast, if_neg hnew]
    simp [Exit.isError, Course.Undone]
  · rw [Course.beginAl, if_neg hal]
    exact w.submit_iff_outside hc _

/-- The connection is lost at the first extent: everything is taken back. -/
theorem receiveWrite_unwound_aborted : Unwound ⟨0, 0, 1, fun _ => 0, false, 0⟩
      (Course.receiveWrite { sendWriteAck := true, special := true, extents := [3], abortedAfter := some 0 }
        ⟨0, 0, 1, fun _ => 0, false, 0⟩).2 := by
  refine (receiveWrite_unwound_iff
    { sendWriteAck := true, special := true, extents := [3], abortedAfter := some 0 } rfl).2 ?_ rfl
  exact fun e he => absurd he (List.not_mem_nil)

/-- The activity log has no slot for a write of protocol C: the write stays counted as
unacknowledged. -/
theorem receiveWrite_unacked :
    (Course.receiveWrite { sendWriteAck := true, extents := [3], nonblockFails := true }
      ⟨0, 0, 1, fun _ => 0, false, 0⟩).1 = .error ∧
    (Course.receiveWrite { sendWriteAck := true, extents := [3], nonblockFails := true }
      ⟨0, 0, 1, fun _ => 0, false, 0⟩).2.unacked = 1 ∧
    ¬Unwound ⟨0, 0, 1, fun _ => 0, false, 0⟩
      (Course.receiveWrite { sendWriteAck := true, extents := [3], nonblockFails := true }
        ⟨0, 0, 1, fun _ => 0, false, 0⟩).2 := by
  refine ⟨rfl, rfl, fun h => ?_⟩
  have hunacked : (1 : Int) = 0 := h.unacked
  exact absurd hunacked (by decide)

end Bsr.Receiver
