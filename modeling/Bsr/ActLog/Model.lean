import Bsr.Lib.RingLog
import Bsr.Lru.Runs

/-!
# The activity log

`bsr_actlog.c` writes every change of the active set to an on-disk ring of 4k transaction blocks
before it takes effect; after a crash `replay_al_84` of `bsrmeta.c` rebuilds the active set from the
ring.

* a `DiskBlock` is the content of a block and whether its magic and checksum match: a block that is
  torn by a crash is not `intact`;
* the commit is split at the I/O, so that other calls and a crash can come in between;
* metadata writes succeed; timing statistics and the bitmap write-out hints are left out.
-/

namespace Bsr.ActLog

open Lib Lru

def alUpdatesPerTransaction : Nat := 64

def alContextPerTransaction : Nat := 919

/-- `BSR_AL_EXTENTS_MAX`, and `AL_EXTENTS_MAX` of `bsrmeta.c`. -/
def alExtentsMax : Nat := 65534

/-- `enum al_transaction_types`. -/
inductive AlTransactionType where
  | update
  | initialized
deriving DecidableEq, Repr

/-- `struct al_transaction_on_disk`; the arrays are read below their lengths only. -/
structure AlTransaction where
  trNumber : Nat
  transactionType : AlTransactionType
  nUpdates : Nat
  contextSize : Nat
  contextStartSlotNr : Nat
  updateSlotNr : Nat → Nat
  updateExtentNr : Nat → Nat
  context : Nat → Nat

/-- A 4k block of the ring. -/
structure DiskBlock where
  al : AlTransaction
  intact : Bool

/-- The place and the shape of the ring, with the limits `check_activity_log_stripe_size` sets. -/
structure AlLayout where
  mdOffset : Nat
  alOffset : Nat
  alStripes : Nat
  alStripeSize4k : Nat
  lower : 8 ≤ alStripes * alStripeSize4k
  upper : alStripes * alStripeSize4k ≤ 16 * 1024 * 1024 / 4

namespace AlLayout

variable (L : AlLayout)

def alSize4k : Nat :=
  L.alStripes * L.alStripeSize4k

/-- The 4k block of the area that transaction number modulo ring size `t` goes to. -/
def stripe (t : Nat) : Nat :=
  t % L.alStripes * L.alStripeSize4k + t / L.alStripes

def alTrNumberToOnDiskSector (alTrNumber : Nat) : Nat :=
  L.mdOffset + L.alOffset + L.stripe (alTrNumber % L.alSize4k) * 8 % 2 ^ 32

/-- `al_tr_number_to_on_disk_slot`, with `mx` the ring size. -/
def alTrNumberToOnDiskSlot (b : Nat) : Nat :=
  L.stripe (b % L.alSize4k)

/-- `al_disk[o]`: `bsrmeta` reads the area from its start. -/
def alDisk (disk : Nat → DiskBlock) (o : Nat) : DiskBlock :=
  disk (L.mdOffset + L.alOffset + 8 * o)

def bsrAlExtentsMax : Nat :=
  let sufficientOnDisk :=
    (alExtentsMax + alContextPerTransaction - 1) / alContextPerTransaction
  if L.alSize4k > sufficientOnDisk then alExtentsMax
  else (L.alSize4k - 1) * alContextPerTransaction

end AlLayout

/-! ## Writing transactions -/

/-- The device fields the activity log uses, the metadata disk, and the transaction whose write has
started and not completed. -/
structure AlState where
  actLog : LruCache
  alTrNumber : Nat
  alTrCycle : Nat
  disk : Nat → DiskBlock
  inFlight : Option AlTransaction

/-- A `BUG_ON`: more changes than a transaction holds, or one of the LRU cache. -/
inductive AlBug where
  | tooManyUpdates
  | lru (b : LcBug)
deriving DecidableEq, Repr

/-- The buffer `__al_write_transaction` fills. -/
def alTransaction (lc : LruCache) (alTrNumber alTrCycle : Nat) : AlTransaction where
  trNumber := alTrNumber
  transactionType := .update
  nUpdates := (lc.list .toBeChanged).length
  contextSize := lc.nrElements % 2 ^ 16
  contextStartSlotNr := alTrCycle % 2 ^ 16
  updateSlotNr i := match (lc.list .toBeChanged)[i]? with
    | some e => e % 2 ^ 16
    | none => 2 ^ 16 - 1
  updateExtentNr i := match (lc.list .toBeChanged)[i]? with
    | some e => (lc.lcElement e).lcNewNumber
    | none => lcFree
  context i :=
    -- a cycle beyond the last element leaves no context to write
    if i < min alContextPerTransaction (lc.nrElements - alTrCycle) then
      (lc.lcElement (alTrCycle + i)).lcNumber
    else lcFree

/-- Where the context of the next transaction starts. -/
def nextCycle (nrElements alTrCycle : Nat) : Nat :=
  if alTrCycle + alContextPerTransaction ≥ nrElements then 0
  else alTrCycle + alContextPerTransaction

/-- `__al_write_transaction` up to the submission of the write. -/
def alWriteTransaction (s : AlState) : Except AlBug AlState :=
  if (s.actLog.list .toBeChanged).length > alUpdatesPerTransaction then .error .tooManyUpdates
  else .ok { s with
    alTrCycle := nextCycle s.actLog.nrElements s.alTrCycle
    inFlight := some (alTransaction s.actLog s.alTrNumber s.alTrCycle) }

/-- `bsr_al_begin_io_commit` up to the submission of the write. -/
def bsrAlBeginIoCommit (s : AlState) : Except AlBug AlState :=
  let (lc, locked) := lcTryLockForTransaction s.actLog
  if locked = false then
    -- someone else commits; the caller waits for that
    .ok { s with actLog := lc }
  else if lc.pendingChanges = 0 then
    .ok { s with actLog := lcUnlock lc }
  else
    alWriteTransaction { s with actLog := lc }

/-- The rest of `bsr_al_begin_io_commit`, when the write of `t` has completed. -/
def finishCommit (L : AlLayout) (s : AlState) (t : AlTransaction) : Except AlBug AlState :=
  match lcCommitted s.actLog with
  | .error b => .error (.lru b)
  | .ok (lc, _) => .ok {
      actLog := lcUnlock lc
      alTrNumber := (s.alTrNumber + 1) % 2 ^ 32
      alTrCycle := s.alTrCycle
      disk := Function.update s.disk (L.alTrNumberToOnDiskSector s.alTrNumber) ⟨t, true⟩
      inFlight := none }

/-- `bsr_check_al_size`: for a new size, a fresh cache takes the place of an unused one. -/
def bsrCheckAlSize (s : AlState) (alExtents : Nat) : AlState :=
  if s.actLog.nrElements = alExtents then s
  else if ∃ e < s.actLog.nrElements, (s.actLog.lcElement e).refcnt ≠ 0 then s
  else
    match lcCreate alUpdatesPerTransaction alExtents with
    | none => s
    | some n => { s with actLog := n }

/-! ## Replay -/

/-- `struct al_cursor`. -/
structure AlCursor where
  i : Nat
  trNumber : Nat
deriving DecidableEq, Repr

/-- The variables of the first loop of `replay_al_84`. -/
structure AlScan where
  foundValid : Nat
  foundValidUpdates : Nat
  oldest : AlCursor
  newest : AlCursor
deriving DecidableEq, Repr

/-- One round of the first loop, at ring position `b`. -/
def scanBlock (scan : AlScan) (b : Nat) (block : DiskBlock) : AlScan :=
  let here : AlCursor := ⟨b, block.al.trNumber⟩
  if block.intact = false then scan
  else if block.al.transactionType = .initialized then
    { scan with foundValid := scan.foundValid + 1 }
  else if scan.foundValidUpdates + 1 = 1 then
    ⟨scan.foundValid + 1, 1, here, here⟩
  else
    { foundValid := scan.foundValid + 1
      foundValidUpdates := scan.foundValidUpdates + 1
      oldest := if serialDiff here.trNumber scan.oldest.trNumber < 0 then here else scan.oldest
      newest := if serialDiff here.trNumber scan.newest.trNumber > 0 then here else scan.newest }

/-- One context entry of a block. -/
def applyContext (al : AlTransaction) (hot : Nat → Nat) (i : Nat) : Nat → Nat :=
  let slot := al.contextStartSlotNr + i
  if al.context i = 2 ^ 32 - 1 ∧ slot ≥ al.contextSize then hot
  else if slot ≥ alExtentsMax then hot
  else Function.update hot slot (al.context i)

/-- One update entry of a block. -/
def applyUpdate (al : AlTransaction) (hot : Nat → Nat) (i : Nat) : Nat → Nat :=
  let slot := al.updateSlotNr i
  if i ≥ al.nUpdates ∧ slot = 2 ^ 16 - 1 then hot
  else if slot ≥ alExtentsMax then hot
  else Function.update hot slot (al.updateExtentNr i)

/-- One round of the second loop of `replay_al_84`. -/
def applyBlock (hot : Nat → Nat) (block : DiskBlock) : Nat → Nat :=
  if block.intact = false ∨ block.al.transactionType = .initialized then hot
  else
    let hot := (List.range alContextPerTransaction).foldl (applyContext block.al) hot
    (List.range alUpdatesPerTransaction).foldl (applyUpdate block.al) hot

/-- `replay_al_84`: the return value and the hot extents, starting from none. -/
def replayAl84 (L : AlLayout) (disk : Nat → DiskBlock) : Int × (Nat → Nat) :=
  let mx := L.alSize4k
  let alCpu b := L.alDisk disk (L.alTrNumberToOnDiskSlot b)
  let hotExtent : Nat → Nat := fun _ => 2 ^ 32 - 1
  let scan := (List.range mx).foldl (fun scan b => scanBlock scan b (alCpu b))
    ⟨0, 0, ⟨0, 0⟩, ⟨0, 0⟩⟩
  if scan.foundValid = 0 then
    -- not even one transaction was valid: -ENODATA
    (-61, hotExtent)
  else if scan.foundValidUpdates = 0 then
    if scan.foundValid = mx then (0, hotExtent)
    else if (alCpu 0).intact = false ∧ scan.foundValid = mx - 1 then (0, hotExtent)
    -- some are valid, some are not: -EINVAL
    else (-22, hotExtent)
  else
    let newest := if scan.newest.i < scan.oldest.i then scan.newest.i + mx else scan.newest.i
    (scan.foundValidUpdates,
      (List.range' scan.oldest.i (newest + 1 - scan.oldest.i)).foldl
        (fun hot b => applyBlock hot (alCpu (b % mx))) hotExtent)

end Bsr.ActLog
