import Mathlib

/-!
# Requests and `mod_rq_state` (`bsr_req.c`)

One application request, its flag words `rq_state[0]` and `rq_state[1 + node_id]`, its two reference
counts, and what it does to the world: the completion of the master bio, the hand-over to the retry
worker, the destruction and the out-of-sync bits.

* `bsrSetOutOfSync` and `bsrSetSync` mark the blocks of a request;
* `bsrReqComplete`, `putCompletionRef`, `bsrReqDestroy` run when a count becomes zero;
* `modRqState` is `mod_rq_state`, the place where flags change and references are counted.

Everything here runs under `req_lock`. Statistics, the interval tree, the peer ack, the log messages
and the pointers that only speed up the sender are left out.
-/

namespace Bsr.Request

/-! ## Flags -/

/-- The flags of `rq_state[0]` that `mod_rq_state` sets and clears. -/
structure LocalFlags where
  pending : Bool := false
  completed : Bool := false
  ok : Bool := false
  aborted : Bool := false
  susp : Bool := false
deriving DecidableEq, Repr

/-- The flags of `rq_state[1 + node_id]`. -/
structure NetFlags where
  pending : Bool := false
  queued : Bool := false
  sent : Bool := false
  done : Bool := false
  ok : Bool := false
  sis : Bool := false
  expReceiveAck : Bool := false
  expWriteAck : Bool := false
  expBarrAck : Bool := false
  oosPending : Bool := false
  oosNetQueued : Bool := false
  oosLocalDone : Bool := false
  inAlOos : Bool := false
deriving DecidableEq, Repr

namespace LocalFlags

/-- `flags &= ~clear; flags |= set`. -/
def apply (f clear set : LocalFlags) : LocalFlags where
  pending := f.pending && !clear.pending || set.pending
  completed := f.completed && !clear.completed || set.completed
  ok := f.ok && !clear.ok || set.ok
  aborted := f.aborted && !clear.aborted || set.aborted
  susp := f.susp && !clear.susp || set.susp

/-- `RQ_LOCAL_MASK`. -/
def masked (f : LocalFlags) : Bool :=
  f.pending || f.completed || f.ok || f.aborted

end LocalFlags

namespace NetFlags

def apply (f clear set : NetFlags) : NetFlags where
  pending := f.pending && !clear.pending || set.pending
  queued := f.queued && !clear.queued || set.queued
  sent := f.sent && !clear.sent || set.sent
  done := f.done && !clear.done || set.done
  ok := f.ok && !clear.ok || set.ok
  sis := f.sis && !clear.sis || set.sis
  expReceiveAck := f.expReceiveAck && !clear.expReceiveAck || set.expReceiveAck
  expWriteAck := f.expWriteAck && !clear.expWriteAck || set.expWriteAck
  expBarrAck := f.expBarrAck && !clear.expBarrAck || set.expBarrAck
  oosPending := f.oosPending && !clear.oosPending || set.oosPending
  oosNetQueued := f.oosNetQueued && !clear.oosNetQueued || set.oosNetQueued
  oosLocalDone := f.oosLocalDone && !clear.oosLocalDone || set.oosLocalDone
  inAlOos := f.inAlOos && !clear.inAlOos || set.inAlOos

/-- `RQ_NET_MASK`. -/
def masked (f : NetFlags) : Bool :=
  f.pending || f.queued || f.sent || f.done || f.ok || f.sis

end NetFlags

/-- A set of flags as the arguments `clear` and `set` of `mod_rq_state` hold it. -/
structure Flags where
  loc : LocalFlags := {}
  net : NetFlags := {}
deriving DecidableEq, Repr

/-! ## The device around a request -/

inductive DiskState where
  | diskless | attaching | detaching | failed | negotiating
  | inconsistent | outdated | unknown | consistent | upToDate
deriving DecidableEq, Repr

/-- The order of `enum bsr_disk_state`. -/
def DiskState.rank : DiskState → Nat
  | diskless => 0
  | attaching => 1
  | detaching => 2
  | failed => 3
  | negotiating => 4
  | inconsistent => 5
  | outdated => 6
  | unknown => 7
  | consistent => 8
  | upToDate => 9

inductive OnIoError where
  | passOn | callHelper | detach | passThrough
deriving DecidableEq, Repr

inductive WireProtocol where
  | protA | protB | protC
deriving DecidableEq, Repr

/-- What stays the same while a request lives: the bitmap slots of the nodes, their number and the
size of the device. -/
structure DeviceMd where
  maxNodeId : Nat
  bitmapIndex : Nat → Option Nat
  bmMaxPeers : Nat
  nrSectors : Nat

/-- What the code reads of the device and its peers while it handles one event. -/
structure Env where
  suspended : Bool := false
  /-- The node ids of `for_each_peer_device`. -/
  peers : List Nat := []
  agreedProVersion : Nat → Nat := fun _ => 0
  wireProtocol : Nat → WireProtocol := fun _ => .protC
  diskState : DiskState := .upToDate
  /-- `ldev->disk_conf->on_io_error`, nothing if `ldev` is NULL. -/
  onIoError : Option OnIoError := some .passThrough

def Env.getLdevIfState (env : Env) (mins : DiskState) : Bool :=
  decide (mins.rank ≤ env.diskState.rank)

def Env.getLdev (env : Env) : Bool :=
  env.getLdevIfState .inconsistent

/-! ## Requests -/

inductive BioOp where
  | read | readAhead | write | discard
deriving DecidableEq, Repr

def BioOp.isWrite : BioOp → Bool
  | .write => true
  | .discard => true
  | .read => false
  | .readAhead => false

/-- `req->private_bio`: NULL, a bio whose address ends in these 32 bits, or the `ERR_PTR` left by
the completion. -/
inductive PrivateBio where
  | null
  | bio (address : Int)
  | errPtr (error : Int)
deriving DecidableEq, Repr

/-- `PTR_ERR`, stored in an `int`. -/
def PrivateBio.ptrErr : PrivateBio → Int
  | null => 0
  | bio address => address
  | errPtr error => error

/-- One call of `complete_master_bio`: the error, and whether some copy had been written then. -/
structure Completion where
  error : Int
  anyOk : Bool
deriving DecidableEq, Repr

structure ReqState where
  op : BioOp
  sector : Nat
  size : Nat
  loc : LocalFlags
  net : Nat → NetFlags
  postponed : Bool
  /-- `!list_empty(&req->tl_requests)`. -/
  onTl : Bool
  completionRef : Int
  kref : Int
  masterBio : Bool
  privateBio : PrivateBio
  /-- The submission has not dropped its own completion reference yet. -/
  submitting : Bool
  /-- Krefs of others: the older write's `destroy_next`, a plug, a walker of the transfer log. -/
  holders : Nat
  completions : List Completion
  /-- Calls of `bsr_restart_request`. -/
  restarts : Nat
  /-- Krefs dropped by the retry worker. -/
  retried : Nat
  /-- How often the kref became zero. -/
  zeroed : Nat
  destroyed : Bool
  /-- The out-of-sync bits, by slot. -/
  oos : Nat → Nat → Bool

def errIo : Int := 5

def errOpNotSupp : Int := 95

/-! ## Out-of-sync bits -/

/-- `BM_SECT_TO_BIT`: one bit is 4 KiB, eight sectors. -/
def bmSectToBit (sector : Nat) : Nat := sector / 8

def bsrMaxBatchBioSize : Nat := 32 * 2 ^ 22

variable (md : DeviceMd)

/-- The last sector of a request, cut at the end of the device. -/
def ReqState.esector (s : ReqState) : Nat :=
  if s.sector + s.size / 512 - 1 < md.nrSectors then s.sector + s.size / 512 - 1
  else md.nrSectors - 1

def writeBits (oos : Nat → Nat → Bool) (slot lo hi : Nat) (v : Bool) : Nat → Nat → Bool :=
  fun i b => if i = slot ∧ lo ≤ b ∧ b ≤ hi then v else oos i b

variable (env : Env)

/-- `bsr_set_out_of_sync` for one peer, with whether it found bits to set. -/
def bsrSetOutOfSync (s : ReqState) (p : Nat) : ReqState × Bool :=
  match md.bitmapIndex p with
  | none => (s, false)
  | some slot =>
    if s.size = 0 ∨ bsrMaxBatchBioSize < s.size ∨ s.size % 512 ≠ 0 then (s, false)
    else if env.getLdev = false then (s, false)
    else if md.nrSectors ≤ s.sector then (s, false)
    else
      let sbnr := bmSectToBit s.sector
      let ebnr := bmSectToBit (s.esector md)
      ({ s with oos := writeBits s.oos slot sbnr ebnr true },
        (List.range' sbnr (ebnr + 1 - sbnr)).any fun b => !s.oos slot b)

/-- `(1 << bm_max_peers) - 1` in an `int`, whose shift takes its count modulo 32. -/
def slotMask (bmMaxPeers slot : Nat) : Bool :=
  (2 ^ (bmMaxPeers % 32) - 1).testBit slot

/-- The whole blocks a write covers, the last one of the device counted as whole. -/
def clearRange (s : ReqState) : Option (Nat × Nat) :=
  let clearStart := bmSectToBit (s.sector + 7)
  if s.esector md = md.nrSectors - 1 then
    if clearStart ≤ bmSectToBit (s.esector md) then some (clearStart, bmSectToBit (s.esector md))
    else none
  else if bmSectToBit (s.esector md + 1) = 0 then none
  else if clearStart ≤ bmSectToBit (s.esector md + 1) - 1 then
    some (clearStart, bmSectToBit (s.esector md + 1) - 1)
  else none

/-- `bsr_set_sync`: every slot of `mask` is set out of sync, or in sync where `bits` says so. -/
def bsrSetSync (s : ReqState) (bits mask : Nat → Bool) : ReqState :=
  if s.size = 0 ∨ s.size % 512 ≠ 0 then s
  else if env.getLdev = false then s
  else if md.nrSectors ≤ s.sector then s
  else
    { s with oos := fun slot b =>
        if (mask slot && slotMask md.bmMaxPeers slot) = false then s.oos slot b
        else if bits slot then
          writeBits s.oos slot (bmSectToBit s.sector) (bmSectToBit (s.esector md)) true slot b
        else
          match clearRange md s with
          | none => s.oos slot b
          | some (lo, hi) => writeBits s.oos slot lo hi false slot b }

/-! ## Completion and destruction -/

/-- Some copy of the data is known to be written: `RQ_LOCAL_OK` or some peer's `RQ_NET_OK`. -/
def anyOk (s : ReqState) : Bool :=
  s.loc.ok || env.peers.any fun p => (s.net p).ok

/-- The error `bsr_req_complete` reports. Without a disk the policy counts as pass-through. -/
def completionError (s : ReqState) : Int :=
  if env.onIoError.getD .passThrough = .passThrough then s.privateBio.ptrErr
  else if anyOk env s then 0
  else if s.privateBio.ptrErr ≠ 0 then s.privateBio.ptrErr
  else -errIo

/-- A failed read goes back to the retry queue, unless it never got into the transfer log. -/
def retryRead (s : ReqState) : Bool :=
  !anyOk env s && s.op == .read && s.onTl

/-- `bsr_req_complete`, with its three paranoia exits. -/
def bsrReqComplete (s : ReqState) : ReqState :=
  if env.peers.any fun p => (s.net p).masked && ((s.net p).pending || (s.net p).queued) then s
  else if s.completionRef ≠ 0 ∨ (s.loc.pending && !s.loc.aborted) = true then s
  else if s.masterBio = false then s
  else if (s.postponed || retryRead env s) = true then { s with postponed := true }
  else
    { s with
      masterBio := false
      completions := ⟨completionError env s, anyOk env s⟩ :: s.completions }

/-- `bsr_req_put_completion_ref`, with the kref it hands back. -/
def putCompletionRef (s : ReqState) (put : Nat) : ReqState × Nat :=
  if s.completionRef - put ≠ 0 then ({ s with completionRef := s.completionRef - put }, 0)
  else
    let s := bsrReqComplete env { s with completionRef := s.completionRef - put }
    if s.postponed then ({ s with restarts := s.restarts + 1 }, 0) else (s, 1)

/-- A node is left out of the marking: it has the data, or its slot has been marked already. -/
def accountedFor (f : NetFlags) : Bool :=
  f.ok || (f.done && f.oosNetQueued) || f.oosLocalDone

/-- The loop of `bsr_req_destroy` over the node ids: `clear_bit(bitmap_index, &bits)` for the nodes
in sync, `clear_bit(bitmap_index, &mask)` for the others that are accounted for. -/
def destroyMasks (md : DeviceMd) (s : ReqState) : List Nat → (Nat → Bool) × (Nat → Bool)
  | [] => (fun _ => true, fun _ => true)
  | node :: rest =>
    let (bits, mask) := destroyMasks md s rest
    match accountedFor (s.net node), md.bitmapIndex node with
    | true, some slot =>
      if (s.net node).sis then (fun i => bits i && decide (i ≠ slot), mask)
      else (bits, fun i => mask i && decide (i ≠ slot))
    | _, _ => (bits, mask)

/-- What `bsr_req_destroy` does to the bitmap. -/
def destroyMarks (s : ReqState) : ReqState :=
  if s.op.isWrite = true ∧ ¬ (s.postponed = true ∧ s.loc.masked = false) ∧ s.size ≠ 0 ∧
      env.getLdevIfState .detaching = true then
    let masks := destroyMasks md s (List.range (md.maxNodeId + 1))
    bsrSetSync md env s masks.1 masks.2
  else s

/-- The paranoia checks of `bsr_req_destroy`; a request that fails one is leaked. -/
def destroyable (s : ReqState) : Bool :=
  (env.peers.all fun p => !(s.net p).masked || (s.net p).done) &&
    (!s.masterBio || s.postponed) && decide (s.completionRef = 0) && !s.loc.pending

def bsrReqDestroy (s : ReqState) : ReqState :=
  if destroyable env s then { destroyMarks md env s with destroyed := true } else s

/-- `kref_sub(&req->kref, put, bsr_req_destroy)`. -/
def krefSub (s : ReqState) (put : Nat) : ReqState :=
  if s.kref - put = 0 then
    bsrReqDestroy md env { s with kref := s.kref - put, zeroed := s.zeroed + 1 }
  else { s with kref := s.kref - put }

/-! ## `mod_rq_state` -/

/-- The arguments of one call of `mod_rq_state`. -/
structure Mod where
  peer : Option Nat := none
  clear : Flags := {}
  set : Flags := {}

variable (m : Mod)

/-- `old_net`; without a peer there are no net flags. -/
def Mod.oldNet (s : ReqState) : NetFlags :=
  match m.peer with
  | none => {}
  | some p => s.net p

/-- `set_local`: while I/O is suspended every change also holds back the completion. -/
def Mod.setLoc (env : Env) (s : ReqState) : LocalFlags :=
  if (env.suspended && !(s.loc.susp || m.clear.loc.susp)) = true then
    { m.set.loc with susp := true }
  else m.set.loc

/-- Since protocol 113 out-of-sync information is queued only after it was pending. -/
def Mod.refused (env : Env) (s : ReqState) : Bool :=
  match m.peer with
  | none => false
  | some p => decide (113 ≤ env.agreedProVersion p) && m.set.net.oosNetQueued &&
      !(s.net p).oosPending

def Mod.newLoc (env : Env) (s : ReqState) : LocalFlags :=
  s.loc.apply m.clear.loc (m.setLoc env s)

def Mod.newNet (s : ReqState) : NetFlags :=
  (m.oldNet s).apply m.clear.net m.set.net

def Mod.applied (env : Env) (s : ReqState) : ReqState :=
  { s with
    loc := m.newLoc env s
    net := match m.peer with
      | none => s.net
      | some p => Function.update s.net p (m.newNet s) }

/-- References taken on the completion. -/
def Mod.gets (env : Env) (s : ReqState) : Nat :=
  (!s.loc.pending && (m.setLoc env s).pending).toNat +
    (!(m.oldNet s).pending && m.set.net.pending).toNat +
    (!(m.oldNet s).queued && m.set.net.queued).toNat +
    (!s.loc.susp && (m.setLoc env s).susp).toNat

/-- References taken on the object. -/
def Mod.krefGets (env : Env) (s : ReqState) : Nat :=
  (!(m.oldNet s).expBarrAck && m.set.net.expBarrAck).toNat +
    (!s.loc.aborted && (m.setLoc env s).aborted).toNat

def Mod.cPut (env : Env) (s : ReqState) : Nat :=
  (s.loc.susp && m.clear.loc.susp).toNat +
    (!s.loc.aborted && (m.setLoc env s).aborted).toNat +
    (s.loc.pending && m.clear.loc.pending && !(m.newLoc env s).aborted).toNat +
    ((m.oldNet s).pending && m.clear.net.pending).toNat +
    ((m.oldNet s).queued && m.clear.net.queued).toNat

/-- `k_put`, before the completion adds its own. -/
def Mod.kPut (env : Env) (s : ReqState) : Nat :=
  (s.loc.pending && m.clear.loc.pending && (m.newLoc env s).aborted).toNat +
    (!(m.oldNet s).done && m.set.net.done && (m.oldNet s).expBarrAck).toNat

/-- The flags are changed and the new references taken. -/
def Mod.counted (env : Env) (s : ReqState) : ReqState :=
  { m.applied env s with
    completionRef := s.completionRef + m.gets env s
    kref := s.kref + m.krefGets env s }

/-- The end of `mod_rq_state`: potentially complete and destroy. -/
def dropRefs (env : Env) (s : ReqState) (cPut kPut : Nat) : ReqState :=
  let put := if cPut = 0 then (s, 0) else putCompletionRef env s cPut
  if kPut + put.2 = 0 then put.1 else krefSub md env put.1 (kPut + put.2)

/-- `mod_rq_state`. A slot that is newly marked locally leaves before any reference is counted. -/
def modRqState (env : Env) (s : ReqState) (m : Mod) : ReqState :=
  if m.refused env s then s
  else if m.newLoc env s = s.loc ∧ m.newNet s = m.oldNet s then m.applied env s
  else
    match m.peer, !(m.oldNet s).oosLocalDone && m.set.net.oosLocalDone with
    | some p, true => (bsrSetOutOfSync md env (m.applied env s) p).1
    | _, _ => dropRefs md env (m.counted env s) (m.cPut env s) (m.kPut env s)

end Bsr.Request
