import Mathlib

/-!
# Digests from the peer

A `P_OV_REPLY` or `P_CSUM_RS_REQUEST` packet carries the digest of a block. `receive_DataRequest`
puts it into a buffer as large as the packet says; when the block has been read, `w_e_end_ov_reply`
or `w_e_end_csum_rs_req` compares the buffer with the digest of the local block, over the length
that the local algorithm has.

* a shorter digest is read beyond its end, of a longer one only the front is compared;
* a node that cannot read the block answers an `P_OV_REPLY` with "in sync".

`digest_safe_iff` says which packets are harmless.
-/

namespace Bsr.Receiver

inductive DigestCmd where
  | ovReply
  | csumRsRequest
deriving DecidableEq, Repr

/-- A packet with a digest, and what the node finds when it handles it. -/
structure DigestRequest where
  cmd : DigestCmd
  /-- The block, in bytes; `receive_DataRequest` refuses an empty one. -/
  size : Nat
  size_pos : 0 < size
  /-- `pi->size` bytes. -/
  received : List UInt8
  /-- `block_id` is `ID_CSUM_SYNC_IO_ERROR`. -/
  ioErrorMark : Bool := false
  /-- `get_ldev_if_state(device, D_OUTDATED)`. -/
  hasDisk : Bool := true
  /-- The request is given up on the way to the worker, or the worker is told to cancel it. -/
  cancel : Bool := false
  /-- `EE_WAS_ERROR`: the block could not be read. -/
  wasError : Bool := false
  /-- What the configured algorithm gives for the local block. -/
  digest : List UInt8
  csumsTfm : Bool := true
  /-- Memory for it is there. -/
  allocated : Bool := true
  /-- What `check_ov_skip_sectors` returns. -/
  skipped : Bool := false
  /-- The memory behind the buffer. -/
  behind : Nat → UInt8

/-- The answer of the node; `rsIsInSync` comes with `bsr_set_in_sync`. -/
inductive DigestAnswer where
  | none
  | negRsDreply
  | rsIsInSync
  | rsDataReply
  | ovResult (size : Nat) (inSync : Bool)
deriving DecidableEq, Repr

namespace DigestRequest

variable (r : DigestRequest)

/-- `di->digest[i]`. -/
def byte (i : Nat) : UInt8 :=
  r.received.getD i (r.behind i)

/-- The worker comes to `memcmp`. -/
def compares : Bool :=
  r.hasDisk && !r.cancel && !r.wasError && r.allocated &&
    match r.cmd with
    | .ovReply => true
    | .csumRsRequest => r.csumsTfm && !r.ioErrorMark

/-- The bytes of the buffer that are read: `memcmp` takes the length of the local digest. -/
def bytesRead : Nat :=
  if r.compares then r.digest.length else 0

def eq : Bool :=
  r.compares && decide (r.digest = (List.range r.digest.length).map r.byte)

/-- `receive_DataRequest`, then `w_e_end_ov_reply` or `w_e_end_csum_rs_req`. -/
def answer : DigestAnswer :=
  match r.cmd with
  | .ovReply =>
    -- without the local block the peer is told that all is well
    if !r.hasDisk then .ovResult r.size true
    else if r.cancel then .none
    else if !r.eq && r.skipped then .ovResult 0 true
    else .ovResult r.size r.eq
  | .csumRsRequest =>
    if !r.hasDisk then .negRsDreply
    else if r.ioErrorMark || r.cancel then .none
    else if r.wasError then .negRsDreply
    else if r.eq then .rsIsInSync
    else .rsDataReply

/-- Some of the block is reported in sync. -/
def inSync : Bool :=
  match r.answer with
  | .rsIsInSync => true
  | .ovResult size inSync => inSync && decide (0 < size)
  | _ => false

/-- No byte beyond the digest is read, and the block is in sync only if its digest is the received
one. -/
structure Safe : Prop where
  bounded : r.bytesRead ≤ r.received.length
  equal : r.inSync = true → r.compares = true ∧ r.received = r.digest

end DigestRequest

section

variable {r : DigestRequest}

theorem compares_of_eq (h : r.eq = true) : r.compares = true :=
  (Bool.and_eq_true_iff.mp h).1

open DigestRequest

/-- A block is in sync if the digests compare equal, or if an `P_OV_REPLY` meets a node without
disk. -/
theorem inSync_iff : r.inSync = true ↔ r.eq = true ∨ r.hasDisk = false ∧ r.cmd = .ovReply := by
  have hpos := r.size_pos
  have hcompares : r.eq = true → r.hasDisk = true ∧ r.cancel = false ∧ r.wasError = false ∧
      (r.cmd = .csumRsRequest → r.ioErrorMark = false) := by
    intro h
    have hc := compares_of_eq h
    unfold compares at hc
    cases hcmd : r.cmd <;> simp_all
  unfold inSync answer
  cases hcmd : r.cmd <;> cases hdisk : r.hasDisk <;> cases heq : r.eq <;> simp_all
  all_goals split_ifs <;> simp_all

theorem eq_iff_take (hc : r.compares = true) (hlen : r.digest.length ≤ r.received.length) :
    r.eq = true ↔ r.received.take r.digest.length = r.digest := by
  have hbytes : (List.range r.digest.length).map r.byte = r.received.take r.digest.length := by
    apply List.ext_getElem
    · simp [hlen]
    intro i _ hi'
    have hlt : i < r.received.length := by
      rw [List.length_take] at hi'
      omega
    simp [byte, hlt]
  unfold eq
  rw [hc, hbytes, Bool.true_and, decide_eq_true_eq, eq_comm]

/-- A packet is harmless if the node has the block, and the digest has the length of the local one,
or is longer and differs in its front, or is not looked at. -/
theorem digest_safe_iff (r : DigestRequest) : r.Safe ↔ (r.hasDisk = true ∨ r.cmd = .csumRsRequest) ∧
      (r.compares = true → r.received.length = r.digest.length ∨
        r.digest.length < r.received.length ∧ r.received.take r.digest.length ≠ r.digest) := by
  constructor
  · rintro ⟨hbounded, hequal⟩
    constructor
    · by_contra hno
      obtain ⟨hdisk, hcmd⟩ := not_or.mp hno
      have hov : r.cmd = .ovReply := by cases h : r.cmd <;> simp_all
      have hc := (hequal (inSync_iff.mpr (.inr ⟨eq_false_of_ne_true hdisk, hov⟩))).1
      simp [compares, hdisk] at hc
    · intro hc
      rw [bytesRead, if_pos hc] at hbounded
      rcases Nat.eq_or_lt_of_le hbounded with hlen | hlt
      · exact .inl hlen.symm
      refine .inr ⟨hlt, fun htake => ?_⟩
      have heq := (eq_iff_take hc hbounded).mpr htake
      rw [(hequal (inSync_iff.mpr (.inl heq))).2] at hlt
      exact absurd hlt (Nat.lt_irrefl _)
  · rintro ⟨hdisk, hlen⟩
    constructor
    · unfold bytesRead
      split_ifs with hc
      · rcases hlen hc with h | ⟨h, -⟩ <;> omega
      · exact Nat.zero_le _
    intro hs
    rcases inSync_iff.mp hs with heq | ⟨hno, hcmd⟩
    · have hc := compares_of_eq heq
      refine ⟨hc, ?_⟩
      rcases hlen hc with h | ⟨hlt, hne⟩
      · have htake := (eq_iff_take hc (Nat.le_of_eq h.symm)).mp heq
        rwa [← h, List.take_length] at htake
      · exact absurd ((eq_iff_take hc (Nat.le_of_lt hlt)).mp heq) hne
    · simp_all

/-- An empty digest in a `P_OV_REPLY` makes the node compare with the memory behind it. -/
theorem digest_unsafe : ¬ (DigestRequest.mk .ovReply 4096 (by decide) [] false true false false [7] true true false
    fun _ => 7).Safe := fun h =>
  absurd h.bounded (by decide)

end

end Bsr.Receiver
