import Bsr.Request.Frame

/-!
# The submission of a request

`bsr_send_and_submit` is a sequence of a few kinds of steps. `SubmitClosed` says that a property is
kept by each of them, and `SubmitClosed.sendAndSubmit` that it is then kept by the whole submission.
-/

namespace Bsr.Request

open Bool

/-- The events a submission sends one by one, with what the code has checked before. -/
inductive SubmitEvent (env : Env) (s : ReqState) : ReqEvent → Prop
  | toBeSent {p : Nat} (hp : p ∈ env.peers) (hop : s.op.isWrite = false) :
      SubmitEvent env s (.toBeSent p)
  | queueForNetRead {p : Nat} (hp : p ∈ env.peers) (hop : s.op.isWrite = false) :
      SubmitEvent env s (.queueForNetRead p)
  | queueAsBsrBarrier (hsize : s.size = 0) : SubmitEvent env s .queueAsBsrBarrier
  | toBeSubmitted (hbio : s.privateBio ≠ .null) : SubmitEvent env s .toBeSubmitted

/-- A property that every step of a submission keeps. -/
structure SubmitClosed (md : DeviceMd) (env : Env) (r : Route) (P : ReqState → Prop) : Prop where
  event : ∀ s ev, SubmitEvent env s ev → P s → P (reqMod md env s ev)
  /-- Data goes to this peer. -/
  sendWrite : ∀ s, ∀ p ∈ env.peers, r.remote p = true → s.size ≠ 0 → P s →
    P (reqMod md env (reqMod md env s (.toBeSent p)) (.queueForNetWrite p))
  /-- This peer is not connected. -/
  setLocal : ∀ s, ∀ p ∈ env.peers, r.remote p = false → P s → P (reqMod md env s (.oosSetToLocal p))
  /-- This peer is only told what is out of sync. -/
  marked : ∀ s, ∀ p ∈ env.peers, r.remote p = false → P s → P (bsrSetOutOfSync md env s p).1
  pendingOos : ∀ s, ∀ p ∈ env.peers, r.remote p = false → P s →
    P (reqMod md env (bsrSetOutOfSync md env s p).1 (.queueForPendingOos p))
  sendOos : ∀ s, ∀ p ∈ env.peers, r.remote p = false → P s →
    P (reqMod md env (bsrSetOutOfSync md env s p).1 (.queueForSendOos p))
  held : ∀ s, P s → P (hold s)
  onTl : ∀ s, P s → P { s with onTl := true }
  noBio : ∀ s, P s → P { s with privateBio := .null }

section

variable {md : DeviceMd} {env : Env} {r : Route} {P : ReqState → Prop}

theorem processPeer_kept (md : DeviceMd) (env : Env) (r : Route) (s : ReqState) (p : Nat) :
    Kept s (processPeer md env r s p) := by
  have hset := (bsrSetOutOfSync_kept md env s p).1
  unfold processPeer
  dsimp only
  split_ifs
  · exact reqMod_kept ..
  · exact Kept.refl s
  · exact (reqMod_kept ..).trans (reqMod_kept ..)
  · exact hset.trans (reqMod_kept ..)
  · exact hset.trans (reqMod_kept ..)
  · exact hset

variable {s : ReqState}

variable (h : SubmitClosed md env r P)

include h

theorem SubmitClosed.processPeer {p : Nat}
    (hp : p ∈ env.peers) (hsize : s.size ≠ 0) (hs : P s) : P (processPeer md env r s p) := by
  unfold Request.processPeer
  dsimp only
  split_ifs with hnone _ hremote
  · rw [and_eq_true, not_eq_true'] at hnone
    exact h.setLocal s p hp hnone.1 hs
  · exact hs
  · exact h.sendWrite s p hp hremote hsize hs
  · exact h.pendingOos s p hp (eq_false_of_not_eq_true hremote) hs
  · exact h.sendOos s p hp (eq_false_of_not_eq_true hremote) hs
  · exact h.marked s p hp (eq_false_of_not_eq_true hremote) hs

theorem SubmitClosed.processPeers {l : List Nat}
    (hl : ∀ p ∈ l, p ∈ env.peers) (hsize : s.size ≠ 0) (hs : P s) :
    P (l.foldl (Request.processPeer md env r) s) := by
  refine (List.foldlRecOn (motive := fun t => t.size ≠ 0 ∧ P t) l _ ⟨hsize, hs⟩ fun t ht p hp => ⟨?_, ?_⟩).2
  · rw [(processPeer_kept md env r t p).size]
    exact ht.1
  · exact h.processPeer (hl p hp) ht.1 ht.2

theorem SubmitClosed.addToTl (hs : P s) : P (addToTl r s) := by
  unfold Request.addToTl
  split_ifs
  · exact hs
  · exact h.held _ (h.onTl s hs)
  · exact h.onTl s hs

omit h in
theorem addToTl_size (r : Route) (s : ReqState) : (addToTl r s).size = s.size := by
  unfold addToTl
  split_ifs <;> rfl

omit h in
theorem addToTl_op (r : Route) (s : ReqState) : (addToTl r s).op = s.op := by
  unfold addToTl
  split_ifs <;> rfl

theorem SubmitClosed.updatePlug (sent : Bool) (hs : P s) : P (updatePlug r sent s) := by
  unfold Request.updatePlug
  split_ifs
  · exact h.held s hs
  · exact hs

theorem SubmitClosed.submitPrivateBio (hs : P s) : P (submitPrivateBio md env s) := by
  unfold Request.submitPrivateBio
  split_ifs with hbio
  · exact hs
  · exact h.event _ _ (.toBeSubmitted hbio) hs

/-- What every step keeps is kept by a submission that I/O suspension does not stop. -/
theorem SubmitClosed.sendAndSubmit (hsusp : env.suspended = false)
    (hread : ∀ p ∈ r.readPeer, p ∈ env.peers) (hs : P s) : P (sendAndSubmit md env r s) := by
  unfold Request.sendAndSubmit
  rw [hsusp, if_neg Bool.false_ne_true]
  by_cases hw : s.op.isWrite = true
  · rw [if_pos hw]
    have htl := h.addToTl hs
    dsimp only
    split_ifs with hdata hsize
    · exact h.noBio _ htl
    · exact h.submitPrivateBio (h.updatePlug true (h.event _ _ (.queueAsBsrBarrier hsize) htl))
    · exact h.submitPrivateBio (h.updatePlug _ (h.processPeers (fun _ hp => hp) hsize htl))
  · rw [if_neg hw]
    cases hpeer : r.readPeer with
    | none =>
      split_ifs
      · exact h.noBio s hs
      · exact h.submitPrivateBio (h.addToTl hs)
    | some p =>
      have hp := hread p hpeer
      have htl := h.addToTl (h.noBio s hs)
      have hop : (Request.addToTl r { s with privateBio := .null }).op.isWrite = false := by
        rw [addToTl_op]
        exact eq_false_of_not_eq_true hw
      have hsent := h.event _ _ (.toBeSent hp hop) htl
      refine h.updatePlug true (h.event _ _ (.queueForNetRead hp ?_) hsent)
      rw [(reqMod_kept md env _ _).op]
      exact hop

end

end Bsr.Request
