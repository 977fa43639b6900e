import Bsr.Lib.Reach
import Bsr.PeerAck.Model

/-!
# The window of the peer acks

An ack that is kept back has to go out at the latest when `peer_ack_window` sectors have been
written since the last one that was queued. Writes are destroyed in the order of their dagtags
(`destroy_next`).

* `since` are the writes destroyed since an ack was queued last, `misjudged` says that a test of the
  window came out other than their sum demands;
* `reqDestroy` measures from the write destroyed last, so the test sees one write only;
* `Event.Guarded` are the writes for which that makes no difference.
-/

namespace Bsr.PeerAck

open Lib

namespace Window

/-- The resource, and what was destroyed. -/
structure Sys where
  res : Resource
  /-- The dagtag of the write destroyed last. -/
  destroyed : Int
  /-- The sectors of the writes destroyed since an ack was queued last. -/
  since : List Nat
  misjudged : Bool

/-- The size of a write, the nodes it was sent to and that have it, and whether it was the last
reference to an extent of the activity log while others wait for one. -/
structure Destroyed where
  sector : Nat
  sectors : Nat
  sent : Finset Nat
  ok : Finset Nat
  lastRef : Bool

inductive Event where
  | destroy (w : Destroyed)
  /-- A write that was postponed before it got a dagtag. -/
  | postponed (w : Destroyed)
  /-- The timer, or the end of the primary role. -/
  | flush

variable (s : Sys)

def Sys.request (w : Destroyed) : Request where
  dagtag := s.destroyed + w.sectors
  sector := w.sector
  sectors := w.sectors
  sent := w.sent
  ok := w.ok

/-- Requests are zeroed when they are allocated, so the dagtag is zero; nothing was sent. -/
def postponedRequest (w : Destroyed) : Request where
  dagtag := 0
  sector := w.sector
  sectors := w.sectors

/-- An ack is queued when the request is destroyed. -/
def Sys.queues (req : Request) (lastRef : Bool) : Bool :=
  match s.res.peerAckReq with
  | none => false
  | some p => mustQueue s.res req p lastRef

/-- The window alone decides. -/
def Sys.Asks (req : Request) (lastRef : Bool) : Prop :=
  ∃ p, s.res.peerAckReq = some p ∧ peerAckDiffers s.res req p = false ∧ lastRef = false

instance (s : Sys) (req : Request) (lastRef : Bool) : Decidable (s.Asks req lastRef) :=
  match h : s.res.peerAckReq with
  | none => isFalse fun ⟨_, hp, _⟩ => nomatch h.symm.trans hp
  | some p => decidable_of_iff (peerAckDiffers s.res req p = false ∧ lastRef = false)
      ⟨fun hp => ⟨p, h, hp⟩, fun ⟨_, hq, hp⟩ => Option.some.inj (h.symm.trans hq) ▸ hp⟩

/-- Measured from the last queued ack, the write fills the window. -/
def Sys.Full (w : Destroyed) : Prop :=
  s.res.peerAckWindow ≤ s.since.sum + w.sectors

instance (s : Sys) (w : Destroyed) : Decidable (s.Full w) :=
  inferInstanceAs (Decidable (_ ≤ _))

namespace Event

def exec : Event → Sys
  | destroy w =>
    { res := reqDestroy s.res (s.request w) w.lastRef
      destroyed := s.destroyed + w.sectors
      since := if s.queues (s.request w) w.lastRef then [w.sectors] else s.since ++ [w.sectors]
      misjudged := s.misjudged ||
        decide (s.Asks (s.request w) w.lastRef ∧ ¬ (peerAckWindowFull s.res (s.request w) = true ↔ s.Full w)) }
  | postponed w =>
    { s with
      res := reqDestroy s.res (postponedRequest w) w.lastRef
      since := if s.queues (postponedRequest w) w.lastRef then [] else s.since }
  | flush => { s with res := flushPeerAcks s.res, since := [] }

/-- A write has at least one sector. -/
def Legal : Event → Prop
  | destroy w => 0 < w.sectors
  | postponed w => 0 < w.sectors
  | flush => True

/-- Where the window alone decides, it is filled by the write itself, or not even together with the
writes since the last queued ack; and no write is postponed. -/
def Guarded : Event → Prop
  | destroy w => s.Asks (s.request w) w.lastRef → s.res.peerAckWindow ≤ w.sectors ∨ ¬ s.Full w
  | postponed _ => False
  | flush => True

def Step (e : Event) (s' : Sys) : Prop :=
  e.Legal ∧ s' = e.exec s

end Event

/-- A resource that has not written yet. -/
structure Start (s : Sys) : Prop where
  req : s.res.peerAckReq = none
  since : s.since = []
  misjudged : s.misjudged = false

/-- At most the window and one write have gone without an ack since one was queued, and every test
of the window was measured from there. -/
structure Kept (s : Sys) : Prop where
  bounded : s.since = [] ∨ ∃ n ∈ s.since, s.since.sum ≤ s.res.peerAckWindow + n
  measured : s.misjudged = false

structure Inv (s : Sys) : Prop where
  idle : s.res.peerAckReq = none → s.since = []
  /-- The window starts at the write destroyed last. -/
  base : s.res.peerAckReq ≠ none → s.res.lastPeerAckedDagtag = s.destroyed
  small : s.since = [] ∨ (∃ n, s.since = [n]) ∨ s.since.sum < s.res.peerAckWindow
  measured : s.misjudged = false

section Steps

variable {s s' : Sys} {w : Destroyed}

theorem peerAckWindowFull_iff (h : s.res.lastPeerAckedDagtag = s.destroyed) :
    peerAckWindowFull s.res (s.request w) = true ↔ s.res.peerAckWindow ≤ w.sectors := by
  simp only [peerAckWindowFull, dagtagNewerEq, Sys.request, h, decide_eq_true_eq]
  omega

/-- Without an ack that goes out there is none to keep, or the window alone decided against it. -/
theorem asks_of_not_queues {req : Request} {lastRef : Bool} (h : s.queues req lastRef = false) :
    s.res.peerAckReq = none ∨ s.Asks req lastRef ∧ peerAckWindowFull s.res req = false := by
  unfold Sys.queues at h
  cases hp : s.res.peerAckReq with
  | none => exact .inl rfl
  | some p =>
    rw [hp] at h
    simp only [mustQueue, Bool.or_eq_false_iff] at h
    exact .inr ⟨⟨p, hp, h.1.1, h.1.2⟩, h.2⟩

theorem Inv.destroy (h : Inv s) (hguard : (Event.destroy w).Guarded s) : Inv ((Event.destroy w).exec s) := by
  have htest : s.Asks (s.request w) w.lastRef → (peerAckWindowFull s.res (s.request w) = true ↔ s.Full w) := by
    intro hasks
    obtain ⟨p, hp, -⟩ := id hasks
    rw [peerAckWindowFull_iff (h.base (by simp [hp]))]
    refine ⟨fun hbig => Nat.le_trans hbig (Nat.le_add_left _ _), fun hfull => ?_⟩
    exact (hguard hasks).resolve_right (not_not.2 hfull)
  dsimp only [Event.exec]
  rw [reqDestroy_eq]
  refine ⟨nofun, fun _ => rfl, ?_, ?_⟩
  · cases hqueue : s.queues (s.request w) w.lastRef with
    | true => exact .inr (.inl ⟨w.sectors, by simp⟩)
    | false =>
      rw [if_neg Bool.false_ne_true]
      obtain hnone | ⟨hasks, hnot⟩ := asks_of_not_queues hqueue
      · -- the first write after an ack was queued
        rw [h.idle hnone]
        exact .inr (.inl ⟨w.sectors, rfl⟩)
      · have hfull : ¬ s.Full w := fun hfull => by simp [(htest hasks).2 hfull] at hnot
        refine .inr (.inr ?_)
        rw [List.sum_append]
        exact Nat.lt_of_not_le hfull
  · rw [h.measured, Bool.false_or, decide_eq_false_iff_not]
    exact fun hbad => hbad.2 (htest hbad.1)

theorem Inv.flush (h : Inv s) : Inv (Event.flush.exec s) := by
  dsimp only [Event.exec]
  cases hp : s.res.peerAckReq with
  | none =>
    have hsame : flushPeerAcks s.res = s.res := by simp [flushPeerAcks, hp]
    rw [hsame]
    exact ⟨fun _ => rfl, fun hne => absurd hp hne, .inl rfl, h.measured⟩
  | some p =>
    rw [flushPeerAcks_eq hp]
    exact ⟨fun _ => rfl, fun hne => absurd rfl hne, .inl rfl, h.measured⟩

theorem Inv.step {e : Event} (h : Inv s) (hguard : e.Guarded s) (hstep : e.Step s s') : Inv s' := by
  obtain ⟨-, rfl⟩ := hstep
  cases e with
  | destroy w => exact h.destroy hguard
  | postponed w => exact hguard.elim
  | flush => exact h.flush

theorem Start.inv (h : Start s) : Inv s :=
  ⟨fun _ => h.since, fun hne => absurd h.req hne, .inl h.since, h.misjudged⟩

theorem Inv.kept (h : Inv s) : Kept s := by
  refine ⟨?_, h.measured⟩
  obtain hnil | ⟨n, hn⟩ | hsmall := h.small
  · exact .inl hnil
  · exact .inr ⟨n, by simp [hn], by simp [hn]⟩
  · cases hsince : s.since with
    | nil => exact .inl rfl
    | cons n ns =>
      rw [hsince] at hsmall
      exact .inr ⟨n, List.mem_cons_self, by omega⟩

end Steps

/-- In a run of guarded steps an ack is queued before more than the window and one write have been
written since the last one, and the window is measured from there. -/
theorem peer_ack_window_kept {s : Sys}
    (h : Reachable Start (fun s e s' => Event.Guarded s e ∧ Event.Step s e s') s) : Kept s := by
  have hinv : Inv s := h.invariant (fun _ => Start.inv) fun _ _ _ hinv hstep => hinv.step hstep.1 hstep.2
  exact hinv.kept

/-- One secondary, and the default window. -/
def twoMiB : Sys where
  res := { conns := [{ peerNodeId := 1 }], maxNodeId := 1, peerAckWindow := 4096 }
  destroyed := 0
  since := []
  misjudged := false

theorem twoMiB_start : Start twoMiB := ⟨rfl, rfl, rfl⟩

/-- A write that node 1 has. -/
def written (sectors : Nat) : Destroyed := ⟨0, sectors, {1}, {1}, false⟩

def later (sectors : Nat) : Sys :=
  (Event.destroy (written sectors)).exec s

/-- After 1 MiB and 512 KiB the window is asked about 2 MiB, and the ack goes out. -/
theorem peer_ack_window_kept_queued : ∃ s s' : Sys, s' = later s 4096 ∧ s.since = [2048, 1024] ∧
    s.Asks (s.request (written 4096)) false ∧ s'.since = [4096] ∧ s'.res.peerAckList.length = 1 ∧ Kept s' := by
  refine ⟨later (later twoMiB 2048) 1024, _, rfl, by decide, by decide, by decide, by decide, ?_⟩
  have hnext : ∀ {s n}, Reachable Start (fun s e s' => Event.Guarded s e ∧ Event.Step s e s') s →
      0 < n → s.res.peerAckWindow ≤ n ∨ ¬ s.Full (written n) →
      Reachable Start (fun s e s' => Event.Guarded s e ∧ Event.Step s e s') (later s n) :=
    fun h hn hguard => .next (.destroy (written _)) h ⟨fun _ => hguard, hn, rfl⟩
  have hfirst := hnext (.start twoMiB_start) (show 0 < 2048 by decide) (.inr (by decide))
  have hsecond := hnext hfirst (show 0 < 1024 by decide) (.inr (by decide))
  exact peer_ack_window_kept (hnext hsecond (by decide) (.inl (by decide)))

/-- Four writes of 1 MiB: no ack goes out, although 4 MiB are more than the window and one of
them. -/
theorem window_never_full : ∃ s, Reachable Start (fun s e s' => Event.Step s e s') s ∧
    s.since = [2048, 2048, 2048, 2048] ∧ s.res.peerAckWindow = 4096 ∧ s.res.peerAckList = [] ∧
    s.misjudged = true := by
  have hnext : ∀ {s}, Reachable Start (fun s e s' => Event.Step s e s') s →
      Reachable Start (fun s e s' => Event.Step s e s') (later s 2048) :=
    fun h => h.next (.destroy (written 2048)) ⟨Nat.zero_lt_succ _, rfl⟩
  exact ⟨_, hnext (hnext (hnext (hnext (.start twoMiB_start)))), by decide⟩

end Window
end Bsr.PeerAck
