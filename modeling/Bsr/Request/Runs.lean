import Bsr.Lib.Reach
import Bsr.Request.Account

/-!
# Reference accounting over whole runs

Any sequence of critical sections on one request, with any number of peers and I/O suspended and
resumed in between. `request_refs_accounted` is the balance of both counters in every state of a run
in which no completed request is given a new completion reference; `late_ack_breaks_kref` is a run
in which that happens.
-/

namespace Bsr.Request

open Lib

section

variable {md : DeviceMd} {s : ReqState}

theorem Accounted.step {e : Env × ReqStep} {s' : ReqState} (h : Accounted md s)
    (hfresh : s.submitting = true → Fresh s) (hstep : Step md s e s')
    (hlate : e.2.NoLateRef e.1 s) : Accounted md s' := by
  obtain ⟨env, st⟩ := e
  obtain ⟨hpeers, hlegal, rfl⟩ := hstep
  cases st with
  | submit r => exact ((hfresh hlegal.1).opening.send hpeers hlegal.2).put hpeers
  | event ev => exact h.event hpeers hlegal hlate
  | endio error => exact h.endio hpeers hlate
  | retry =>
    have hlt : s.retried < s.restarts := hlegal.2
    have hkrefs := h.krefs
    refine Owing.sub env ⟨h.refs, ?_, ?_, h.zeroed⟩ Nat.one_pos
    · show s.kref + s.completions.length + ((s.retried + 1 : Nat) : Int) =
        (expectedKrefs md s : Int) + 1
      omega
    cases h.phase with
    | running _ _ hrest _ _ => omega
    | completed _ _ hrest _ => omega
    | restarted h1 h2 h3 _ h5 =>
      exact .restarted h1 h2 h3 (show s.retried + 1 ≤ 1 by omega) h5
  | hold => exact h.hold hlegal.2
  | release =>
    have hpos : 0 < s.holders := hlegal.2
    have hkrefs := h.krefs
    refine Owing.sub env ⟨h.refs, ?_, h.phase.congr rfl, h.zeroed⟩ Nat.one_pos
    show s.kref + s.completions.length + s.retried =
      ((1 + (s.holders - 1) + s.loc.krefs + netSum md NetFlags.krefs s.net : Nat) : Int) + 1
    simp only [expectedKrefs] at hkrefs
    omega

theorem Step.submitting {e : Env × ReqStep} {s' : ReqState} (hstep : Step md s e s') :
    s'.submitting = false := by
  obtain ⟨env, st⟩ := e
  obtain ⟨_, hlegal, rfl⟩ := hstep
  cases st with
  | submit r => exact (dropRefs_kept md env _ 1 0).1.submitting
  | event ev => exact (reqMod_kept md env s ev).submitting.trans hlegal.1
  | endio error =>
    have hfold := Kept.foldl (sendPendingOos_kept md env) env.peers { s with privateBio := .errPtr error }
    exact ((reqMod_kept md env _ _).submitting.trans hfold.submitting).trans hlegal.1
  | retry | release => exact (krefSub_kept md env _ 1).1.submitting.trans hlegal.1
  | hold => exact hlegal.1

/-- A critical section that takes no completion reference on a completed request. -/
def SafeStep (md : DeviceMd) (s : ReqState) (e : Env × ReqStep) (s' : ReqState) : Prop :=
  Step md s e s' ∧ e.2.NoLateRef e.1 s

theorem accounted_of_reachable (hs : Reachable Fresh (SafeStep md) s) :
    Accounted md s ∧ (s.submitting = true → Fresh s) := by
  refine hs.invariant (P := fun s => Accounted md s ∧ (s.submitting = true → Fresh s)) ?_ ?_
  · intro s hfresh
    exact ⟨hfresh.opening.accounted, fun _ => hfresh⟩
  rintro s e _ ⟨hacc, hfresh⟩ ⟨hstep, hlate⟩
  refine ⟨hacc.step hfresh hstep hlate, fun hsub => ?_⟩
  rw [hstep.submitting] at hsub
  exact absurd hsub Bool.false_ne_true

theorem netSum_eq_zero {w : NetFlags → Nat} {net : Nat → NetFlags} :
    netSum md w net = 0 ↔ ∀ p ≤ md.maxNodeId, w (net p) = 0 := by
  simp only [netSum, Finset.sum_eq_zero_iff, Finset.mem_range, Nat.lt_succ_iff]

/-- The object goes away when nothing waits for it any more. -/
theorem Accounted.kref_zero_iff (h : Accounted md s) : s.kref = 0 ↔
    s.completions.length + s.retried = 1 ∧ s.holders = 0 ∧
    ¬ (s.loc.aborted = true ∧ s.loc.pending = true) ∧
    ∀ p ≤ md.maxNodeId, (s.net p).expBarrAck = true → (s.net p).done = true := by
  have hkrefs := h.krefs
  have hle := h.phase.finished_le
  have hloc : s.loc.krefs = 0 ↔ ¬ (s.loc.aborted = true ∧ s.loc.pending = true) := by
    simp only [LocalFlags.krefs]
    cases s.loc.aborted <;> cases s.loc.pending <;> simp
  have hnet : netSum md NetFlags.krefs s.net = 0 ↔
      ∀ p ≤ md.maxNodeId, (s.net p).expBarrAck = true → (s.net p).done = true := by
    rw [netSum_eq_zero]
    refine forall_congr' fun p => imp_congr_right fun _ => ?_
    simp only [NetFlags.krefs]
    cases (s.net p).expBarrAck <;> cases (s.net p).done <;> simp
  rw [← hloc, ← hnet]
  simp only [expectedKrefs] at hkrefs
  omega

/-- In a run in which no completed request is given a new completion reference: the completion
reference is what the flags say and never negative; the master bio is completed, or the request
handed to the retry worker, once and exactly when it is zero; the kref is never negative and becomes
zero once, exactly when the request is finished, nobody else holds it and every expected barrier ack
is done. -/
theorem request_refs_accounted (md : DeviceMd) {s : ReqState} (hs : Reachable Fresh (SafeStep md) s) :
    (s.completionRef = ((s.submitting.toNat + (s.loc.pending && !s.loc.aborted).toNat +
      s.loc.susp.toNat + ∑ p ∈ Finset.range (md.maxNodeId + 1),
        ((s.net p).pending.toNat + (s.net p).queued.toNat) : Nat) : Int)) ∧
    0 ≤ s.completionRef ∧
    s.completions.length + s.restarts ≤ 1 ∧
    (s.completionRef = 0 ↔ s.completions.length + s.restarts = 1) ∧
    0 ≤ s.kref ∧ s.zeroed = (if s.kref = 0 then 1 else 0) ∧
    (s.kref = 0 ↔ s.completions.length + s.retried = 1 ∧ s.holders = 0 ∧
      ¬ (s.loc.aborted = true ∧ s.loc.pending = true) ∧
      ∀ p ≤ md.maxNodeId, (s.net p).expBarrAck = true → (s.net p).done = true) := by
  obtain ⟨h, _⟩ := accounted_of_reachable hs
  have hrefs := h.refs
  have hkrefs := h.krefs
  have hle := h.phase.finished_le
  refine ⟨?_, ?_, ?_, ?_, ?_, h.zeroed, h.kref_zero_iff⟩
  · simp only [expectedRefs, LocalFlags.refs, netSum, NetFlags.refs] at hrefs
    omega
  · omega
  · cases h.phase with
    | running _ hcomp hrest _ _ | restarted _ hcomp hrest _ _ => simp [hcomp, hrest]
    | completed _ hcomp hrest _ => omega
  · cases h.phase with
    | running hpos hcomp hrest _ _ =>
      simp only [hcomp, hrest, List.length_nil]
      omega
    | completed hz hcomp hrest _ | restarted hz hcomp hrest _ _ => simp [hz, hcomp, hrest]
  · simp only [expectedKrefs] at hkrefs
    omega

end

/-! ## Concrete runs -/

/-- Runs a list of critical sections as long as each passes the test. -/
def runChecked (md : DeviceMd) (ok : ReqState → Env × ReqStep → Bool) :
    ReqState → List (Env × ReqStep) → Option ReqState
  | s, [] => some s
  | s, e :: rest => if ok s e then runChecked md ok (e.2.exec md e.1 s) rest else none

theorem reachable_runChecked {md : DeviceMd} {ok : ReqState → Env × ReqStep → Bool}
    {init : ReqState → Prop} {R : ReqState → Env × ReqStep → ReqState → Prop}
    (hok : ∀ s e, ok s e = true → R s e (e.2.exec md e.1 s)) {l : List (Env × ReqStep)}
    {s t : ReqState} (hs : Reachable init R s) (h : runChecked md ok s l = some t) :
    Reachable init R t := by
  induction l generalizing s with
  | nil =>
    cases h
    exact hs
  | cons e rest ih =>
    rw [runChecked] at h
    split_ifs at h with he
    exact ih (hs.next e (hok s e he)) h

def legalStep (md : DeviceMd) (s : ReqState) (e : Env × ReqStep) : Bool :=
  decide (∀ p ∈ e.1.peers, p ≤ md.maxNodeId) && decide (e.2.Legal e.1 s)

def safeStep (md : DeviceMd) (s : ReqState) (e : Env × ReqStep) : Bool :=
  legalStep md s e && decide (e.2.NoLateRef e.1 s)

theorem step_of_legalStep {md : DeviceMd} (s : ReqState) (e : Env × ReqStep)
    (h : legalStep md s e = true) : Step md s e (e.2.exec md e.1 s) := by
  rw [legalStep, Bool.and_eq_true, decide_eq_true_eq, decide_eq_true_eq] at h
  exact ⟨h.1, h.2, rfl⟩

theorem safeStep_spec {md : DeviceMd} (s : ReqState) (e : Env × ReqStep)
    (h : safeStep md s e = true) : SafeStep md s e (e.2.exec md e.1 s) := by
  rw [safeStep, Bool.and_eq_true, decide_eq_true_eq] at h
  exact ⟨step_of_legalStep s e h.1, h.2⟩

/-- One peer, one slot, a device of one block. -/
def tinyMd : DeviceMd where
  maxNodeId := 0
  bitmapIndex := fun _ => some 0
  bmMaxPeers := 1
  nrSectors := 8

/-- A write of that block. -/
def tinyWrite : ReqState :=
  bsrReqNew .write 0 4096 (.bio 1) (fun _ => false) (fun _ _ => false)

theorem tinyWrite_fresh : Fresh tinyWrite :=
  ⟨_, _, _, _, _, _, rfl⟩

/-- The peer is connected and speaks this protocol. -/
def tinyEnv (prot : WireProtocol) : Env where
  peers := [0]
  wireProtocol := fun _ => prot

/-- A write mirrored with protocol C. -/
def mirroredRun : List (Env × ReqStep) :=
  [(tinyEnv .protC, .submit { remote := fun _ => true }),
    (tinyEnv .protC, .event (.handedOverToNetwork 0)),
    (tinyEnv .protC, .event (.writeAckedByPeer 0)),
    (tinyEnv .protC, .endio 0),
    (tinyEnv .protC, .event (.barrierAcked 0))]

/-- Disk, ack and barrier ack: completed once and freed once. -/
theorem request_refs_accounted_mirrored : ∃ s : ReqState, s.completionRef = 0 ∧
    s.completions.length + s.restarts = 1 ∧ s.kref = 0 ∧ s.zeroed = 1 := by
  have hrun : ((runChecked tinyMd (safeStep tinyMd) tinyWrite mirroredRun).map fun s =>
      (s.completionRef, s.kref)) = some (0, 0) := by
    decide
  obtain ⟨s, hs, heq⟩ := Option.map_eq_some_iff.1 hrun
  rw [Prod.mk.injEq] at heq
  have hreach := reachable_runChecked safeStep_spec (.start tinyWrite_fresh) hs
  obtain ⟨_, _, _, hdone, _, hzeroed, _⟩ := request_refs_accounted tinyMd hreach
  exact ⟨s, heq.1, hdone.1 heq.1, heq.2, by rw [hzeroed, heq.2]; rfl⟩

/-- A protocol A write is completed when it is sent. During a resync the peer acknowledges it all
the same; if I/O happens to be suspended then, the ack gives the completed request a completion
reference, and the barrier ack completes it a second time. -/
def lateAckRun : List (Env × ReqStep) :=
  [(tinyEnv .protA, .submit { remote := fun _ => true }),
    (tinyEnv .protA, .endio 0),
    (tinyEnv .protA, .event (.handedOverToNetwork 0)),
    ({ tinyEnv .protA with suspended := true }, .event (.writeAckedByPeer 0)),
    (tinyEnv .protA, .event (.barrierAcked 0))]

/-- The reference count ends below zero, and nothing frees the request. -/
theorem late_ack_breaks_kref : ∃ s : ReqState, Reachable Fresh (Step tinyMd) s ∧
    s.completions.length = 1 ∧ s.completionRef = 0 ∧ s.kref = -1 ∧ s.zeroed = 0 := by
  have hrun : ((runChecked tinyMd (legalStep tinyMd) tinyWrite lateAckRun).map fun s =>
      (s.completions.length, s.completionRef, s.kref, s.zeroed)) = some (1, 0, -1, 0) := by
    decide
  obtain ⟨s, hs, heq⟩ := Option.map_eq_some_iff.1 hrun
  simp only [Prod.mk.injEq] at heq
  exact ⟨s, reachable_runChecked step_of_legalStep (.start tinyWrite_fresh) hs, heq⟩

end Bsr.Request
