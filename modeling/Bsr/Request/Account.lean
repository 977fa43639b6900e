import Bsr.Request.Refs
import Bsr.Request.Submit

/-!
# Reference accounting of request events

Every event of `__req_mod` keeps the counters of a request right, as long as it takes no completion
reference on a request that has been completed. So do the submission, which cannot, and the local
completion.
-/

namespace Bsr.Request

open Function Option Bool

/-! ## Calls that need no care -/

/-- A call that is regular in every state. -/
def Mod.plain (m : Mod) : Bool :=
  !m.set.loc.pending && !m.set.loc.aborted && !m.clear.loc.aborted && !m.set.loc.susp &&
    !(m.clear.net.pending && m.set.net.pending) && !(m.clear.net.queued && m.set.net.queued) &&
    !m.set.net.expBarrAck && !m.clear.net.expBarrAck && !m.clear.net.done &&
    !m.set.net.oosLocalDone &&
    (m.peer.isSome || (decide (m.clear.net = {}) && decide (m.set.net = {}))) && !m.clear.loc.ok

variable {m : Mod}

open Mod

theorem Mod.plain.regular (h : m.plain = true) (env : Env) (s : ReqState) : m.Regular env s := by
  simp only [plain, and_eq_true, or_eq_true, not_eq_true', decide_eq_true_eq] at h
  obtain ⟨⟨⟨⟨⟨⟨⟨⟨⟨⟨⟨h1, h2⟩, h3⟩, h4⟩, h5⟩, h6⟩, h7⟩, h8⟩, h9⟩, h10⟩, h11⟩, _⟩ := h
  constructor
  · simp [h2]
  · simp [h1]
  · exact ⟨h3, h4⟩
  · exact h5
  · exact h6
  · simp [h7]
  · exact ⟨h8, h9⟩
  · intro hnone
    rcases h11 with hsome | hnet
    · simp [hnone] at hsome
    · exact hnet
  · simp [h10]

theorem Mod.plain.clear_ok (h : m.plain = true) : m.clear.loc.ok = false := by
  rw [plain, and_eq_true, not_eq_true'] at h
  exact h.2

/-- Four events are special: they submit the bio, abort it, expect a barrier ack or mark a slot. -/
def ReqEvent.special : ReqEvent → Bool
  | .toBeSubmitted => true
  | .abortDiskIo => true
  | .queueForNetWrite _ => true
  | .oosSetToLocal _ => true
  | _ => false

open List

theorem barrierMods_plain (s : ReqState) (p : Nat) : ∀ m ∈ barrierMods s p, m.plain = true := by
  intro m hm
  unfold barrierMods at hm
  split_ifs at hm with hw hpe
  · exact absurd hm (not_mem_nil)
  · rcases mem_cons.1 hm with rfl | hm
    · rfl
    · rw [mem_singleton.1 hm]
      rfl
  · rw [mem_singleton.1 hm]
    rfl

variable {ev : ReqEvent}

open ReqEvent

theorem ReqEvent.mods_plain {env : Env} {s : ReqState} (h : ev.special = false) :
    ∀ m ∈ ev.mods env s, m.plain = true := by
  intro m hm
  cases ev
  case barrierAcked p => exact barrierMods_plain s p m hm
  case resend p =>
    simp only [mods] at hm
    split_ifs at hm
    · rw [mem_singleton.1 hm]
      rfl
    · rw [mem_singleton.1 hm]
      rfl
    · exact barrierMods_plain s p m hm
  case queueAsBsrBarrier =>
    obtain ⟨p, _, rfl⟩ := mem_map.1 hm
    rfl
  case failFrozenDiskIo p =>
    simp only [mods] at hm
    split_ifs at hm
    · rw [mem_singleton.1 hm]
      rfl
    · exact absurd hm (not_mem_nil)
  case handedOverToNetwork p =>
    simp only [mods] at hm
    split_ifs at hm
    · rw [mem_singleton.1 hm]
      rfl
    · rw [mem_singleton.1 hm]
      rfl
  case postponeWrite p => exact absurd hm (not_mem_nil)
  all_goals first
    | cases h; done
    | (rw [mem_singleton.1 hm]; rfl)

section

variable {md : DeviceMd} {env : Env} {s : ReqState}

/-! ## One event -/

variable {p : Nat}

theorem netSum_update_same {w : NetFlags → Nat} {net : Nat → NetFlags} {f : NetFlags}
    (hf : w f = w (net p)) : netSum md w (update net p f) = netSum md w net :=
  Finset.sum_congr rfl fun q _ =>
    (forall_update_iff net fun q g => w g = w (net q)).2 ⟨hf, fun _ _ => rfl⟩ q

theorem Accounted.update (h : Accounted md s) {f : NetFlags}
    (hf : f.refs = (s.net p).refs ∧ f.krefs = (s.net p).krefs) :
    Accounted md { s with net := Function.update s.net p f } where
  refs := by simpa only [expectedRefs, netSum_update_same hf.1] using h.refs
  krefs := by simpa only [expectedKrefs, netSum_update_same hf.2] using h.krefs
  phase := h.phase.congr rfl
  zeroed := h.zeroed

theorem expectAck_refs (f : NetFlags) (w : WireProtocol) :
    (expectAck f w).refs = f.refs ∧ (expectAck f w).krefs = f.krefs := by
  cases w <;> exact ⟨rfl, rfl⟩

theorem Accounted.assign (h : Accounted md s) (env : Env) (ev : ReqEvent) :
    Accounted md (ev.assign md env s) := by
  cases ev
  case toBeSent p => exact h.update (expectAck_refs _ _)
  case writeAckedByPeerAndSis p => exact h.update ⟨rfl, rfl⟩
  case postponeWrite p =>
    refine ⟨h.refs, h.krefs, ?_, h.zeroed⟩
    cases h.phase with
    | running h1 h2 h3 h4 h5 => exact .running h1 h2 h3 h4 h5
    | completed h1 h2 h3 h4 => exact .completed h1 h2 h3 h4
    | restarted h1 h2 h3 h4 _ => exact .restarted h1 h2 h3 h4 rfl
  case readCompletedWithError =>
    obtain ⟨_, heq⟩ := bsrSetSync_frame md env s (fun _ => true) (fun _ => true)
    show Accounted md (bsrSetSync md env s (fun _ => true) (fun _ => true))
    rw [heq]
    exact ⟨h.refs, h.krefs, h.phase.congr rfl, h.zeroed⟩
  all_goals exact h

theorem Accounted.running_of_submitting (h : Accounted md s) (hsub : s.submitting = true) :
    0 < s.completionRef := by
  rw [h.refs, expectedRefs, hsub]
  simp only [toNat_true]
  omega

open NetFlags

theorem Accounted.running_of_pending (h : Accounted md s) (hp : p ≤ md.maxNodeId)
    (href : 0 < (s.net p).refs) : 0 < s.completionRef := by
  have := le_netSum md refs s.net hp
  rw [h.refs, expectedRefs]
  omega

variable (hpeers : env.Numbered md)

include hpeers

/-- A barrier ack takes no reference, so it may come at any time. -/
theorem Accounted.barrier (h : Accounted md s)
    (hp : ∀ m ∈ barrierMods s p, ∀ q ∈ m.peer, q ∈ env.peers) :
    Accounted md ((barrierMods s p).foldl (modRqState md env) s) := by
  by_cases hw : s.op.isWrite = false
  · simpa [barrierMods, hw] using h
  have hmem : p ∈ env.peers :=
    hp { peer := p, clear := { loc := { susp := true } }
         set := { net := { done := (s.net p).masked } } } (by simp [barrierMods, hw]) p rfl
  have hpeer : ∀ q ∈ (some p : Option Nat), q ≤ md.maxNodeId := by
    intro q hq
    rw [← mem_some.1 hq]
    exact hpeers p hmem
  have hlast : ∀ t : ReqState, Accounted md t → Accounted md (modRqState md env t
      { peer := p, clear := { loc := { susp := true } }
        set := { net := { done := (s.net p).masked } } }) := by
    intro t ht
    apply ht.mod hpeers (plain.regular rfl env t) hpeer
    intro _
    simp [gets, setLoc]
  unfold barrierMods
  split_ifs with hpe
  · apply hlast
    apply h.mod hpeers (plain.regular rfl env s) hpeer
    intro _
    have := h.running_of_pending (hpeers p hmem) (by simp [refs, hpe])
    omega
  · exact hlast s h

theorem Accounted.single (h : Accounted md s) (hmods : ev.mods env s = [m])
    (hreg : m.Regular env (ev.assign md env s)) (hp : ∀ q ∈ m.peer, q ∈ env.peers)
    (hlate : s.completionRef = 0 → m.gets env (ev.assign md env s) = 0) :
    Accounted md (reqMod md env s ev) := by
  have href : (ev.assign md env s).completionRef = s.completionRef := by
    cases ev
    case readCompletedWithError =>
      obtain ⟨_, heq⟩ := bsrSetSync_frame md env s (fun _ => true) (fun _ => true)
      show (bsrSetSync md env s (fun _ => true) (fun _ => true)).completionRef = s.completionRef
      rw [heq]
    all_goals rfl
  unfold reqMod
  rw [hmods]
  exact (h.assign env ev).mod hpeers hreg (fun q hq => hpeers q (hp q hq)) fun hz =>
    hlate (href.symm.trans hz)

/-- No completion reference is taken on a request that has none left. -/
def ReqStep.NoLateRef (env : Env) (s : ReqState) : ReqStep → Prop
  | .event ev => s.completionRef = 0 → ∀ m ∈ ev.mods env s, m.gets env s = 0
  | .endio _ => s.completionRef = 0 → env.suspended = false ∧
      ∀ p ∈ env.peers, 113 ≤ env.agreedProVersion p → (s.net p).oosPending = false
  | _ => True

instance (env : Env) (s : ReqState) (st : ReqStep) : Decidable (st.NoLateRef env s) :=
  match st with
  | .event ev => inferInstanceAs (Decidable (s.completionRef = 0 → ∀ m ∈ ev.mods env s, m.gets env s = 0))
  | .endio _ => inferInstanceAs (Decidable (s.completionRef = 0 → env.suspended = false ∧
      ∀ p ∈ env.peers, 113 ≤ env.agreedProVersion p → (s.net p).oosPending = false))
  | .submit _ | .retry | .hold | .release => inferInstanceAs (Decidable True)

theorem Accounted.plain (h : Accounted md s) (hmods : ev.mods env s = [m]) (hplain : m.plain = true)
    (hassign : ev.assign md env s = s) (hpeer : ∀ m ∈ ev.mods env s, ∀ p ∈ m.peer, p ∈ env.peers)
    (hlate : (ReqStep.event ev).NoLateRef env s) : Accounted md (reqMod md env s ev) := by
  have hmem : m ∈ ev.mods env s := by
    rw [hmods]
    exact mem_singleton_self m
  apply h.single hpeers hmods (plain.regular hplain env _) (hpeer m hmem)
  rw [hassign]
  exact fun hz => hlate hz m hmem

theorem Accounted.event (h : Accounted md s) (hlegal : (ReqStep.event ev).Legal env s)
    (hlate : (ReqStep.event ev).NoLateRef env s) : Accounted md (reqMod md env s ev) := by
  obtain ⟨_, hlater, habort, hpeer⟩ := hlegal
  cases ev
  case barrierAcked p => exact h.barrier hpeers hpeer
  case postponeWrite p => exact h.assign env (.postponeWrite p)
  case abortDiskIo =>
    refine h.single hpeers rfl ?_ (hpeer _ (mem_singleton_self _)) fun hz =>
      hlate hz _ (mem_singleton_self _)
    -- the bio is still with the disk
    constructor <;> first
      | exact fun _ => ⟨habort rfl, rfl⟩
      | simp
  case failFrozenDiskIo p =>
    by_cases hc : s.loc.completed = true
    · exact h.plain hpeers (if_pos hc) rfl rfl hpeer hlate
    · simpa [reqMod, ReqEvent.mods, hc, ReqEvent.assign] using h
  case handedOverToNetwork p =>
    by_cases hA : isPendingWriteProtocolA s p = true
    · exact h.plain hpeers (if_pos hA) rfl rfl hpeer hlate
    · exact h.plain hpeers (if_neg hA) rfl rfl hpeer hlate
  case resend p =>
    by_cases hread : (!s.op.isWrite && !(s.net p).masked) = true
    · exact h.plain hpeers (if_pos hread) rfl rfl hpeer hlate
    by_cases hok : (s.net p).ok = false
    · exact h.plain hpeers ((if_neg hread).trans (if_pos hok)) rfl rfl hpeer hlate
    have hmods : (resend p).mods env s = barrierMods s p :=
      (if_neg hread).trans (if_neg hok)
    rw [hmods] at hpeer
    unfold reqMod
    rw [hmods]
    exact h.barrier hpeers hpeer
  case writeAckedByPeerAndSis p =>
    refine h.single hpeers rfl (plain.regular rfl env _) (hpeer _ (mem_singleton_self _))
      fun hz => ?_
    have hgets := hlate hz _ (mem_singleton_self _)
    simpa [Mod.gets, Mod.setLoc, ReqEvent.assign] using hgets
  all_goals first
    | cases hlater; done
    | exact h.plain hpeers rfl rfl rfl hpeer hlate

/-! ## The local completion -/

omit hpeers in
theorem Accounted.setOutOfSync (h : Accounted md s) (env : Env) (p : Nat) :
    Accounted md (bsrSetOutOfSync md env s p).1 := by
  obtain ⟨_, heq⟩ := bsrSetOutOfSync_frame md env s p
  rw [heq]
  exact ⟨h.refs, h.krefs, h.phase.congr rfl, h.zeroed⟩

/-- Queueing the held-back out-of-sync information keeps a running request running. -/
theorem Accounted.pending_oos (h : Accounted md s) (hpos : 0 < s.completionRef) (hp : p ∈ env.peers) :
    Accounted md (sendPendingOos md env s p) ∧ 0 < (sendPendingOos md env s p).completionRef := by
  unfold sendPendingOos
  split_ifs with hc
  · rw [and_eq_true] at hc
    obtain ⟨oos, heq⟩ := bsrSetOutOfSync_frame md env s p
    have hmark := h.setOutOfSync env p
    rw [heq] at hmark ⊢
    have hacc : Accounted md (reqMod md env { s with oos := oos } (.queueForSendOos p)) := by
      refine hmark.single hpeers rfl (plain.regular rfl env _) ?_ fun hz => ?_
      · intro q hq
        rw [← mem_some.1 hq]
        exact hp
      · exact absurd hz (show s.completionRef ≠ 0 by omega)
    refine ⟨hacc, hacc.running_of_pending (hpeers p hp) ?_⟩
    -- the call is not refused, so the request is queued for this peer now
    have hflags := (@modRqState_flags md env { s with oos := oos }
      { peer := p, clear := { net := { oosPending := true, pending := true } }
        set := { net := { oosNetQueued := true, queued := true } } }
      (by simp [refused, hc.2])).2
    show 0 < ((modRqState md env { s with oos := oos } _).net p).refs
    rw [hflags]
    simp [applied, newNet, apply, refs]
  · exact ⟨h, hpos⟩

variable {l : List Nat}

theorem Accounted.all_pending_oos (hl : ∀ p ∈ l, p ∈ env.peers) (h : Accounted md s)
    (hpos : 0 < s.completionRef) : Accounted md (l.foldl (sendPendingOos md env) s) ∧
      0 < (l.foldl (sendPendingOos md env) s).completionRef := by
  exact foldlRecOn (motive := fun t => Accounted md t ∧ 0 < t.completionRef) l _ ⟨h, hpos⟩
    fun t ht p hp => ht.1.pending_oos hpeers ht.2 (hl p hp)

omit hpeers in
theorem sendPendingOos_none (hl : ∀ p ∈ l, 113 ≤ env.agreedProVersion p →
    (s.net p).oosPending = false) : l.foldl (sendPendingOos md env) s = s := by
  refine foldlRecOn (motive := (· = s)) l _ rfl fun t ht p hp => ?_
  subst ht
  refine if_neg fun hc => ?_
  rw [and_eq_true, decide_eq_true_eq] at hc
  rw [hl p hp hc.1] at hc
  exact false_ne_true hc.2

omit hpeers in
/-- The completion event makes one call, which takes a reference only to hold back the
completion. -/
theorem endioEvent_mods (op : BioOp) (error : Int) (env : Env) (s : ReqState) :
    ∃ m : Mod, (endioEvent op error).mods env s = [m] ∧ m.plain = true ∧ m.peer = none ∧
      ∀ (e : Env) (t : ReqState), e.suspended = false → m.gets e t = 0 := by
  have herr : ∀ ev : ReqEvent, ev.mods env s = completedWithError →
      ∃ m : Mod, ev.mods env s = [m] ∧ m.plain = true ∧ m.peer = none ∧
        ∀ (e : Env) (t : ReqState), e.suspended = false → m.gets e t = 0 := by
    intro ev hev
    refine ⟨_, hev, rfl, rfl, fun e t he => ?_⟩
    simp [gets, setLoc, he]
  unfold endioEvent
  by_cases h0 : error = 0
  · rw [if_pos h0]
    refine ⟨_, rfl, rfl, rfl, fun e t he => ?_⟩
    simp [gets, setLoc, he]
  rw [if_neg h0]
  cases op with
  | read | readAhead | write => exact herr _ rfl
  | discard =>
    split_ifs
    · exact herr _ rfl
    · exact herr _ rfl

theorem Accounted.endio (h : Accounted md s)
    {error : Int} (hlate : (ReqStep.endio error).NoLateRef env s) :
    Accounted md (bsrRequestEndio md env s error) := by
  have h0 : Accounted md { s with privateBio := .errPtr error } :=
    ⟨h.refs, h.krefs, h.phase.congr rfl, h.zeroed⟩
  have hfinal : ∀ t, Accounted md t → (t.completionRef = 0 → env.suspended = false) →
      Accounted md (reqMod md env t (endioEvent s.op error)) := by
    intro t ht hsusp
    obtain ⟨m, hmods, hplain, hnone, hgets⟩ := endioEvent_mods s.op error env t
    refine ht.single hpeers hmods (plain.regular hplain env _) ?_ fun hz => hgets _ _ (hsusp hz)
    intro q hq
    rw [hnone] at hq
    exact absurd hq (not_mem_none q)
  unfold bsrRequestEndio
  by_cases hpos : 0 < s.completionRef
  · obtain ⟨hacc, _⟩ := h0.all_pending_oos hpeers (fun _ hp => hp) hpos
    exact hfinal _ hacc fun hz => by omega
  have hz : s.completionRef = 0 := by
    have := h.refs
    omega
  rw [sendPendingOos_none (s := { s with privateBio := .errPtr error }) (hlate hz).2]
  exact hfinal _ h0 fun _ => (hlate hz).1

/-! ## The submission -/

/-- A request while it is submitted. Its own reference keeps it from being completed. -/
structure Opening (md : DeviceMd) (s : ReqState) : Prop where
  accounted : Accounted md s
  submitting : s.submitting = true
  aborted : s.loc.aborted = false
  done : s.size ≠ 0 → ∀ p, (s.net p).done = false

omit hpeers in
theorem ReqEvent.assign_loc (md : DeviceMd) (env : Env) (s : ReqState) (ev : ReqEvent) :
    (ev.assign md env s).loc = s.loc := by
  cases ev
  case readCompletedWithError =>
    obtain ⟨_, h⟩ := bsrSetSync_frame md env s (fun _ => true) (fun _ => true)
    show (bsrSetSync md env s (fun _ => true) (fun _ => true)).loc = s.loc
    rw [h]
  all_goals rfl

theorem Opening.single (h : Opening md s) (hmods : ev.mods env s = [m])
    (hreg : m.Regular env (ev.assign md env s)) (hp : ∀ q ∈ m.peer, q ∈ env.peers)
    (habort : m.set.loc.aborted = false) (hdone : m.set.net.done = false)
    (hassign : ∀ p, ((ev.assign md env s).net p).done = (s.net p).done) :
    Opening md (reqMod md env s ev) := by
  have hrun := h.accounted.running_of_submitting h.submitting
  have hkept := reqMod_kept md env s ev
  have heq : reqMod md env s ev = modRqState md env (ev.assign md env s) m := by
    rw [reqMod, hmods, foldl_cons, foldl_nil]
  constructor
  · exact h.accounted.single hpeers hmods hreg hp fun hz => absurd hz (by omega)
  · exact hkept.submitting.trans h.submitting
  · rw [heq]
    exact modRqState_aborted habort (by rw [assign_loc, h.aborted])
  · intro _
    rw [heq]
    refine modRqState_done hdone fun p => ?_
    rw [hassign, h.done (by rwa [← hkept.size])]

omit hpeers in
theorem expectAck_done (f : NetFlags) (w : WireProtocol) : (expectAck f w).done = f.done := by
  cases w <;> rfl

omit hpeers in
theorem Opening.setOutOfSync (h : Opening md s) (env : Env) (p : Nat) :
    Opening md (bsrSetOutOfSync md env s p).1 := by
  obtain ⟨hk, hl, hn⟩ := bsrSetOutOfSync_kept md env s p
  constructor
  · exact h.accounted.setOutOfSync env p
  · exact hk.submitting.trans h.submitting
  · rw [hl, h.aborted]
  · intro _ q
    rw [hn]
    exact h.done (by rwa [← hk.size]) q

/-- A flush is mapped to a barrier: every peer counts as done. -/
theorem Accounted.flush (hsusp : env.suspended = false)
    (h : Accounted md s) (hl : ∀ p ∈ l, p ∈ env.peers) :
    Accounted md ((l.map fun p => { peer := some p, set := { net := { ok := true, done := true } } }
      : List Mod).foldl (modRqState md env) s) := by
  refine foldlRecOn _ _ h fun t ht m hm => ?_
  obtain ⟨p, hp, rfl⟩ := mem_map.1 hm
  apply ht.mod hpeers (plain.regular rfl env t)
  · intro q hq
    rw [← mem_some.1 hq]
    exact hpeers p (hl p hp)
  · intro _
    simp [gets, setLoc, hsusp]

omit hpeers in
theorem flush_aborted (h : s.loc.aborted = false) :
    ((l.map fun p => { peer := some p, set := { net := { ok := true, done := true } } }
      : List Mod).foldl (modRqState md env) s).loc.aborted = false := by
  induction l generalizing s with
  | nil => exact h
  | cons p l ih => exact ih (modRqState_aborted rfl h)

omit hpeers in
theorem mem_peers_of_some (hp : p ∈ env.peers) : ∀ q ∈ (some p : Option Nat), q ∈ env.peers := by
  intro q hq
  rw [← mem_some.1 hq]
  exact hp

theorem Opening.toBeSent (h : Opening md s)
    (hp : p ∈ env.peers) : Opening md (reqMod md env s (.toBeSent p)) := by
  refine h.single hpeers rfl (plain.regular rfl env _) (mem_peers_of_some hp) rfl rfl fun q => ?_
  by_cases hq : q = p
  · subst hq
    simp [assign, expectAck_done]
  · simp [assign, update_of_ne hq]

theorem Opening.queueForNetWrite (h : Opening md s)
    (hp : p ∈ env.peers) (hsize : s.size ≠ 0) : Opening md (reqMod md env s (.queueForNetWrite p)) := by
  have hrun := h.accounted.running_of_submitting h.submitting
  refine h.single hpeers rfl ?_ (mem_peers_of_some hp) rfl rfl fun _ => rfl
  constructor <;> first
    | exact fun _ => ⟨h.done hsize p, rfl, hrun⟩
    | simp

theorem Opening.event (hsusp : env.suspended = false)
    (h : Opening md s) (hev : SubmitEvent env s ev) : Opening md (reqMod md env s ev) := by
  cases hev with
  | toBeSent hp _ => exact h.toBeSent hpeers hp
  | queueForNetRead hp _ =>
    exact h.single hpeers rfl (plain.regular rfl env _) (mem_peers_of_some hp) rfl rfl
      fun _ => rfl
  | queueAsBsrBarrier hsize =>
    have hkept := reqMod_kept md env s .queueAsBsrBarrier
    constructor
    · exact h.accounted.flush hpeers hsusp fun _ hp => hp
    · exact hkept.submitting.trans h.submitting
    · exact flush_aborted h.aborted
    · intro hne
      exact absurd (hkept.size.trans hsize) hne
  | toBeSubmitted hbio =>
    refine h.single hpeers rfl ?_ (fun q hq => absurd hq (not_mem_none q)) rfl rfl
      fun _ => rfl
    constructor <;> first
      | exact fun _ => ⟨h.aborted, rfl, rfl⟩
      | simp

omit hpeers in
theorem Accounted.hold (h : Accounted md s) (hk : 0 < s.kref) : Accounted md (hold s) := by
  have hkrefs := h.krefs
  constructor
  · exact h.refs
  · show s.kref + 1 + s.completions.length + s.retried =
      ((1 + (s.holders + 1) + s.loc.krefs + netSum md krefs s.net : Nat) : Int) + 0
    simp only [expectedKrefs] at hkrefs
    omega
  · exact h.phase.congr rfl
  · show s.zeroed = if s.kref + 1 = 0 then 1 else 0
    rw [h.zeroed, if_neg (by omega), if_neg (by omega)]

theorem Opening.closed (hsusp : env.suspended = false)
    (r : Route) : SubmitClosed md env r (Opening md) where
  event _ _ hev hs := hs.event hpeers hsusp hev
  sendWrite s p hp _ hsize hs := by
    refine (hs.toBeSent hpeers hp).queueForNetWrite hpeers hp ?_
    rw [(reqMod_kept md env s _).size]
    exact hsize
  setLocal s p hp _ hs := by
    refine hs.single hpeers rfl ?_ (mem_peers_of_some hp) rfl rfl fun _ => rfl
    constructor <;> first
      | exact fun _ => ⟨hsusp, rfl, rfl⟩
      | simp
  marked _ p _ _ hs := hs.setOutOfSync env p
  pendingOos s p hp _ hs :=
    (hs.setOutOfSync env p).single hpeers rfl (plain.regular rfl env _) (mem_peers_of_some hp) rfl
      rfl fun _ => rfl
  sendOos s p hp _ hs :=
    (hs.setOutOfSync env p).single hpeers rfl (plain.regular rfl env _) (mem_peers_of_some hp) rfl
      rfl fun _ => rfl
  held s hs := by
    have hk := hs.accounted.kref_pos (hs.accounted.running_of_submitting hs.submitting)
    exact { hs with accounted := hs.accounted.hold hk }
  onTl s hs := ⟨{ hs.accounted with phase := hs.accounted.phase.congr rfl },
    hs.submitting, hs.aborted, hs.done⟩
  noBio s hs := ⟨{ hs.accounted with phase := hs.accounted.phase.congr rfl },
    hs.submitting, hs.aborted, hs.done⟩

omit hpeers in
theorem netSum_zero (md : DeviceMd) {w : NetFlags → Nat} {net : Nat → NetFlags}
    (h : ∀ p, w (net p) = 0) : netSum md w net = 0 :=
  Finset.sum_eq_zero fun p _ => h p

omit hpeers in
theorem Fresh.opening (h : Fresh s) : Opening md s := by
  obtain ⟨op, sector, size, bio, inAlOos, oos, rfl⟩ := h
  have hrefs : netSum md refs (bsrReqNew op sector size bio inAlOos oos).net = 0 :=
    netSum_zero md fun _ => rfl
  have hkrefs : netSum md krefs (bsrReqNew op sector size bio inAlOos oos).net = 0 :=
    netSum_zero md fun _ => rfl
  refine ⟨⟨?_, ?_, ?_, rfl⟩, rfl, rfl, fun _ _ => rfl⟩
  · rw [expectedRefs, hrefs]
    rfl
  · rw [expectedKrefs, hkrefs]
    rfl
  · exact .running (show (0 : Int) < 1 by decide) rfl rfl rfl rfl

theorem Opening.put (h : Opening md s) :
    Accounted md (dropRefs md env { s with submitting := false } 1 0) := by
  refine Owing.drop hpeers ⟨?_, h.accounted.krefs, h.accounted.phase.congr rfl,
    h.accounted.zeroed⟩
  have hrefs := h.accounted.refs
  simp only [expectedRefs, h.submitting, toNat_true, toNat_false] at hrefs ⊢
  omega

theorem Opening.send {r : Route} (hread : ∀ p ∈ r.readPeer, p ∈ env.peers) (h : Opening md s) :
    Opening md (sendAndSubmit md env r s) := by
  cases hsusp : env.suspended with
  | false => exact (Opening.closed hpeers hsusp r).sendAndSubmit hsusp hread h
  | true =>
    -- pushed back for retry before anything was done
    have hrun := h.accounted.running_of_submitting h.submitting
    obtain ⟨hcomp, hrest, hretr, hbio⟩ := h.accounted.phase.pos hrun
    rw [sendAndSubmit, hsusp]
    exact ⟨{ h.accounted with phase := .running hrun hcomp hrest hretr hbio }, h.submitting, h.aborted, h.done⟩

end

end Bsr.Request
