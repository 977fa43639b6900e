import Bsr.Request.Covering

/-!
# The fate of a write, over whole runs

`Covering` is established by the submission and kept by the local completion and by every later
event.

* `Sending` is what holds while `bsr_send_and_submit` works; nothing is destroyed before its last
  put;
* `write_acked_or_marked` is the outcome for every run on a node whose disk stays attached;
* `suspended_write_unmarked` is the write that is pushed back before it was started.
-/

namespace Bsr.Request

open Function

open Lib

section

variable {md : DeviceMd} {env : Env} {acked : Nat → Bool} {s t : ReqState}

/-! ## Local completion -/

theorem Covering.setOutOfSync (hw : IsWrite md s) (hdisk : env.getLdev = true)
    (h : Covering md env acked s) (p : Nat) : Covering md env acked (bsrSetOutOfSync md env s p).1 := by
  have hslot : ∀ slot, SlotMarked s slot → SlotMarked (bsrSetOutOfSync md env s p).1 slot :=
    fun _ hm => hm.setOutOfSync hw hdisk
  obtain ⟨_, hframe⟩ := bsrSetOutOfSync_frame md env s p
  rw [hframe] at hslot ⊢
  exact { h with
    peer := fun q => (h.peer q).mono id fun hm slot hs => hslot slot (hm slot hs)
    destroyed := fun hd => (h.destroyed hd).imp_right fun hall slot hlt => (hall slot hlt).imp_right (hslot slot) }

variable {p : Nat}

open Mod

theorem Covering.pendingOos (hmd : md.Slots) (hw : IsWrite md s) (hdisk : env.getLdev = true)
    (h : Covering md env acked s) (hp : p ∈ env.peers) :
    Covering md env acked (sendPendingOos md env s p) := by
  unfold sendPendingOos
  split_ifs with hpend
  · obtain ⟨hk, _, hn⟩ := bsrSetOutOfSync_kept md env s p
    have hset := h.setOutOfSync hw hdisk p
    have hpending : ((bsrSetOutOfSync md env s p).1.net p).oosPending = true := by
      rw [hn]
      exact (Bool.and_eq_true _ _ ▸ hpend).2
    have hnot : ∀ m : Mod, m.peer = some p → m.refused env (bsrSetOutOfSync md env s p).1 = false := by
      intro m hm
      simp [refused, hm, hpending]
    refine hset.modPeer hmd (hw.kept hk) hdisk rfl (hnot _ rfl) rfl hp ?_ (fun _ _ => rfl)
      hset.destroyed
    exact (hset.peer p).queueOos (bsrSetOutOfSync_marked hw hdisk p)
      ((hset.peer p).oos (.inl hpending)).1
  · exact h

theorem Covering.allPendingOos (hmd : md.Slots) (hdisk : env.getLdev = true) {l : List Nat}
    (hl : ∀ p ∈ l, p ∈ env.peers) (hw : IsWrite md s) (h : Covering md env acked s) :
    Covering md env acked (l.foldl (sendPendingOos md env) s) := by
  refine (List.foldlRecOn (motive := fun t => IsWrite md t ∧ Covering md env acked t) l _ ⟨hw, h⟩
    fun t ht p hp => ⟨ht.1.kept (sendPendingOos_kept md env t p), ?_⟩).2
  exact ht.2.pendingOos hmd ht.1 hdisk (hl p hp)

theorem endioEvent_later (hop : s.op.isWrite = true) (error : Int) :
    ∃ m : Mod, m.later = true ∧ m.peer = none ∧
      ∀ t : ReqState, reqMod md env t (endioEvent s.op error) = modRqState md env t m := by
  have herr : ∀ ev : ReqEvent, (∀ t, reqMod md env t ev = completedWithError.foldl (modRqState md env) t) →
      ∃ m : Mod, m.later = true ∧ m.peer = none ∧
        ∀ t : ReqState, reqMod md env t ev = modRqState md env t m :=
    fun _ hev => ⟨{ clear := { loc := { pending := true } }, set := { loc := { completed := true } } },
      rfl, rfl, hev⟩
  unfold endioEvent
  by_cases h0 : error = 0
  · rw [if_pos h0]
    exact ⟨{ clear := { loc := { pending := true } }, set := { loc := { completed := true, ok := true } } },
      rfl, rfl, fun _ => rfl⟩
  rw [if_neg h0]
  cases hcase : s.op with
  | read | readAhead => simp [hcase, BioOp.isWrite] at hop
  | write => exact herr _ fun _ => rfl
  | discard =>
    split_ifs
    · exact herr _ fun _ => rfl
    · exact herr _ fun _ => rfl

theorem Covering.endio (hmd : md.Slots) (hw : IsWrite md s) (hdisk : env.getLdev = true)
    (h : Covering md env acked s) (hdest : s.destroyed = false) (hpend : s.loc.pending = true)
    (error : Int) : Covering md env acked (bsrRequestEndio md env s error) := by
  have hbio : Covering md env acked { s with privateBio := .errPtr error } := by
    refine ⟨h.peer, h.present, .inl (by simp [LocalFlags.masked, hpend]), fun hd => ?_⟩
    exact absurd (hdest.symm.trans hd) Bool.noConfusion
  have hwrite : IsWrite md { s with privateBio := .errPtr error } :=
    { hw with }
  have hall := hbio.allPendingOos hmd hdisk (fun _ hp => hp) hwrite
  have hkept := Kept.foldl (sendPendingOos_kept md env) env.peers
    { s with privateBio := .errPtr error }
  obtain ⟨m, hm, hnone, heq⟩ := @endioEvent_later md env s hw.op error
  rw [bsrRequestEndio, heq]
  exact hall.modLocal hmd (hwrite.kept hkept) hdisk hm hnone

/-! ## Submission -/

theorem bsrReqComplete_zeroed (env : Env) (s : ReqState) :
    (bsrReqComplete env s).zeroed = s.zeroed ∧ (bsrReqComplete env s).oos = s.oos ∧
      (bsrReqComplete env s).destroyed = s.destroyed := by
  unfold bsrReqComplete
  split_ifs <;> exact ⟨rfl, rfl, rfl⟩

theorem putCompletionRef_zeroed (env : Env) (s : ReqState) (c : Nat) :
    (putCompletionRef env s c).1.zeroed = s.zeroed ∧ (putCompletionRef env s c).1.oos = s.oos ∧
      (putCompletionRef env s c).1.destroyed = s.destroyed := by
  have hc := bsrReqComplete_zeroed env { s with completionRef := s.completionRef - c }
  unfold putCompletionRef
  dsimp only
  split_ifs
  · exact ⟨rfl, rfl, rfl⟩
  all_goals exact hc

theorem dropRefs_intact {c k : Nat} (h : (dropRefs md env s c k).zeroed = s.zeroed) :
    (dropRefs md env s c k).oos = s.oos ∧ (dropRefs md env s c k).destroyed = s.destroyed := by
  revert h
  refine dropRefs_rule (Q := fun t => t.zeroed = s.zeroed → t.oos = s.oos ∧ t.destroyed = s.destroyed)
    (fun r => r.1.zeroed = s.zeroed ∧ r.1.oos = s.oos ∧ r.1.destroyed = s.destroyed) (fun _ => ⟨rfl, rfl, rfl⟩)
    (fun _ => putCompletionRef_zeroed env s c) (fun r hr _ _ => hr.2) fun r hr _ h => ?_
  by_cases hz : r.1.kref - ((k + r.2 : Nat) : Int) = 0
  · obtain ⟨oos, d, hframe⟩ := krefSub_frame md env r.1 (k + r.2)
    rw [hframe, if_pos hz] at h
    have : r.1.zeroed + 1 = s.zeroed := h
    omega
  · rw [krefSub, if_neg hz]
    exact hr.2

theorem modRqState_intact {m : Mod} (hmark : m.set.net.oosLocalDone = false)
    (h : (modRqState md env s m).zeroed = s.zeroed) :
    (modRqState md env s m).oos = s.oos ∧ (modRqState md env s m).destroyed = s.destroyed := by
  rcases modRqState_cases md env s m with heq | ⟨_, _, hmark', _⟩ | heq
  · rw [heq]
    exact ⟨rfl, rfl⟩
  · rw [hmark] at hmark'
    cases hmark'
  · rw [heq] at h ⊢
    exact dropRefs_intact h

theorem Opening.zeroed (h : Opening md s) : s.zeroed = 0 := by
  have hk := h.accounted.kref_pos (h.accounted.running_of_submitting h.submitting)
  rw [h.accounted.zeroed, if_neg (by omega)]

/-- A write that is being submitted: no peer has answered, and a peer gets the data or is told what
is out of sync, not both. -/
structure Sending (md : DeviceMd) (env : Env) (r : Route) (s : ReqState) : Prop where
  opening : Opening md s
  write : IsWrite md s
  destroyed : s.destroyed = false
  peer : ∀ p, PeerOk False (Marked md s p) (s.net p)
  present : ∀ p, (s.net p).masked = true → p ∈ env.peers
  data : ∀ p, r.remote p = true → (s.net p).ok = false ∧
    (s.net p).oosPending = false ∧ (s.net p).oosNetQueued = false ∧ (s.net p).oosLocalDone = false
  info : ∀ p, r.remote p = false → (s.net p).expBarrAck = false

variable {r : Route}

theorem Sending.update {f : NetFlags} (h : Sending md env r s) (hopen : Opening md t)
    (hk : Kept s t) (hdest : t.destroyed = false) (hmark : ∀ q, Marked md s q → Marked md t q)
    (hnet : t.net = Function.update s.net p f) (hp : p ∈ env.peers) (hpeer : PeerOk False (Marked md t p) f)
    (hdata : r.remote p = true → f.ok = false ∧ f.oosPending = false ∧ f.oosNetQueued = false ∧
      f.oosLocalDone = false) (hinfo : r.remote p = false → f.expBarrAck = false) : Sending md env r t := by
  refine ⟨hopen, h.write.kept hk, hdest, ?_, ?_, ?_, ?_⟩ <;> rw [hnet]
  · exact (forall_update_iff s.net fun q g => PeerOk False (Marked md t q) g).2
      ⟨hpeer, fun q _ => (h.peer q).mono id (hmark q)⟩
  · exact (forall_update_iff s.net fun q g => g.masked = true → q ∈ env.peers).2
      ⟨fun _ => hp, fun q _ => h.present q⟩
  · exact (forall_update_iff s.net fun q g => r.remote q = true → g.ok = false ∧
      g.oosPending = false ∧ g.oosNetQueued = false ∧ g.oosLocalDone = false).2 ⟨hdata, fun q _ => h.data q⟩
  · exact (forall_update_iff s.net fun q g => r.remote q = false → g.expBarrAck = false).2
      ⟨hinfo, fun q _ => h.info q⟩

theorem Marked.congr (h : Marked md s p) (hk : Kept s t) (hoos : t.oos = s.oos) : Marked md t p := by
  intro slot hs b
  rw [hk.sector, hk.size, hoos]
  exact h slot hs b

theorem Marked.setOutOfSync {q : Nat} (h : Marked md s q) (hw : IsWrite md s)
    (hdisk : env.getLdev = true) (p : Nat) : Marked md (bsrSetOutOfSync md env s p).1 q :=
  fun slot hs => (h slot hs).setOutOfSync hw hdisk

theorem Sending.same {t : ReqState} (h : Sending md env r s) (hopen : Opening md t)
    (hw : IsWrite md t) (hdest : t.destroyed = s.destroyed) (hnet : t.net = s.net)
    (hmark : ∀ q, Marked md s q → Marked md t q) : Sending md env r t := by
  refine ⟨hopen, hw, hdest.trans h.destroyed, fun q => ?_, ?_, ?_, ?_⟩ <;> rw [hnet]
  · exact (h.peer q).mono id (hmark q)
  · exact h.present
  · exact h.data
  · exact h.info

theorem Sending.setOutOfSync (hdisk : env.getLdev = true) (h : Sending md env r s) (p : Nat) :
    Sending md env r (bsrSetOutOfSync md env s p).1 := by
  obtain ⟨_, hframe⟩ := bsrSetOutOfSync_frame md env s p
  obtain ⟨hk, _, hn⟩ := bsrSetOutOfSync_kept md env s p
  exact h.same (h.opening.setOutOfSync env p) (h.write.kept hk) (by rw [hframe]) hn
    fun q hm => hm.setOutOfSync h.write hdisk p

theorem Sending.mod {m : Mod} (h : Sending md env r s)
    (hopen : Opening md (modRqState md env s m)) (href : m.refused env s = false)
    (hmark : m.set.net.oosLocalDone = false) (hm : m.peer = some p) (hp : p ∈ env.peers)
    (hpeer : PeerOk False (Marked md s p) ((s.net p).apply m.clear.net m.set.net))
    (hdata : r.remote p = true → m.set.net.ok = false ∧ m.set.net.oosPending = false ∧
      m.set.net.oosNetQueued = false) (hinfo : r.remote p = false → m.set.net.expBarrAck = false) :
    Sending md env r (modRqState md env s m) := by
  obtain ⟨hoos, hdest⟩ := modRqState_intact hmark (hopen.zeroed.trans h.opening.zeroed.symm)
  have hk := modRqState_kept md env s m
  have hnet : (modRqState md env s m).net =
      Function.update s.net p ((s.net p).apply m.clear.net m.set.net) := by
    rw [(modRqState_flags href).2]
    simp [applied, hm, newNet, oldNet]
  refine h.update hopen hk (hdest.trans h.destroyed) (fun q hq => hq.congr hk hoos) hnet hp
    (hpeer.mono id fun hq => hq.congr hk hoos) (fun hr => ?_) fun hr => ?_
  · obtain ⟨h1, h2, h3⟩ := hdata hr
    obtain ⟨h4, h5, h6, h7⟩ := h.data p hr
    simp [NetFlags.apply, h1, h2, h3, h4, h5, h6, h7, hmark]
  · simp [NetFlags.apply, hinfo hr, h.info p hr]

theorem Sending.sendWrite (hpeers : env.Numbered md) (h : Sending md env r s)
    (hp : p ∈ env.peers) (hr : r.remote p = true) :
    Sending md env r (reqMod md env (reqMod md env s (.toBeSent p)) (.queueForNetWrite p)) := by
  have hsize := h.write.size_pos
  have hopen := h.opening.toBeSent hpeers hp
  have hk := reqMod_kept md env s (.toBeSent p)
  have hopen' := hopen.queueForNetWrite hpeers hp (by rw [hk.size]; exact hsize)
  have hk' := hk.trans (reqMod_kept md env (reqMod md env s (.toBeSent p)) (.queueForNetWrite p))
  -- both calls leave the bits and the object alone
  obtain ⟨hoos, hdest⟩ := @modRqState_intact md env
    (ReqEvent.assign md env s (.toBeSent p)) { peer := p, set := { net := { pending := true } } } rfl
    (hopen.zeroed.trans h.opening.zeroed.symm)
  obtain ⟨hoos', hdest'⟩ := @modRqState_intact md env
    (reqMod md env s (.toBeSent p)) { peer := p, set := { net := { queued := true, expBarrAck := true } } }
    rfl (hopen'.zeroed.trans hopen.zeroed.symm)
  have hnet := (@modRqState_flags md env (ReqEvent.assign md env s (.toBeSent p))
    { peer := p, set := { net := { pending := true } } } (refused_of_not_oos rfl)).2
  have hnet' := (@modRqState_flags md env (reqMod md env s (.toBeSent p))
    { peer := p, set := { net := { queued := true, expBarrAck := true } } } (refused_of_not_oos rfl)).2
  have hall : (reqMod md env (reqMod md env s (.toBeSent p)) (.queueForNetWrite p)).oos = s.oos :=
    hoos'.trans hoos
  obtain ⟨hok, hoos1, hoos2, hoos3⟩ := h.data p hr
  refine h.update (f := ((expectAck (s.net p) (env.wireProtocol p)).apply {} { pending := true }).apply {}
    { queued := true, expBarrAck := true }) hopen' hk' ((hdest'.trans hdest).trans h.destroyed)
    (fun q hq => hq.congr hk' hall) ?_ hp ?_ (fun _ => ?_) fun hr' => ?_
  · refine hnet'.trans ?_
    have hfirst : (reqMod md env s (.toBeSent p)).net = _ := hnet
    simp [applied, newNet, oldNet, hfirst, ReqEvent.assign]
  · exact PeerOk.sendData hok (h.opening.done hsize p) ⟨hoos1, hoos2, hoos3⟩ _
  · cases env.wireProtocol p <;> simp [NetFlags.apply, expectAck, hok, hoos1, hoos2, hoos3]
  · rw [hr] at hr'
    cases hr'

/-- A peer that is not connected: its slot is marked at once, unless that was done before. -/
theorem Sending.setLocal (hdisk : env.getLdev = true) (hsusp : env.suspended = false)
    (h : Sending md env r s) (hp : p ∈ env.peers) (hr : r.remote p = false)
    (hopen : Opening md (reqMod md env s (.oosSetToLocal p))) :
    Sending md env r (reqMod md env s (.oosSetToLocal p)) := by
  let m : Mod := { peer := some p, set := { net := { oosLocalDone := true } } }
  change Opening md (modRqState md env s m) at hopen
  change Sending md env r (modRqState md env s m)
  have hloc : m.newLoc env s = s.loc := by simp [m, Mod.newLoc, Mod.setLoc, hsusp, LocalFlags.apply]
  cases hdone : (s.net p).oosLocalDone with
  | true =>
    have hsame : m.newNet s = m.oldNet s := by
      have hor : ((s.net p).oosLocalDone && !false || true) = (s.net p).oosLocalDone := by
        rw [hdone]
        rfl
      simp only [m, Mod.newNet, Mod.oldNet, NetFlags.apply, hor]
      simp
    rw [modRqState, refused_of_not_oos rfl, if_neg Bool.noConfusion, if_pos ⟨hloc, hsame⟩,
      applied_unchanged hloc hsame]
    exact h
  | false =>
    have heq : modRqState md env s m = (bsrSetOutOfSync md env (m.applied env s) p).1 := by
      have hnew : m.newNet s ≠ m.oldNet s := by
        intro hc
        have hflag := congrArg NetFlags.oosLocalDone hc
        simp [m, Mod.newNet, Mod.oldNet, NetFlags.apply, hdone] at hflag
      rw [modRqState, refused_of_not_oos rfl, if_neg Bool.noConfusion, if_neg fun hc => hnew hc.2]
      simp [m, oldNet, hdone]
    rw [heq] at hopen ⊢
    obtain ⟨_, hframe⟩ := bsrSetOutOfSync_frame md env (m.applied env s) p
    have hk := m.applied_kept env s
    have hw := h.write.kept hk
    have hmark : ∀ q, Marked md s q → Marked md (bsrSetOutOfSync md env (m.applied env s) p).1 q :=
      fun q hq => Marked.setOutOfSync (s := m.applied env s) hq hw hdisk p
    refine h.update (f := (s.net p).apply {} { oosLocalDone := true }) hopen
      (hk.trans (bsrSetOutOfSync_kept md env _ p).1) ?_ hmark ?_ hp ?_ (fun hr' => ?_) fun _ => ?_
    · rw [hframe]
      exact h.destroyed
    · rw [hframe]
      rfl
    · exact ((h.peer p).mono id (hmark p)).markLocal (bsrSetOutOfSync_marked hw hdisk p) (h.info p hr)
    · rw [hr] at hr'
      cases hr'
    · simp [NetFlags.apply, h.info p hr]

theorem Sending.closed (hpeers : env.Numbered md) (hdisk : env.getLdev = true)
    (hsusp : env.suspended = false) : SubmitClosed md env r (Sending md env r) where
  event s ev hev h := by
    have hopen := h.opening.event hpeers hsusp hev
    cases hev with
    | toBeSent _ hop | queueForNetRead _ hop =>
      rw [h.write.op] at hop
      cases hop
    | queueAsBsrBarrier hsize => exact absurd hsize h.write.size_pos
    | toBeSubmitted _ =>
      obtain ⟨hoos, hdest⟩ := @modRqState_intact md env s
        { set := { loc := { pending := true } } } rfl (hopen.zeroed.trans h.opening.zeroed.symm)
      have hnet : (reqMod md env s .toBeSubmitted).net = s.net :=
        (@modRqState_flags md env s { set := { loc := { pending := true } } } rfl).2
      have hk := reqMod_kept md env s .toBeSubmitted
      exact h.same hopen (h.write.kept hk) hdest hnet fun q hm => hm.congr hk hoos
  sendWrite s p hp hr _ h := h.sendWrite hpeers hp hr
  setLocal s p hp hr h :=
    h.setLocal hdisk hsusp hp hr ((Opening.closed hpeers hsusp r).setLocal s p hp hr h.opening)
  marked s p _ _ h := h.setOutOfSync hdisk p
  pendingOos s p hp hr h := by
    have hset := h.setOutOfSync hdisk p
    refine hset.mod ((Opening.closed hpeers hsusp r).pendingOos s p hp hr h.opening)
      (refused_of_not_oos rfl) rfl rfl hp ?_ (fun hr' => ?_) fun _ => rfl
    · exact (hset.peer p).pendOos (bsrSetOutOfSync_marked h.write hdisk p) (hset.info p hr)
    · rw [hr] at hr'
      cases hr'
  sendOos s p hp hr h := by
    have hset := h.setOutOfSync hdisk p
    have hopen := (Opening.closed hpeers hsusp r).sendOos s p hp hr h.opening
    cases href : Mod.refused { peer := some p, clear := { net := { oosPending := true, pending := true } }
                               set := { net := { oosNetQueued := true, queued := true } } } env
        (bsrSetOutOfSync md env s p).1 with
    | true =>
      have heq : reqMod md env (bsrSetOutOfSync md env s p).1 (.queueForSendOos p) =
          (bsrSetOutOfSync md env s p).1 := modRqState_refused href
      rw [heq]
      exact hset
    | false =>
      refine hset.mod hopen href rfl rfl hp ?_ (fun hr' => ?_) fun _ => rfl
      · exact (hset.peer p).queueOos (bsrSetOutOfSync_marked h.write hdisk p) (hset.info p hr)
      · rw [hr] at hr'
        cases hr'
  held s h := h.same ((Opening.closed hpeers hsusp r).held s h.opening) { h.write with } rfl rfl fun _ => id
  onTl s h := h.same ((Opening.closed hpeers hsusp r).onTl s h.opening) { h.write with } rfl rfl fun _ => id
  noBio s h := h.same ((Opening.closed hpeers hsusp r).noBio s h.opening) { h.write with } rfl rfl fun _ => id

theorem Fresh.sending (hfresh : Fresh s) (hw : IsWrite md s) : Sending md env r s := by
  have hopen : Opening md s := hfresh.opening
  obtain ⟨_, _, _, _, _, _, rfl⟩ := hfresh
  refine ⟨hopen, hw, rfl, fun p => ?_, fun p hp => ?_, fun _ _ => ⟨rfl, rfl, rfl, rfl⟩, fun _ _ => rfl⟩
  · constructor <;> simp [bsrReqNew]
  · simp [bsrReqNew, NetFlags.masked] at hp

theorem sendAndSubmit_submitted (md : DeviceMd) (env : Env) (r : Route) (hfresh : Fresh s)
    (hw : IsWrite md s) (hbio : s.privateBio ≠ .null) : (sendAndSubmit md env r s).loc.masked = true ∨
      ((sendAndSubmit md env r s).privateBio = .null ∧
        ∀ p, ((sendAndSubmit md env r s).net p).expBarrAck = false) := by
  have hnet : ∀ p, (s.net p).expBarrAck = false := by
    obtain ⟨op, _, _, _, _, _, rfl⟩ := hfresh
    exact fun _ => rfl
  have htl : ∀ t : ReqState, (addToTl r t).net = t.net ∧ (addToTl r t).privateBio = t.privateBio := by
    intro t
    unfold addToTl
    split_ifs <;> exact ⟨rfl, rfl⟩
  have hplug : ∀ (b : Bool) (t : ReqState), (updatePlug r b t).privateBio = t.privateBio := by
    intro b t
    unfold updatePlug
    split_ifs <;> rfl
  unfold sendAndSubmit
  rw [hw.op, if_pos rfl]
  dsimp only
  split_ifs with hsusp hdata hsize
  · exact .inr ⟨rfl, hnet⟩
  · right
    refine ⟨rfl, fun p => ?_⟩
    rw [(htl s).1]
    exact hnet p
  · rw [addToTl_size] at hsize
    exact absurd hsize hw.size_pos
  · left
    have hthere : (updatePlug r (env.peers.any r.remote)
        (bsrProcessWriteRequest md env r (addToTl r s))).privateBio ≠ .null := by
      rw [hplug, bsrProcessWriteRequest, (Kept.foldl (processPeer_kept md env r) _ _).privateBio, (htl s).2]
      exact hbio
    rw [submitPrivateBio, if_neg hthere]
    have hloc := (@modRqState_flags md env (updatePlug r (env.peers.any r.remote)
      (bsrProcessWriteRequest md env r (addToTl r s))) { set := { loc := { pending := true } } } rfl).1
    refine (congrArg LocalFlags.masked hloc).trans ?_
    simp [newLoc, LocalFlags.apply, LocalFlags.masked, setLoc_pending]

theorem Covering.submit (hmd : md.Slots) (hpeers : env.Numbered md)
    (hdisk : env.getLdev = true) (hread : ∀ p ∈ r.readPeer, p ∈ env.peers) (hfresh : Fresh s)
    (hw : IsWrite md s) (hbio : s.privateBio ≠ .null) :
    IsWrite md (bsrSendAndSubmit md env r s) ∧ Covering md env acked (bsrSendAndSubmit md env r s) := by
  have hsub := sendAndSubmit_submitted md env r hfresh hw hbio
  have hsend : Sending md env r (sendAndSubmit md env r s) := by
    cases hsusp : env.suspended with
    | false =>
      exact (Sending.closed hpeers hdisk hsusp).sendAndSubmit hsusp hread (hfresh.sending hw)
    | true =>
      have h0 : Sending md env r s := hfresh.sending hw
      have hopen := h0.opening.send hpeers hread
      rw [sendAndSubmit, hsusp] at hopen ⊢
      exact h0.same hopen { hw with } rfl rfl fun _ => id
  have hcov : Covering md env acked { sendAndSubmit md env r s with submitting := false } := by
    refine ⟨fun p => (hsend.peer p).mono False.elim id, fun p _ hp _ => hsend.present p hp, hsub,
      fun hd => ?_⟩
    have hd' : (sendAndSubmit md env r s).destroyed = true := hd
    rw [hsend.destroyed] at hd'
    cases hd'
  have hwrite : IsWrite md { sendAndSubmit md env r s with submitting := false } := { hsend.write with }
  exact ⟨hwrite.kept (dropRefs_kept md env _ 1 0).1, Covering.drop hmd hwrite hdisk hcov 1 0⟩

/-! ## Runs -/

/-- A request and the peers that have acknowledged its data. -/
structure Watched where
  req : ReqState
  acked : Nat → Bool

/-- A new write on a node with a disk. -/
def Watched.Init (md : DeviceMd) (w : Watched) : Prop :=
  Fresh w.req ∧ IsWrite md w.req ∧ w.req.privateBio ≠ .null ∧ w.acked = fun _ => false

/-- The acks that have come in after one critical section. -/
def ReqStep.ackedAfter (s : ReqState) (acked : Nat → Bool) : ReqStep → Nat → Bool
  | .event ev => ev.ackedAfter s acked
  | _ => acked

/-- Peers answer as the protocol says. -/
def ReqStep.Answers (s : ReqState) : ReqStep → Prop
  | .event ev => ev.Answers s
  | _ => True

/-- One critical section on a request that is still there, while the disk is attached. A peer that
was sent the data is not removed before its connection was given up for it. -/
def AttachedStep (md : DeviceMd) (w : Watched) (e : Env × ReqStep) (w' : Watched) : Prop :=
  Step md w.req e w'.req ∧ w'.acked = e.2.ackedAfter w.req w.acked ∧
  w.req.destroyed = false ∧ e.1.getLdev = true ∧ e.2.Answers w.req ∧
  ∀ p ≤ md.maxNodeId, (w.req.net p).masked = true → (w.req.net p).done = false → p ∈ e.1.peers

/-- What holds of a watched write: it is about to be submitted, or covered. -/
def Followed (md : DeviceMd) (w : Watched) : Prop :=
  IsWrite md w.req ∧
  ((w.Init md ∧ w.req.submitting = true) ∨
    (w.req.submitting = false ∧ ∃ env, Covering md env w.acked w.req))

theorem Followed.step {w w' : Watched} {e : Env × ReqStep} (hmd : md.Slots) (h : Followed md w)
    (hstep : AttachedStep md w e w') : Followed md w' := by
  obtain ⟨⟨hpeers, hlegal, hexec⟩, hacked, hdest, hdisk, hans, hpres⟩ := hstep
  have hsub' : w'.req.submitting = false := Step.submitting ⟨hpeers, hlegal, hexec⟩
  obtain ⟨env, st⟩ := e
  obtain ⟨hw, hcase⟩ := h
  have hcover : (∀ r, st ≠ .submit r) → Covering md env w.acked w.req := by
    intro hne
    have hsub : w.req.submitting = false := by
      cases st with
      | submit r => exact absurd rfl (hne r)
      | event ev | endio error | retry | hold | release => exact hlegal.1
    rcases hcase with ⟨_, hc⟩ | ⟨_, _, h⟩
    · rw [hsub] at hc
      cases hc
    · exact { h with present := hpres }
  have hput : ∀ s, IsWrite md s → Covering md env w.acked s →
      IsWrite md (krefSub md env s 1) ∧ Covering md env w.acked (krefSub md env s 1) := fun s hw h =>
    ⟨hw.kept (krefSub_kept md env s 1).1, h.krefSub hmd hw hdisk 1⟩
  suffices hgoal : IsWrite md w'.req ∧ Covering md env w'.acked w'.req from
    ⟨hgoal.1, .inr ⟨hsub', env, hgoal.2⟩⟩
  rw [hexec, hacked]
  cases st with
  | submit r =>
    obtain ⟨⟨hfresh, _, hbio, _⟩, _⟩ | ⟨hc, _⟩ := hcase
    · exact Covering.submit hmd hpeers hdisk hlegal.2 hfresh hw hbio
    · rw [show w.req.submitting = true from hlegal.1] at hc
      cases hc
  | event ev =>
    exact ⟨hw.kept (reqMod_kept md env w.req ev),
      (hcover fun _ => by simp).event hmd hw hdisk hdest hlegal hans⟩
  | endio error =>
    have hwrite : IsWrite md { w.req with privateBio := .errPtr error } := { hw with }
    exact ⟨(hwrite.kept (Kept.foldl (sendPendingOos_kept md env) env.peers _)).kept
      (reqMod_kept md env _ _), (hcover fun _ => by simp).endio hmd hw hdisk hdest hlegal.2.1 error⟩
  | retry =>
    have h := hcover fun _ => by simp
    exact hput _ { hw with } { h with }
  | hold =>
    have h := hcover fun _ => by simp
    exact ⟨{ hw with }, { h with }⟩
  | release =>
    have h := hcover fun _ => by simp
    exact hput _ { hw with } { h with }

/-- When a write is destroyed, it was pushed back before it was submitted or sent, or for every slot
the peer acknowledged the data, with no neg-ack and no loss of the connection handled afterwards, or
every bit the write touches is set. -/
theorem write_acked_or_marked (md : DeviceMd) (hmd : md.Slots) {w : Watched}
    (hw : Reachable (Watched.Init md) (AttachedStep md) w) (hdest : w.req.destroyed = true) :
    (w.req.postponed = true ∧ w.req.privateBio = .null ∧ ∀ p, (w.req.net p).expBarrAck = false) ∨
    ∀ slot < md.bmMaxPeers,
      (∃ p, md.bitmapIndex p = some slot ∧ w.acked p = true) ∨
      ∀ b, bmSectToBit w.req.sector ≤ b →
        b ≤ bmSectToBit (w.req.sector + w.req.size / 512 - 1) → w.req.oos slot b = true := by
  have hfollowed : Followed md w := by
    refine hw.invariant ?_ ?_
    · intro w hinit
      refine ⟨hinit.2.1, .inl ⟨hinit, ?_⟩⟩
      obtain ⟨op, sector, size, bio, inAlOos, oos, heq⟩ := hinit.1
      rw [heq]
      rfl
    · intro w e _ h hstep
      exact h.step hmd hstep
  obtain ⟨_, ⟨⟨hfresh, _⟩, _⟩ | ⟨_, _, h⟩⟩ := hfollowed
  · obtain ⟨op, sector, size, bio, inAlOos, oos, heq⟩ := hfresh
    rw [heq] at hdest
    cases hdest
  · exact h.destroyed hdest

end

/-! ## Concrete runs -/

instance (s : ReqState) : (st : ReqStep) → Decidable (st.Answers s)
  | .event ev => by
    cases ev <;> first
      | exact inferInstanceAs (Decidable (_ ∧ _))
      | exact inferInstanceAs (Decidable (_ = _))
      | exact isFalse id
      | exact isTrue trivial
  | .submit _ | .endio _ | .retry | .hold | .release => isTrue trivial

def attachedStep (md : DeviceMd) (w : Watched) (e : Env × ReqStep) : Bool :=
  legalStep md w.req e && !w.req.destroyed && e.1.getLdev && decide (e.2.Answers w.req) &&
    decide (∀ p ≤ md.maxNodeId, (w.req.net p).masked = true → (w.req.net p).done = false → p ∈ e.1.peers)

def watch (md : DeviceMd) : Watched → List (Env × ReqStep) → Option Watched
  | w, [] => some w
  | w, e :: rest =>
    if attachedStep md w e then watch md ⟨e.2.exec md e.1 w.req, e.2.ackedAfter w.req w.acked⟩ rest
    else none

theorem reachable_watch {md : DeviceMd} {l : List (Env × ReqStep)} {w w' : Watched}
    (hw : Reachable (Watched.Init md) (AttachedStep md) w) (h : watch md w l = some w') :
    Reachable (Watched.Init md) (AttachedStep md) w' := by
  induction l generalizing w with
  | nil =>
    cases h
    exact hw
  | cons e rest ih =>
    rw [watch] at h
    split_ifs at h with he
    simp only [attachedStep, Bool.and_eq_true, Bool.not_eq_true', decide_eq_true_eq] at he
    obtain ⟨⟨⟨⟨hlegal, hdest⟩, hdisk⟩, hans⟩, hpres⟩ := he
    exact ih (hw.next e ⟨step_of_legalStep w.req e hlegal, rfl, hdest, hdisk, hans, hpres⟩) h

/-- One peer with the only slot. -/
def oneSlotMd : DeviceMd :=
  { tinyMd with bitmapIndex := fun p => if p = 0 then some 0 else none }

theorem oneSlotMd_slots : oneSlotMd.Slots := by
  have hindex : ∀ p slot, oneSlotMd.bitmapIndex p = some slot → p = 0 ∧ slot = 0 := by
    intro p slot h
    simp only [oneSlotMd] at h
    split_ifs at h with hp
    exact ⟨hp, (Option.some.inj h).symm⟩
  refine ⟨by decide, fun p slot h => ?_, fun p q slot hp hq => ?_⟩
  · rw [(hindex p slot h).2]
    decide
  · rw [(hindex p slot hp).1, (hindex q slot hq).1]

theorem tinyWrite_init : Watched.Init oneSlotMd ⟨tinyWrite, fun _ => false⟩ :=
  ⟨tinyWrite_fresh, ⟨rfl, by decide, by decide, rfl, by decide⟩, by decide, rfl⟩

/-- The connection is lost while the ack of the peer is missing. -/
def lostRun : List (Env × ReqStep) :=
  [(tinyEnv .protC, .submit { remote := fun _ => true }),
    (tinyEnv .protC, .event (.handedOverToNetwork 0)),
    (tinyEnv .protC, .endio 0),
    (tinyEnv .protC, .event (.connectionLostWhilePending 0))]

/-- The connection is lost: the block is marked in the slot of the peer. -/
theorem write_acked_or_marked_lost : ∃ w : Watched, w.req.destroyed = true ∧ w.acked 0 = false ∧
    w.req.oos 0 0 = true := by
  have hrun : ((watch oneSlotMd ⟨tinyWrite, fun _ => false⟩ lostRun).map fun w =>
      (w.req.destroyed, w.acked 0, w.req.postponed, w.req.sector, w.req.size)) =
      some (true, false, false, 0, 4096) := by
    decide
  obtain ⟨w, hw, heq⟩ := Option.map_eq_some_iff.1 hrun
  simp only [Prod.mk.injEq] at heq
  obtain ⟨hdest, hacked, hpost, hsector, hsize⟩ := heq
  refine ⟨w, hdest, hacked, ?_⟩
  rcases write_acked_or_marked oneSlotMd oneSlotMd_slots
    (reachable_watch (.start tinyWrite_init) hw) hdest with hback | hall
  · rw [hpost] at hback
    cases hback.1
  rcases hall 0 (by decide) with ⟨p, hp, ha⟩ | hmarked
  · have : p = 0 := oneSlotMd_slots.index_inj p 0 0 hp rfl
    rw [this, hacked] at ha
    cases ha
  · exact hmarked 0 (by rw [hsector]; decide) (by rw [hsector, hsize]; decide)

/-- Pushed back because I/O was suspended, and freed by the retry worker. -/
def suspendedRun : List (Env × ReqStep) :=
  [({ tinyEnv .protC with suspended := true }, .submit { remote := fun _ => true }),
    (tinyEnv .protC, .retry)]

/-- The write that was pushed back is destroyed without an ack and without a mark. -/
theorem suspended_write_unmarked : ∃ w : Watched,
    Reachable (Watched.Init oneSlotMd) (AttachedStep oneSlotMd) w ∧ w.req.destroyed = true ∧
    oneSlotMd.bitmapIndex 0 = some 0 ∧ w.acked 0 = false ∧ w.req.sector = 0 ∧ w.req.oos 0 0 = false := by
  have hrun : ((watch oneSlotMd ⟨tinyWrite, fun _ => false⟩ suspendedRun).map fun w =>
      (w.req.destroyed, w.acked 0, w.req.sector, w.req.oos 0 0)) = some (true, false, 0, false) := by
    decide
  obtain ⟨w, hw, heq⟩ := Option.map_eq_some_iff.1 hrun
  simp only [Prod.mk.injEq] at heq
  exact ⟨w, reachable_watch (.start tinyWrite_init) hw, heq.1, rfl, heq.2⟩

end Bsr.Request
