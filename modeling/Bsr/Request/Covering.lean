import Bsr.Request.Runs
import Bsr.Request.Marks

/-!
# Every destroyed write is acknowledged or marked

The flags of a write, the acks it got and the bits of its slots, over whole runs. `Covering` is kept
by every call of `mod_rq_state`, whether it destroys the request or not; `write_acked_or_marked` is
the outcome for every run on a node whose disk stays attached.
-/

namespace Bsr.Request

open Function Function

open Lib

/-- The write was pushed back before it was submitted or sent, or every slot has the peer's ack or
all its bits. -/
def Covered (md : DeviceMd) (acked : Nat → Bool) (s : ReqState) : Prop :=
  (s.postponed = true ∧ s.privateBio = .null ∧ ∀ p, (s.net p).expBarrAck = false) ∨
  ∀ slot < md.bmMaxPeers, (∃ p, md.bitmapIndex p = some slot ∧ acked p = true) ∨ SlotMarked s slot

structure Covering (md : DeviceMd) (env : Env) (acked : Nat → Bool) (s : ReqState) : Prop where
  peer : ∀ p, PeerOk (acked p = true) (Marked md s p) (s.net p)
  present : ∀ p ≤ md.maxNodeId, (s.net p).masked = true → (s.net p).done = false → p ∈ env.peers
  submitted : s.loc.masked = true ∨ (s.privateBio = .null ∧ ∀ p, (s.net p).expBarrAck = false)
  destroyed : s.destroyed = true → Covered md acked s

section

variable {md : DeviceMd} {env : Env} {acked : Nat → Bool} {s : ReqState}

theorem Covering.postpone (h : Covering md env acked s) : Covering md env acked { s with postponed := true } :=
  { h with destroyed := fun hd => (h.destroyed hd).imp_left fun hpost => ⟨rfl, hpost.2⟩ }

theorem Covering.complete (h : Covering md env acked s) : Covering md env acked (bsrReqComplete env s) := by
  unfold bsrReqComplete
  split_ifs
  · exact h
  · exact h
  · exact h
  · exact { h.postpone with }
  · exact { h with }

theorem Covering.put (h : Covering md env acked s) (c : Nat) :
    Covering md env acked (putCompletionRef env s c).1 := by
  have hc : Covering md env acked { s with completionRef := s.completionRef - c } :=
    { h with }
  unfold putCompletionRef
  split_ifs
  · exact hc
  dsimp only
  split_ifs
  · exact { hc.complete with }
  · exact hc.complete

section Dropped

variable (hmd : md.Slots) (hw : IsWrite md s) (hdisk : env.getLdev = true) (h : Covering md env acked s)

include hmd hw hdisk h

/-- Whatever the destruction finds in the flags, it leaves the write covered. -/
theorem Covering.destroy : Covering md env acked (bsrReqDestroy md env s) := by
  unfold bsrReqDestroy
  split_ifs with hd
  · obtain ⟨oos, hframe⟩ := destroyMarks_frame md env s
    have hmarks : ∀ p, (s.net p).expBarrAck = false → Marked md s p →
        Marked md (destroyMarks md env s) p := by
      intro p hsent hm
      refine hm.destroyMarks hmd hw hdisk (Bool.eq_false_of_not_eq_true fun hsis => ?_)
      rw [(h.peer p).sis hsis] at hsent
      cases hsent
    have hnet : (destroyMarks md env s).net = s.net := by rw [hframe]
    constructor
    · intro p
      rw [hnet]
      cases hsent : (s.net p).expBarrAck with
      | true => exact ((h.peer p).unmark hsent).mono id False.elim
      | false => exact (h.peer p).mono id (hmarks p hsent)
    · rw [hframe]
      exact h.present
    · rw [hframe]
      exact h.submitted
    · intro _
      by_cases hs : WasStarted s
      · refine .inr fun slot hlt => ?_
        by_cases hex : ∃ p, p ≤ md.maxNodeId ∧ md.bitmapIndex p = some slot ∧
            accountedFor (s.net p) = true
        · obtain ⟨p, hle, hidx, hacc⟩ := hex
          have hmark : (s.net p).expBarrAck = false ∧ Marked md s p →
              (∃ p, md.bitmapIndex p = some slot ∧ acked p = true) ∨
                SlotMarked (destroyMarks md env s) slot :=
            fun hm => .inr (hmarks p hm.1 hm.2 slot hidx)
          simp only [accountedFor, Bool.or_eq_true, Bool.and_eq_true] at hacc
          rcases hacc with (hok | ⟨_, hq⟩) | hl
          · rcases (h.peer p).ok hok with ha | ⟨_, hnd, _⟩ | hm
            · exact .inl ⟨p, hidx, ha⟩
            · -- a pretended ack is not done, and such a request is not destroyed
              have hmask : (s.net p).masked = true := by simp [NetFlags.masked, hok]
              simp only [destroyable, Bool.and_eq_true, List.all_eq_true] at hd
              have := hd.1.1.1 p (h.present p hle hmask hnd)
              rw [hmask, hnd] at this
              exact absurd this (by decide)
            · exact hmark hm
          · exact hmark ((h.peer p).oos (.inr (.inl hq)))
          · exact hmark ((h.peer p).oos (.inr (.inr hl)))
        · refine .inr (destroyMarks_sets hmd hw hdisk hs hlt fun p hp hidx => ?_)
          exact Bool.eq_false_of_not_eq_true fun ha => hex ⟨p, hp, hidx, ha⟩
      · rw [WasStarted, not_not] at hs
        have hnull := h.submitted.resolve_left (by rw [hs.2]; exact Bool.false_ne_true)
        left
        rw [hframe]
        exact ⟨hs.1, hnull⟩
  · exact h

theorem Covering.krefSub (k : Nat) : Covering md env acked (krefSub md env s k) := by
  unfold Request.krefSub
  split_ifs
  · exact Covering.destroy (s := { s with kref := s.kref - k, zeroed := s.zeroed + 1 }) hmd
      { hw with } hdisk
      { h with }
  · exact { h with }

theorem Covering.drop (c k : Nat) : Covering md env acked (dropRefs md env s c k) := by
  refine dropRefs_rule (fun r => Covering md env acked r.1 ∧ Kept s r.1) (fun _ => ⟨h, Kept.refl s⟩)
    (fun _ => ⟨h.put c, (putCompletionRef_kept env s c).1⟩) (fun r hr _ => hr.1) fun r hr _ => ?_
  exact hr.1.krefSub hmd (hw.kept hr.2) hdisk _

end Dropped

/-! ## One call of `mod_rq_state` -/

/-- What no event after the submission does: forget that there was a local bio, expect another
barrier ack or mark a slot locally. -/
def Mod.later (m : Mod) : Bool :=
  !m.clear.loc.completed && !m.clear.loc.ok && !m.clear.loc.aborted &&
    (!m.clear.loc.pending || m.set.loc.completed) && !m.set.net.expBarrAck &&
    !m.set.net.oosLocalDone

variable {m : Mod}

theorem Mod.later_spec (hm : m.later = true) :
    (m.clear.loc.completed = false ∧ m.clear.loc.ok = false ∧ m.clear.loc.aborted = false) ∧
    (m.clear.loc.pending = true → m.set.loc.completed = true) ∧
    m.set.net.expBarrAck = false ∧ m.set.net.oosLocalDone = false := by
  simp only [Mod.later, Bool.and_eq_true, Bool.or_eq_true, Bool.not_eq_true'] at hm
  obtain ⟨⟨⟨⟨⟨h1, h2⟩, h3⟩, h4⟩, h5⟩, h6⟩ := hm
  refine ⟨⟨h1, h2, h3⟩, fun hp => h4.resolve_left ?_, h5, h6⟩
  rw [hp]
  exact Bool.noConfusion

theorem Mod.later_masked (hm : m.later = true) (h : s.loc.masked = true) :
    (m.newLoc env s).masked = true := by
  have hset : (m.setLoc env s).completed = m.set.loc.completed := by
    unfold Mod.setLoc
    split_ifs <;> rfl
  obtain ⟨⟨h1, h2, h3⟩, h4, _, _⟩ := Mod.later_spec hm
  simp only [LocalFlags.masked, Mod.newLoc, LocalFlags.apply, h1, h2, h3, hset] at h ⊢
  cases hp : m.clear.loc.pending with
  | true => simp [h4 hp]
  | false =>
    simp only [Bool.not_false, Bool.and_true]
    simp only [Bool.or_eq_true] at h ⊢
    tauto

variable {acked' : Nat → Bool}

/-- The flags of one peer change, with what the change says about its ack. -/
theorem Covering.applied (h : Covering md env acked s) (hm : m.later = true)
    (hpeer : ∀ p, PeerOk (acked' p = true) (Marked md s p) ((m.applied env s).net p))
    (hin : ∀ p ∈ m.peer, p ∈ env.peers) (hcov : s.destroyed = true → Covered md acked' s) :
    Covering md env acked' (m.applied env s) := by
  have hexp : ∀ q, (s.net q).expBarrAck = false → ((m.applied env s).net q).expBarrAck = false := by
    intro q hq
    cases hp : m.peer with
    | none => simpa [Mod.applied, hp] using hq
    | some p =>
      by_cases hqp : q = p
      · subst hqp
        simp [Mod.applied, hp, Mod.newNet, Mod.oldNet, NetFlags.apply, hq, (Mod.later_spec hm).2.2.1]
      · simpa [Mod.applied, hp, update_of_ne hqp] using hq
  constructor
  · exact hpeer
  · intro q hle hq hnd
    cases hp : m.peer with
    | none =>
      simp only [Mod.applied, hp] at hq hnd
      exact h.present q hle hq hnd
    | some p =>
      by_cases hqp : q = p
      · exact hin q (by rw [hqp, hp]; rfl)
      · simp only [Mod.applied, hp, update_of_ne hqp] at hq hnd
        exact h.present q hle hq hnd
  · rcases h.submitted with hmask | ⟨hnull, hsent⟩
    · exact .inl (Mod.later_masked hm hmask)
    · exact .inr ⟨hnull, fun q => hexp q (hsent q)⟩
  · intro hd
    rcases hcov hd with ⟨h1, h2, h3⟩ | hall
    · exact .inl ⟨h1, h2, fun q => hexp q (h3 q)⟩
    · exact .inr hall

theorem refused_of_not_oos (h : m.set.net.oosNetQueued = false) : m.refused env s = false := by
  unfold Mod.refused
  cases m.peer <;> simp [h]

section Written

variable (hmd : md.Slots) (hw : IsWrite md s) (hdisk : env.getLdev = true) (h : Covering md env acked s)

include hmd hw hdisk h

theorem Covering.mod (hm : m.later = true) (href : m.refused env s = false)
    (hpeer : ∀ p, PeerOk (acked' p = true) (Marked md s p) ((m.applied env s).net p))
    (hin : ∀ p ∈ m.peer, p ∈ env.peers) (hcov : s.destroyed = true → Covered md acked' s) :
    Covering md env acked' (modRqState md env s m) := by
  have happ := h.applied hm hpeer hin hcov
  rcases @modRqState_applied_or_drop md env s m href (Mod.later_spec hm).2.2.2 with heq | heq
  · rw [heq]
    exact happ
  rw [heq]
  have hcount : Covering md env acked' (m.counted env s) :=
    { happ with }
  exact hcount.drop hmd (hw.kept (m.counted_kept env s)) hdisk _ _

variable {p : Nat}

theorem Covering.modPeer (hm : m.later = true) (href : m.refused env s = false)
    (hp : m.peer = some p) (hin : p ∈ env.peers)
    (hone : PeerOk (acked' p = true) (Marked md s p) ((s.net p).apply m.clear.net m.set.net))
    (hothers : ∀ q, q ≠ p → acked' q = acked q) (hcov : s.destroyed = true → Covered md acked' s) :
    Covering md env acked' (modRqState md env s m) := by
  refine h.mod hmd hw hdisk hm href (fun q => ?_) (fun q hq => ?_) hcov
  · by_cases hq : q = p
    · subst hq
      simpa [Mod.applied, hp, Mod.newNet, Mod.oldNet] using hone
    · rw [hothers q hq]
      simpa [Mod.applied, hp, update_of_ne hq] using h.peer q
  · rw [hp] at hq
    rw [← Option.mem_some.1 hq]
    exact hin

theorem Covering.modLocal (hm : m.later = true) (hp : m.peer = none) :
    Covering md env acked (modRqState md env s m) := by
  refine h.mod hmd hw hdisk hm (by simp [Mod.refused, hp]) (fun q => ?_) (fun q hq => ?_) h.destroyed
  · simpa [Mod.applied, hp] using h.peer q
  · rw [hp] at hq
    exact absurd hq (Option.not_mem_none q)

/-! ## Events -/

/-- The peers that have acknowledged the data, with no neg-ack and no loss of the connection since.
A barrier ack acknowledges what was sent; a superseded write needs no resync. -/
def ReqEvent.ackedAfter (s : ReqState) (acked : Nat → Bool) : ReqEvent → Nat → Bool
  | .writeAckedByPeerAndSis p => update acked p true
  | .writeAckedByPeer p => update acked p true
  | .recvAckedByPeer p => update acked p true
  | .discardWrite p => update acked p true
  | .barrierAcked p => if (s.net p).expBarrAck then update acked p true else acked
  | .connectionLostWhilePending p => update acked p false
  | .negAcked p => update acked p false
  | _ => acked

/-- Peers answer to data that was sent to them, the sender sends data only where a barrier ack is
expected, and only synchronous connections are resent to. -/
def ReqEvent.Answers (s : ReqState) : ReqEvent → Prop
  | .handedOverToNetwork p => (s.net p).expBarrAck = true
  | .oosHandedToNetwork p => (s.net p).expBarrAck = false
  | .discardWrite p => (s.net p).expBarrAck = true
  | .writeAckedByPeerAndSis p => (s.net p).expBarrAck = true
  | .writeAckedByPeer p => (s.net p).expBarrAck = true
  | .recvAckedByPeer p => (s.net p).expBarrAck = true
  | .postponeWrite p => (s.net p).expBarrAck = true
  | .negAcked p => (s.net p).expBarrAck = true
  | .resend p => (s.net p).expBarrAck = true ∧
      ((s.net p).expReceiveAck = true ∨ (s.net p).expWriteAck = true)
  | .dataReceived _ => False
  | _ => True

/-- The two calls of a barrier ack, also of the one that a resend pretends. -/
theorem Covering.barrier (hdest : s.destroyed = false)
    (hpeer : ∀ m ∈ barrierMods s p, ∀ q ∈ m.peer, q ∈ env.peers)
    (hmono : ∀ q, acked q = true → acked' q = true)
    (hearly : (s.net p).pending = true → acked' p = true ∨ (s.net p).expBarrAck = false)
    (hlast : acked' p = true ∨ (s.net p).expBarrAck = false ∨ (s.net p).expReceiveAck = true ∨
      (s.net p).expWriteAck = true) :
    Covering md env acked' ((barrierMods s p).foldl (modRqState md env) s) := by
  have hop : s.op.isWrite = true := hw.op
  have hin : p ∈ env.peers :=
    hpeer { peer := p, clear := { loc := { susp := true } }
            set := { net := { done := (s.net p).masked } } } (by simp [barrierMods, hop]) p rfl
  have hfirst : Covering md env acked' s := by
    refine ⟨fun q => (h.peer q).mono (hmono q) id, h.present, h.submitted, fun hd => ?_⟩
    rw [hdest] at hd
    cases hd
  have hrel : ∀ t, Covering md env acked' t → IsWrite md t → (t.net p).pending = false →
      (acked' p = true ∨ (t.net p).expBarrAck = false ∨ (t.net p).expReceiveAck = true ∨
        (t.net p).expWriteAck = true) →
      Covering md env acked' (modRqState md env t
        { peer := p, clear := { loc := { susp := true } }
          set := { net := { done := (s.net p).masked } } }) := by
    intro t ht hwt hpe ha
    exact ht.modPeer hmd hwt hdisk rfl
      (refused_of_not_oos rfl) rfl hin ((ht.peer p).barrierDone ha hpe _) (fun _ _ => rfl) ht.destroyed
  unfold barrierMods
  rw [hop, if_neg Bool.noConfusion]
  split_ifs with hpe
  · -- a barrier that came in before the ack
    have hack : Covering md env acked' (modRqState md env s
        { peer := p, clear := { net := { pending := true } }, set := { net := { ok := true } } }) :=
      hfirst.modPeer hmd hw hdisk rfl
        (refused_of_not_oos rfl) rfl hin ((hfirst.peer p).barrierEarly (hearly hpe) hpe)
        (fun _ _ => rfl) hfirst.destroyed
    have hflags := (@modRqState_flags md env s { peer := p, clear := { net := { pending := true } }
                                                 set := { net := { ok := true } } }
      (refused_of_not_oos rfl)).2
    refine hrel _ hack (hw.kept (modRqState_kept md env s _)) ?_ ?_
    · rw [hflags]
      simp [Mod.applied, Mod.newNet, NetFlags.apply]
    · rw [hflags]
      simpa [Mod.applied, Mod.newNet, Mod.oldNet, NetFlags.apply] using hlast
  · exact hrel s hfirst hw (Bool.eq_false_of_not_eq_true hpe) hlast

omit hmd hw hdisk in
theorem Covering.setSis (hdest : s.destroyed = false) (hp : p ∈ env.peers) (hsent : (s.net p).expBarrAck = true) :
    Covering md env acked { s with net := update s.net p { s.net p with sis := true } } where
  peer := (forall_update_iff s.net fun q f => PeerOk (acked q = true) (Marked md s q) f).2
    ⟨(h.peer p).setSis hsent, fun q _ => h.peer q⟩
  present := (forall_update_iff s.net fun q f => q ≤ md.maxNodeId → f.masked = true →
    f.done = false → q ∈ env.peers).2 ⟨fun _ _ _ => hp, fun q _ => h.present q⟩
  submitted := h.submitted.imp_right fun hn =>
    ⟨hn.1, (forall_update_iff s.net fun _ f => f.expBarrAck = false).2 ⟨hn.2 p, fun q _ => hn.2 q⟩⟩
  destroyed hd := absurd (hdest.symm.trans hd) Bool.noConfusion

open ReqEvent

theorem Covering.event {ev : ReqEvent} (hdest : s.destroyed = false)
    (hlegal : (ReqStep.event ev).Legal env s) (hans : ev.Answers s) :
    Covering md env (ev.ackedAfter s acked) (reqMod md env s ev) := by
  obtain ⟨-, hlater, -, hpeer⟩ := hlegal
  have hnot : ∀ {P : Prop}, s.destroyed = true → P := fun hd => by
    rw [hdest] at hd
    cases hd
  have hother : ∀ (p : Nat) (v : Bool) (q : Nat), q ≠ p → update acked p v q = acked q :=
    fun p v q hq => update_of_ne hq v acked
  have hin : ∀ {p : Nat} {m : Mod}, ev.mods env s = [m] → m.peer = some p → p ∈ env.peers :=
    fun hmods hp => hpeer _ (hmods ▸ List.mem_singleton_self _) _ hp
  -- one call for one peer, nothing known about its ack
  have hquiet : ∀ {p : Nat} {m : Mod}, ev.mods env s = [m] → m.later = true → m.peer = some p →
      m.set.net.oosNetQueued = false →
      PeerOk (acked p = true) (Marked md s p) ((s.net p).apply m.clear.net m.set.net) →
      Covering md env acked ((ev.mods env s).foldl (modRqState md env) s) := by
    intro p m hmods hm hp hq hone
    rw [hmods]
    exact h.modPeer hmd hw hdisk hm (refused_of_not_oos hq) hp (hin hmods hp) hone (fun _ _ => rfl) hnot
  -- one call that records or withdraws the ack of a peer
  have hrecord : ∀ {p : Nat} {m : Mod} (v : Bool), ev.mods env s = [m] → m.later = true →
      m.peer = some p → m.set.net.oosNetQueued = false →
      PeerOk (v = true) (Marked md s p) ((s.net p).apply m.clear.net m.set.net) →
      Covering md env (update acked p v) ((ev.mods env s).foldl (modRqState md env) s) := by
    intro p m v hmods hm hp hq hone
    rw [hmods]
    refine h.modPeer hmd hw hdisk hm (refused_of_not_oos hq) hp (hin hmods hp) ?_ (hother p v) hnot
    rw [update_self]
    exact hone
  cases ev
  case abortDiskIo =>
    show Covering md env acked (modRqState md env s { set := { loc := { aborted := true } } })
    exact h.modLocal hmd hw hdisk rfl rfl
  case readRetryRemoteCanceled p | sendCanceled p | sendFailed p =>
    exact hquiet rfl rfl rfl rfl (h.peer p).leftQueue
  case handedOverToNetwork p =>
    by_cases hA : isPendingWriteProtocolA s p = true
    · have hflags := hA
      simp only [isPendingWriteProtocolA, Bool.and_eq_true, Bool.not_eq_true'] at hflags
      exact hquiet (if_pos hA) rfl rfl rfl ((h.peer p).pretend hans hflags.1.1.2 hflags.1.2 hflags.2)
    · exact hquiet (if_neg hA) rfl rfl rfl (h.peer p).handed
  case oosHandedToNetwork p => exact hquiet rfl rfl rfl rfl ((h.peer p).oosHanded hans)
  case connectionLostWhilePending p | negAcked p =>
    exact hrecord false rfl rfl rfl rfl ((h.peer p).lost.mono False.elim id)
  case discardWrite p =>
    exact hrecord true rfl rfl rfl rfl (((h.peer p).mono (fun _ => rfl) id).acks rfl true)
  case writeAckedByPeerAndSis p =>
    have hp : p ∈ env.peers := hin rfl rfl
    have hsis := h.setSis hdest hp hans
    refine hsis.modPeer hmd { hw with } hdisk rfl
      (refused_of_not_oos rfl) rfl hp ?_ (hother p true) hnot
    have hnow : ackedAfter s acked (.writeAckedByPeerAndSis p) p = true := by
      exact update_self ..
    exact ((hsis.peer p).mono (fun _ => hnow) id).acks hnow false
  case writeAckedByPeer p | recvAckedByPeer p =>
    exact hrecord true rfl rfl rfl rfl (((h.peer p).mono (fun _ => rfl) id).acks rfl false)
  case postponeWrite p =>
    exact { h.postpone with }
  case failFrozenDiskIo p =>
    by_cases hc : s.loc.completed = true
    · exact hquiet (if_pos hc) rfl rfl rfl (h.peer p).same
    have hmods : (failFrozenDiskIo p).mods env s = [] := if_neg hc
    rw [reqMod, hmods]
    exact h
  case resend p =>
    have hread : ¬ (!s.op.isWrite && !(s.net p).masked) = true := by simp [hw.op]
    by_cases hok : (s.net p).ok = false
    · exact hquiet ((if_neg hread).trans (if_pos hok)) rfl rfl rfl ((h.peer p).resend hans.1 hans.2)
    -- acknowledged before the connection was lost
    have hmods : (resend p).mods env s = barrierMods s p :=
      (if_neg hread).trans (if_neg hok)
    rw [hmods] at hpeer
    rw [reqMod, hmods]
    have hacked : acked p = true := by
      rcases (h.peer p).ok (by simpa using hok) with ha | ⟨_, _, hr, hwr⟩ | ⟨hs, _⟩
      · exact ha
      · rcases hans.2 with h1 | h1
        · rw [hr] at h1
          cases h1
        · rw [hwr] at h1
          cases h1
      · rw [hans.1] at hs
        cases hs
    exact h.barrier hmd hw hdisk hdest hpeer (fun _ => id) (fun _ => .inl hacked) (.inl hacked)
  case barrierAcked p =>
    have hcase : (s.net p).expBarrAck = true ∨ (s.net p).expBarrAck = false := by
      cases (s.net p).expBarrAck <;> simp
    rcases hcase with hs | hs
    · have hacked : (barrierAcked p).ackedAfter s acked = update acked p true :=
        if_pos hs
      rw [hacked]
      refine h.barrier hmd hw hdisk hdest hpeer (fun q hq => ?_)
        (fun _ => .inl (update_self p true acked)) (.inl (update_self p true acked))
      by_cases hqp : q = p
      · rw [hqp, update_self]
      · rw [hother p true q hqp, hq]
    · have hacked : (barrierAcked p).ackedAfter s acked = acked := by
        simp [ackedAfter, hs]
      rw [hacked]
      exact h.barrier hmd hw hdisk hdest hpeer (fun _ => id) (fun _ => .inr hs) (.inr (.inl hs))
  case dataReceived p => exact hans.elim
  all_goals cases hlater

end Written

end

end Bsr.Request
