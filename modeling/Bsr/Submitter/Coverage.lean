import Bsr.Request.Marks
import Bsr.Submitter.Extents

/-!
# What covers a local write

The references of the writes that wait for a commit and of those at the disk keep their extents in
the activity log; the bits of the writes that found no slot are set.

* `Core` is what holds of the activity log and of the submissions so far;
* the loop lemmas follow the lists of `struct waiting_for_act_log`.
-/

namespace Bsr.Submitter

open Lru ActLog

/-- The sectors of a request, inside the device. -/
structure Fits (md : Request.DeviceMd) (i : Interval) : Prop where
  inside : i.sector + i.size / 512 ≤ md.nrSectors
  aligned : i.size % 512 = 0
  size_le : i.size ≤ Request.bsrMaxBatchBioSize

variable (md : Request.DeviceMd)

/-- The device is not larger than the activity log can number. -/
def Numbered : Prop :=
  md.nrSectors < lcFree * 2 ^ 13

open List

theorem Fits.extent_lt {md : Request.DeviceMd} {i : Interval} (h : Fits md i) (hmd : Numbered md) :
    i.first ≠ lcFree ∧ ∀ enr ∈ i.extents, enr ≠ lcFree := by
  have hin := h.inside
  unfold Numbered at hmd
  have hfirst : i.first < lcFree := by
    rw [Interval.first]
    omega
  refine ⟨Nat.ne_of_lt hfirst, fun enr henr => ?_⟩
  rw [Interval.extents, mem_range'_1] at henr
  have hlast : i.last < lcFree := by
    unfold Interval.last
    split_ifs
    · exact hfirst
    · omega
  omega

/-- The writes that hold their extents. -/
def holders (s : State) : List Interval :=
  (s.requests.pending.filter fun req => !req.inAlOos).map Req.i ++ s.peerRequests.pending ++ s.active

def held (s : State) (enr : Nat) : Nat :=
  ((holders s).flatMap Interval.extents).count enr + s.others enr

/-- Every bit of the write is set for every slot that has an owner. -/
def Marked (bm : Nat → Nat → Bool) (i : Interval) : Prop :=
  i.size ≠ 0 → ∀ p slot, md.bitmapIndex p = some slot → ∀ b, Request.bmSectToBit i.sector ≤ b →
    b ≤ Request.bmSectToBit (i.sector + i.size / 512 - 1) → bm slot b = true

/-- Whatever a crash leaves of the activity log, the replay finds the extents of the write. -/
def InLog (L : AlLayout) (al : AlState) (i : Interval) : Prop :=
  ∀ disk landed, CrashImage L al disk landed → ∀ enr ∈ i.extents, enr ∈ hotExtents L disk

/-- A write whose extents were in the log, or whose bits were on disk, when it was submitted. -/
def Submission.Covered (L : AlLayout) (x : Submission) : Prop :=
  x.i.size ≠ 0 → x.alSuspended = false → InLog L x.al x.i ∨ Marked md x.bmDisk x.i

/-- The activity log and its holders, and the submissions so far. -/
structure Core (md : Request.DeviceMd) (L : AlLayout) (s : State) : Prop where
  al : AlInv L s.al
  holds : Holds s.al.actLog (held s)
  active : ∀ i ∈ s.active, ∀ enr ∈ i.extents, Settled s.al.actLog enr
  pending : s.committed = true → ∀ i ∈ holders s, ∀ enr ∈ i.extents, Settled s.al.actLog enr
  covered : ∀ x ∈ s.submissions, x.Covered md L

/-- The writes without a slot are marked. -/
def Oos (s : State) : Prop :=
  ∀ req ∈ s.requests.pending, req.inAlOos = true → Marked md s.bm req.i

/-- The requests on the lists lie inside the device, and those that wait are not marked. -/
structure Waits (md : Request.DeviceMd) (s : State) : Prop where
  reqs : ∀ req ∈ s.writes ++ s.requests.incoming ++ s.requests.moreIncoming ++ s.requests.later,
    Fits md req.i ∧ req.inAlOos = false
  pending : ∀ req ∈ s.requests.pending, Fits md req.i
  peers : ∀ i ∈ s.peerWrites ++ s.peerRequests.incoming ++ s.peerRequests.moreIncoming ++
    s.peerRequests.later, Fits md i
  peersPending : ∀ i ∈ s.peerRequests.pending, Fits md i

section

variable {md : Request.DeviceMd} {L : AlLayout} {s s' : State} {env : Env} {i : Interval}

theorem inLog_of_settled (h : AlInv L s.al) (hfree : ∀ enr ∈ i.extents, enr ≠ lcFree)
    (hsettled : ∀ enr ∈ i.extents, Settled s.al.actLog enr) : InLog L s.al i := by
  intro _ _ hcrash enr henr
  obtain ⟨e, he, hnum, hnew, _⟩ := hsettled enr henr
  exact h.covers_committed hcrash ⟨hfree enr henr, e, he, hnum, hnew⟩

theorem Core.setActLog {lc : LruCache} (h : Core md L s) (hal : AlInv L { s.al with actLog := lc })
    (hkeep : KeepsHeld s.al.actLog lc) (hholds : Holds lc (held s)) : Core md L (setActLog s lc) :=
  ⟨hal, hholds, fun i hi enr henr => hkeep.settled (h.active i hi enr henr),
    fun hc i hi enr henr => hkeep.settled (h.pending hc i hi enr henr), h.covered⟩

theorem held_pos {enr : Nat} (hi : i ∈ holders s) (henr : enr ∈ i.extents) : 0 < held s enr :=
  Nat.add_pos_left (count_pos_iff.mpr (mem_flatMap.mpr ⟨i, hi, henr⟩)) _

theorem held_cons_active (s : State) (i : Interval) (enr : Nat) :
    held { s with active := i :: s.active } enr = held s enr + i.extents.count enr := by
  simp only [held, holders, flatMap_append, flatMap_cons, count_append]
  omega

/-! ## Submissions without a commit -/

theorem Core.submitFast {lc : LruCache} (h : Core md L s) (hmd : Numbered md) (hfits : Fits md i)
    (hal : AlInv L { s.al with actLog := lc }) (hkeep : KeepsHeld s.al.actLog lc)
    (hholds : Holds lc fun enr => held s enr + i.extents.count enr)
    (hsettled : ∀ enr ∈ i.extents, Settled lc enr) :
    Core md L (submit env (Submitter.setActLog s lc) i true) := by
  have hinlog : InLog L { s.al with actLog := lc } i :=
    @inLog_of_settled L (Submitter.setActLog s lc) i hal (hfits.extent_lt hmd).2 hsettled
  constructor
  · exact hal
  · show Holds lc (held { Submitter.setActLog s lc with active := i :: s.active })
    have heq : held { Submitter.setActLog s lc with active := i :: s.active } =
        fun enr => held s enr + i.extents.count enr := funext fun enr => held_cons_active s i enr
    rw [heq]
    exact hholds
  · exact forall_mem_cons.mpr
      ⟨hsettled, fun j hj enr henr => hkeep.settled (h.active j hj enr henr)⟩
  · intro hc
    have hpending := fun j hj enr henr => hkeep.settled (h.pending hc j hj enr henr)
    obtain ⟨hwait, hactive⟩ := forall_mem_append.mp hpending
    exact forall_mem_append.mpr ⟨hwait, forall_mem_cons.mpr ⟨hsettled, hactive⟩⟩
  · exact forall_mem_cons.mpr ⟨fun _ _ => .inl hinlog, h.covered⟩

theorem Core.submitPlain (h : Core md L s) (hplain : env.alSuspended = true ∨ i.size = 0) :
    Core md L (submit env s i false) := by
  refine { h with covered := forall_mem_cons.mpr ⟨fun hsize hsusp => ?_, h.covered⟩ }
  rcases hplain with hs | hz
  · rw [hs] at hsusp
    cases hsusp
  · exact absurd hz hsize

/-- The lists and the bits are the same. -/
structure SameLists (s s' : State) : Prop where
  writes : s'.writes = s.writes
  peerWrites : s'.peerWrites = s.peerWrites
  requests : s'.requests = s.requests
  peerRequests : s'.peerRequests = s.peerRequests
  bm : s'.bm = s.bm

theorem SameLists.trans {s'' : State} (h : SameLists s s') (h' : SameLists s' s'') : SameLists s s'' :=
  ⟨h'.writes.trans h.writes, h'.peerWrites.trans h.peerWrites, h'.requests.trans h.requests,
    h'.peerRequests.trans h.peerRequests, h'.bm.trans h.bm⟩

theorem sameLists_setActLog (s : State) (lc : LruCache) : SameLists s (Submitter.setActLog s lc) :=
  ⟨rfl, rfl, rfl, rfl, rfl⟩

theorem sameLists_submit (env : Env) (s : State) (i : Interval) (b : Bool) :
    SameLists s (submit env s i b) :=
  ⟨rfl, rfl, rfl, rfl, rfl⟩

theorem SameLists.waits (h : SameLists s s') (hw : Waits md s) : Waits md s' := by
  obtain ⟨h1, h2, h3, h4⟩ := hw
  constructor
  · rw [h.writes, h.requests]
    exact h1
  · rw [h.requests]
    exact h2
  · rw [h.peerWrites, h.peerRequests]
    exact h3
  · rw [h.peerRequests]
    exact h4

section

variable (h : Core md L s) (hmd : Numbered md)

include h hmd

theorem Core.fastpath (hfits : Fits md i) :
    ∃ lc ok, bsrAlBeginIoFastpath env s.al.actLog i = .ok (lc, ok) ∧
      (ok = false → Core md L (Submitter.setActLog s lc)) ∧
      (ok = true → Core md L (submit env (Submitter.setActLog s lc) i true)) := by
  obtain ⟨lc, ok, hrun, hal, hkeep, hholds, hsettled⟩ :=
    bsrAlBeginIoFastpath_spec env h.al (hfits.extent_lt hmd).1 h.holds
  refine ⟨lc, ok, hrun, fun hok => ?_, fun hok => ?_⟩
  · subst hok
    exact h.setActLog hal hkeep hholds
  · subst hok
    exact h.submitFast hmd hfits hal hkeep hholds (hsettled rfl)

theorem Core.requestPrepare {req : Req} (hw : Waits md s)
    (hfits : Fits md req.i) (hnew : req.inAlOos = false)
    (hrun : bsrRequestPrepare env s req = .ok s') :
    Core md L s' ∧ Waits md s' ∧ s'.requests = s.requests ∧ s'.bm = s.bm := by
  have hqueue : ∀ t : State, SameLists s t → Waits md { t with writes := t.writes ++ [req] } := by
    intro t ht
    obtain ⟨h1, h2, h3, h4⟩ := ht.waits hw
    refine ⟨fun r hr => ?_, h2, h3, h4⟩
    simp only [append_assoc, mem_append, mem_singleton] at h1 hr
    rcases hr with hr | rfl | hr
    · exact h1 r (.inl hr)
    · exact ⟨hfits, hnew⟩
    · exact h1 r (.inr hr)
  have hsame : SameLists s s := ⟨rfl, rfl, rfl, rfl, rfl⟩
  have hsubmit : ∀ (lc : LruCache) (b : Bool), SameLists s (submit env (Submitter.setActLog s lc) req.i b) :=
    fun _ _ => ⟨rfl, rfl, rfl, rfl, rfl⟩
  have hcong : ∀ t : State, Core md L t → Core md L { t with writes := t.writes ++ [req] } :=
    fun t ht => { ht with }
  unfold bsrRequestPrepare at hrun
  split_ifs at hrun with hdisc hsize huuid hsusp
  · cases hrun
    exact ⟨hcong s h, hqueue s hsame, rfl, rfl⟩
  · cases hrun
    exact ⟨h.submitPlain (.inr hsize), (hsubmit s.al.actLog false).waits hw, rfl, rfl⟩
  · cases hrun
    exact ⟨hcong s h, hqueue s hsame, rfl, rfl⟩
  · cases hrun
    exact ⟨h.submitPlain (.inl hsusp), (hsubmit s.al.actLog false).waits hw, rfl, rfl⟩
  · obtain ⟨lc, ok, hfast, hno, hyes⟩ := @Core.fastpath md L s env req.i h hmd hfits
    rw [hfast] at hrun
    cases ok with
    | false =>
      cases hrun
      exact ⟨hcong _ (hno rfl), hqueue (Submitter.setActLog s lc) ⟨rfl, rfl, rfl, rfl, rfl⟩, rfl, rfl⟩
    | true =>
      cases hrun
      exact ⟨hyes rfl, (hsubmit lc true).waits hw, rfl, rfl⟩

theorem Core.fastPathPeers {l left : List Interval} (hl : ∀ i ∈ l, Fits md i)
    (hrun : fastPathPeers env l s = .ok (left, s')) :
    Core md L s' ∧ SameLists s s' ∧ ∀ i ∈ left, i ∈ l := by
  induction l generalizing s left with
  | nil =>
    cases hrun
    exact ⟨h, ⟨rfl, rfl, rfl, rfl, rfl⟩, fun _ hi => hi⟩
  | cons i l ih =>
    obtain ⟨lc, ok, hfast, hno, hyes⟩ := @Core.fastpath md L s env i h hmd (hl i mem_cons_self)
    have hl' : ∀ j ∈ l, Fits md j := fun j hj => hl j (mem_cons_of_mem i hj)
    rw [Submitter.fastPathPeers, hfast] at hrun
    cases ok with
    | false =>
      dsimp only at hrun
      split at hrun
      · cases hrun
      rename_i hrest
      cases hrun
      obtain ⟨hc, hsame, hsub⟩ := ih (hno rfl) hl' hrest
      exact ⟨hc, (sameLists_setActLog s lc).trans hsame, cons_subset_cons i hsub⟩
    | true =>
      obtain ⟨hc, hsame, hsub⟩ := ih (hyes rfl) hl' hrun
      exact ⟨hc, (sameLists_setActLog s lc).trans ((sameLists_submit env _ i true).trans hsame),
        subset_cons_of_subset i hsub⟩

theorem Core.fastPathRequests {l left : List Req} (hl : ∀ req ∈ l, Fits md req.i)
    (hrun : fastPathRequests env l s = .ok (left, s')) :
    Core md L s' ∧ SameLists s s' ∧ ∀ req ∈ left, req ∈ l := by
  induction l generalizing s left with
  | nil =>
    cases hrun
    exact ⟨h, ⟨rfl, rfl, rfl, rfl, rfl⟩, fun _ hi => hi⟩
  | cons req l ih =>
    have hl' : ∀ r ∈ l, Fits md r.i := fun r hr => hl r (mem_cons_of_mem req hr)
    rw [Submitter.fastPathRequests] at hrun
    split_ifs at hrun with hlog
    · obtain ⟨lc, ok, hfast, hno, hyes⟩ := @Core.fastpath md L s env req.i h hmd (hl req mem_cons_self)
      rw [hfast] at hrun
      cases ok with
      | false =>
        dsimp only at hrun
        split at hrun
        · cases hrun
        rename_i hrest
        cases hrun
        obtain ⟨hc, hsame, hsub⟩ := ih (hno rfl) hl' hrest
        exact ⟨hc, (sameLists_setActLog s lc).trans hsame, cons_subset_cons req hsub⟩
      | true =>
        obtain ⟨hc, hsame, hsub⟩ := ih (hyes rfl) hl' hrun
        exact ⟨hc, (sameLists_setActLog s lc).trans
          ((sameLists_submit env _ req.i true).trans hsame), subset_cons_of_subset req hsub⟩
    · have hplain : env.alSuspended = true ∨ req.i.size = 0 := by
        simp only [Bool.and_eq_true, decide_eq_true_eq, Bool.not_eq_true'] at hlog
        cases hs : env.alSuspended <;> simp_all
      obtain ⟨hc, hsame, hsub⟩ := ih (h.submitPlain hplain) hl' hrun
      exact ⟨hc, (sameLists_submit env s req.i false).trans hsame,
        subset_cons_of_subset req hsub⟩

theorem Core.submitFastPath (hw : Waits md s) (hrun : submitFastPath env s = .ok s') :
    Core md L s' ∧ Waits md s' ∧ s'.requests.pending = s.requests.pending ∧ s'.bm = s.bm := by
  unfold Submitter.submitFastPath at hrun
  split at hrun
  · cases hrun
  rename_i peers s₁ hpeers
  have hin : ∀ i ∈ s.peerRequests.incoming, Fits md i := fun i hi => hw.peers i (by simp [hi])
  obtain ⟨hcore, hsame, hleft⟩ := h.fastPathPeers hmd hin hpeers
  have hw₁ := hsame.waits hw
  have hin' : ∀ req ∈ s₁.requests.incoming, Fits md req.i := fun r hr => (hw₁.reqs r (by simp [hr])).1
  split at hrun
  · cases hrun
  rename_i reqs s₂ hreqs
  obtain ⟨hcore', hsame', hleft'⟩ := hcore.fastPathRequests hmd hin' hreqs
  cases hrun
  have hw₂ := hsame'.waits hw₁
  refine ⟨{ hcore' with }, { hw₂ with reqs := ?_, peers := ?_ }, ?_, (hsame.trans hsame').bm⟩
  · intro r hr
    have hback := hleft' r
    rw [← hsame'.requests] at hback
    refine hw₂.reqs r ?_
    simp only [mem_append] at hr ⊢
    tauto
  · intro i hi
    have hback := hleft i
    rw [← (hsame.trans hsame').peerRequests] at hback
    refine hw₂.peers i ?_
    simp only [mem_append] at hi ⊢
    tauto
  · show s₂.requests.pending = s.requests.pending
    rw [(hsame.trans hsame').requests]

end

/-! ## The writes that find no slot -/

open Request

theorem setOutOfSync_mono (md : Request.DeviceMd) (env : Env) (bm : Nat → Nat → Bool) (i : Interval)
    (p : Nat) {slot b : Nat} (h : bm slot b = true) : setOutOfSync md env bm i p slot b = true := by
  unfold setOutOfSync bsrSetOutOfSync
  cases md.bitmapIndex p with
  | none => exact h
  | some j =>
    split_ifs
    · exact h
    · exact h
    · exact h
    · simp only [writeBits]
      split_ifs
      · rfl
      · exact h

theorem setOutOfSync_sets {p slot b : Nat} {bm : Nat → Nat → Bool} (hdisk : env.getLdev = true)
    (hfits : Fits md i) (hsize : i.size ≠ 0) (hslot : md.bitmapIndex p = some slot)
    (h1 : bmSectToBit i.sector ≤ b)
    (h2 : b ≤ bmSectToBit (i.sector + i.size / 512 - 1)) :
    setOutOfSync md env bm i p slot b = true := by
  have hw : Request.IsWrite md
      (bsrReqNew .write i.sector i.size .null (fun _ => false) bm) :=
    { hfits with op := rfl, size_pos := hsize }
  rw [setOutOfSync, bsrSetOutOfSync_oos hw hdisk, if_pos ⟨hslot, h1, h2⟩]

theorem alOosPeers_spec (hdisk : env.getLdev = true) {l : List Nat} {bm : Nat → Nat → Bool}
    {req : Req} (hfits : Fits md req.i) : (alOosPeers md env l bm req).2.1.i = req.i ∧
    (alOosPeers md env l bm req).2.1.inAlOos = req.inAlOos ∧
    (∀ slot b, bm slot b = true → (alOosPeers md env l bm req).1 slot b = true) ∧
    ((alOosPeers md env l bm req).2.2 = true → req.i.size ≠ 0 → ∀ p ∈ l, env.connected p = true →
      ∀ slot, md.bitmapIndex p = some slot → ∀ b, bmSectToBit req.i.sector ≤ b →
        b ≤ bmSectToBit (req.i.sector + req.i.size / 512 - 1) →
        (alOosPeers md env l bm req).1 slot b = true) := by
  induction l generalizing bm req with
  | nil => exact ⟨rfl, rfl, fun _ _ h => h, fun _ _ p hp => absurd hp not_mem_nil⟩
  | cons q l ih =>
    rw [alOosPeers]
    split_ifs with hconn hver hahead
    · obtain ⟨h1, h2, h3, h4⟩ := @ih (setOutOfSync md env bm req.i q)
        { req with peerInAlOos := Function.update req.peerInAlOos q true } hfits
      refine ⟨h1, h2, fun slot b hb => h3 slot b (setOutOfSync_mono md env bm req.i q hb), ?_⟩
      intro hok hsize p hp hc slot hslot b hlo hhi
      rcases mem_cons.mp hp with rfl | hp
      · exact h3 slot b (setOutOfSync_sets hdisk hfits hsize hslot hlo hhi)
      · exact h4 hok hsize p hp hc slot hslot b hlo hhi
    · exact ⟨rfl, rfl, fun _ _ h => h, nofun⟩
    · exact ⟨rfl, rfl, fun _ _ h => h, nofun⟩
    · obtain ⟨h1, h2, h3, h4⟩ := @ih bm req hfits
      refine ⟨h1, h2, h3, fun hok hsize p hp hc => ?_⟩
      rcases mem_cons.mp hp with rfl | hp
      · exact absurd hc hconn
      · exact h4 hok hsize p hp hc

/-- Every node that owns a slot is connected. -/
def AllConnected (md : Request.DeviceMd) (env : Env) : Prop :=
  ∀ p slot, md.bitmapIndex p = some slot → p ∈ env.peers ∧ env.connected p = true

/-- A connected peer is not behind: then no write does without the activity log. -/
def SomeNotBehind (env : Env) : Prop :=
  ∃ p ∈ env.peers, env.connected p = true ∧ ¬ (116 ≤ env.agreedProVersion p ∧ env.ahead p = true)

theorem alOosPeers_refused {l : List Nat} {bm : Nat → Nat → Bool} {req : Req} {p : Nat} (hp : p ∈ l)
    (hc : env.connected p = true) (hnot : ¬ (116 ≤ env.agreedProVersion p ∧ env.ahead p = true)) :
    (alOosPeers md env l bm req).2.2 = false := by
  induction l generalizing bm req with
  | nil => exact absurd hp not_mem_nil
  | cons q l ih =>
    rw [alOosPeers]
    split_ifs with hconn hver hahead
    · rcases mem_cons.mp hp with rfl | hp
      · exact absurd ⟨hver, hahead⟩ hnot
      · exact ih hp
    · rfl
    · rfl
    · rcases mem_cons.mp hp with rfl | hp
      · exact absurd hc hconn
      · exact ih hp

end

end Bsr.Submitter
