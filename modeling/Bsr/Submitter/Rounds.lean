import Bsr.Submitter.Coverage

/-!
# The rounds of the submitter

`prepare_al_transaction_nonblock` and `send_and_submit_pending`, the two halves of a round of
`do_submit`, and `bsr_al_complete_io` at its end.
-/

namespace Bsr.Submitter

open Lru ActLog List

section

variable {md : Request.DeviceMd} {L : AlLayout} {s s' : State} {env : Env} {i : Interval}

/-! ## Preparing -/

/-- What holds while a transaction is prepared, under `al_lock`. -/
structure Preparing (md : Request.DeviceMd) (L : AlLayout) (s : State) : Prop where
  core : Core md L s
  waits : Waits md s
  unlocked : s.al.actLog.locked = false
  open_ : s.committed = false

section

variable (h : Preparing md L s)

include h

theorem Preparing.nonblock (hmd : Numbered md) (hfits : Fits md i) :
    ∃ lc err, bsrAlBeginIoNonblock env s.al.actLog i = .ok (lc, err) ∧
      (err ≠ none → Preparing md L (setActLog s lc)) ∧
      (err = none → AlInv L { s.al with actLog := lc } ∧ KeepsHeld s.al.actLog lc ∧
        lc.locked = false ∧ Holds lc fun enr => held s enr + i.extents.count enr) := by
  obtain ⟨lc, err, hrun, hal, hkeep, hlocked, hholds⟩ :=
    bsrAlBeginIoNonblock_spec env h.core.al (hfits.extent_lt hmd).2 h.unlocked h.core.holds
  refine ⟨lc, err, hrun, fun herr => ?_, fun herr => ?_⟩
  · simp only [herr] at hholds
    exact ⟨h.core.setActLog hal hkeep hholds, (sameLists_setActLog s lc).waits h.waits, hlocked, h.open_⟩
  · simp only [herr] at hholds
    exact ⟨hal, hkeep, hlocked, hholds⟩

theorem Preparing.pend {lc : LruCache} (hal : AlInv L { s.al with actLog := lc })
    (hkeep : KeepsHeld s.al.actLog lc) (hlocked : lc.locked = false)
    {t : State} (htal : t.al = { s.al with actLog := lc }) (hheld : Holds lc (held t))
    (hactive : t.active = s.active) (hsub : t.submissions = s.submissions)
    (hopen : t.committed = false) (hwaits : Waits md t) : Preparing md L t := by
  refine ⟨⟨htal ▸ hal, ?_, ?_, ?_, ?_⟩, hwaits, ?_, hopen⟩
  · rw [htal]
    exact hheld
  · rw [hactive, htal]
    exact fun i hi enr henr => hkeep.settled (h.core.active i hi enr henr)
  · intro hc
    rw [hopen] at hc
    cases hc
  · rw [hsub]
    exact h.core.covered
  · rw [htal]
    exact hlocked

open List

omit h in
theorem Waits.peerLater (h : Waits md s) (hfits : Fits md i) :
    Waits md { s with peerRequests := { s.peerRequests with later := s.peerRequests.later ++ [i] } } := by
  refine { h with peers := fun j hj => ?_ }
  rw [← append_assoc, mem_append, mem_singleton] at hj
  rcases hj with hj | rfl
  · exact h.peers j hj
  · exact hfits

omit h in
theorem Waits.reqLater {req : Req} (h : Waits md s) (hfits : Fits md req.i) (hnew : req.inAlOos = false) :
    Waits md { s with requests := { s.requests with later := s.requests.later ++ [req] } } := by
  refine { h with reqs := fun r hr => ?_ }
  rw [← append_assoc, mem_append, mem_singleton] at hr
  rcases hr with hr | rfl
  · exact h.reqs r hr
  · exact ⟨hfits, hnew⟩

theorem Preparing.peerLater (hfits : Fits md i) : Preparing md L
    { s with peerRequests := { s.peerRequests with later := s.peerRequests.later ++ [i] } } :=
  ⟨{ h.core with }, h.waits.peerLater hfits, h.unlocked,
    h.open_⟩

theorem Preparing.reqLater {req : Req} (hfits : Fits md req.i)
    (hnew : req.inAlOos = false) : Preparing md L
    { s with requests := { s.requests with later := s.requests.later ++ [req] } } :=
  ⟨{ h.core with }, h.waits.reqLater hfits hnew,
    h.unlocked, h.open_⟩

theorem Preparing.peers {l left : List Interval} (hmd : Numbered md)
    (hl : ∀ i ∈ l, Fits md i) (hrun : preparePeers env l s = .ok (left, s')) :
    Preparing md L s' ∧ (∀ i ∈ left, i ∈ l) ∧ s'.requests = s.requests ∧ s'.bm = s.bm := by
  induction l generalizing s left with
  | nil =>
    cases hrun
    exact ⟨h, fun _ hi => hi, rfl, rfl⟩
  | cons i l ih =>
    obtain ⟨hfits, hl'⟩ := forall_mem_cons.mp hl
    obtain ⟨lc, err, hnb, herr, hok⟩ := @Preparing.nonblock md L s env i h hmd hfits
    rw [preparePeers, hnb] at hrun
    have hmore : (∀ j ∈ left, j ∈ l) → ∀ j ∈ left, j ∈ i :: l :=
      fun hsub j hj => mem_cons_of_mem i (hsub j hj)
    cases err with
    | none =>
      obtain ⟨hal, hkeep, hlocked, hholds⟩ := hok rfl
      have hnext : Preparing md L { setActLog s lc with
          peerRequests := { s.peerRequests with pending := s.peerRequests.pending ++ [i] } } := by
        refine h.pend hal hkeep hlocked rfl ?_ rfl rfl h.open_ { h.waits with
          peersPending := forall_mem_append.mpr ⟨h.waits.peersPending, by simpa using hfits⟩ }
        have heq : held { setActLog s lc with
            peerRequests := { s.peerRequests with pending := s.peerRequests.pending ++ [i] } } =
            fun enr => held s enr + i.extents.count enr := by
          funext enr
          simp only [held, holders, setActLog, flatMap_append, flatMap_cons,
            flatMap_nil, append_nil, count_append]
          omega
        rw [heq]
        exact hholds
      obtain ⟨hp, hsub, hreq, hbm⟩ := ih hnext hl' hrun
      exact ⟨hp, hmore hsub, hreq, hbm⟩
    | some e =>
      have hp := herr (by simp)
      cases e with
      | enobufs =>
        cases hrun
        exact ⟨hp, fun _ hj => hj, rfl, rfl⟩
      | ebusy | ewouldblock =>
        obtain ⟨hp, hsub, hreq, hbm⟩ := ih (hp.peerLater hfits) hl' hrun
        exact ⟨hp, hmore hsub, hreq, hbm⟩

/-- Bits are only set. -/
def OnlySets (bm bm' : Nat → Nat → Bool) : Prop :=
  ∀ slot b, bm slot b = true → bm' slot b = true

omit h in
theorem Marked.mono {bm bm' : Nat → Nat → Bool} (h : Marked md bm i) (hbm : OnlySets bm bm') :
    Marked md bm' i :=
  fun hsize p slot hslot b h1 h2 => hbm slot b (h hsize p slot hslot b h1 h2)

omit h in
/-- Where a write without a slot leaves the request and the bits. -/
theorem bsrAlOosIoNonblock_spec (hdisk : env.getLdev = true) {bm : Nat → Nat → Bool} {req : Req}
    (hfits : Fits md req.i) (hnew : req.inAlOos = false) :
    (bsrAlOosIoNonblock md env bm req).2.1.i = req.i ∧
    (bsrAlOosIoNonblock md env bm req).2.1.inAlOos = (bsrAlOosIoNonblock md env bm req).2.2 ∧
    OnlySets bm (bsrAlOosIoNonblock md env bm req).1 ∧
    ((bsrAlOosIoNonblock md env bm req).2.2 = true → AllConnected md env →
      Marked md (bsrAlOosIoNonblock md env bm req).1 req.i) ∧
    (SomeNotBehind env → (bsrAlOosIoNonblock md env bm req).2.2 = false) := by
  obtain ⟨h1, h2, h3, h4⟩ := @alOosPeers_spec md env hdisk env.peers bm req hfits
  have hrefused : SomeNotBehind env → (alOosPeers md env env.peers bm req).2.2 = false := by
    rintro ⟨p, hp, hc, hnot⟩
    exact alOosPeers_refused hp hc hnot
  unfold bsrAlOosIoNonblock
  dsimp only
  cases hok : (alOosPeers md env env.peers bm req).2.2 with
  | true =>
    refine ⟨h1, rfl, h3, fun _ hall hsize p slot hslot => ?_, fun hsome => ?_⟩
    · obtain ⟨hp, hc⟩ := hall p slot hslot
      exact h4 hok hsize p hp hc slot hslot
    · rw [hrefused hsome] at hok
      cases hok
  | false =>
    rw [if_neg Bool.false_ne_true]
    refine ⟨h1, (h2.trans hnew).trans hok.symm, h3, fun hc => ?_, fun _ => hok⟩
    rw [hok] at hc
    cases hc

theorem Preparing.requests {l left : List Req} (hmd : Numbered md)
    (hdisk : env.getLdev = true) (hl : ∀ req ∈ l, Fits md req.i ∧ req.inAlOos = false)
    (hrun : prepareRequests md env l s = .ok (left, s')) :
    Preparing md L s' ∧ (∀ req ∈ left, Fits md req.i ∧ req.inAlOos = false) ∧ OnlySets s.bm s'.bm ∧
    s'.peerRequests = s.peerRequests ∧
    (AllConnected md env ∨ SomeNotBehind env → Oos md s → Oos md s') := by
  induction l generalizing s left with
  | nil =>
    cases hrun
    exact ⟨h, fun _ hr => absurd hr not_mem_nil, fun _ _ hb => hb, rfl, fun _ ho => ho⟩
  | cons req l ih =>
    obtain ⟨⟨hfits, hnew⟩, hl'⟩ := forall_mem_cons.mp hl
    obtain ⟨lc, err, hnb, herr, hok⟩ := @Preparing.nonblock md L s env req.i h hmd hfits
    rw [prepareRequests, hnb] at hrun
    have hadded : ∀ {r : Req}, r.i = req.i → ∀ x ∈ s.requests.pending ++ [r], Fits md x.i := by
      intro r hi
      exact forall_mem_append.mpr ⟨h.waits.pending, by simpa [hi] using hfits⟩
    cases err with
    | none =>
      obtain ⟨hal, hkeep, hlocked, hholds⟩ := hok rfl
      have hnext : Preparing md L { setActLog s lc with
          requests := { s.requests with pending := s.requests.pending ++ [req] } } := by
        refine h.pend hal hkeep hlocked rfl ?_ rfl rfl h.open_
          { h.waits with pending := hadded rfl }
        have heq : held { setActLog s lc with
            requests := { s.requests with pending := s.requests.pending ++ [req] } } =
            fun enr => held s enr + req.i.extents.count enr := by
          funext enr
          simp only [held, holders, setActLog, filter_append, map_append,
            flatMap_append, count_append, hnew, filter_cons, Bool.not_false,
            if_true, filter_nil, map_cons, map_nil, flatMap_cons,
            flatMap_nil, append_nil]
          omega
        rw [heq]
        exact hholds
      obtain ⟨hp, hsub, hbm, hpeers, hoos⟩ := ih hnext hl' hrun
      refine ⟨hp, hsub, hbm, hpeers, fun hsafe ho => hoos hsafe ?_⟩
      exact forall_mem_append.mpr ⟨ho, by simp [hnew]⟩
    | some e =>
      have hp := herr (by simp)
      cases e with
      | enobufs =>
        obtain ⟨hi, hflag, hsets, hmarks, hrefused⟩ :=
          @bsrAlOosIoNonblock_spec md env hdisk s.bm req hfits hnew
        generalize bsrAlOosIoNonblock md env s.bm req = marked at hrun hi hflag hsets hmarks hrefused
        obtain ⟨bm, _, ok⟩ := marked
        dsimp only at hrun hi hflag hsets hmarks hrefused
        cases ok with
        | true =>
          -- the write goes without the activity log
          rw [if_pos rfl] at hrun
          cases hrun
          refine ⟨⟨{ hp.core with holds := ?_, pending := fun hc j hj => hp.core.pending hc j ?_ },
            { hp.waits with pending := hadded hi }, hp.unlocked, hp.open_⟩, hl', hsets, rfl,
            fun hsafe ho => forall_mem_append.mpr
              ⟨fun r hr hin => (ho r hr hin).mono hsets, fun r hr _ => ?_⟩⟩
          · convert hp.core.holds using 1
            funext enr
            simp [held, holders, setActLog, hflag]
          · simpa [holders, setActLog, hflag] using hj
          · rw [mem_singleton.mp hr, hi]
            exact hsafe.elim (hmarks rfl) fun hsome => absurd (hrefused hsome) (by simp)
        | false =>
          cases hrun
          exact ⟨⟨{ hp.core with },
            { hp.waits with }, hp.unlocked,
            hp.open_⟩, forall_mem_cons.mpr ⟨⟨hi.symm ▸ hfits, hflag⟩, hl'⟩, hsets, rfl,
            fun _ ho r hr hin => (ho r hr hin).mono hsets⟩
      | ebusy | ewouldblock =>
        have hrest := ih (hp.reqLater hfits hnew) hl' hrun
        exact hrest

end

theorem Core.prepare (h : Core md L s) (hmd : Numbered md) (hdisk : env.getLdev = true)
    (hw : Waits md s) (hopen : s.committed = false)
    (hrun : prepareAlTransactionNonblock md env s = .ok s') :
    Core md L s' ∧ Waits md s' ∧ OnlySets s.bm s'.bm ∧
    (AllConnected md env ∨ SomeNotBehind env → Oos md s → Oos md s') := by
  unfold prepareAlTransactionNonblock at hrun
  split_ifs at hrun with hlocked
  · cases hrun
    exact ⟨h, hw, fun _ _ hb => hb, fun _ ho => ho⟩
  have hprep : Preparing md L s := ⟨h, hw, Bool.eq_false_of_not_eq_true hlocked, hopen⟩
  split at hrun
  · cases hrun
  rename_i peers s₁ hpeers
  have hin : ∀ i ∈ s.peerRequests.moreIncoming ++ s.peerRequests.incoming, Fits md i := by
    intro i hi
    refine hw.peers i ?_
    simp only [mem_append] at hi ⊢
    tauto
  obtain ⟨hprep₁, hleft, hreq₁, hbm₁⟩ := hprep.peers hmd hin hpeers
  have hin' : ∀ req ∈ s₁.requests.moreIncoming ++ s₁.requests.incoming,
      Fits md req.i ∧ req.inAlOos = false := by
    intro r hr
    refine hprep₁.waits.reqs r ?_
    simp only [mem_append] at hr ⊢
    tauto
  split at hrun
  · cases hrun
  rename_i reqs s₂ hreqs
  obtain ⟨hprep₂, hleft', hsets, _, hoos⟩ := hprep₁.requests hmd hdisk hin' hreqs
  cases hrun
  refine ⟨{ hprep₂.core with },
    { hprep₂.waits with reqs := ?_, peers := ?_ }, hbm₁ ▸ hsets, fun hsafe ho => ?_⟩
  · intro r hr
    simp only [append_nil, mem_append] at hr
    rcases hr with (hr | hr) | hr
    · exact hprep₂.waits.reqs r (by simp [hr])
    · exact hleft' r hr
    · exact hprep₂.waits.reqs r (by simp [hr])
  · intro i hi
    simp only [append_nil, mem_append] at hi
    rcases hi with (hi | hi) | hi
    · exact hprep₂.waits.peers i (by simp [hi])
    · exact hin i (hleft i hi)
    · exact hprep₂.waits.peers i (by simp [hi])
  · refine hoos hsafe fun r hr hin => ?_
    rw [hreq₁] at hr
    rw [hbm₁]
    exact ho r hr hin

/-! ## Submitting -/

/-- The bitmap is on disk for the marked writes of this batch. -/
def WritesOut (md : Request.DeviceMd) (env : Env) (req : Req) : Prop :=
  env.bmWriteOk = true ∧
    ((∃ p slot, md.bitmapIndex p = some slot) → env.peers.any req.peerInAlOos = true)

/-- The writes of the batch, at the time they are submitted. -/
structure Batch (md : Request.DeviceMd) (L : AlLayout) (env : Env) (s : State) (l : List Req) : Prop where
  inLog : ∀ req ∈ l, req.inAlOos = false → InLog L s.al req.i
  marked : ∀ req ∈ l, req.inAlOos = true → Marked md s.bm req.i ∧ WritesOut md env req

theorem marked_of_no_owner {bm : Nat → Nat → Bool} (h : ¬ ∃ p slot, md.bitmapIndex p = some slot) :
    Marked md bm i :=
  fun _ p slot hslot => absurd ⟨p, slot, hslot⟩ h

/-- The first marked write brings the bits of all of them to the disk. -/
theorem submitPendingRequests_spec {l : List Req} {isBmWrite : Bool} (h : Batch md L env s l)
    (hdisk : isBmWrite = true → s.bmDisk = s.bm ∨ ¬ ∃ p slot, md.bitmapIndex p = some slot)
    (hcov : ∀ x ∈ s.submissions, x.Covered md L) :
    (submitPendingRequests env l isBmWrite s).al = s.al ∧
    (submitPendingRequests env l isBmWrite s).others = s.others ∧
    (submitPendingRequests env l isBmWrite s).active =
      ((l.filter fun req => !req.inAlOos).map Req.i).reverse ++ s.active ∧
    SameLists s (submitPendingRequests env l isBmWrite s) ∧
    ∀ x ∈ (submitPendingRequests env l isBmWrite s).submissions, x.Covered md L := by
  induction l generalizing s isBmWrite with
  | nil => exact ⟨rfl, rfl, rfl, ⟨rfl, rfl, rfl, rfl, rfl⟩, hcov⟩
  | cons req l ih =>
    have hrest : ∀ t : State, t.al = s.al → t.bm = s.bm → Batch md L env t l := by
      intro t hal hbm
      constructor
      · intro r hr hin
        rw [hal]
        exact h.inLog r (mem_cons_of_mem req hr) hin
      · intro r hr hin
        rw [hbm]
        exact h.marked r (mem_cons_of_mem req hr) hin
    rw [submitPendingRequests]
    cases hoos : req.inAlOos with
    | true =>
      rw [if_pos rfl]
      obtain ⟨hmarked, hok, hflag⟩ := h.marked req mem_cons_self hoos
      -- after the first such write the bits are on disk, or no slot has an owner
      have hwritten : ∃ t : State, (if (!isBmWrite && env.peers.any req.peerInAlOos) = true then
          bsrBmWrite env s else s) = t ∧ t = { s with bmDisk := t.bmDisk } ∧
          (t.bmDisk = s.bm ∨ ¬ ∃ p slot, md.bitmapIndex p = some slot) := by
        refine ⟨_, rfl, ?_⟩
        split_ifs with hfirst
        · rw [bsrBmWrite, if_pos hok]
          exact ⟨rfl, .inl rfl⟩
        refine ⟨rfl, ?_⟩
        cases hb : isBmWrite with
        | true => exact hdisk hb
        | false =>
          right
          intro hex
          rw [hb, hflag hex] at hfirst
          exact hfirst rfl
      obtain ⟨t, ht, htframe, htdisk⟩ := hwritten
      rw [ht]
      have hbm : t.bm = s.bm := by rw [htframe]
      have hal : t.al = s.al := by rw [htframe]
      have hcovered : ∀ x ∈ (submit env t req.i false).submissions, x.Covered md L := by
        rw [htframe]
        refine forall_mem_cons.mpr ⟨fun _ _ => .inr ?_, hcov⟩
        rcases htdisk with heq | hno
        · show Marked md t.bmDisk req.i
          rw [heq]
          exact hmarked
        · exact marked_of_no_owner hno
      obtain ⟨h1, h2, h3, h4, h5⟩ := @ih (submit env t req.i false) true
        (hrest _ hal hbm) (fun _ => htdisk.imp (fun heq => heq.trans hbm.symm) id) hcovered
      refine ⟨h1.trans hal, h2.trans ?_, ?_, ?_, h5⟩
      · show t.others = s.others
        rw [htframe]
      · rw [h3]
        have hact : (submit env t req.i false).active = s.active := by
          show t.active = s.active
          rw [htframe]
        rw [hact, filter_cons, hoos]
        rfl
      · refine SameLists.trans ?_ h4
        rw [htframe]
        exact ⟨rfl, rfl, rfl, rfl, rfl⟩
    | false =>
      rw [if_neg Bool.false_ne_true]
      obtain ⟨h1, h2, h3, h4, h5⟩ := @ih (submit env s req.i true) isBmWrite
        (hrest _ rfl rfl) hdisk (forall_mem_cons.mpr
          ⟨fun _ _ => .inl (h.inLog req mem_cons_self hoos), hcov⟩)
      refine ⟨h1, h2, ?_, (sameLists_submit env s req.i true).trans h4, h5⟩
      rw [h3, filter_cons, hoos]
      simp [submit]

theorem submitPeers_spec {l : List Interval} (hl : ∀ i ∈ l, InLog L s.al i)
    (hcov : ∀ x ∈ s.submissions, x.Covered md L) :
    ∃ subs, l.foldl (fun s i => submit env s i true) s =
        { s with active := l.reverse ++ s.active, submissions := subs } ∧
      ∀ x ∈ subs, x.Covered md L := by
  induction l generalizing s with
  | nil => exact ⟨s.submissions, rfl, hcov⟩
  | cons i l ih =>
    obtain ⟨hi, hl⟩ := forall_mem_cons.mp hl
    obtain ⟨subs, heq, hsubs⟩ := @ih (submit env s i true) hl
      (forall_mem_cons.mpr ⟨fun _ _ => .inl hi, hcov⟩)
    refine ⟨subs, ?_, hsubs⟩
    rw [foldl_cons, heq]
    simp [submit]

theorem Core.sendAndSubmitPending (h : Core md L s) (hmd : Numbered md) (hw : Waits md s)
    (ho : Oos md s) (hcommit : s.committed = true)
    (hout : ∀ req ∈ s.requests.pending, req.inAlOos = true → WritesOut md env req) :
    Core md L (sendAndSubmitPending env s) ∧ Waits md (sendAndSubmitPending env s) ∧
      Oos md (sendAndSubmitPending env s) := by
  have hinlog : ∀ i ∈ holders s, Fits md i → InLog L s.al i := fun i hi hf =>
    inLog_of_settled h.al (hf.extent_lt hmd).2 (h.pending hcommit i hi)
  obtain ⟨subs, heq, hsubs⟩ := @submitPeers_spec md L s env s.peerRequests.pending
    (fun i hi => hinlog i (by simp [holders, hi]) (hw.peersPending i hi)) h.covered
  have hbatch : Batch md L env
      { s with active := s.peerRequests.pending.reverse ++ s.active, submissions := subs }
      s.requests.pending := by
    constructor
    · intro req hreq hin
      refine hinlog req.i ?_ (hw.pending req hreq)
      simp only [holders, append_assoc, mem_append, mem_map, mem_filter]
      exact .inl ⟨req, ⟨hreq, by simp [hin]⟩, rfl⟩
    · exact fun req hreq hin => ⟨ho req hreq hin, hout req hreq hin⟩
  obtain ⟨h1, h2, h3, h4, h5⟩ := @submitPendingRequests_spec md L _ env _ false hbatch (by simp) hsubs
  unfold Submitter.sendAndSubmitPending
  rw [heq]
  dsimp only
  generalize submitPendingRequests env s.requests.pending false
    { s with active := s.peerRequests.pending.reverse ++ s.active, submissions := subs } = t
    at h1 h2 h3 h4 h5
  have hperm : t.active.Perm (holders s) := by
    rw [h3, holders, append_assoc]
    exact (reverse_perm _).append ((reverse_perm _).append_right _)
  refine ⟨⟨h1 ▸ h.al, ?_, ?_, by simp, h5⟩, ⟨?_, ?_, ?_, ?_⟩, ?_⟩
  · show Holds t.al.actLog _
    have hheld : held { t with
        peerRequests := { t.peerRequests with pending := [] }
        requests := { t.requests with pending := [] }
        committed := false } = held s := by
      funext enr
      simp only [held, holders, filter_nil, map_nil, nil_append, h2]
      rw [(hperm.flatMap_right Interval.extents).count_eq]
      rfl
    rw [hheld, h1]
    exact h.holds
  · intro i hi enr henr
    show Settled t.al.actLog enr
    rw [h1]
    exact h.pending hcommit i (hperm.mem_iff.mp hi) enr henr
  · have hreqs := hw.reqs
    show ∀ req ∈ t.writes ++ t.requests.incoming ++ t.requests.moreIncoming ++ t.requests.later, _
    rw [h4.writes, h4.requests]
    exact hreqs
  · exact fun _ hr => absurd hr not_mem_nil
  · have hpeers := hw.peers
    show ∀ i ∈ t.peerWrites ++ t.peerRequests.incoming ++ t.peerRequests.moreIncoming ++
      t.peerRequests.later, _
    rw [h4.peerWrites, h4.peerRequests]
    exact hpeers
  · exact fun _ hr => absurd hr not_mem_nil
  · exact fun _ hr => absurd hr not_mem_nil

end

end Bsr.Submitter
