import Bsr.Submitter.Rounds

/-!
# Local writes over whole runs

Any sequence of arrivals, rounds of the submitter, commits and completions, while other users work
on the activity log and on the bitmap. `local_write_covered` is the coverage of every submitted
write in runs that meet its conditions; `disconnected_write_uncovered` is a run that does not.
-/

namespace Bsr.Submitter

open Function

open Lib Lru ActLog

section

variable {md : Request.DeviceMd} {L : AlLayout} {s s' : State} {env : Env}

structure Inv (md : Request.DeviceMd) (L : AlLayout) (s : State) : Prop where
  core : Core md L s
  waits : Waits md s
  oos : Oos md s

theorem Start.inv (h : Start L s) : Inv md L s := by
  have hnone : ∀ enr, held s enr = 0 := by
    intro enr
    simp [held, holders, h.requests.1, h.requests.2, h.active, h.others enr]
  refine ⟨⟨h.al.inv, fun enr hpos => ?_, fun i hi => ?_, fun hc => ?_, fun x hx => ?_⟩,
    ⟨fun r hr => ?_, fun r hr => ?_, fun i hi => ?_, fun i hi => ?_⟩, fun r hr => ?_⟩
  · rw [hnone] at hpos
    exact absurd hpos (Nat.lt_irrefl 0)
  · rw [h.active] at hi
    cases hi
  · rw [h.committed] at hc
    cases hc
  · rw [h.submissions] at hx
    cases hx
  · simp [h.writes.1, h.requests.1] at hr
  · simp [h.requests.1] at hr
  · simp [h.writes.2, h.requests.2] at hi
  · simp [h.requests.2] at hi
  · simp [h.requests.1] at hr

/-- What a step has to meet: a write goes without the activity log only if every node that owns a
slot is connected, the bitmap is then written for it, and its bits are not cleared in between. -/
def Event.Safe (md : Request.DeviceMd) (env : Env) (s : State) : Event → Prop
  | .prepare => env.getLdev = true ∧ (AllConnected md env ∨ SomeNotBehind env ∨
      ∀ s', prepareAlTransactionNonblock md env { s with committed := false } = .ok s' →
        ∀ req ∈ s'.requests.pending, req.inAlOos = true → req ∈ s.requests.pending)
  | .submitPending => ∀ req ∈ s.requests.pending, req.inAlOos = true → WritesOut md env req
  | .bitmap bm _ => ∀ req ∈ s.requests.pending, req.inAlOos = true → Marked md s.bm req.i →
      Marked md bm req.i
  | _ => True

section

variable (h : Inv md L s)

include h

theorem Inv.setAl {al : AlState} (hal : AlInv L al)
    (hkeep : KeepsHeld s.al.actLog al.actLog) : Inv md L { s with al := al } :=
  ⟨⟨hal, hkeep.holds h.core.holds, fun i hi enr henr => hkeep.settled (h.core.active i hi enr henr),
    fun hc i hi enr henr => hkeep.settled (h.core.pending hc i hi enr henr), h.core.covered⟩,
    { h.waits with }, h.oos⟩

open KeepsHeld

theorem Inv.beginCommit (hrun : liftAl s (bsrAlBeginIoCommit s.al) = .ok s') : Inv md L s' := by
  unfold liftAl at hrun
  split at hrun
  · cases hrun
  rename_i al hcommit
  cases hrun
  have hal : AlInv L al := h.core.al.beginCommit hcommit
  refine h.setAl hal ?_
  unfold bsrAlBeginIoCommit at hcommit
  dsimp only [lcTryLockForTransaction] at hcommit
  split_ifs at hcommit
  · cases hcommit
    exact of_eq rfl rfl
  · cases hcommit
    exact of_eq rfl rfl
  · unfold alWriteTransaction at hcommit
    split_ifs at hcommit
    cases hcommit
    exact of_eq rfl rfl

theorem Inv.writeDone (hlegal : AlEvent.writeDone.Legal L s.al)
    (hrun : liftAl s (AlEvent.writeDone.exec L s.al) = .ok s') : Inv md L s' := by
  unfold liftAl at hrun
  split at hrun
  · cases hrun
  rename_i al hdone
  cases hrun
  have hal : AlInv L al := h.core.al.writeDone hlegal hdone
  refine h.setAl hal ?_
  rw [AlEvent.exec] at hdone
  split at hdone
  · cases hdone
    exact refl _
  unfold finishCommit at hdone
  split at hdone
  · cases hdone
  rename_i hlru
  cases hdone
  obtain ⟨hnr, hkeep⟩ := (lcCommitted_keepsHeld h.core.al.lru h.core.al.quiet hlru).1
  exact ⟨hnr, hkeep⟩

open List

theorem Inv.commitReturns (hzero : s.al.actLog.pendingChanges = 0) :
    Inv md L { s with committed := true } := by
  have hlru := h.core.al.lru
  have hempty : s.al.actLog.list .toBeChanged = [] := by
    rw [← length_eq_zero_iff, ← hlru.pending_eq, hzero]
  refine ⟨{ h.core with pending := fun _ i hi enr henr => ?_ },
    { h.waits with }, h.oos⟩
  have hpos := held_pos hi henr
  obtain ⟨e, he, hlabel, hle⟩ := h.core.holds enr hpos
  have hset := hlru.settled he (by rw [hempty]; exact not_mem_nil)
  exact ⟨e, he, hset.symm.trans hlabel, hlabel, Nat.lt_of_lt_of_le hpos hle⟩

theorem Inv.complete {i : Interval} (hi : i ∈ s.active)
    (hrun : liftLru { s with active := s.active.erase i } (putActlog s.al.actLog i.extents) = .ok s') :
    Inv md L s' := by
  have hperm : (holders s).Perm (i :: holders { s with active := s.active.erase i }) := by
    have hactive := perm_cons_erase hi
    exact (hactive.append_left _).trans perm_middle
  have hheld : held s = fun enr => held { s with active := s.active.erase i } enr + i.extents.count enr := by
    funext enr
    simp only [held]
    rw [(hperm.flatMap_right Interval.extents).count_eq, flatMap_cons, count_append]
    omega
  have hholds := h.core.holds
  rw [hheld] at hholds
  obtain ⟨lc, hput, hal, hholds', hsettled⟩ :=
    putActlog_spec h.core.al (h.core.active i hi) hholds
  rw [hput] at hrun
  cases hrun
  have hkeeps : ∀ j ∈ holders { s with active := s.active.erase i }, ∀ enr ∈ j.extents,
      Settled s.al.actLog enr → Settled lc enr := by
    exact fun j hj enr henr hs => hsettled enr (held_pos hj henr) hs
  refine ⟨⟨hal, hholds', fun j hj enr henr => ?_, fun hc j hj enr henr => ?_, h.core.covered⟩,
    { h.waits with }, h.oos⟩
  · have hj' : j ∈ s.active.erase i := hj
    exact hkeeps j (mem_append_right _ hj') enr henr
      (h.core.active j (mem_of_mem_erase hj') enr henr)
  · exact hkeeps j hj enr henr (h.core.pending hc j (hperm.mem_iff.mpr (mem_cons_of_mem i hj)) enr henr)

/-! ## Other users -/

theorem Inv.otherGet {enr : Nat} {mayChange : Bool} (hfree : enr ≠ lcFree)
    (hrun : (Event.otherGet enr mayChange).exec md L env s = .ok s') : Inv md L s' := by
  obtain ⟨lc, r, hget, hal, heffect⟩ := @alInv_get L s.al enr h.core.al hfree mayChange false nofun
  have hholds := heffect.holds hal.lru h.core.holds
  rw [Event.exec, hget] at hrun
  cases r with
  | none =>
    cases hrun
    exact h.setAl hal heffect.keepsHeld
  | some e =>
    cases hrun
    have hkeep := heffect.keepsHeld
    refine ⟨⟨hal, ?_, fun i hi n hn => hkeep.settled (h.core.active i hi n hn),
      fun hc i hi n hn => hkeep.settled (h.core.pending hc i hi n hn), h.core.covered⟩,
      { h.waits with }, h.oos⟩
    have heq : held { setActLog s lc with others := update s.others enr (s.others enr + 1) } =
        update (held s) enr (held s enr + 1) := by
      funext m
      by_cases hm : m = enr
      · subst hm
        simp only [held, holders, setActLog, update_self]
        omega
      · simp only [held, holders, setActLog, update_of_ne hm]
    rw [heq]
    exact hholds

theorem Inv.otherPut {e : Nat} (hlegal : (Event.otherPut e).Legal md L s)
    (hrun : (Event.otherPut e).exec md L env s = .ok s') : Inv md L s' := by
  obtain ⟨he, hrefs, hset, hpos⟩ := hlegal
  obtain ⟨lc, n, hput, _⟩ := lcPut_kept h.core.al.lru h.core.al.quiet he hrefs hset
  have hal : AlInv L { s.al with actLog := lc } := by
    refine @AlInv.use L s.al _ h.core.al (.put e) ⟨trivial, ⟨he, hrefs, hset⟩, nofun⟩ ?_
    rw [AlEvent.exec, LcCall.exec, hput]
    rfl
  rw [Event.exec, hput] at hrun
  cases hrun
  generalize hlabel : (s.al.actLog.lcElement e).lcNewNumber = enr at hpos ⊢
  have hheld : held s = update
      (held { setActLog s lc with others := update s.others enr (s.others enr - 1) }) enr
      (held { setActLog s lc with others := update s.others enr (s.others enr - 1) } enr + 1) := by
    funext m
    by_cases hm : m = enr
    · subst hm
      simp only [held, holders, setActLog, update_self]
      omega
    · simp only [held, holders, setActLog, update_of_ne hm]
  have hholds := h.core.holds
  rw [hheld] at hholds
  have hholds' := Holds.put h.core.al.lru hput hholds hlabel
  have hsettled : ∀ i ∈ holders s, ∀ m ∈ i.extents, Settled s.al.actLog m → Settled lc m := by
    exact fun i hi m hm hs => Settled.put hput h.core.al.lru hholds' (held_pos hi hm) hs
  exact ⟨⟨hal, hholds', fun i hi m hm => hsettled i (mem_append_right _ hi) m hm
      (h.core.active i hi m hm), fun hc i hi m hm => hsettled i hi m hm (h.core.pending hc i hi m hm),
    h.core.covered⟩, { h.waits with }, h.oos⟩

theorem Inv.otherDel {e : Nat} (hlegal : (Event.otherDel e).Legal md L s)
    (hrun : (Event.otherDel e).exec md L env s = .ok s') : Inv md L s' := by
  obtain ⟨lc, u, hdel, _⟩ := lcDel_kept h.core.al.lru h.core.al.quiet hlegal.1 hlegal.2
  have hal : AlInv L { s.al with actLog := lc } := by
    refine @AlInv.use L s.al _ h.core.al (.del e) ⟨trivial, hlegal, nofun⟩ ?_
    rw [AlEvent.exec, LcCall.exec, hdel]
    rfl
  rw [Event.exec, hdel] at hrun
  cases hrun
  exact h.setAl hal (lcDel_keepsHeld hdel)

theorem Inv.otherTryLock : Inv md L (setActLog s (lcTryLock s.al.actLog).1) := by
  have hal : AlInv L { s.al with actLog := (lcTryLock s.al.actLog).1 } :=
    @AlInv.use L s.al _ h.core.al .tryLock ⟨trivial, trivial, nofun⟩ rfl
  refine h.setAl hal ?_
  unfold lcTryLock
  split_ifs
  · exact of_eq rfl rfl
  · exact refl _

theorem Inv.otherUnlock (hidle : s.al.inFlight = none) :
    Inv md L (setActLog s (lcUnlock s.al.actLog)) :=
  h.setAl (@AlInv.use L s.al _ h.core.al .unlock ⟨trivial, trivial, fun _ => hidle⟩ rfl)
    (of_eq rfl rfl)

theorem Inv.checkAlSize {alExtents : Nat} (hlegal : (AlEvent.checkAlSize alExtents).Legal L s.al) :
    Inv md L { s with al := bsrCheckAlSize s.al alExtents } := by
  have hal := h.core.al.checkAlSize hlegal
  by_cases hsame : bsrCheckAlSize s.al alExtents = s.al
  · rw [hsame]
    exact h
  have hunused : ∀ e < s.al.actLog.nrElements, (s.al.actLog.lcElement e).refcnt = 0 := by
    intro e he
    by_contra hne
    refine hsame ?_
    unfold bsrCheckAlSize
    split_ifs with h1 h2
    · rfl
    · rfl
    · exact absurd ⟨e, he, hne⟩ h2
  have hnone : ∀ enr, held s enr = 0 := by
    intro enr
    by_contra hne
    obtain ⟨e, he, _, hle⟩ := h.core.holds enr (Nat.pos_of_ne_zero hne)
    rw [hunused e he] at hle
    omega
  have hsettled : ∀ i ∈ holders s, ∀ enr ∈ i.extents, False := by
    exact fun i hi enr henr => Nat.ne_of_gt (held_pos hi henr) (hnone enr)
  refine ⟨⟨hal, fun enr hpos => ?_, fun i hi enr henr => ?_, fun _ i hi enr henr => ?_,
    h.core.covered⟩, { h.waits with }, h.oos⟩
  · have hpos' : 0 < held s enr := hpos
    rw [hnone] at hpos'
    exact absurd hpos' (Nat.lt_irrefl 0)
  · exact (hsettled i (mem_append_right _ hi) enr henr).elim
  · exact (hsettled i hi enr henr).elim

/-! ## Runs -/

omit h in
theorem liftBug_ok {res : Except LcBug State} (h : liftBug res = .ok s') : res = .ok s' := by
  cases res with
  | error b => cases h
  | ok t =>
    cases h
    rfl

theorem Inv.prepare (hmd : Numbered md) (hsafe : Event.prepare.Safe md env s)
    (hrun : prepareAlTransactionNonblock md env { s with committed := false } = .ok s') :
    Inv md L s' := by
  have hcore : Core md L { s with committed := false } :=
    { h.core with pending := nofun }
  have hwaits : Waits md { s with committed := false } :=
    { h.waits with }
  obtain ⟨hcore', hwaits', hsets, hoos⟩ := hcore.prepare hmd hsafe.1 hwaits rfl hrun
  refine ⟨hcore', hwaits', ?_⟩
  rcases hsafe.2 with hall | hsome | hno
  · exact hoos (.inl hall) h.oos
  · exact hoos (.inr hsome) h.oos
  · intro req hreq hin
    exact (h.oos req (hno s' hrun req hreq hin) hin).mono hsets

theorem Inv.step {ev : Event} (hmd : Numbered md) (hlegal : ev.Legal md L s)
    (hsafe : ev.Safe md env s) (hrun : ev.exec md L env s = .ok s') : Inv md L s' := by
  cases ev with
  | arrive req =>
    obtain ⟨hnew, hin, halign, hsize⟩ := hlegal
    obtain ⟨hcore, hwaits, hreq, hbm⟩ :=
      h.core.requestPrepare hmd h.waits ⟨hin, halign, hsize⟩ hnew (liftBug_ok hrun)
    refine ⟨hcore, hwaits, fun r hr hoos => ?_⟩
    rw [hreq] at hr
    rw [hbm]
    exact h.oos r hr hoos
  | arrivePeer i =>
    obtain ⟨hin, halign, hsize⟩ := hlegal
    cases hrun
    refine ⟨{ h.core with },
      { h.waits with peers := fun j hj => ?_ }, h.oos⟩
    simp only [append_assoc, mem_append, mem_singleton] at hj
    rcases hj with hj | rfl | hj
    · exact h.waits.peers j (by simp [hj])
    · exact ⟨hin, halign, hsize⟩
    · exact h.waits.peers j (by simp only [append_assoc, mem_append]; exact .inr hj)
  | grab more =>
    cases more <;> cases hrun
    all_goals
      refine ⟨{ h.core with },
        { h.waits with reqs := fun r hr => h.waits.reqs r ?_, peers := fun j hj => h.waits.peers j ?_ }, h.oos⟩
      · simp only [mem_append] at hr ⊢
        tauto
      · simp only [mem_append] at hj ⊢
        tauto
  | spliceLater =>
    cases hrun
    refine ⟨{ h.core with },
      { h.waits with reqs := fun r hr => h.waits.reqs r ?_, peers := fun j hj => h.waits.peers j ?_ }, h.oos⟩
    · simp only [mem_append] at hr ⊢
      tauto
    · simp only [mem_append] at hj ⊢
      tauto
  | fastPath =>
    obtain ⟨hcore, hwaits, hpend, hbm⟩ := h.core.submitFastPath hmd h.waits (liftBug_ok hrun)
    refine ⟨hcore, hwaits, fun r hr hoos => ?_⟩
    rw [hpend] at hr
    rw [hbm]
    exact h.oos r hr hoos
  | prepare => exact h.prepare hmd hsafe (liftBug_ok hrun)
  | beginCommit => exact h.beginCommit hrun
  | writeDone => exact h.writeDone hlegal hrun
  | commitReturns =>
    cases hrun
    exact h.commitReturns hlegal
  | submitPending =>
    cases hrun
    obtain ⟨hcore, hwaits, hoos⟩ := h.core.sendAndSubmitPending hmd h.waits h.oos hlegal hsafe
    exact ⟨hcore, hwaits, hoos⟩
  | complete i => exact h.complete hlegal hrun
  | otherGet enr mayChange => exact h.otherGet hlegal hrun
  | otherPut e => exact h.otherPut hlegal hrun
  | otherDel e => exact h.otherDel hlegal hrun
  | otherTryLock =>
    cases hrun
    exact h.otherTryLock
  | otherUnlock =>
    cases hrun
    exact h.otherUnlock hlegal
  | checkAlSize alExtents =>
    cases hrun
    exact h.checkAlSize hlegal
  | bitmap bm bmDisk =>
    cases hrun
    exact ⟨{ h.core with },
      { h.waits with },
      fun r hr hin => hsafe r hr hin (h.oos r hr hin)⟩

end

def SafeStep (md : Request.DeviceMd) (L : AlLayout) (s : State) (e : Env × Event) (s' : State) : Prop :=
  Step md L s e s' ∧ e.2.Safe md e.1 s

end

/-! ## Two runs -/

instance (md : Request.DeviceMd) (L : AlLayout) (s : State) (ev : Event) : Decidable (ev.Legal md L s) :=
  match ev with
  | .arrive req => inferInstanceAs (Decidable (req.inAlOos = false ∧
      req.i.sector + req.i.size / 512 ≤ md.nrSectors ∧ req.i.size % 512 = 0 ∧
      req.i.size ≤ Request.bsrMaxBatchBioSize))
  | .arrivePeer i => inferInstanceAs (Decidable (i.sector + i.size / 512 ≤ md.nrSectors ∧
      i.size % 512 = 0 ∧ i.size ≤ Request.bsrMaxBatchBioSize))
  | .writeDone => inferInstanceAs (Decidable (s.al.alTrNumber + 1 < 2 ^ 32))
  | .commitReturns => inferInstanceAs (Decidable (s.al.actLog.pendingChanges = 0))
  | .submitPending => inferInstanceAs (Decidable (s.committed = true))
  | .complete i => inferInstanceAs (Decidable (i ∈ s.active))
  | .otherGet enr _ => inferInstanceAs (Decidable (enr ≠ lcFree))
  | .otherPut e => inferInstanceAs (Decidable (e < s.al.actLog.nrElements ∧
      0 < (s.al.actLog.lcElement e).refcnt ∧
      (s.al.actLog.lcElement e).lcNumber = (s.al.actLog.lcElement e).lcNewNumber ∧
      0 < s.others (s.al.actLog.lcElement e).lcNewNumber))
  | .otherDel e => inferInstanceAs (Decidable (e < s.al.actLog.nrElements ∧
      (s.al.actLog.lcElement e).refcnt = 0))
  | .otherUnlock => inferInstanceAs (Decidable (s.al.inFlight = none))
  | .checkAlSize alExtents => inferInstanceAs (Decidable (0 < alExtents ∧
      alExtents ≤ L.bsrAlExtentsMax ∧ s.al.inFlight = none))
  | .grab _ | .spliceLater | .fastPath | .prepare | .beginCommit | .otherTryLock | .bitmap _ _ =>
    isTrue trivial

/-- The events in a fixed environment, as long as each is legal and passes `ok`. -/
def run (md : Request.DeviceMd) (L : AlLayout) (env : Env) (ok : Event → State → Bool) :
    List Event → State → Option State
  | [], s => some s
  | ev :: rest, s =>
    if ev.Legal md L s ∧ ok ev s = true then
      match ev.exec md L env s with
      | .error _ => none
      | .ok s' => run md L env ok rest s'
    else none

theorem reachable_run {md : Request.DeviceMd} {L : AlLayout} {env : Env} {ok : Event → State → Bool}
    {R : State → Env × Event → State → Prop}
    (hR : ∀ ev s s', ok ev s = true → Step md L s (env, ev) s' → R s (env, ev) s')
    {evs : List Event} {s s' : State} (hs : Reachable (Start L) R s)
    (hrun : run md L env ok evs s = some s') : Reachable (Start L) R s' := by
  induction evs generalizing s with
  | nil =>
    cases hrun
    exact hs
  | cons ev rest ih =>
    rw [run] at hrun
    split_ifs at hrun with hok
    split at hrun
    · cases hrun
    · rename_i t hexec
      exact ih (.next (env, ev) hs (hR ev s t hok.2 ⟨hok.1, hexec⟩)) hrun

/-- 512 MiB, one peer. -/
def smallMd : Request.DeviceMd where
  maxNodeId := 0
  bitmapIndex := fun p => if p = 0 then some 0 else none
  bmMaxPeers := 1
  nrSectors := 2 ^ 20

/-- The smallest activity log: 67 extents. -/
def smallCache : LruCache where
  list := freshLists 67
  nrElements := 67
  maxPendingChanges := alUpdatesPerTransaction
  pendingChanges := 0
  used := 0
  paranoia := false
  dirty := false
  locked := false
  starving := false
  lcSlot := fun _ => []
  lcElement := fun _ => freshElement

def smallStart : State where
  al := sampleStart smallCache
  bm := fun _ _ => false
  bmDisk := fun _ _ => false
  writes := []
  peerWrites := []
  requests := {}
  peerRequests := {}
  committed := false
  active := []
  others := fun _ => 0
  submissions := []

theorem smallStart_start : Start sampleLayout smallStart := by
  refine ⟨⟨⟨67, by decide, rfl⟩, fun _ _ => rfl, rfl, ?_, ?_, ?_⟩, ⟨rfl, rfl⟩, ⟨rfl, rfl⟩, rfl,
    fun _ => rfl, rfl, rfl⟩
  · show 13 < 2 ^ 32
    decide
  · show 0 < 2 ^ 16
    decide
  · exact Nat.dvd_zero _

/-- Two discards fill the transaction; the write behind them finds no slot. -/
def fullTransaction : List Event :=
  [.arrive { i := ⟨0, 32 * 2 ^ 22⟩, discard := true },
    .arrive { i := ⟨32 * 2 ^ 13, 32 * 2 ^ 22⟩, discard := true },
    .arrive { i := ⟨64 * 2 ^ 13, 4096⟩ },
    .grab false, .fastPath, .prepare, .beginCommit, .writeDone, .commitReturns, .submitPending]

/-- The peer is connected and behind. -/
def behindEnv : Env :=
  { peers := [0], agreedProVersion := fun _ => 116, connected := fun _ => true, ahead := fun _ => true }

/-- The checks on a run that the conditions of `local_write_covered` leave. -/
def writesOut (env : Env) : Event → State → Bool
  | .submitPending, s => s.requests.pending.all fun req => !req.inAlOos || env.peers.any req.peerInAlOos
  | .bitmap _ _, _ => false
  | _, _ => true

theorem safe_behind {ev : Event} {s : State} (hok : writesOut behindEnv ev s = true) :
    ev.Safe smallMd behindEnv s := by
  cases ev with
  | prepare =>
    refine ⟨rfl, .inl fun p slot hslot => ?_⟩
    simp only [smallMd] at hslot
    split_ifs at hslot with hp
    exact ⟨List.mem_singleton.2 hp, rfl⟩
  | submitPending =>
    intro req hreq hoos
    have hany := List.all_eq_true.1 hok req hreq
    rw [hoos] at hany
    exact ⟨rfl, fun _ => hany⟩
  | bitmap bm bmDisk => cases hok
  | _ => trivial

end Bsr.Submitter
