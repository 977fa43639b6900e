import Bsr.Request.Frame

/-!
# Counting the references of a request

The flags say how many references a request should have. `Owing` compares that with the two counters
while some references still have to be dropped; `Owing.drop` is the end of `mod_rq_state`, and
`Accounted.mod` one whole call.
-/

namespace Bsr.Request

open Function

/-! ## What the flags call for -/

/-- Completion references of `rq_state[0]`. -/
def LocalFlags.refs (f : LocalFlags) : Nat :=
  (f.pending && !f.aborted).toNat + f.susp.toNat

/-- Completion references of one peer. -/
def NetFlags.refs (f : NetFlags) : Nat :=
  f.pending.toNat + f.queued.toNat

/-- An aborted bio that is still with the disk keeps the object. -/
def LocalFlags.krefs (f : LocalFlags) : Nat :=
  (f.aborted && f.pending).toNat

/-- So does a barrier ack that is still to come. -/
def NetFlags.krefs (f : NetFlags) : Nat :=
  (f.expBarrAck && !f.done).toNat

variable (md : DeviceMd)

def netSum (w : NetFlags → Nat) (net : Nat → NetFlags) : Nat :=
  ∑ p ∈ Finset.range (md.maxNodeId + 1), w (net p)

def expectedRefs (s : ReqState) : Nat :=
  s.submitting.toNat + s.loc.refs + netSum md NetFlags.refs s.net

def expectedKrefs (s : ReqState) : Nat :=
  1 + s.holders + s.loc.krefs + netSum md NetFlags.krefs s.net

open Finset

theorem netSum_update (w : NetFlags → Nat) (net : Nat → NetFlags) {p : Nat}
    (hp : p ≤ md.maxNodeId) (f : NetFlags) :
    netSum md w (update net p f) + w (net p) = netSum md w net + w f := by
  have hmem : p ∈ range (md.maxNodeId + 1) := mem_range.2 (by omega)
  have hcomp : ∀ q, w (update net p f q) = update (w ∘ net) p (w f) q := by
    intro q
    exact congrFun (comp_update w net p f) q
  have hsum : netSum md w (update net p f) =
      ∑ q ∈ range (md.maxNodeId + 1), update (w ∘ net) p (w f) q :=
    sum_congr rfl fun q _ => hcomp q
  rw [hsum, sum_update_of_mem hmem, netSum, sdiff_singleton_eq_erase,
    ← add_sum_erase _ (fun q => w (net q)) hmem]
  simp only [Function.comp_apply]
  omega

theorem le_netSum (w : NetFlags → Nat) (net : Nat → NetFlags) {p : Nat}
    (hp : p ≤ md.maxNodeId) : w (net p) ≤ netSum md w net :=
  single_le_sum (f := fun q => w (net q)) (fun _ _ => Nat.zero_le _)
    (mem_range.2 (by omega))

/-! ## The completion -/

/-- The peers have node ids of the device. -/
def Env.Numbered (env : Env) (md : DeviceMd) : Prop :=
  ∀ p ∈ env.peers, p ≤ md.maxNodeId

variable {s : ReqState} {env : Env}

/-- The completion, once nothing stands in its way: the master bio is completed, or the request is
kept for the retry worker. -/
theorem bsrReqComplete_ready (hpeers : ∀ p ∈ env.peers, (s.net p).refs = 0)
    (href : s.completionRef = 0) (hloc : s.loc.refs = 0) (hbio : s.masterBio = true) :
    (bsrReqComplete env s = { s with postponed := true }) ∨
    (s.postponed = false ∧ bsrReqComplete env s =
      { s with
        masterBio := false
        completions := ⟨completionError env s, anyOk env s⟩ :: s.completions }) := by
  have hnet : (env.peers.any fun p =>
      (s.net p).masked && ((s.net p).pending || (s.net p).queued)) = false := by
    rw [List.any_eq_false]
    intro p hp
    have h := hpeers p hp
    simp only [NetFlags.refs] at h
    cases hpe : (s.net p).pending <;> cases hqu : (s.net p).queued <;> simp_all
  have hpend : (s.loc.pending && !s.loc.aborted) = false := by
    simp only [LocalFlags.refs] at hloc
    cases h : (s.loc.pending && !s.loc.aborted) <;> simp_all
  unfold bsrReqComplete
  rw [hnet, hpend]
  simp only [href, ne_eq, hbio]
  cases hpost : s.postponed with
  | true => exact .inl (by simp)
  | false =>
    simp

/-! ## Counters that agree with the flags -/

/-- A request is processed until its completion reference is zero, and then it has been completed or
handed to the retry worker. -/
inductive Phase (s : ReqState) : Prop
  | running (href : 0 < s.completionRef) (hcomp : s.completions = []) (hrest : s.restarts = 0)
      (hretr : s.retried = 0) (hbio : s.masterBio = true) : Phase s
  | completed (href : s.completionRef = 0) (hcomp : s.completions.length = 1)
      (hrest : s.restarts = 0) (hretr : s.retried = 0) : Phase s
  | restarted (href : s.completionRef = 0) (hcomp : s.completions = []) (hrest : s.restarts = 1)
      (hretr : s.retried ≤ 1) (hpost : s.postponed = true) : Phase s

/-- The counters exceed what the flags call for by `c` and `k`, which are about to be dropped. -/
structure Owing (md : DeviceMd) (s : ReqState) (c k : Nat) : Prop where
  refs : s.completionRef = expectedRefs md s + c
  krefs : s.kref + s.completions.length + s.retried = expectedKrefs md s + k
  phase : Phase s
  zeroed : s.zeroed = if s.kref = 0 then 1 else 0

/-- The counters are what the flags call for. -/
def Accounted (md : DeviceMd) (s : ReqState) : Prop :=
  Owing md s 0 0

theorem Phase.congr {s t : ReqState} (h : Phase s)
    (heq : (t.completionRef, t.completions, t.restarts, t.retried, t.masterBio, t.postponed) =
      (s.completionRef, s.completions, s.restarts, s.retried, s.masterBio, s.postponed)) : Phase t := by
  simp only [Prod.mk.injEq] at heq
  obtain ⟨href, hcomp, hrest, hretr, hbio, hpost⟩ := heq
  cases h with
  | running h1 h2 h3 h4 h5 =>
    exact .running (href ▸ h1) (hcomp ▸ h2) (hrest ▸ h3) (hretr ▸ h4) (hbio ▸ h5)
  | completed h1 h2 h3 h4 => exact .completed (href ▸ h1) (hcomp ▸ h2) (hrest ▸ h3) (hretr ▸ h4)
  | restarted h1 h2 h3 h4 h5 =>
    exact .restarted (href ▸ h1) (hcomp ▸ h2) (hrest ▸ h3) (hretr ▸ h4) (hpost ▸ h5)

theorem Phase.finished_le (h : Phase s) : s.completions.length + s.retried ≤ 1 := by
  cases h with
  | running _ hcomp _ hretr _ => simp [hcomp, hretr]
  | completed _ hcomp _ hretr => omega
  | restarted _ hcomp _ hretr _ => simpa [hcomp] using hretr

theorem Phase.pos (h : Phase s) (href : 0 < s.completionRef) :
    s.completions = [] ∧ s.restarts = 0 ∧ s.retried = 0 ∧ s.masterBio = true := by
  cases h with
  | running _ hcomp hrest hretr hbio => exact ⟨hcomp, hrest, hretr, hbio⟩
  | completed h0 _ _ _ => omega
  | restarted h0 _ _ _ _ => omega

variable {md : DeviceMd} {c k : Nat}

theorem Owing.kref_pos (h : Owing md s c k) (href : 0 < s.completionRef) : 0 < s.kref := by
  obtain ⟨hcomp, _, _, _⟩ := h.phase.pos href
  have hk := h.krefs
  rw [hcomp, expectedKrefs] at hk
  simp only [List.length_nil] at hk
  omega

theorem Owing.sub {k : Nat} (env : Env) (h : Owing md s 0 k)
    (hk : 0 < k) : Accounted md (krefSub md env s k) := by
  obtain ⟨_, d, heq⟩ := krefSub_frame md env s k
  have hle := h.phase.finished_le
  have hkrefs := h.krefs
  -- the object reference of the request itself covers the one completion, so nothing was zero
  -- before
  have hpos : 0 < s.kref := by
    rw [expectedKrefs] at hkrefs
    omega
  have hzero : s.zeroed = 0 := by
    rw [h.zeroed, if_neg (by omega)]
  rw [heq]
  constructor
  · exact h.refs
  · show s.kref - k + s.completions.length + s.retried = (expectedKrefs md s : Int) + 0
    omega
  · exact h.phase.congr rfl
  · show s.zeroed + (if s.kref - k = 0 then 1 else 0) = if s.kref - k = 0 then 1 else 0
    rw [hzero, Nat.zero_add]

theorem Owing.put (hpeers : env.Numbered md) (h : Owing md s c k) (hc : 0 < c) :
    Owing md (putCompletionRef env s c).1 0 (k + (putCompletionRef env s c).2) := by
  have hpos : 0 < s.completionRef := by
    rw [h.refs]
    omega
  obtain ⟨hcomp, hrest, hretr, hbio⟩ := h.phase.pos hpos
  have hrefs := h.refs
  have hkrefs := h.krefs
  by_cases hz : s.completionRef - c = 0
  · have hexp : expectedRefs md s = 0 := by omega
    rw [expectedRefs] at hexp
    have hnet : ∀ p ∈ env.peers, (s.net p).refs = 0 := by
      intro p hp
      have := le_netSum md NetFlags.refs s.net (hpeers p hp)
      omega
    have hloc : s.loc.refs = 0 := by omega
    rcases bsrReqComplete_ready (s := { s with completionRef := s.completionRef - c }) hnet hz hloc
      hbio with heq | ⟨hnot, heq⟩
    · have hput : putCompletionRef env s c =
          ({ s with completionRef := s.completionRef - c, postponed := true
                    restarts := s.restarts + 1 }, 0) := by
        rw [putCompletionRef, if_neg (by omega), heq]
        rfl
      rw [hput]
      constructor
      · show s.completionRef - c = (expectedRefs md s : Int) + 0
        omega
      · exact hkrefs
      · exact .restarted hz hcomp (by simp [hrest]) (by simp [hretr]) rfl
      · exact h.zeroed
    · have hput : putCompletionRef env s c =
          ({ s with
              completionRef := s.completionRef - c
              masterBio := false
              completions := ⟨completionError env { s with completionRef := s.completionRef - c },
                anyOk env { s with completionRef := s.completionRef - c }⟩ :: s.completions }, 1) := by
        have hpost : s.postponed = false := hnot
        rw [putCompletionRef, if_neg (by omega), heq]
        simp [hpost]
      rw [hput]
      constructor
      · show s.completionRef - c = (expectedRefs md s : Int) + 0
        omega
      · show s.kref + ((s.completions.length + 1 : Nat) : Int) + s.retried =
          (expectedKrefs md s : Int) + ((k + 1 : Nat) : Int)
        omega
      · exact .completed hz (by simp [hcomp]) hrest hretr
      · exact h.zeroed
  · have hput : putCompletionRef env s c =
        ({ s with completionRef := s.completionRef - c }, 0) := by
      rw [putCompletionRef, if_pos hz]
    rw [hput]
    constructor
    · show s.completionRef - c = (expectedRefs md s : Int) + 0
      omega
    · exact hkrefs
    · exact .running (by show 0 < s.completionRef - c; omega) hcomp hrest hretr hbio
    · exact h.zeroed

theorem Owing.drop (hpeers : env.Numbered md) (h : Owing md s c k) :
    Accounted md (dropRefs md env s c k) := by
  refine dropRefs_rule (fun r => Owing md r.1 0 (k + r.2)) (fun hc => by subst hc; exact h)
    (fun _ => h.put hpeers (by omega)) (fun r hr hk => ?_) fun r hr hk => hr.sub env (by omega)
  rw [hk] at hr
  exact hr

/-! ## One call of `mod_rq_state` -/

/-- What the calls of `mod_rq_state` have in common: a bio is submitted once and aborted only while
it is with the disk, no reference is taken and dropped at once, a barrier ack is expected only
before the completion, and the local marking changes nothing else. -/
structure Mod.Regular (m : Mod) (env : Env) (s : ReqState) : Prop where
  abort : m.set.loc.aborted = true → s.loc.pending = true ∧ m.clear.loc.pending = false
  submit : m.set.loc.pending = true →
    s.loc.aborted = false ∧ m.set.loc.aborted = false ∧ m.clear.loc.pending = false
  stays : m.clear.loc.aborted = false ∧ m.set.loc.susp = false
  pending : (m.clear.net.pending && m.set.net.pending) = false
  queued : (m.clear.net.queued && m.set.net.queued) = false
  expects : m.set.net.expBarrAck = true →
    (m.oldNet s).done = false ∧ m.set.net.done = false ∧ 0 < s.completionRef
  keeps : m.clear.net.expBarrAck = false ∧ m.clear.net.done = false
  peerless : m.peer = none → m.clear.net = {} ∧ m.set.net = {}
  marks : m.set.net.oosLocalDone = true →
    env.suspended = false ∧ m.clear = {} ∧ m.set = { net := { oosLocalDone := true } }

section

variable {md : DeviceMd} {env : Env} {s : ReqState} {m : Mod}

open Mod

theorem Mod.setLoc_pending : (m.setLoc env s).pending = m.set.loc.pending := by
  unfold setLoc
  split_ifs <;> rfl

theorem Mod.setLoc_aborted : (m.setLoc env s).aborted = m.set.loc.aborted := by
  unfold setLoc
  split_ifs <;> rfl

theorem Mod.setLoc_susp (h : m.set.loc.susp = false) :
    (m.setLoc env s).susp = (env.suspended && !(s.loc.susp || m.clear.loc.susp)) := by
  unfold setLoc
  split_ifs with hs
  · exact hs.symm
  · rw [h]
    exact (Bool.eq_false_of_not_eq_true hs).symm

theorem locRefs_balance : ∀ pe ab su cpe csu spe sab sus : Bool,
    (sab = true → pe = true ∧ cpe = false) → (spe = true → ab = false ∧ sab = false ∧ cpe = false) →
    ((pe && !cpe || spe) && !(ab || sab)).toNat + (su && !csu || sus && !(su || csu)).toNat +
      ((su && csu).toNat + (!ab && sab).toNat + (pe && cpe && !(ab || sab)).toNat) =
    (pe && !ab).toNat + su.toNat + ((!pe && spe).toNat + (!su && (sus && !(su || csu))).toNat) := by
  decide

theorem locKrefs_balance : ∀ pe ab cpe spe sab : Bool,
    (sab = true → pe = true ∧ cpe = false) → (spe = true → ab = false ∧ sab = false ∧ cpe = false) →
    ((ab || sab) && (pe && !cpe || spe)).toNat + (pe && cpe && (ab || sab)).toNat =
    (ab && pe).toNat + (!ab && sab).toNat := by
  decide

theorem netRefs_balance : ∀ x c t : Bool, (c && t) = false →
    (x && !c || t).toNat + (x && c).toNat = x.toNat + (!x && t).toNat := by
  decide

theorem netKrefs_balance : ∀ eb dn seb sdn : Bool, (seb = true → dn = false ∧ sdn = false) →
    ((eb || seb) && !(dn || sdn)).toNat + (!dn && sdn && eb).toNat =
    (eb && !dn).toNat + (!eb && seb).toNat := by
  decide

theorem Mod.newLoc_refs (h : m.Regular env s) : (m.newLoc env s).refs +
      ((s.loc.susp && m.clear.loc.susp).toNat + (!s.loc.aborted && (m.setLoc env s).aborted).toNat +
        (s.loc.pending && m.clear.loc.pending && !(m.newLoc env s).aborted).toNat) =
    s.loc.refs + ((!s.loc.pending && (m.setLoc env s).pending).toNat +
      (!s.loc.susp && (m.setLoc env s).susp).toNat) := by
  have hbal := locRefs_balance s.loc.pending s.loc.aborted s.loc.susp m.clear.loc.pending
    m.clear.loc.susp m.set.loc.pending m.set.loc.aborted env.suspended h.abort h.submit
  simp only [Mod.newLoc, LocalFlags.apply, Mod.setLoc_pending, Mod.setLoc_aborted,
    setLoc_susp h.stays.2, h.stays.1, Bool.not_false, Bool.and_true]
  exact hbal

theorem Mod.newLoc_krefs (h : m.Regular env s) :
    (m.newLoc env s).krefs + (s.loc.pending && m.clear.loc.pending && (m.newLoc env s).aborted).toNat =
    s.loc.krefs + (!s.loc.aborted && (m.setLoc env s).aborted).toNat := by
  have hbal := locKrefs_balance s.loc.pending s.loc.aborted m.clear.loc.pending m.set.loc.pending
    m.set.loc.aborted h.abort h.submit
  simp only [Mod.newLoc, LocalFlags.apply, Mod.setLoc_pending, Mod.setLoc_aborted,
    h.stays.1, Bool.not_false, Bool.and_true]
  exact hbal

theorem Mod.newNet_refs (h : m.Regular env s) : (m.newNet s).refs +
      (((m.oldNet s).pending && m.clear.net.pending).toNat +
        ((m.oldNet s).queued && m.clear.net.queued).toNat) =
    (m.oldNet s).refs + ((!(m.oldNet s).pending && m.set.net.pending).toNat +
      (!(m.oldNet s).queued && m.set.net.queued).toNat) := by
  have hpe := netRefs_balance (m.oldNet s).pending _ _ h.pending
  have hqu := netRefs_balance (m.oldNet s).queued _ _ h.queued
  simp only [NetFlags.refs, Mod.newNet, NetFlags.apply]
  omega

theorem Mod.newNet_krefs (h : m.Regular env s) :
    (m.newNet s).krefs + (!(m.oldNet s).done && m.set.net.done && (m.oldNet s).expBarrAck).toNat =
    (m.oldNet s).krefs + (!(m.oldNet s).expBarrAck && m.set.net.expBarrAck).toNat := by
  have hbal := netKrefs_balance (m.oldNet s).expBarrAck (m.oldNet s).done m.set.net.expBarrAck
    m.set.net.done fun hs => ⟨(h.expects hs).1, (h.expects hs).2.1⟩
  simp only [Mod.newNet, NetFlags.apply, h.keeps.1, h.keeps.2, Bool.not_false,
    Bool.and_true]
  exact hbal

theorem Mod.netSum_applied (md : DeviceMd) (w : NetFlags → Nat) (h : m.Regular env s)
    (hp : ∀ p ∈ m.peer, p ≤ md.maxNodeId) :
    netSum md w (m.applied env s).net + w (m.oldNet s) = netSum md w s.net + w (m.newNet s) := by
  cases hpeer : m.peer with
  | none =>
    obtain ⟨hclear, hset⟩ := h.peerless hpeer
    simp [Mod.applied, Mod.newNet, NetFlags.apply, hpeer, hclear, hset]
  | some p =>
    have hsum := netSum_update md w s.net (hp p hpeer) (m.newNet s)
    simpa [applied, oldNet, hpeer] using hsum

/-- What is taken on the completion and not dropped again is what the flags newly call for. -/
theorem Mod.counted_refs (hm : m.Regular env s) (hp : ∀ p ∈ m.peer, p ≤ md.maxNodeId) :
    expectedRefs md (m.counted env s) + m.cPut env s = expectedRefs md s + m.gets env s := by
  have hnet := netSum_applied md NetFlags.refs hm hp
  have hloc := newLoc_refs hm
  have hone := newNet_refs hm
  show s.submitting.toNat + (m.newLoc env s).refs + netSum md NetFlags.refs (m.applied env s).net +
    m.cPut env s = expectedRefs md s + m.gets env s
  simp only [expectedRefs, gets, cPut]
  omega

theorem Mod.counted_krefs (hm : m.Regular env s) (hp : ∀ p ∈ m.peer, p ≤ md.maxNodeId) :
    expectedKrefs md (m.counted env s) + m.kPut env s = expectedKrefs md s + m.krefGets env s := by
  have hnet := netSum_applied md NetFlags.krefs hm hp
  have hloc := newLoc_krefs hm
  have hone := newNet_krefs hm
  show 1 + s.holders + (m.newLoc env s).krefs + netSum md NetFlags.krefs (m.applied env s).net +
    m.kPut env s = expectedKrefs md s + m.krefGets env s
  simp only [expectedKrefs, krefGets, kPut]
  omega

/-- Once the flags are changed and the references taken, exactly the puts are owed. -/
theorem Accounted.counted (h : Accounted md s) (hm : m.Regular env s)
    (hp : ∀ p ∈ m.peer, p ≤ md.maxNodeId) (hlate : s.completionRef = 0 → m.gets env s = 0) :
    Owing md (m.counted env s) (m.cPut env s) (m.kPut env s) := by
  have hrefs := h.refs
  have hkrefs := h.krefs
  have hcounted := counted_refs hm hp
  have hkcounted := counted_krefs hm hp
  -- an object reference is taken only while the request is still running
  have hget : m.krefGets env s = 0 ∨ 0 < s.completionRef := by
    by_cases hset : m.set.net.expBarrAck = true
    · exact .inr (hm.expects hset).2.2
    by_cases hab : m.set.loc.aborted = true ∧ s.loc.aborted = false
    · right
      have hpe := (hm.abort hab.1).1
      simp only [expectedRefs, LocalFlags.refs, hpe, hab.2] at hrefs
      simp at hrefs
      omega
    · left
      have hno : (!s.loc.aborted && m.set.loc.aborted) = false := by
        cases hs : m.set.loc.aborted <;> cases hl : s.loc.aborted <;> simp_all
      simp only [krefGets, setLoc_aborted, hno, Bool.eq_false_of_not_eq_true hset,
        Bool.and_false, Bool.toNat_false]
  constructor
  · show s.completionRef + m.gets env s = (expectedRefs md (m.counted env s) : Int) + m.cPut env s
    omega
  · show s.kref + m.krefGets env s + s.completions.length + s.retried =
      (expectedKrefs md (m.counted env s) : Int) + m.kPut env s
    omega
  · by_cases hpos : 0 < s.completionRef
    · obtain ⟨hcomp, hrest, hretr, hbio⟩ := h.phase.pos hpos
      exact .running (by show 0 < s.completionRef + m.gets env s; omega) hcomp hrest hretr hbio
    have hzero : s.completionRef = 0 := by omega
    have hsame : (m.counted env s).completionRef = s.completionRef := by
      show s.completionRef + m.gets env s = s.completionRef
      simp [hlate hzero]
    exact h.phase.congr (congrArg (·, _) hsame)
  · show s.zeroed = if s.kref + m.krefGets env s = 0 then 1 else 0
    rcases hget with h0 | hpos
    · simp [h0, h.zeroed]
    · have hk := Owing.kref_pos h hpos
      rw [h.zeroed, if_neg (by omega), if_neg (by omega)]

/-- The early return of the local marking: nothing was counted, and nothing had to be. -/
theorem Mod.Regular.marks_nothing (hm : m.Regular env s) (hmark : m.set.net.oosLocalDone = true) :
    m.gets env s = 0 ∧ m.krefGets env s = 0 ∧ m.cPut env s = 0 ∧ m.kPut env s = 0 ∧
      m.counted env s = m.applied env s := by
  obtain ⟨hsusp, hclear, hset⟩ := hm.marks hmark
  have hg : m.gets env s = 0 := by simp [gets, setLoc, hset, hsusp]
  have hk : m.krefGets env s = 0 := by simp [krefGets, setLoc, hset, hsusp]
  refine ⟨hg, hk, ?_, ?_, ?_⟩
  · simp [cPut, setLoc, hset, hsusp, hclear]
  · simp [kPut, hset, hclear]
  · simp [counted, hg, hk, applied]

/-- One call of `mod_rq_state` keeps the counters right, if it takes no completion reference on a
request that is already completed. -/
theorem Accounted.mod (hpeers : env.Numbered md) (h : Accounted md s)
    (hm : m.Regular env s) (hp : ∀ p ∈ m.peer, p ≤ md.maxNodeId)
    (hlate : s.completionRef = 0 → m.gets env s = 0) : Accounted md (modRqState md env s m) := by
  rcases modRqState_cases md env s m with heq | ⟨p, _, hmark, heq⟩ | heq
  · rw [heq]
    exact h
  · obtain ⟨_, hoos⟩ := bsrSetOutOfSync_frame md env (m.applied env s) p
    obtain ⟨_, _, hc, hkp, happ⟩ := hm.marks_nothing hmark
    have hcount := Accounted.counted h hm hp hlate
    rw [hc, hkp, happ] at hcount
    rw [heq, hoos]
    exact { hcount with phase := hcount.phase.congr rfl }
  · rw [heq]
    exact (Accounted.counted h hm hp hlate).drop hpeers

end

end Bsr.Request
