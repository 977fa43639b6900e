import Bsr.Request.Runs

/-!
# What a completed write reports

`bsr_req_complete` reports the local error under the pass-through policy, which also counts for a
node without a disk. The local error is known only to a request that had a local bio. So a
completion with error 0 stands for a written copy as long as the policy is another one, or the
request had a local bio, or some copy is known to be written when the last completion reference
goes.

* `Balanced` is the completion reference in every run, also in those where a completed request is
  given a new one;
* `Honest` is the invariant: the stored local error 0 comes with `RQ_LOCAL_OK`.
-/

namespace Bsr.Request

open Lib

section

variable {md : DeviceMd} {env : Env} {s : ReqState} {m : Mod}

/-! ## The completion reference in every run -/

/-- The completion reference is what the flags call for. -/
def Balanced (md : DeviceMd) (s : ReqState) : Prop :=
  s.completionRef = expectedRefs md s

theorem Accounted.balanced (h : Accounted md s) : Balanced md s := by
  have hrefs := h.refs
  rw [Balanced]
  omega

theorem bsrReqComplete_completionRef (env : Env) (s : ReqState) :
    (bsrReqComplete env s).completionRef = s.completionRef := by
  unfold bsrReqComplete
  split_ifs <;> rfl

theorem putCompletionRef_completionRef (env : Env) (s : ReqState) (c : Nat) :
    (putCompletionRef env s c).1.completionRef = s.completionRef - c := by
  have hcomp := bsrReqComplete_completionRef env { s with completionRef := s.completionRef - c }
  unfold putCompletionRef
  split_ifs with hz
  · rfl
  dsimp only
  split_ifs
  · exact hcomp
  · exact hcomp

theorem dropRefs_completionRef (md : DeviceMd) (env : Env) (s : ReqState) (c k : Nat) :
    (dropRefs md env s c k).completionRef = s.completionRef - c := by
  refine dropRefs_rule (Q := fun t => t.completionRef = _) (fun r => r.1.completionRef = s.completionRef - c)
    (fun hc => by simp [hc]) (fun _ => putCompletionRef_completionRef env s c) (fun r hr _ => hr) fun r hr _ => ?_
  obtain ⟨_, d, h⟩ := krefSub_frame md env r.1 (k + r.2)
  rw [h]
  exact hr

theorem expectedRefs_congr {t : ReqState} (hk : t.submitting = s.submitting) (hl : t.loc = s.loc)
    (hn : t.net = s.net) : expectedRefs md t = expectedRefs md s := by
  rw [expectedRefs, expectedRefs, hk, hl, hn]

open Mod

theorem Balanced.mod (h : Balanced md s) (hm : m.Regular env s)
    (hp : ∀ p ∈ m.peer, p ≤ md.maxNodeId) : Balanced md (modRqState md env s m) := by
  have hcount := counted_refs hm hp
  rcases modRqState_cases md env s m with heq | ⟨p, _, hmark, heq⟩ | heq
  · rw [heq]
    exact h
  · obtain ⟨_, hoos⟩ := bsrSetOutOfSync_frame md env (m.applied env s) p
    obtain ⟨hg, _, hc, _, happ⟩ := hm.marks_nothing hmark
    rw [hg, hc, happ] at hcount
    rw [heq, hoos]
    show s.completionRef = (expectedRefs md (m.applied env s) : Int)
    rw [Nat.add_zero] at hcount
    rw [hcount]
    exact h
  · obtain ⟨hk, hl, hn⟩ := dropRefs_kept md env (m.counted env s) (m.cPut env s) (m.kPut env s)
    have href := dropRefs_completionRef md env (m.counted env s) (m.cPut env s) (m.kPut env s)
    rw [heq, Balanced, href, expectedRefs_congr hk.submitting hl hn]
    have hbal : s.completionRef = expectedRefs md s := h
    show s.completionRef + m.gets env s - m.cPut env s = (expectedRefs md (m.counted env s) : Int)
    omega

open List

theorem Balanced.foldl {l : List Mod} (hl : ∀ m ∈ l, m.plain = true)
    (hp : ∀ m ∈ l, ∀ p ∈ m.peer, p ≤ md.maxNodeId) (h : Balanced md s) :
    Balanced md (l.foldl (modRqState md env) s) := by
  exact foldlRecOn l _ h fun t ht m hm => ht.mod (plain.regular (hl m hm) env t) (hp m hm)

theorem Balanced.update {p : Nat} {f : NetFlags} (h : Balanced md s)
    (hf : f.refs = (s.net p).refs) : Balanced md { s with net := Function.update s.net p f } := by
  simpa only [Balanced, expectedRefs, netSum_update_same hf] using h

theorem Balanced.assign (h : Balanced md s) (env : Env) (ev : ReqEvent) :
    Balanced md (ev.assign md env s) := by
  cases ev
  case toBeSent p => exact h.update (expectAck_refs _ _).1
  case writeAckedByPeerAndSis p => exact h.update rfl
  case readCompletedWithError =>
    obtain ⟨_, heq⟩ := bsrSetSync_frame md env s (fun _ => true) (fun _ => true)
    show Balanced md (bsrSetSync md env s (fun _ => true) (fun _ => true))
    rw [heq]
    exact h
  all_goals exact h

section

variable (hpeers : env.Numbered md) (h : Balanced md s)

include hpeers h

theorem Balanced.plain {ev : ReqEvent} (hev : ev.special = false)
    (hpeer : ∀ m ∈ ev.mods env s, ∀ p ∈ m.peer, p ∈ env.peers) : Balanced md (reqMod md env s ev) :=
  (h.assign env ev).foldl (ReqEvent.mods_plain hev) fun m hm p hp => hpeers p (hpeer m hm p hp)

theorem Balanced.event {ev : ReqEvent} (hlegal : (ReqStep.event ev).Legal env s) :
    Balanced md (reqMod md env s ev) := by
  obtain ⟨_, hlater, habort, hpeer⟩ := hlegal
  cases hspec : ev.special with
  | false => exact h.plain hpeers hspec hpeer
  | true =>
    -- of the special events only the abort comes after the submission
    cases ev
    case abortDiskIo =>
      show Balanced md (modRqState md env s { set := { loc := { aborted := true } } })
      refine h.mod ?_ fun q hq => absurd hq (Option.not_mem_none q)
      constructor <;> first
        | exact fun _ => ⟨habort rfl, rfl⟩
        | simp
    all_goals first
      | cases hlater; done
      | cases hspec

theorem Balanced.pending_oos {p : Nat}
    (hp : p ∈ env.peers) : Balanced md (sendPendingOos md env s p) := by
  unfold sendPendingOos
  split_ifs
  · obtain ⟨oos, heq⟩ := bsrSetOutOfSync_frame md env s p
    rw [heq]
    refine Balanced.plain (s := { s with oos := oos }) hpeers h rfl fun m hm q hq => ?_
    rw [mem_singleton.1 hm] at hq
    rw [← Option.mem_some.1 hq]
    exact hp
  · exact h

theorem Balanced.endio (error : Int) : Balanced md (bsrRequestEndio md env s error) := by
  have hpend : Balanced md (env.peers.foldl (sendPendingOos md env) { s with privateBio := .errPtr error }) :=
    foldlRecOn env.peers _ h fun t ht p hp => ht.pending_oos hpeers hp
  unfold bsrRequestEndio
  generalize env.peers.foldl (sendPendingOos md env) { s with privateBio := .errPtr error } = t
    at hpend ⊢
  obtain ⟨m, hmods, hplain, hnone, _⟩ := endioEvent_mods s.op error env t
  rw [reqMod, hmods]
  refine (hpend.assign env _).mod (plain.regular hplain env _) fun p hp => ?_
  rw [hnone] at hp
  exact absurd hp (Option.not_mem_none p)

end

/-! ## New completions -/

theorem bsrReqComplete_completions (env : Env) (s : ReqState) :
    ∀ x ∈ (bsrReqComplete env s).completions, x ∈ s.completions ∨
      (x = ⟨completionError env s, anyOk env s⟩ ∧ s.postponed = false) := by
  intro x hx
  unfold bsrReqComplete at hx
  split_ifs at hx with _ _ _ hpost
  · exact .inl hx
  · exact .inl hx
  · exact .inl hx
  · exact .inl hx
  · rcases mem_cons.1 hx with rfl | hx
    · rw [Bool.or_eq_true, not_or] at hpost
      exact .inr ⟨rfl, Bool.eq_false_of_not_eq_true hpost.1⟩
    · exact .inl hx

theorem putCompletionRef_completions (env : Env) (s : ReqState) (c : Nat) :
    ∀ x ∈ (putCompletionRef env s c).1.completions, x ∈ s.completions ∨
      (x = ⟨completionError env s, anyOk env s⟩ ∧ s.postponed = false ∧ s.completionRef - c = 0) := by
  intro x hx
  have hcomp := bsrReqComplete_completions env { s with completionRef := s.completionRef - c } x
  unfold putCompletionRef at hx
  split_ifs at hx with hz
  · exact .inl hx
  have hx' : x ∈ (bsrReqComplete env { s with completionRef := s.completionRef - c }).completions := by
    dsimp only at hx
    split_ifs at hx
    · exact hx
    · exact hx
  exact (hcomp hx').imp id fun h => ⟨h.1, h.2, not_not.1 hz⟩

theorem dropRefs_completions (md : DeviceMd) (env : Env) (s : ReqState) (c k : Nat) :
    ∀ x ∈ (dropRefs md env s c k).completions, x ∈ s.completions ∨
      (x = ⟨completionError env s, anyOk env s⟩ ∧ s.postponed = false ∧ s.completionRef - c = 0) := by
  intro x
  refine dropRefs_rule (Q := fun t => x ∈ t.completions → _) (fun r => x ∈ r.1.completions → _) (fun _ => .inl)
    (fun _ => putCompletionRef_completions env s c x) (fun r hr _ => hr) fun r hr _ => ?_
  obtain ⟨_, d, h⟩ := krefSub_frame md env r.1 (k + r.2)
  rw [h]
  exact hr

/-- A call completes the master bio with what the flags it leaves say. -/
theorem modRqState_completions (md : DeviceMd) (env : Env) (s : ReqState) (m : Mod) :
    ∀ x ∈ (modRqState md env s m).completions, x ∈ s.completions ∨
      (x = ⟨completionError env (m.applied env s), anyOk env (m.applied env s)⟩ ∧
        (modRqState md env s m).completionRef = 0) := by
  intro x hx
  rcases modRqState_cases md env s m with heq | ⟨p, _, _, heq⟩ | heq
  · rw [heq] at hx
    exact .inl hx
  · obtain ⟨_, hoos⟩ := bsrSetOutOfSync_frame md env (m.applied env s) p
    rw [heq, hoos] at hx
    exact .inl hx
  · rw [heq] at hx ⊢
    rw [dropRefs_completionRef]
    exact (dropRefs_completions md env (m.counted env s) _ _ x hx).imp id fun h => ⟨h.1, h.2.2⟩

/-! ## Honest completions -/

/-- There is no local bio whose error could be reported. -/
def PrivateBio.missing : PrivateBio → Bool
  | .null => true
  | .bio address => decide (address = 0)
  | .errPtr _ => false

/-- The reported error stands for something: the policy is not pass-through, or a local bio was
there, or some copy is written. -/
def Backed (env : Env) (s : ReqState) : Prop :=
  env.onIoError.getD .passThrough ≠ .passThrough ∨ s.privateBio.missing = false ∨ anyOk env s = true

/-- The stored local error 0 comes with `RQ_LOCAL_OK`. -/
def Known (s : ReqState) : Prop :=
  s.privateBio = .errPtr 0 → s.loc.ok = true

/-- Error 0 was reported only for writes of which some copy was written. -/
def Told (s : ReqState) : Prop :=
  ∀ x ∈ s.completions, x.error = 0 → x.anyOk = true

open PrivateBio

theorem Backed.anyOk_of_error (h : Backed env s) (hknown : Known s)
    (herr : completionError env s = 0) : anyOk env s = true := by
  by_cases hok : anyOk env s = true
  · exact hok
  unfold completionError at herr
  split_ifs at herr with hpol hne
  · -- pass-through: only a local bio that succeeded reports 0
    rcases h with hp | hbio | hany
    · exact absurd hpol hp
    · cases hpb : s.privateBio with
      | null => simp [hpb, missing] at hbio
      | bio address =>
        rw [hpb] at hbio herr
        simp only [missing, decide_eq_false_iff_not] at hbio
        exact absurd herr hbio
      | errPtr error =>
        rw [hpb] at herr
        have h0 : error = 0 := herr
        have := hknown (by rw [hpb, h0])
        simp [anyOk, this]
    · exact hany
  · exact absurd herr hne
  · exact absurd herr (by decide)

theorem Mod.applied_ok (hclear : m.clear.loc.ok = false) (hok : s.loc.ok = true) :
    (m.applied env s).loc.ok = true := by
  simp [applied, newLoc, LocalFlags.apply, hclear, hok]

theorem modRqState_known (hclear : m.clear.loc.ok = false) (h : Known s) :
    Known (modRqState md env s m) := by
  intro hbio
  have hok := h ((modRqState_kept md env s m).privateBio ▸ hbio)
  rcases modRqState_same_or_flags md env s m with heq | ⟨hloc, _⟩
  · rw [heq, hok]
  · rw [hloc]
    exact applied_ok hclear hok

/-- Where a call drops the last completion reference, the flags it leaves have to back the
report. -/
theorem modRqState_told (hclear : m.clear.loc.ok = false)
    (hback : (modRqState md env s m).completionRef = 0 → Known s ∧ Backed env (m.applied env s))
    (h : Told s) : Told (modRqState md env s m) := by
  intro x hx herr
  rcases modRqState_completions md env s m x hx with hold | ⟨rfl, hz⟩
  · exact h x hold herr
  · obtain ⟨hknown, hback⟩ := hback hz
    exact hback.anyOk_of_error (fun hbio => applied_ok hclear (hknown hbio)) herr

/-- A call that takes no reference leaves none where there was none. -/
theorem Balanced.mod_zero (h : Balanced md s) (hm : m.Regular env s)
    (hp : ∀ p ∈ m.peer, p ≤ md.maxNodeId) (hgets : m.gets env s = 0) (hz : s.completionRef = 0) :
    (modRqState md env s m).completionRef = 0 := by
  rcases modRqState_same_or_flags md env s m with heq | ⟨hloc, hnet⟩
  · rw [heq, hz]
  · have hcount := counted_refs hm hp
    rw [show (modRqState md env s m).completionRef = _ from h.mod hm hp,
      expectedRefs_congr (s := m.counted env s) (modRqState_kept md env s m).submitting hloc hnet]
    have hbal : s.completionRef = expectedRefs md s := h
    omega

/-! ## Events -/

/-- Some copy is written according to the flags before the event, apart from the one it takes back,
or the event itself is the peer's word for it. -/
def ReqEvent.written (env : Env) (s : ReqState) : ReqEvent → Bool
  | connectionLostWhilePending p | negAcked p =>
    s.loc.ok || env.peers.any fun q => q != p && (s.net q).ok
  | discardWrite _ | writeAckedByPeerAndSis _ | writeAckedByPeer _ | recvAckedByPeer _
  | dataReceived _ => true
  | handedOverToNetwork p => isPendingWriteProtocolA s p || anyOk env s
  | barrierAcked p => s.op.isWrite && (s.net p).pending || anyOk env s
  | _ => anyOk env s

/-- Where the last completion reference goes, an error is reported or some copy is written. A
request that ends with its submission was postponed, or is an empty flush, which counts as sent. -/
def ReqStep.reports (md : DeviceMd) (env : Env) (s : ReqState) (st : ReqStep) : Bool :=
  (st.exec md env s).completionRef != 0 ||
    match st with
    | .submit _ => env.suspended || env.onIoError.getD .passThrough != .passThrough ||
        s.op.isWrite && s.size == 0 && s.privateBio == .null && !env.peers.isEmpty
    | .event ev => env.onIoError.getD .passThrough != .passThrough || !s.privateBio.missing ||
        ev.written env s
    | _ => true

theorem anyOk_applied (hloc : m.clear.loc.ok = false) (hnet : m.clear.net.ok = false)
    (h : anyOk env s = true) : anyOk env (m.applied env s) = true := by
  rw [anyOk, Bool.or_eq_true, any_eq_true] at h ⊢
  refine h.imp (applied_ok hloc) fun ⟨q, hq, hok⟩ => ⟨q, hq, ?_⟩
  cases hp : m.peer with
  | none => simpa [applied, hp] using hok
  | some p =>
    by_cases heq : q = p
    · subst heq
      simp [applied, hp, newNet, oldNet, NetFlags.apply, hnet, hok]
    · simpa [applied, hp, heq] using hok

theorem anyOk_applied_set {p : Nat} (hp : m.peer = some p) (hmem : p ∈ env.peers)
    (hset : m.set.net.ok = true) : anyOk env (m.applied env s) = true := by
  rw [anyOk, Bool.or_eq_true, any_eq_true]
  exact .inr ⟨p, hmem, by simp [applied, hp, newNet, NetFlags.apply, hset]⟩

theorem modRqState_anyOk (hm : m.refused env s = false) :
    anyOk env (modRqState md env s m) = anyOk env (m.applied env s) := by
  rw [anyOk, (modRqState_flags hm).1, (modRqState_flags hm).2]
  rfl

/-- The calls of an event: the first one leaves the flag of a written copy if `written` holds, and
the second one, which only a barrier ack makes, takes no reference and takes back no such flag. -/
def Telling (env : Env) (s : ReqState) (written : Prop) (l : List Mod) : Prop :=
  l = [] ∨ ∃ m, m.clear.loc.ok = false ∧ (written → anyOk env (m.applied env s) = true) ∧
    (l = [m] ∨ ∃ p f, m.plain = true ∧ m.refused env s = false ∧
      l = [m, { peer := some p, clear := { loc := { susp := true } }, set := { net := { done := f } } }])

theorem barrierMods_telling {p : Nat} (hp : ∀ m ∈ barrierMods s p, ∀ q ∈ m.peer, q ∈ env.peers) :
    Telling env s ((s.op.isWrite && (s.net p).pending || anyOk env s) = true) (barrierMods s p) := by
  unfold barrierMods at hp ⊢
  split_ifs at hp ⊢ with hread hpend
  · exact .inl rfl
  · exact .inr ⟨_, rfl, fun _ => anyOk_applied_set rfl (hp _ mem_cons_self p rfl) rfl,
      .inr ⟨p, _, rfl, by simp [refused], rfl⟩⟩
  · refine .inr ⟨_, rfl, fun h => anyOk_applied rfl rfl ?_, .inl rfl⟩
    simpa [hpend] using h

theorem ReqEvent.mods_telling {ev : ReqEvent} (hlater : ev.later = true)
    (hpeer : ∀ m ∈ ev.mods env s, ∀ p ∈ m.peer, p ∈ env.peers) :
    Telling env (ev.assign md env s) (ev.written env s = true) (ev.mods env s) := by
  cases ev
  case barrierAcked p => exact barrierMods_telling hpeer
  case resend p =>
    rw [mods] at hpeer ⊢
    split_ifs at hpeer ⊢
    · exact .inr ⟨_, rfl, anyOk_applied rfl rfl, .inl rfl⟩
    · exact .inr ⟨_, rfl, anyOk_applied rfl rfl, .inl rfl⟩
    · rcases barrierMods_telling hpeer with hnone | ⟨m, hm, hw, hl⟩
      · exact .inl hnone
      · exact .inr ⟨m, hm, fun h => hw (Bool.or_eq_true_iff.2 (.inr h)), hl⟩
  case handedOverToNetwork p =>
    rw [mods] at hpeer ⊢
    split_ifs at hpeer ⊢ with hA
    · exact .inr ⟨_, rfl, fun _ => anyOk_applied_set rfl (hpeer _ mem_cons_self p rfl) rfl, .inl rfl⟩
    · refine .inr ⟨_, rfl, fun h => anyOk_applied rfl rfl ?_, .inl rfl⟩
      exact (Bool.or_eq_true_iff.1 h).resolve_left hA
  case failFrozenDiskIo p =>
    rw [mods]
    split_ifs
    · exact .inr ⟨_, rfl, anyOk_applied rfl rfl, .inl rfl⟩
    · exact .inl rfl
  case postponeWrite p => exact .inl rfl
  case connectionLostWhilePending p | negAcked p =>
    refine .inr ⟨_, rfl, fun h => ?_, .inl rfl⟩
    simp only [written, Bool.or_eq_true, any_eq_true, Bool.and_eq_true, bne_iff_ne] at h
    rw [anyOk, Bool.or_eq_true, any_eq_true]
    rcases h with hok | ⟨q, hq, hne, hok⟩
    · exact .inl (applied_ok rfl hok)
    · exact .inr ⟨q, hq, by simpa [applied, assign, hne] using hok⟩
  case discardWrite p | writeAckedByPeerAndSis p | writeAckedByPeer p | recvAckedByPeer p | dataReceived p =>
    exact .inr ⟨_, rfl, fun _ => anyOk_applied_set rfl (hpeer _ mem_cons_self p rfl) rfl, .inl rfl⟩
  case abortDiskIo | readRetryRemoteCanceled p | sendCanceled p | sendFailed p | oosHandedToNetwork p =>
    exact .inr ⟨_, rfl, anyOk_applied rfl rfl, .inl rfl⟩
  all_goals cases hlater

/-- The calls of an event report no success that is not backed. -/
theorem Telling.told {written : Prop} {l : List Mod} (hl : Telling env s written l) (hbal : Balanced md s)
    (hp : ∀ m ∈ l, ∀ p ∈ m.peer, p ≤ md.maxNodeId) (hknown : Known s) (h : Told s)
    (hback : (l.foldl (modRqState md env) s).completionRef = 0 →
      env.onIoError.getD .passThrough ≠ .passThrough ∨ s.privateBio.missing = false ∨ written) :
    Known (l.foldl (modRqState md env) s) ∧ Told (l.foldl (modRqState md env) s) := by
  rcases hl with rfl | ⟨m, hclear, hw, rfl | ⟨p, f, hplain, href, rfl⟩⟩
  · exact ⟨hknown, h⟩
  · refine ⟨modRqState_known hclear hknown, modRqState_told hclear (fun hz => ⟨hknown, ?_⟩) h⟩
    exact (hback hz).imp id fun hb => hb.imp id hw
  · have hk : Known (modRqState md env s m) := modRqState_known hclear hknown
    refine ⟨modRqState_known rfl hk, modRqState_told rfl (fun hz => ⟨hk, ?_⟩)
      (modRqState_told hclear (fun hz => ⟨hknown, ?_⟩) h)⟩
    · refine (hback hz).imp id fun hb => hb.imp (fun hbio => ?_) fun hwritten => ?_
      · exact (congrArg missing (modRqState_kept md env s m).privateBio).trans hbio
      · exact anyOk_applied rfl rfl ((modRqState_anyOk href).trans (hw hwritten))
    · -- the second call takes no reference, so none is left after it either
      refine (hback ?_).imp id fun hb => hb.imp id hw
      exact (hbal.mod (plain.regular hplain env s) (hp m mem_cons_self)).mod_zero
        (plain.regular rfl env _) (hp _ (mem_cons_of_mem _ mem_cons_self)) (by simp [gets, setLoc]) hz

/-! ## Critical sections -/

theorem ReqEvent.assign_completions (md : DeviceMd) (env : Env) (s : ReqState) (ev : ReqEvent) :
    (ev.assign md env s).completions = s.completions := by
  cases ev
  case readCompletedWithError =>
    obtain ⟨_, h⟩ := bsrSetSync_frame md env s (fun _ => true) (fun _ => true)
    show (bsrSetSync md env s (fun _ => true) (fun _ => true)).completions = s.completions
    rw [h]
  all_goals rfl

theorem ReqEvent.assign_told (ev : ReqEvent) (h : Told s) : Told (ev.assign md env s) := by
  intro x hx
  rw [assign_completions] at hx
  exact h x hx

/-- An event that is legal and reports what it may. -/
theorem told_event {ev : ReqEvent} (hpeers : env.Numbered md) (hbal : Balanced md s)
    (hlegal : (ReqStep.event ev).Legal env s) (hrep : (ReqStep.event ev).reports md env s = true)
    (hknown : Known s) (h : Told s) : Known (reqMod md env s ev) ∧ Told (reqMod md env s ev) := by
  obtain ⟨_, hlater, _, hpeer⟩ := hlegal
  have hbio := (ev.assign_kept md env s).privateBio
  refine (ReqEvent.mods_telling hlater hpeer).told (hbal.assign env ev)
    (fun m hm p hp => hpeers p (hpeer m hm p hp)) (fun hz => ?_) (ev.assign_told h) fun hz => ?_
  · rw [ReqEvent.assign_loc]
    exact hknown (hbio ▸ hz)
  · rw [ReqStep.reports, show ((ReqStep.event ev).exec md env s).completionRef = 0 from hz] at hrep
    simpa [hbio, or_assoc] using hrep

/-- A failed bio: its error is stored, so everything is backed. -/
theorem told_endio_error {error : Int} (herr : error ≠ 0) (h : Told s) :
    Known (bsrRequestEndio md env s error) ∧ Told (bsrRequestEndio md env s error) := by
  have hstored : ∀ {t : ReqState}, t.privateBio = .errPtr error → Known t ∧ t.privateBio.missing = false :=
    fun hbio => ⟨fun hz => absurd (errPtr.inj (hbio.symm.trans hz)) herr, by rw [hbio, missing]⟩
  obtain ⟨hbio, ht⟩ := foldlRecOn (motive := fun t => t.privateBio = .errPtr error ∧ Told t) env.peers
      (sendPendingOos md env) (b := { s with privateBio := .errPtr error }) ⟨rfl, h⟩ fun t ⟨hbio, ht⟩ p _ => by
    refine ⟨(sendPendingOos_kept md env t p).privateBio.trans hbio, ?_⟩
    unfold sendPendingOos
    split_ifs
    · obtain ⟨oos, heq⟩ := bsrSetOutOfSync_frame md env t p
      rw [heq]
      obtain ⟨hknown, hmiss⟩ := hstored (t := { t with oos := oos }) hbio
      exact modRqState_told rfl (fun _ => ⟨hknown, .inr (.inl hmiss)⟩) ht
    · exact ht
  unfold bsrRequestEndio
  generalize env.peers.foldl (sendPendingOos md env) { s with privateBio := .errPtr error } = t at hbio ht ⊢
  refine ⟨(hstored ((reqMod_kept md env t _).privateBio.trans hbio)).1, ?_⟩
  obtain ⟨m, hmods, hplain, _⟩ := endioEvent_mods s.op error env t
  obtain ⟨hknown, hmiss⟩ := hstored (((endioEvent s.op error).assign_kept md env t).privateBio.trans hbio)
  rw [reqMod, hmods]
  exact modRqState_told (plain.clear_ok hplain) (fun _ => ⟨hknown, .inr (.inl hmiss)⟩) (ReqEvent.assign_told _ ht)

/-- A bio that succeeded: until `RQ_LOCAL_OK` is set the pending bio itself holds back the
completion. -/
theorem told_endio_ok (hpeers : env.Numbered md) (hbal : Balanced md s)
    (hpend : s.loc.pending = true) (habort : s.loc.aborted = false) (h : Told s) :
    Known (bsrRequestEndio md env s 0) ∧ Told (bsrRequestEndio md env s 0) := by
  obtain ⟨-, -, -, ht⟩ := foldlRecOn (motive := fun t => Balanced md t ∧ t.loc.pending = true ∧
      t.loc.aborted = false ∧ Told t) env.peers (sendPendingOos md env)
      (b := { s with privateBio := .errPtr 0 }) ⟨hbal, hpend, habort, h⟩ fun t ⟨hb, hp, ha, ht⟩ p hmem => by
    have hb' := hb.pending_oos hpeers hmem
    have hloc := sendPendingOos_loc md env t p
    have hp' : (sendPendingOos md env t p).loc.pending = true := by rw [hloc.1, hp]
    have ha' : (sendPendingOos md env t p).loc.aborted = false := by rw [hloc.2, ha]
    refine ⟨hb', hp', ha', ?_⟩
    have hrun : (sendPendingOos md env t p).completionRef ≠ 0 := by
      rw [show (sendPendingOos md env t p).completionRef = _ from hb', expectedRefs, LocalFlags.refs, hp', ha']
      simp only [Bool.not_false, Bool.and_true, Bool.toNat_true]
      omega
    unfold sendPendingOos at hrun ⊢
    split_ifs at hrun ⊢
    · obtain ⟨_, heq⟩ := bsrSetOutOfSync_frame md env t p
      rw [heq] at hrun ⊢
      exact modRqState_told rfl (fun hz => absurd hz hrun) ht
    · exact ht
  unfold bsrRequestEndio
  generalize env.peers.foldl (sendPendingOos md env) { s with privateBio := .errPtr 0 } = t at ht ⊢
  have hmod : reqMod md env t (endioEvent s.op 0) = modRqState md env t
      { clear := { loc := { pending := true } }, set := { loc := { completed := true, ok := true } } } :=
    rfl
  have hok : (Mod.applied { clear := { loc := { pending := true } }
                            set := { loc := { completed := true, ok := true } } } env t).loc.ok = true := by
    simp only [applied, newLoc, LocalFlags.apply, setLoc]
    split_ifs <;> simp
  rw [hmod]
  constructor
  · intro _
    rw [(modRqState_flags rfl).1]
    exact hok
  · intro x hx herr
    rcases modRqState_completions md env t _ x hx with hold | ⟨rfl, _⟩
    · exact ht x hold herr
    · simp only [anyOk, hok, Bool.true_or]

/-- A new request with a local bio or none, as `bsr_request_prepare` leaves it. -/
def Prepared (s : ReqState) : Prop :=
  Fresh s ∧ ∀ error, s.privateBio ≠ .errPtr error

theorem sendAndSubmit_privateBio {r : Route} (hread : ∀ p ∈ r.readPeer, p ∈ env.peers)
    (h : ∀ error, s.privateBio ≠ .errPtr error) (error : Int) :
    (sendAndSubmit md env r s).privateBio ≠ .errPtr error := by
  cases hsusp : env.suspended with
  | true =>
    rw [sendAndSubmit, hsusp, if_pos rfl]
    exact PrivateBio.noConfusion
  | false =>
    have hkept : ∀ {t u : ReqState}, Kept t u → t.privateBio ≠ .errPtr error → u.privateBio ≠ .errPtr error :=
      fun hk ht => by rwa [hk.privateBio]
    have hset := fun t p => (bsrSetOutOfSync_kept md env t p).1
    have hclosed : SubmitClosed md env r (fun t => t.privateBio ≠ .errPtr error) := by
      constructor
      · exact fun t ev _ => hkept (reqMod_kept ..)
      · exact fun t p _ _ _ => hkept ((reqMod_kept ..).trans (reqMod_kept ..))
      · exact fun t p _ _ => hkept (reqMod_kept ..)
      · exact fun t p _ _ => hkept (hset t p)
      · exact fun t p _ _ => hkept ((hset t p).trans (reqMod_kept ..))
      · exact fun t p _ _ => hkept ((hset t p).trans (reqMod_kept ..))
      · exact fun t ht => ht
      · exact fun t ht => ht
      · exact fun t _ => PrivateBio.noConfusion
    exact hclosed.sendAndSubmit hsusp hread (h error)

/-- An empty flush is marked as written by every peer. -/
theorem anyOk_flush {r : Route} (hsusp : env.suspended = false) (hw : s.op.isWrite = true) (hsize : s.size = 0)
    (hbio : s.privateBio = .null) (hne : env.peers ≠ []) : anyOk env (sendAndSubmit md env r s) = true := by
  have hflush : anyOk env (reqMod md env s .queueAsBsrBarrier) = true := by
    obtain ⟨p, rest, hpeers⟩ := exists_cons_of_ne_nil hne
    rw [reqMod, ReqEvent.mods, hpeers, map_cons, foldl_cons]
    refine foldlRecOn (motive := fun t => anyOk env t = true) _ _ ?_ fun t ht m hm => ?_
    · rw [modRqState_anyOk (by simp [refused])]
      exact anyOk_applied_set rfl (hpeers ▸ mem_cons_self) rfl
    · obtain ⟨q, _, rfl⟩ := mem_map.1 hm
      rw [modRqState_anyOk (by simp [refused])]
      exact anyOk_applied rfl rfl ht
  have hnull : (reqMod md env s .queueAsBsrBarrier).privateBio = .null :=
    (reqMod_kept md env s _).privateBio.trans hbio
  have hsent : sendAndSubmit md env r s = updatePlug r true (reqMod md env s .queueAsBsrBarrier) := by
    unfold sendAndSubmit addToTl submitPrivateBio updatePlug
    split_ifs <;> simp_all [hold]
  rw [hsent, updatePlug]
  split_ifs
  · exact hflush
  · exact hflush

theorem told_submit (hpeers : env.Numbered md) {r : Route}
    (hread : ∀ p ∈ r.readPeer, p ∈ env.peers) (hprep : Prepared s)
    (hrep : (ReqStep.submit r).reports md env s = true) :
    Known (bsrSendAndSubmit md env r s) ∧ Told (bsrSendAndSubmit md env r s) := by
  have hopen : Opening md (sendAndSubmit md env r s) :=
    Opening.send hpeers hread hprep.1.opening
  have hnone := (hopen.accounted.phase.pos
    (hopen.accounted.running_of_submitting hopen.submitting)).1
  have hbio := @sendAndSubmit_privateBio md env s r hread hprep.2 0
  constructor
  · intro hz
    have hkept := (dropRefs_kept md env { sendAndSubmit md env r s with submitting := false } 1 0).1
    rw [show (bsrSendAndSubmit md env r s).privateBio = (sendAndSubmit md env r s).privateBio from
      hkept.privateBio] at hz
    exact absurd hz hbio
  intro x hx herr
  rcases dropRefs_completions md env { sendAndSubmit md env r s with submitting := false } 1 0 x hx
    with hold | ⟨rfl, hpost, hz⟩
  · rw [show ({ sendAndSubmit md env r s with submitting := false } : ReqState).completions =
      [] from hnone] at hold
    exact absurd hold not_mem_nil
  cases hsusp : env.suspended with
  | true =>
    -- the request was postponed, and a postponed request is not completed
    rw [sendAndSubmit, hsusp] at hpost
    cases hpost
  | false =>
    have hback : Backed env (sendAndSubmit md env r s) := by
      rw [ReqStep.reports, show ((ReqStep.submit r).exec md env s).completionRef = 0 from
        (dropRefs_completionRef md env _ 1 0).trans hz] at hrep
      simp only [bne_self_eq_false, hsusp, Bool.false_or, Bool.or_eq_true, bne_iff_ne,
        Bool.and_eq_true, beq_iff_eq, Bool.not_eq_true', isEmpty_eq_false_iff] at hrep
      rcases hrep with hpol | ⟨⟨⟨hw, hsize⟩, hnull⟩, hne⟩
      · exact .inl hpol
      · exact .inr (.inr (anyOk_flush hsusp hw hsize hnull hne))
    exact hback.anyOk_of_error (fun hz => absurd hz hbio) herr

/-- What holds of a request in every run whose completions are backed. -/
structure Honest (md : DeviceMd) (s : ReqState) : Prop where
  told : Told s
  known : Known s
  balanced : Balanced md s
  prepared : s.submitting = true → Prepared s

def ReportingStep (md : DeviceMd) (s : ReqState) (e : Env × ReqStep) (s' : ReqState) : Prop :=
  Step md s e s' ∧ e.2.reports md e.1 s = true

theorem Prepared.honest (h : Prepared s) : Honest md s := by
  have hopen : Opening md s := h.1.opening
  have hnone := (hopen.accounted.phase.pos
    (hopen.accounted.running_of_submitting hopen.submitting)).1
  refine ⟨?_, fun hz => absurd hz (h.2 0), ?_, fun _ => h⟩
  · intro x hx
    rw [hnone] at hx
    exact absurd hx not_mem_nil
  · exact hopen.accounted.balanced

theorem Honest.step {e : Env × ReqStep} {s' : ReqState} (h : Honest md s)
    (hstep : ReportingStep md s e s') : Honest md s' := by
  obtain ⟨hstep, hrep⟩ := hstep
  have hsub := hstep.submitting
  obtain ⟨env, st⟩ := e
  obtain ⟨hpeers, hlegal, rfl⟩ := hstep
  have hfresh : ∀ {t : ReqState}, t.submitting = false → t.submitting = true → Prepared t :=
    fun h1 h2 => absurd (h1.symm.trans h2) Bool.false_ne_true
  cases st with
  | submit r =>
    obtain ⟨hknown, htold⟩ := told_submit hpeers hlegal.2 (h.prepared hlegal.1) hrep
    have hopen : Opening md (sendAndSubmit md env r s) :=
      Opening.send hpeers hlegal.2 (h.prepared hlegal.1).1.opening
    refine ⟨htold, hknown, ?_, hfresh hsub⟩
    exact (hopen.put hpeers).balanced
  | event ev =>
    obtain ⟨hknown, htold⟩ := told_event hpeers h.balanced hlegal hrep h.known h.told
    exact ⟨htold, hknown, h.balanced.event hpeers hlegal, hfresh hsub⟩
  | endio error =>
    have hbal : Balanced md (bsrRequestEndio md env s error) :=
      h.balanced.endio hpeers error
    by_cases herr : error = 0
    · subst herr
      have hab : s.loc.aborted = false := by
        cases hab : s.loc.aborted with
        | false => rfl
        | true => exact absurd rfl (hlegal.2.2 hab)
      obtain ⟨hknown, htold⟩ := told_endio_ok hpeers h.balanced hlegal.2.1 hab h.told
      exact ⟨htold, hknown, hbal, hfresh hsub⟩
    · obtain ⟨hknown, htold⟩ := told_endio_error herr h.told
      exact ⟨htold, hknown, hbal, hfresh hsub⟩
  | retry =>
    obtain ⟨oos, d, heq⟩ := krefSub_frame md env { s with retried := s.retried + 1 } 1
    rw [ReqStep.exec, heq] at hsub ⊢
    exact ⟨h.told, h.known, h.balanced, hfresh hsub⟩
  | hold => exact ⟨h.told, h.known, h.balanced, hfresh hsub⟩
  | release =>
    obtain ⟨oos, d, heq⟩ := krefSub_frame md env { s with holders := s.holders - 1 } 1
    rw [ReqStep.exec, heq] at hsub ⊢
    exact ⟨h.told, h.known, h.balanced, hfresh hsub⟩

/-- In every run in which the last completion reference goes only with another policy than
pass-through, with a local bio, or with some copy written, error 0 is reported only if some copy had
been written. -/
theorem write_success_backed (md : DeviceMd) {s : ReqState}
    (hs : Reachable Prepared (ReportingStep md) s) :
    ∀ x ∈ s.completions, x.error = 0 → x.anyOk = true :=
  (hs.invariant (P := Honest md) (fun _ h => h.honest) fun _ _ _ h hstep => h.step hstep).told

end

/-- A node without a disk, and the write that its peer acknowledges. -/
def disklessRun : List (Env × ReqStep) :=
  let env : Env := { peers := [0], diskState := .diskless, onIoError := none }
  [(env, .submit { remote := fun _ => true }), (env, .event (.handedOverToNetwork 0)),
    (env, .event (.writeAckedByPeer 0))]

/-- A diskless node reports success once the peer has acknowledged the write. -/
theorem write_success_backed_by_peer : ∃ s : ReqState, s.completions.map Completion.error = [0] ∧
    ∀ x ∈ s.completions, x.error = 0 → x.anyOk = true := by
  have hrun : ((runChecked tinyMd
      (fun s e => legalStep tinyMd s e && e.2.reports tinyMd e.1 s)
      (bsrReqNew .write 0 4096 .null (fun _ => false) (fun _ _ => false)) disklessRun).map
      fun s => s.completions.map Completion.error) = some [0] := by
    decide
  obtain ⟨s, hs, herr⟩ := Option.map_eq_some_iff.1 hrun
  have hprep : Prepared (bsrReqNew .write 0 4096 .null (fun _ => false) (fun _ _ => false)) :=
    ⟨⟨_, _, _, _, _, _, rfl⟩, fun error h => by cases h⟩
  refine ⟨s, herr, write_success_backed tinyMd (reachable_runChecked ?_ (.start hprep) hs)⟩
  intro t e he
  rw [Bool.and_eq_true] at he
  exact ⟨step_of_legalStep t e he.1, he.2⟩

/-- A node without a disk and without peers. -/
def nodataEnv : Env where
  diskState := .diskless
  onIoError := none

/-- The write of a node without a disk and without peers is completed successfully. -/
theorem nodata_write_succeeds : ∃ s : ReqState, Reachable Prepared (Step tinyMd) s ∧
    s.op.isWrite = true ∧ s.completions = [⟨0, false⟩] := by
  have hrun : ((runChecked tinyMd (legalStep tinyMd)
      (bsrReqNew .write 0 4096 .null (fun _ => false) (fun _ _ => false))
      [(nodataEnv, .submit {})]).map fun s => (s.op.isWrite, s.completions)) =
      some (true, [⟨0, false⟩]) := by
    decide
  obtain ⟨s, hs, heq⟩ := Option.map_eq_some_iff.1 hrun
  rw [Prod.mk.injEq] at heq
  refine ⟨s, ?_, heq⟩
  have hprep : Prepared (bsrReqNew .write 0 4096 .null (fun _ => false) (fun _ _ => false)) :=
    ⟨⟨_, _, _, _, _, _, rfl⟩, fun error h => by cases h⟩
  exact reachable_runChecked step_of_legalStep (.start hprep) hs

end Bsr.Request
