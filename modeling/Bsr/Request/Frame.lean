import Bsr.Request.Events

/-!
# What request events leave alone

Completion, destruction and marking change counters, outputs and bits, never the flags; `Kept` is
what no event changes at all. `modRqState_flags` says what one call does to the flags, whatever else
it does.
-/

namespace Bsr.Request

variable (md : DeviceMd) (env : Env) (s : ReqState)

/-! ## Frames -/

theorem bsrSetOutOfSync_frame (p : Nat) :
    ∃ oos, (bsrSetOutOfSync md env s p).1 = { s with oos := oos } := by
  unfold bsrSetOutOfSync
  cases md.bitmapIndex p with
  | none => exact ⟨s.oos, rfl⟩
  | some slot =>
    split_ifs <;> exact ⟨_, rfl⟩

theorem bsrSetSync_frame (bits mask : Nat → Bool) :
    ∃ oos, bsrSetSync md env s bits mask = { s with oos := oos } := by
  unfold bsrSetSync
  split_ifs <;> exact ⟨_, rfl⟩

theorem destroyMarks_frame : ∃ oos, destroyMarks md env s = { s with oos := oos } := by
  unfold destroyMarks
  split_ifs
  · exact bsrSetSync_frame md env s _ _
  · exact ⟨s.oos, rfl⟩

theorem bsrReqDestroy_frame :
    ∃ oos d, bsrReqDestroy md env s = { s with oos := oos, destroyed := d } := by
  unfold bsrReqDestroy
  split_ifs
  · obtain ⟨oos, h⟩ := destroyMarks_frame md env s
    exact ⟨oos, true, by rw [h]⟩
  · exact ⟨s.oos, s.destroyed, rfl⟩

theorem krefSub_frame (put : Nat) : ∃ oos d, krefSub md env s put =
      { s with
        kref := s.kref - put
        zeroed := s.zeroed + (if s.kref - put = 0 then 1 else 0)
        oos := oos
        destroyed := d } := by
  unfold krefSub
  split_ifs
  · obtain ⟨oos, d, h⟩ := bsrReqDestroy_frame md env
      { s with kref := s.kref - put, zeroed := s.zeroed + 1 }
    exact ⟨oos, d, h⟩
  · exact ⟨s.oos, s.destroyed, rfl⟩

variable {m : Mod}

variable {env s} in
theorem Mod.applied_unchanged (hloc : m.newLoc env s = s.loc) (hnet : m.newNet s = m.oldNet s) :
    m.applied env s = s := by
  unfold Mod.applied
  rw [hloc]
  cases hpeer : m.peer with
  | none => rfl
  | some p =>
    have : m.newNet s = s.net p := by simpa [Mod.oldNet, hpeer] using hnet
    simp only [this, Function.update_eq_self]

/-- What `mod_rq_state` can do: nothing, mark a slot that is newly marked locally, or count. -/
theorem modRqState_cases (m : Mod) : modRqState md env s m = s ∨
    (∃ p, m.peer = some p ∧ m.set.net.oosLocalDone = true ∧
      modRqState md env s m = (bsrSetOutOfSync md env (m.applied env s) p).1) ∨
    modRqState md env s m = dropRefs md env (m.counted env s) (m.cPut env s) (m.kPut env s) := by
  unfold modRqState
  split_ifs with href hsame
  · exact .inl rfl
  · exact .inl (Mod.applied_unchanged hsame.1 hsame.2)
  · cases hpeer : m.peer with
    | none => exact .inr (.inr rfl)
    | some p =>
      cases hmark : (!(m.oldNet s).oosLocalDone && m.set.net.oosLocalDone) with
      | false => exact .inr (.inr rfl)
      | true =>
        rw [Bool.and_eq_true] at hmark
        exact .inr (.inl ⟨p, rfl, hmark.2, rfl⟩)

/-! ## What stays and what becomes of the flags -/

/-- What no event of a request changes. -/
structure Kept (s t : ReqState) : Prop where
  op : t.op = s.op
  sector : t.sector = s.sector
  size : t.size = s.size
  privateBio : t.privateBio = s.privateBio
  submitting : t.submitting = s.submitting
  holders : t.holders = s.holders
  retried : t.retried = s.retried

theorem Kept.refl : Kept s s := by
  constructor <;> rfl

theorem Kept.trans {s t u : ReqState} (h : Kept s t) (h' : Kept t u) : Kept s u where
  op := h'.op.trans h.op
  sector := h'.sector.trans h.sector
  size := h'.size.trans h.size
  privateBio := h'.privateBio.trans h.privateBio
  submitting := h'.submitting.trans h.submitting
  holders := h'.holders.trans h.holders
  retried := h'.retried.trans h.retried

theorem Kept.foldl {α : Type*} {f : ReqState → α → ReqState}
    (hf : ∀ s a, Kept s (f s a)) (l : List α) (s : ReqState) : Kept s (l.foldl f s) :=
  List.foldlRecOn l f (Kept.refl s) fun t ht a _ => ht.trans (hf t a)

theorem bsrReqComplete_kept : Kept s (bsrReqComplete env s) ∧ (bsrReqComplete env s).loc = s.loc ∧
      (bsrReqComplete env s).net = s.net := by
  unfold bsrReqComplete
  split_ifs <;> exact ⟨⟨rfl, rfl, rfl, rfl, rfl, rfl, rfl⟩, rfl, rfl⟩

theorem putCompletionRef_kept (c : Nat) :
    Kept s (putCompletionRef env s c).1 ∧ (putCompletionRef env s c).1.loc = s.loc ∧
      (putCompletionRef env s c).1.net = s.net := by
  unfold putCompletionRef
  split_ifs with hz
  · exact ⟨⟨rfl, rfl, rfl, rfl, rfl, rfl, rfl⟩, rfl, rfl⟩
  obtain ⟨hk, hl, hn⟩ := bsrReqComplete_kept env { s with completionRef := s.completionRef - c }
  dsimp only
  split_ifs
  · exact ⟨{ hk with }, hl, hn⟩
  · exact ⟨{ hk with }, hl, hn⟩

theorem krefSub_kept (k : Nat) : Kept s (krefSub md env s k) ∧ (krefSub md env s k).loc = s.loc ∧
      (krefSub md env s k).net = s.net := by
  obtain ⟨_, d, h⟩ := krefSub_frame md env s k
  rw [h]
  exact ⟨⟨rfl, rfl, rfl, rfl, rfl, rfl, rfl⟩, rfl, rfl⟩

variable {md env s} in
/-- The rule for `dropRefs`: `P` holds after the completion references, `Q` in the end. -/
theorem dropRefs_rule {c k : Nat} {Q : ReqState → Prop} (P : ReqState × Nat → Prop) (hnone : c = 0 → P (s, 0))
    (hput : c ≠ 0 → P (putCompletionRef env s c)) (hrest : ∀ r, P r → k + r.2 = 0 → Q r.1)
    (hsub : ∀ r, P r → k + r.2 ≠ 0 → Q (krefSub md env r.1 (k + r.2))) : Q (dropRefs md env s c k) := by
  unfold dropRefs
  dsimp only
  split_ifs with hc hk hk
  · exact hrest _ (hnone hc) hk
  · exact hsub _ (hnone hc) hk
  · exact hrest _ (hput hc) hk
  · exact hsub _ (hput hc) hk

theorem dropRefs_kept (c k : Nat) :
    Kept s (dropRefs md env s c k) ∧ (dropRefs md env s c k).loc = s.loc ∧
      (dropRefs md env s c k).net = s.net := by
  refine dropRefs_rule (Q := fun t => Kept s t ∧ t.loc = s.loc ∧ t.net = s.net)
    (fun r => Kept s r.1 ∧ r.1.loc = s.loc ∧ r.1.net = s.net) (fun _ => ⟨Kept.refl s, rfl, rfl⟩)
    (fun _ => putCompletionRef_kept env s c) (fun r hr _ => hr) fun r hr _ => ?_
  obtain ⟨hk, hl, hn⟩ := krefSub_kept md env r.1 (k + r.2)
  exact ⟨hr.1.trans hk, hl.trans hr.2.1, hn.trans hr.2.2⟩

theorem bsrSetOutOfSync_kept (p : Nat) :
    Kept s (bsrSetOutOfSync md env s p).1 ∧ (bsrSetOutOfSync md env s p).1.loc = s.loc ∧
      (bsrSetOutOfSync md env s p).1.net = s.net := by
  obtain ⟨_, h⟩ := bsrSetOutOfSync_frame md env s p
  rw [h]
  exact ⟨⟨rfl, rfl, rfl, rfl, rfl, rfl, rfl⟩, rfl, rfl⟩

theorem Mod.applied_kept (m : Mod) : Kept s (m.applied env s) :=
  ⟨rfl, rfl, rfl, rfl, rfl, rfl, rfl⟩

theorem Mod.counted_kept (m : Mod) : Kept s (m.counted env s) :=
  ⟨rfl, rfl, rfl, rfl, rfl, rfl, rfl⟩

theorem modRqState_kept (m : Mod) : Kept s (modRqState md env s m) := by
  rcases modRqState_cases md env s m with heq | ⟨p, _, _, heq⟩ | heq
  · rw [heq]
    exact Kept.refl s
  · rw [heq]
    exact (m.applied_kept env s).trans (bsrSetOutOfSync_kept md env _ p).1
  · rw [heq]
    exact (m.counted_kept env s).trans (dropRefs_kept md env _ _ _).1

section

variable {md env s}

/-- Unless it is refused, a call leaves the flags it was asked for. -/
theorem modRqState_flags (h : m.refused env s = false) : (modRqState md env s m).loc =
      m.newLoc env s ∧ (modRqState md env s m).net = (m.applied env s).net := by
  unfold modRqState
  rw [h, if_neg (by decide)]
  split_ifs with hsame
  · exact ⟨rfl, rfl⟩
  cases hpeer : m.peer with
  | none =>
    obtain ⟨_, hl, hn⟩ := dropRefs_kept md env (m.counted env s) (m.cPut env s) (m.kPut env s)
    exact ⟨hl, hn⟩
  | some p =>
    cases hmark : (!(m.oldNet s).oosLocalDone && m.set.net.oosLocalDone) with
    | false =>
      obtain ⟨_, hl, hn⟩ := dropRefs_kept md env (m.counted env s) (m.cPut env s) (m.kPut env s)
      exact ⟨hl, hn⟩
    | true =>
      obtain ⟨_, hl, hn⟩ := bsrSetOutOfSync_kept md env (m.applied env s) p
      exact ⟨hl, hn⟩

/-- A call that is not refused and marks nothing only changes flags, or goes on to the
references. -/
theorem modRqState_applied_or_drop (h : m.refused env s = false)
    (hmark : m.set.net.oosLocalDone = false) : modRqState md env s m = m.applied env s ∨
    modRqState md env s m = dropRefs md env (m.counted env s) (m.cPut env s) (m.kPut env s) := by
  unfold modRqState
  rw [h, if_neg (by decide), hmark, Bool.and_false]
  split_ifs with hsame
  · exact .inl rfl
  · simp

theorem modRqState_refused (h : m.refused env s = true) : modRqState md env s m = s := by
  unfold modRqState
  rw [h, if_pos rfl]

variable (md env s) in
theorem modRqState_same_or_flags (m : Mod) : modRqState md env s m = s ∨
    ((modRqState md env s m).loc = m.newLoc env s ∧
      (modRqState md env s m).net = (m.applied env s).net) := by
  cases h : m.refused env s with
  | true => exact .inl (modRqState_refused h)
  | false => exact .inr (modRqState_flags h)

theorem modRqState_aborted (hm : m.set.loc.aborted = false) (hs : s.loc.aborted = false) :
    (modRqState md env s m).loc.aborted = false := by
  rcases modRqState_same_or_flags md env s m with heq | ⟨hloc, _⟩
  · rw [heq, hs]
  have hset : (m.setLoc env s).aborted = false := by
    unfold Mod.setLoc
    split_ifs <;> exact hm
  rw [hloc]
  simp [Mod.newLoc, LocalFlags.apply, hs, hset]

theorem modRqState_done (hm : m.set.net.done = false) (hs : ∀ p, (s.net p).done = false) (p : Nat) :
    ((modRqState md env s m).net p).done = false := by
  rcases modRqState_same_or_flags md env s m with heq | ⟨_, hnet⟩
  · rw [heq, hs]
  rw [hnet, Mod.applied]
  cases hpeer : m.peer with
  | none => exact hs p
  | some q =>
    by_cases hq : p = q
    · subst hq
      simp [Mod.newNet, Mod.oldNet, hpeer, NetFlags.apply, hs, hm]
    · simp [Function.update_of_ne hq, hs]

end

theorem ReqEvent.assign_kept (ev : ReqEvent) : Kept s (ev.assign md env s) := by
  cases ev
  case readCompletedWithError =>
    obtain ⟨_, h⟩ := bsrSetSync_frame md env s (fun _ => true) (fun _ => true)
    show Kept s (bsrSetSync md env s (fun _ => true) (fun _ => true))
    rw [h]
    exact ⟨rfl, rfl, rfl, rfl, rfl, rfl, rfl⟩
  all_goals exact ⟨rfl, rfl, rfl, rfl, rfl, rfl, rfl⟩

theorem reqMod_kept (ev : ReqEvent) : Kept s (reqMod md env s ev) :=
  (ev.assign_kept md env s).trans (Kept.foldl (modRqState_kept md env) _ _)

theorem sendPendingOos_kept (p : Nat) : Kept s (sendPendingOos md env s p) := by
  unfold sendPendingOos
  split_ifs
  · exact (bsrSetOutOfSync_kept md env s p).1.trans (reqMod_kept md env _ _)
  · exact Kept.refl s

theorem sendPendingOos_loc (p : Nat) : (sendPendingOos md env s p).loc.pending = s.loc.pending ∧
      (sendPendingOos md env s p).loc.aborted = s.loc.aborted := by
  unfold sendPendingOos
  split_ifs
  · obtain ⟨oos, heq⟩ := bsrSetOutOfSync_frame md env s p
    rw [heq]
    rcases modRqState_same_or_flags md env { s with oos := oos }
      { peer := p, clear := { net := { oosPending := true, pending := true } }
        set := { net := { oosNetQueued := true, queued := true } } } with hsame | ⟨hloc, _⟩
    · show (modRqState md env { s with oos := oos } _).loc.pending = _ ∧
        (modRqState md env { s with oos := oos } _).loc.aborted = _
      rw [hsame]
      exact ⟨rfl, rfl⟩
    · show (modRqState md env { s with oos := oos } _).loc.pending = _ ∧
        (modRqState md env { s with oos := oos } _).loc.aborted = _
      rw [hloc]
      simp only [Mod.newLoc, LocalFlags.apply, Mod.setLoc]
      split_ifs <;> simp
  · exact ⟨rfl, rfl⟩

end Bsr.Request
