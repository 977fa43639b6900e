import Bsr.Lru.Holds
import Bsr.Submitter.Model

/-!
# Getting and putting the extents of a write

What `bsr_al_begin_io_fastpath`, `bsr_al_begin_io_nonblock` and `put_actlog` do to the holders of
the activity log. A write whose extents were got by the fast path finds them committed;
`getExtents_spec` is why the last loop of `bsr_al_begin_io_nonblock` cannot fail after its check for
slots. -/

namespace Bsr.Submitter

open Function

open Lru ActLog

section

variable {L : AlLayout} {al : AlState} {lc lc' : LruCache} {held : Nat → Nat} {enr : Nat}

theorem alInv_get (h : AlInv L al) (hfree : enr ≠ lcFree) {mayChange mayUseUncommitted : Bool}
    (hmay : mayUseUncommitted = true → mayChange = true) :
    ∃ lc' r, lcGetBase al.actLog enr mayChange mayUseUncommitted = .ok (lc', r) ∧
      AlInv L { al with actLog := lc' } ∧ GetEffect al.actLog lc' enr r := by
  obtain ⟨lc', r, hrun, _⟩ := lcGetBase_kept h.lru h.quiet hfree mayChange mayUseUncommitted
  refine ⟨lc', r, hrun, ?_, lcGetBase_effect h.lru hrun⟩
  have huse : ∀ call : LcCall, call.IsUse → call.Legal al.actLog → call ≠ .unlock →
      call.exec al.actLog = .ok lc' → AlInv L { al with actLog := lc' } := by
    intro call hcall hlegal hne hexec
    refine @AlInv.use L al _ h call ⟨hcall, hlegal, fun heq => absurd heq hne⟩ ?_
    rw [AlEvent.exec, hexec]
  cases mayChange with
  | false =>
    cases mayUseUncommitted with
    | true => exact absurd (hmay rfl) Bool.false_ne_true
    | false =>
      refine huse (.tryGet enr) trivial hfree (by simp) ?_
      rw [LcCall.exec, lcTryGet, hrun]
      rfl
  | true =>
    cases mayUseUncommitted with
    | true =>
      refine huse (.getCumulative enr) trivial hfree (by simp) ?_
      rw [LcCall.exec, lcGetCumulative, hrun]
      rfl
    | false =>
      refine huse (.get enr) trivial hfree (by simp) ?_
      rw [LcCall.exec, lcGet, hrun]
      rfl

theorem alInv_flags (h : AlInv L al) (starving : Bool) :
    AlInv L { al with actLog := { al.actLog with starving := starving } } :=
  ⟨h.lru.with_flags al.actLog.paranoia al.actLog.dirty al.actLog.locked starving, h.quiet, h.max_eq,
    h.nr_le, h.cycle_lt, h.cycle_aligned, h.locked, by
      obtain ⟨hist, hlog⟩ := h.logged
      exact ⟨hist, hlog.ring, hlog.committed, hlog.idle, hlog.flight, hlog.prepared⟩⟩

open List KeepsHeld

theorem getExtents_spec {l : List Nat} (h : AlInv L al) (hfree : ∀ enr ∈ l, enr ≠ lcFree)
    (hlocked : al.actLog.locked = false) (hstarving : al.actLog.starving = false)
    (hused : al.actLog.used + l.length ≤ al.actLog.nrElements)
    (hpending : al.actLog.pendingChanges + l.length ≤ al.actLog.maxPendingChanges)
    (hholds : Holds al.actLog held) :
    ∃ lc', getExtents al.actLog l = .ok lc' ∧ AlInv L { al with actLog := lc' } ∧
      KeepsHeld al.actLog lc' ∧ lc'.locked = false ∧
      Holds lc' fun enr => held enr + l.count enr := by
  induction l generalizing al held with
  | nil => exact ⟨al.actLog, rfl, h, refl _, hlocked, hholds⟩
  | cons n l ih =>
    rw [length_cons] at hused hpending
    obtain ⟨lc₁, r, hrun, hal, heffect⟩ :=
      @alInv_get L al n h (hfree n mem_cons_self) true true fun _ => rfl
    have hne := lcGetCumulative_ne_none h.lru hrun hlocked hstarving (by omega) (by omega)
    obtain ⟨e, rfl⟩ := Option.ne_none_iff_exists'.mp hne
    have hgot := heffect.got e rfl
    have hheld := heffect.holds hal.lru hholds
    have h1 := hgot.used
    have h2 := hgot.pending
    obtain ⟨lc', hrest, hal', hkeep, hlocked', hholds'⟩ := @ih { al with actLog := lc₁ } _ hal
      (fun m hm => hfree m (mem_cons_of_mem n hm)) (heffect.locked_eq.trans hlocked)
      hgot.starving (by rw [heffect.nr_eq]; show lc₁.used + _ ≤ _; omega)
      (by rw [heffect.max_eq]; show lc₁.pendingChanges + _ ≤ _; omega) hheld
    refine ⟨lc', ?_, hal', heffect.keepsHeld.trans hkeep, hlocked', ?_⟩
    · rw [getExtents, lcGetCumulative, hrun]
      exact hrest
    have heq : (fun m => held m + (n :: l).count m) =
        fun m => update held n (held n + 1) m + l.count m := by
      funext m
      by_cases hm : m = n
      · subst hm
        rw [update_self, count_cons_self]
        omega
      · rw [update_of_ne hm, count_cons_of_ne (Ne.symm hm)]
    rw [heq]
    exact hholds'

/-- `bsr_al_begin_io_nonblock` gets all extents or none. -/
theorem bsrAlBeginIoNonblock_spec (env : Env) (h : AlInv L al) {i : Interval}
    (hfree : ∀ enr ∈ i.extents, enr ≠ lcFree) (hlocked : al.actLog.locked = false)
    (hholds : Holds al.actLog held) :
    ∃ lc' err, bsrAlBeginIoNonblock env al.actLog i = .ok (lc', err) ∧
      AlInv L { al with actLog := lc' } ∧ KeepsHeld al.actLog lc' ∧ lc'.locked = false ∧
      Holds lc' fun enr => if err = none then held enr + i.extents.count enr else held enr := by
  unfold bsrAlBeginIoNonblock
  by_cases hshort : availableUpdateSlots env al.actLog < 1 + i.last - i.first
  · rw [if_pos hshort]
    refine ⟨_, _, rfl, ?_, ?_, ?_, ?_⟩
    · split_ifs
      · exact alInv_flags h true
      · exact h
    · split_ifs
      · exact of_eq rfl rfl
      · exact refl _
    · split_ifs <;> exact hlocked
    · simp only [reduceCtorEq, if_false]
      split_ifs <;> exact hholds
  rw [if_neg hshort]
  by_cases hbusy : i.extents.any env.resyncActive = true
  · rw [if_pos hbusy]
    refine ⟨_, _, rfl, h, refl _, hlocked, ?_⟩
    simpa only [reduceCtorEq, if_false] using hholds
  rw [if_neg hbusy]
  have hlen : i.extents.length = 1 + i.last - i.first := by
    rw [Interval.extents, length_range', Nat.add_comm]
  -- the slots that were counted are enough
  have hroom : al.actLog.used + i.extents.length ≤ al.actLog.nrElements ∧
      al.actLog.pendingChanges + i.extents.length ≤ al.actLog.maxPendingChanges ∨
      i.extents.length = 0 := by
    have hle := Nat.not_lt.mp hshort
    unfold availableUpdateSlots at hle
    split_ifs at hle
    · omega
    · omega
  obtain ⟨lc', hrun, hal, hkeep, hlocked', hgot⟩ : ∃ lc',
      getExtents { al.actLog with starving := false } i.extents = .ok lc' ∧
      AlInv L { al with actLog := lc' } ∧ KeepsHeld al.actLog lc' ∧ lc'.locked = false ∧
      Holds lc' fun enr => held enr + i.extents.count enr := by
    rcases hroom with hroom | hnil
    · exact @getExtents_spec L { al with actLog := { al.actLog with starving := false } } held
        i.extents (alInv_flags h false) hfree hlocked rfl hroom.1 hroom.2 hholds
    · rw [eq_nil_of_length_eq_zero hnil]
      exact ⟨_, rfl, alInv_flags h false, of_eq rfl rfl, hlocked, hholds⟩
  rw [hrun]
  refine ⟨lc', none, rfl, hal, hkeep, hlocked', ?_⟩
  simpa only [if_true] using hgot

theorem bsrAlBeginIoFastpath_spec (env : Env) (h : AlInv L al) {i : Interval}
    (hfirst : i.first ≠ lcFree) (hholds : Holds al.actLog held) :
    ∃ lc' ok, bsrAlBeginIoFastpath env al.actLog i = .ok (lc', ok) ∧
      AlInv L { al with actLog := lc' } ∧ KeepsHeld al.actLog lc' ∧
      (Holds lc' fun enr => if ok = true then held enr + i.extents.count enr else held enr) ∧
      (ok = true → ∀ enr ∈ i.extents, Settled lc' enr) := by
  unfold bsrAlBeginIoFastpath
  by_cases hcross : i.first ≠ i.last
  · rw [if_pos hcross]
    exact ⟨_, _, rfl, h, refl _, hholds, nofun⟩
  split_ifs with hbusy
  · exact ⟨_, _, rfl, h, refl _, hholds, nofun⟩
  have hone : i.extents = [i.first] := by
    have : i.last + 1 - i.first = 1 := by
      omega
    rw [Interval.extents, this]
    rfl
  obtain ⟨lc', r, hrun, hal, heffect⟩ := @alInv_get L al i.first h hfirst false false nofun
  have htry : lcTryGet al.actLog i.first = .ok (lc', r) := hrun
  rw [htry]
  have hheld := heffect.holds hal.lru hholds
  refine ⟨lc', r.isSome, rfl, hal, heffect.keepsHeld, ?_, fun hok => ?_⟩
  · cases r with
    | none => exact hheld
    | some e =>
      simp only [Option.isSome_some, if_true, hone]
      have heq : (fun m => held m + [i.first].count m) =
          update held i.first (held i.first + 1) := by
        funext m
        by_cases hm : m = i.first
        · subst hm
          rw [update_self, count_singleton_self]
        · rw [update_of_ne hm, count_singleton, if_neg (by simpa using Ne.symm hm)]
          rfl
      rw [heq]
      exact hheld
  · obtain ⟨e, rfl⟩ := Option.isSome_iff_exists.mp hok
    have hgot := heffect.got e rfl
    intro enr henr
    rw [hone, mem_singleton] at henr
    obtain ⟨hnum, hnew⟩ := lcTryGet_number h.lru htry
    rw [henr]
    exact ⟨e, heffect.nr_eq.symm ▸ hgot.lt, hnum, hnew, by rw [hgot.refcnt]; omega⟩

theorem putActlog_spec {l : List Nat} (h : AlInv L al) (hsettled : ∀ enr ∈ l, Settled al.actLog enr)
    (hholds : Holds al.actLog fun enr => held enr + l.count enr) :
    ∃ lc', putActlog al.actLog l = .ok lc' ∧ AlInv L { al with actLog := lc' } ∧ Holds lc' held ∧
      ∀ m, 0 < held m → Settled al.actLog m → Settled lc' m := by
  induction l generalizing al with
  | nil => exact ⟨al.actLog, rfl, h, hholds, fun _ _ hm => hm⟩
  | cons n l ih =>
    obtain ⟨e, he, hnum, hnew, hpos⟩ := hsettled n mem_cons_self
    -- `lc_find` finds that element
    have hfind : lcFind al.actLog n = .ok (some e) := by
      obtain ⟨_, htracked⟩ := h.lru.tracked
      obtain ⟨r, hr, hiff⟩ := htracked.find_iff n false
      obtain ⟨k, hk⟩ := (htracked.placed_iff e).mpr he
      have hne : k ≠ .free := by
        intro hfree
        have hheld := (htracked.element e k hk).held.mp hpos
        rw [hfree] at hheld
        rcases hheld with hc | hc <;> cases hc
      rw [lcFind, hr, (hiff e).mpr ⟨⟨⟨k, hk, hne⟩, hnew⟩, .inl hnum⟩]
    obtain ⟨lc₁, m, hput, _⟩ := lcPut_kept h.lru h.quiet he hpos (hnum.trans hnew.symm)
    have hal : AlInv L { al with actLog := lc₁ } := by
      refine @AlInv.use L al _ h (.put e) ⟨trivial, ⟨he, hpos, hnum.trans hnew.symm⟩, nofun⟩ ?_
      rw [AlEvent.exec, LcCall.exec, hput]
      rfl
    have hheld : Holds lc₁ fun enr => held enr + l.count enr := by
      refine @Holds.put _ _ (fun enr => held enr + l.count enr) n e m h.lru hput ?_ hnew
      have heq : (fun enr => held enr + (n :: l).count enr) =
          update (fun enr => held enr + l.count enr) n (held n + l.count n + 1) := by
        funext x
        by_cases hx : x = n
        · subst hx
          rw [update_self, count_cons_self]
          omega
        · rw [update_of_ne hx, count_cons_of_ne (Ne.symm hx)]
      rw [← heq]
      exact hholds
    have hkept : ∀ x, 0 < held x + l.count x → Settled al.actLog x → Settled lc₁ x :=
      fun x hx hs => Settled.put hput h.lru hheld hx hs
    obtain ⟨lc', hrest, hal', hholds', hsettled'⟩ := @ih { al with actLog := lc₁ } hal
      (fun x hx => hkept x (by have := count_pos_iff.mpr hx; omega)
        (hsettled x (mem_cons_of_mem n hx))) hheld
    refine ⟨lc', ?_, hal', hholds', fun x hx hs => hsettled' x hx (hkept x (by omega) hs)⟩
    rw [putActlog, hfind]
    dsimp only
    rw [if_neg (Nat.ne_of_gt hpos), hput]
    exact hrest

end

end Bsr.Submitter
