import Bsr.Lib.Reach
import Bsr.Lru.Ops

/-!
# Runs of the LRU cache

Any sequence of calls on a cache that `lc_create` has made, in any order, as long as every call is
made as its documentation asks. `lru_cache_runs_consistent` is the joint invariant over such runs.
-/

namespace Bsr.Lru

open Lib Prod

/-- A call of `lru_cache.c`. -/
inductive LcCall where
  | get (enr : Nat)
  | getCumulative (enr : Nat)
  | tryGet (enr : Nat)
  | put (e : Nat)
  | del (e : Nat)
  | committed
  | reset
  | set (enr : Nat) (index : Int)
  | tryLock
  | tryLockForTransaction
  | unlock
deriving DecidableEq, Repr

namespace LcCall

def exec (lc : LruCache) : LcCall → Except LcBug LruCache
  | .get enr => (lcGet lc enr).map fst
  | .getCumulative enr => (lcGetCumulative lc enr).map fst
  | .tryGet enr => (lcTryGet lc enr).map fst
  | .put e => (lcPut lc e).map fst
  | .del e => (lcDel lc e).map fst
  | .committed => (lcCommitted lc).map fst
  | .reset => .ok (lcReset lc)
  | .set enr index => (lcSet lc enr index).map fst
  | .tryLock => .ok (lcTryLock lc).1
  | .tryLockForTransaction => .ok (lcTryLockForTransaction lc).1
  | .unlock => .ok (lcUnlock lc)

/-- What the documentation asks of a caller: real labels, references that are held and committed to
put, no references on an element to remove, and an unused element and a label no other element
carries to set. -/
def Legal (lc : LruCache) : LcCall → Prop
  | .get enr | .getCumulative enr | .tryGet enr => enr ≠ lcFree
  | .put e => e < lc.nrElements ∧ 0 < (lc.lcElement e).refcnt ∧
      (lc.lcElement e).lcNumber = (lc.lcElement e).lcNewNumber
  | .del e => e < lc.nrElements ∧ (lc.lcElement e).refcnt = 0
  | .set enr index => ∀ e < lc.nrElements, index = e → (lc.lcElement e).refcnt = 0 ∧
      (enr ≠ lcFree → ∀ f < lc.nrElements, f ≠ e → (lc.lcElement f).lcNewNumber ≠ enr)
  | .committed | .reset | .tryLock | .tryLockForTransaction | .unlock => True

def Step (lc : LruCache) (call : LcCall) (lc' : LruCache) : Prop :=
  call.Legal lc ∧ call.exec lc = .ok lc'

def Reached (maxPendingChanges eCount : Nat) : LruCache → Prop :=
  Reachable (fun lc => lcCreate maxPendingChanges eCount = some lc) Step

variable {lc : LruCache}

theorem exec_kept {call : LcCall} (h : LcInv lc) (hquiet : lc.paranoia = false)
    (hlegal : call.Legal lc) :
    ∃ lc', call.exec lc = .ok lc' ∧ lc'.paranoia = false ∧ Kept lc lc' := by
  cases call with
  | get enr =>
    obtain ⟨lc', r, hrun, hquiet', hkept, -⟩ := lcGetBase_kept h hquiet hlegal true false
    exact ⟨lc', by rw [exec, lcGet, hrun]; rfl, hquiet', hkept⟩
  | getCumulative enr =>
    obtain ⟨lc', r, hrun, hquiet', hkept, -⟩ := lcGetBase_kept h hquiet hlegal true true
    exact ⟨lc', by rw [exec, lcGetCumulative, hrun]; rfl, hquiet', hkept⟩
  | tryGet enr =>
    obtain ⟨lc', r, hrun, hquiet', hkept, -⟩ := lcGetBase_kept h hquiet hlegal false false
    exact ⟨lc', by rw [exec, lcTryGet, hrun]; rfl, hquiet', hkept⟩
  | put e =>
    obtain ⟨he, hpos, hsettled⟩ := hlegal
    obtain ⟨lc', r, hrun, hquiet', hkept, -⟩ := lcPut_kept h hquiet he hpos hsettled
    exact ⟨lc', by rw [exec, hrun]; rfl, hquiet', hkept⟩
  | del e =>
    obtain ⟨he, hzero⟩ := hlegal
    obtain ⟨lc', r, hrun, hquiet', hkept, -⟩ := lcDel_kept h hquiet he hzero
    exact ⟨lc', by rw [exec, hrun]; rfl, hquiet', hkept⟩
  | committed =>
    obtain ⟨lc', r, hrun, hquiet', hkept, -⟩ := lcCommitted_kept h hquiet
    exact ⟨lc', by rw [exec, hrun]; rfl, hquiet', hkept⟩
  | reset => exact ⟨_, rfl, rfl, lcReset_kept h⟩
  | set enr index =>
    obtain ⟨lc', r, hrun, hquiet', hkept⟩ := lcSet_kept h hquiet hlegal
    exact ⟨lc', by rw [exec, hrun]; rfl, hquiet', hkept⟩
  | tryLock =>
    refine ⟨_, rfl, ?_⟩
    unfold lcTryLock
    split
    · exact ⟨hquiet, h.with_flags lc.paranoia lc.dirty true lc.starving, rfl, rfl⟩
    · exact ⟨hquiet, .rfl h⟩
  | tryLockForTransaction =>
    exact ⟨_, rfl, hquiet, h.with_flags lc.paranoia lc.dirty true lc.starving, rfl, rfl⟩
  | unlock => exact ⟨_, rfl, hquiet, h.with_flags lc.paranoia false false lc.starving, rfl, rfl⟩

theorem Reached.inv {maxPendingChanges eCount : Nat} (hpos : 0 < eCount)
    (hr : Reached maxPendingChanges eCount lc) :
    LcInv lc ∧ lc.paranoia = false ∧ lc.nrElements = eCount ∧
      lc.maxPendingChanges = maxPendingChanges := by
  refine Reachable.invariant (P := fun lc => LcInv lc ∧ lc.paranoia = false ∧
    lc.nrElements = eCount ∧ lc.maxPendingChanges = maxPendingChanges) ?_ ?_ hr
  · intro lc hcreate
    exact lcCreate_inv hpos hcreate
  rintro lc _ _ ⟨hinv, hquiet, hnr, hmax⟩ ⟨hlegal, hexec⟩
  obtain ⟨_, hrun, hquiet', hkept⟩ := exec_kept hinv hquiet hlegal
  rw [hexec] at hrun
  cases hrun
  exact ⟨hkept.inv, hquiet', hkept.nr_eq.trans hnr, hkept.max_eq.trans hmax⟩

end LcCall

/-! ## What the invariant says -/

variable {lc : LruCache} {place : Nat → Option LcList}

open List.Nodup List

theorem Tracked.lists_perm (h : Tracked lc place) :
    (lc.list .free ++ lc.list .lru ++ lc.list .inUse ++ lc.list .toBeChanged).Perm
      (range lc.nrElements) := by
  have hdisjoint : ∀ j k, j ≠ k → List.Disjoint (lc.list j) (lc.list k) := by
    intro j k hne e hj hk
    rw [h.mem_iff] at hj hk
    rw [hj] at hk
    exact hne (Option.some.inj hk)
  have hnodup : (lc.list .free ++ lc.list .lru ++ lc.list .inUse ++ lc.list .toBeChanged).Nodup := by
    refine append (append (append (h.lists.nodup _) (h.lists.nodup _)
      (hdisjoint _ _ (by decide))) (h.lists.nodup _) ?_) (h.lists.nodup _) ?_
    · exact disjoint_append_left.mpr
        ⟨hdisjoint _ _ (by decide), hdisjoint _ _ (by decide)⟩
    · exact disjoint_append_left.mpr ⟨disjoint_append_left.mpr
        ⟨hdisjoint _ _ (by decide), hdisjoint _ _ (by decide)⟩, hdisjoint _ _ (by decide)⟩
  rw [perm_ext_iff_of_nodup hnodup nodup_range]
  intro e
  rw [mem_range, ← h.placed_iff e]
  simp only [mem_append, h.mem_iff]
  constructor
  · rintro (((hp | hp) | hp) | hp) <;> exact ⟨_, hp⟩
  · rintro ⟨k, hk⟩
    cases k <;> simp [hk]

/-- An element is referenced exactly on the in-use list and on the list of pending changes. -/
theorem Tracked.referenced_iff (h : Tracked lc place) {e : Nat} (he : e < lc.nrElements) :
    0 < (lc.lcElement e).refcnt ↔ e ∈ lc.list .inUse ∨ e ∈ lc.list .toBeChanged := by
  obtain ⟨k, hk⟩ := (h.placed_iff e).mpr he
  rw [(h.element e k hk).held, h.mem_iff, h.mem_iff, hk]
  simp

theorem Tracked.used_card (h : Tracked lc place) :
    lc.used = ((Finset.range lc.nrElements).filter (fun e => 0 < (lc.lcElement e).refcnt)).card := by
  have hnodup : (lc.list .inUse ++ lc.list .toBeChanged).Nodup := by
    refine append (h.lists.nodup _) (h.lists.nodup _) ?_
    intro e huse hchg
    rw [h.mem_iff] at huse hchg
    rw [huse] at hchg
    cases hchg
  have hset : (Finset.range lc.nrElements).filter (fun e => 0 < (lc.lcElement e).refcnt) =
      (lc.list .inUse ++ lc.list .toBeChanged).toFinset := by
    ext e
    simp only [Finset.mem_filter, Finset.mem_range, mem_toFinset, mem_append]
    constructor
    · rintro ⟨he, hpos⟩
      exact (h.referenced_iff he).mp hpos
    intro hmem
    have he : e < lc.nrElements := by
      rcases hmem with hm | hm <;> exact h.lt_of_mem hm
    exact ⟨he, (h.referenced_iff he).mpr hmem⟩
  rw [hset, toFinset_card_of_nodup hnodup, length_append, h.used_eq]

/-- Over any run of legal calls: the lists partition the elements, references and counters agree
with the lists, every chain holds exactly its elements under distinct labels, `lc_find` finds
exactly the committed labels, and no check fires. -/
theorem lru_cache_runs_consistent {maxPendingChanges eCount : Nat} (hpos : 0 < eCount)
    (hr : LcCall.Reached maxPendingChanges eCount lc) :
    (lc.list .free ++ lc.list .lru ++ lc.list .inUse ++ lc.list .toBeChanged).Perm
      (List.range eCount) ∧
    (∀ e < eCount, 0 < (lc.lcElement e).refcnt ↔ e ∈ lc.list .inUse ∨ e ∈ lc.list .toBeChanged) ∧
    lc.used = ((Finset.range eCount).filter (fun e => 0 < (lc.lcElement e).refcnt)).card ∧
    lc.pendingChanges = (lc.list .toBeChanged).length ∧ lc.pendingChanges ≤ maxPendingChanges ∧
    (∀ c d e f, e ∈ lc.lcSlot c → f ∈ lc.lcSlot d →
      (lc.lcElement e).lcNewNumber = (lc.lcElement f).lcNewNumber → e = f) ∧
    (∀ c, (lc.lcSlot c).Nodup ∧ ∀ e, e ∈ lc.lcSlot c ↔
      e < eCount ∧ e ∉ lc.list .free ∧ (lc.lcElement e).lcNewNumber % eCount = c) ∧
    (∀ enr, ∃ r, lcFind lc enr = .ok r ∧ ∀ e, r = some e ↔ e < eCount ∧ e ∉ lc.list .free ∧
      (lc.lcElement e).lcNumber = enr ∧ (lc.lcElement e).lcNewNumber = enr) ∧
    ∀ call : LcCall, call.Legal lc → ∃ lc', call.exec lc = .ok lc' := by
  obtain ⟨hinv, hquiet, rfl, rfl⟩ := hr.inv hpos
  obtain ⟨place, htracked⟩ := hinv.tracked
  -- the elements that are hashed are the ones off the free list
  have hhashed : ∀ e, (∃ k, place e = some k ∧ k ≠ .free) ↔ e < lc.nrElements ∧ e ∉ lc.list .free := by
    intro e
    rw [htracked.mem_iff, ← htracked.placed_iff e]
    constructor
    · rintro ⟨k, hk, hne⟩
      exact ⟨⟨k, hk⟩, by rw [hk]; simpa using hne⟩
    · rintro ⟨⟨k, hk⟩, hne⟩
      exact ⟨k, hk, by rw [hk] at hne; simpa using hne⟩
  refine ⟨htracked.lists_perm, fun e he => htracked.referenced_iff he, htracked.used_card,
    hinv.pending_eq, hinv.pending_le, ?_, ?_, ?_, ?_⟩
  · intro c d e f he hf hlabel
    obtain ⟨k, hk, hne, -⟩ := (htracked.mem_chain_iff c).mp he
    obtain ⟨j, hj, hne', -⟩ := (htracked.mem_chain_iff d).mp hf
    exact htracked.distinct e f hlabel ⟨k, hk, hne⟩ ⟨j, hj, hne'⟩
  · intro c
    refine ⟨htracked.chains.nodup c, fun e => ?_⟩
    rw [htracked.mem_chain_iff, ← and_assoc, ← hhashed e]
    constructor
    · rintro ⟨k, hk, hne, hc⟩
      exact ⟨⟨k, hk, hne⟩, hc⟩
    · rintro ⟨⟨k, hk, hne⟩, hc⟩
      exact ⟨k, hk, hne, hc⟩
  · intro enr
    obtain ⟨r, hfind, hiff⟩ := htracked.find_iff enr false
    refine ⟨r, hfind, fun e => ?_⟩
    rw [hiff e, Carries, hhashed e]
    tauto
  · intro call hlegal
    obtain ⟨lc', hexec, -⟩ := LcCall.exec_kept hinv hquiet hlegal
    exact ⟨lc', hexec⟩

/-- A run on three elements: label 7 is pulled in and committed. -/
theorem lru_cache_runs_consistent_example :
    ∃ lc₀ lc₁ lc₂, lcCreate 2 3 = some lc₀ ∧ LcCall.Step lc₀ (.get 7) lc₁ ∧
      LcCall.Step lc₁ .committed lc₂ ∧ lc₂.pendingChanges = 0 ∧
      lc₂.used = ((Finset.range 3).filter (fun e => 0 < (lc₂.lcElement e).refcnt)).card := by
  obtain ⟨lc₀, hcreate⟩ : ∃ lc₀, lcCreate 2 3 = some lc₀ := ⟨_, rfl⟩
  have hstart : LcCall.Reached 2 3 lc₀ := .start hcreate
  obtain ⟨lc₁, hget⟩ := (lru_cache_runs_consistent (by decide) hstart).2.2.2.2.2.2.2.2 (.get 7)
    (show 7 ≠ lcFree by decide)
  have hstep₁ : LcCall.Step lc₀ (.get 7) lc₁ := ⟨show 7 ≠ lcFree by decide, hget⟩
  have hr₁ : LcCall.Reached 2 3 lc₁ := .next _ hstart hstep₁
  obtain ⟨lc₂, hcommit⟩ :=
    (lru_cache_runs_consistent (by decide) hr₁).2.2.2.2.2.2.2.2 .committed trivial
  have hstep₂ : LcCall.Step lc₁ .committed lc₂ := ⟨trivial, hcommit⟩
  have hr₂ : LcCall.Reached 2 3 lc₂ := .next _ hr₁ hstep₂
  refine ⟨lc₀, lc₁, lc₂, hcreate, hstep₁, hstep₂, ?_,
    (lru_cache_runs_consistent (by decide) hr₂).2.2.1⟩
  cases hcreate
  cases hget
  cases hcommit
  rfl

end Bsr.Lru
