import Bsr.Lru.Runs

/-!
# Labels between commits

What the users of a cache can do to its labels: a committed label stays or is given up, and while
the cache is locked for a transaction no new change is prepared.
-/

namespace Bsr.Lru

open Function

open Lib

/-- The calls of a user of the cache; changes are committed and locks for transactions taken by
others. -/
def LcCall.IsUse : LcCall → Prop
  | .get _ | .getCumulative _ | .tryGet _ | .put _ | .del _ | .tryLock | .unlock => True
  | .committed | .reset | .set _ _ | .tryLockForTransaction => False

/-- Every element keeps its labels or gives them up. -/
def KeepsLabels (lc lc' : LruCache) : Prop :=
  ∀ f, ((lc'.lcElement f).lcNumber = (lc.lcElement f).lcNumber ∧
      (lc'.lcElement f).lcNewNumber = (lc.lcElement f).lcNewNumber) ∨
    ((lc'.lcElement f).lcNumber = lcFree ∧ (lc'.lcElement f).lcNewNumber = lcFree)

variable {lc lc' : LruCache}

theorem KeepsLabels.of_eq (h : lc'.lcElement = lc.lcElement) : KeepsLabels lc lc' := by
  intro f
  rw [h]
  exact .inl ⟨rfl, rfl⟩

theorem KeepsLabels.update {e : Nat} {x : LcElement}
    (h : lc'.lcElement = Function.update lc.lcElement e x)
    (hx : (x.lcNumber = (lc.lcElement e).lcNumber ∧ x.lcNewNumber = (lc.lcElement e).lcNewNumber) ∨
      (x.lcNumber = lcFree ∧ x.lcNewNumber = lcFree)) : KeepsLabels lc lc' := by
  intro f
  rw [h]
  by_cases hf : f = e
  · rw [hf, update_self]
    exact hx
  · rw [update_of_ne hf]
    exact .inl ⟨rfl, rfl⟩

theorem LcInv.settled (h : LcInv lc) {e : Nat} (he : e < lc.nrElements)
    (hnot : e ∉ lc.list .toBeChanged) : (lc.lcElement e).lcNewNumber = (lc.lcElement e).lcNumber := by
  obtain ⟨_, htracked⟩ := h.tracked
  obtain ⟨k, hk⟩ := (htracked.placed_iff e).mpr he
  have hne : k ≠ .toBeChanged := fun hk' => hnot (htracked.mem_iff.mpr (hk' ▸ hk))
  by_contra hdiff
  exact hne ((htracked.element e k hk).changing_iff.mpr (Ne.symm hdiff))

theorem LcInv.changing_lt (h : LcInv lc) {e : Nat} (he : e ∈ lc.list .toBeChanged) :
    e < lc.nrElements := by
  obtain ⟨_, htracked⟩ := h.tracked
  exact htracked.lt_of_mem he

/-- A guarded call that returns is its body with the guard taken away. -/
theorem guarded_eq {α : Type} {body : LruCache → Except LcBug (LruCache × α)} {a : α}
    (hrun : guarded lc body = .ok (lc', a)) :
    ∃ lc₁, body { lc with paranoia := true } = .ok (lc₁, a) ∧ lc' = { lc₁ with paranoia := false } := by
  unfold guarded at hrun
  split_ifs at hrun
  generalize body { lc with paranoia := true } = res at hrun
  rcases res with b | ⟨lc₁, _⟩
  · cases hrun
  · cases hrun
    exact ⟨lc₁, rfl, rfl⟩

theorem lcGetHit_labels (lc : LruCache) (e : Nat) (mayUseUncommitted : Bool) :
    KeepsLabels lc (lcGetHit lc e mayUseUncommitted).1 ∧
      (lcGetHit lc e mayUseUncommitted).1.locked = lc.locked := by
  have hupdate : ∀ lc' : LruCache, lc'.lcElement = update lc.lcElement e (lc.lcElement e).ref →
      KeepsLabels lc lc' := fun lc' h => KeepsLabels.update h (.inl ⟨rfl, rfl⟩)
  unfold lcGetHit
  dsimp only
  split_ifs
  · exact ⟨hupdate _ rfl, rfl⟩
  · exact ⟨.of_eq rfl, rfl⟩
  all_goals exact ⟨hupdate _ rfl, rfl⟩

theorem lcGetBase_locked (hlocked : lc.locked = true) {enr : Nat} {mayChange mayUseUncommitted : Bool}
    {r : Option Nat} (hrun : lcGetBase lc enr mayChange mayUseUncommitted = .ok (lc', r)) :
    KeepsLabels lc lc' ∧ lc'.locked = true := by
  obtain ⟨_, hbody, rfl⟩ := guarded_eq hrun
  split_ifs at hbody
  · cases hbody
    exact ⟨.of_eq rfl, hlocked⟩
  generalize lcFindBase { lc with paranoia := true } enr true = found at hbody
  rcases found with b | (_ | e)
  · cases hbody
  · -- a miss, which may not change a locked cache
    unfold lcGetMiss at hbody
    simp only [hlocked] at hbody
    split_ifs at hbody
    all_goals
      cases hbody
      exact ⟨.of_eq rfl, rfl⟩
  · have hhit := lcGetHit_labels { lc with paranoia := true } e mayUseUncommitted
    rw [congrArg Prod.fst (Except.ok.inj hbody)] at hhit
    exact ⟨hhit.1, hhit.2.trans hlocked⟩

theorem lcPut_labels {e r : Nat} (hrun : lcPut lc e = .ok (lc', r)) :
    KeepsLabels lc lc' ∧ lc'.locked = lc.locked := by
  obtain ⟨_, hbody, rfl⟩ := guarded_eq hrun
  have hkeep : ∀ lc₂ : LruCache, lc₂.lcElement = update lc.lcElement e
      { lc.lcElement e with refcnt := (lc.lcElement e).refcnt - 1 } → KeepsLabels lc lc₂ :=
    fun lc₂ h => KeepsLabels.update h (.inl ⟨rfl, rfl⟩)
  dsimp only at hbody
  split_ifs at hbody
  all_goals
    cases hbody
    exact ⟨hkeep _ rfl, rfl⟩

theorem lcDel_labels {e : Nat} {r : Unit} (hrun : lcDel lc e = .ok (lc', r)) :
    KeepsLabels lc lc' ∧ lc'.locked = lc.locked := by
  obtain ⟨_, hbody, rfl⟩ := guarded_eq hrun
  split_ifs at hbody
  cases hbody
  exact ⟨KeepsLabels.update rfl (.inr ⟨rfl, rfl⟩), rfl⟩

namespace LcCall

theorem map_fst_eq_ok {α : Type} {res : Except LcBug (LruCache × α)}
    (h : res.map Prod.fst = .ok lc') : ∃ r, res = .ok (lc', r) := by
  rcases res with b | ⟨_, r⟩
  · cases h
  · cases h
    exact ⟨r, rfl⟩

/-- While the cache is locked, no use of it changes a label but by giving it up. -/
theorem exec_locked {call : LcCall} (huse : call.IsUse) (hlocked : lc.locked = true)
    (hrun : call.exec lc = .ok lc') : KeepsLabels lc lc' ∧ (call ≠ .unlock → lc'.locked = true) := by
  cases call with
  | get enr | getCumulative enr | tryGet enr =>
    obtain ⟨r, hrun⟩ := map_fst_eq_ok hrun
    have h := lcGetBase_locked hlocked hrun
    exact ⟨h.1, fun _ => h.2⟩
  | put e =>
    obtain ⟨r, hrun⟩ := map_fst_eq_ok hrun
    have h := lcPut_labels hrun
    exact ⟨h.1, fun _ => h.2.trans hlocked⟩
  | del e =>
    obtain ⟨r, hrun⟩ := map_fst_eq_ok hrun
    have h := lcDel_labels hrun
    exact ⟨h.1, fun _ => h.2.trans hlocked⟩
  | tryLock =>
    cases hrun
    unfold lcTryLock
    rw [if_neg (by simp [hlocked])]
    exact ⟨.of_eq rfl, fun _ => hlocked⟩
  | unlock =>
    cases hrun
    exact ⟨.of_eq rfl, fun h => absurd rfl h⟩
  | committed | reset | set _ _ | tryLockForTransaction => exact absurd huse id

theorem exec_numbers {call : LcCall} (huse : call.IsUse) (h : LcInv lc) (hquiet : lc.paranoia = false)
    (hlegal : call.Legal lc) (hrun : call.exec lc = .ok lc') (f : Nat) :
    (lc'.lcElement f).lcNumber = (lc.lcElement f).lcNumber ∨ (lc'.lcElement f).lcNumber = lcFree := by
  -- the three ways to get an element
  have hget : ∀ enr mayChange mayUse r, enr ≠ lcFree →
      lcGetBase lc enr mayChange mayUse = .ok (lc', r) →
      (lc'.lcElement f).lcNumber = (lc.lcElement f).lcNumber := by
    intro enr mayChange mayUse r hfree hrun
    obtain ⟨_, _, hrun', -, -, hsame⟩ := lcGetBase_kept h hquiet hfree mayChange mayUse
    rw [hrun] at hrun'
    cases hrun'
    exact hsame f
  have hkeep : KeepsLabels lc lc' → (lc'.lcElement f).lcNumber = (lc.lcElement f).lcNumber ∨
      (lc'.lcElement f).lcNumber = lcFree := by
    intro hkeep
    rcases hkeep f with hsame | hgone
    · exact .inl hsame.1
    · exact .inr hgone.1
  cases call with
  | get enr | getCumulative enr | tryGet enr =>
    obtain ⟨r, hrun⟩ := map_fst_eq_ok hrun
    exact .inl (hget enr _ _ r hlegal hrun)
  | put e =>
    obtain ⟨r, hrun⟩ := map_fst_eq_ok hrun
    exact hkeep (lcPut_labels hrun).1
  | del e =>
    obtain ⟨r, hrun⟩ := map_fst_eq_ok hrun
    exact hkeep (lcDel_labels hrun).1
  | tryLock =>
    cases hrun
    unfold lcTryLock
    split <;> exact .inl rfl
  | unlock =>
    cases hrun
    exact .inl rfl
  | committed | reset | set _ _ | tryLockForTransaction => exact absurd huse id

end LcCall

end Bsr.Lru
