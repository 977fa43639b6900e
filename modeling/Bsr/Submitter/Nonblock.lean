import Bsr.Submitter.Extents

/-!
# All extents of a write, or none

`bsr_al_begin_io_nonblock` counts the free slots first, so that none of its gets should fail. The
count does not look at `__LC_LOCKED`: while a transaction is written a get finds what is in the
cache, and nothing else.

* `refsOf lc enr` sums up the references on an extent, committed or not;
* `GetEffect.refsOf` is what one get adds, and `getExtents_locked`, `getExtents_room` what the loop
  adds;
* `nonblock_allOrNothing_iff` says when the call is all-or-nothing.
-/

namespace Bsr.Submitter

open Lru

/-- The references on an extent, whether its label is committed or to be changed. -/
def refsOf (lc : LruCache) (enr : Nat) : Nat :=
  ∑ e ∈ Finset.range lc.nrElements,
    if (lc.lcElement e).lcNewNumber = enr then (lc.lcElement e).refcnt else 0

/-- Some element of the cache carries the label. -/
def Cached (lc : LruCache) (enr : Nat) : Prop :=
  ∃ e < lc.nrElements, (lc.lcElement e).lcNewNumber = enr

/-- What the caller relies on: with 0 exactly the extents of the interval got one reference more,
with an error nothing changed. -/
def AllOrNothing (lc lc' : LruCache) (i : Interval) : Option AlErr → Prop
  | none => ∀ enr, refsOf lc' enr = refsOf lc enr + if enr ∈ i.extents then 1 else 0
  | some _ => ∀ e, (lc'.lcElement e).refcnt = (lc.lcElement e).refcnt

/-- The checks before the gets turn the write away. -/
def TurnedAway (env : Env) (lc : LruCache) (i : Interval) : Prop :=
  availableUpdateSlots env lc < 1 + i.last - i.first ∨ i.extents.any env.resyncActive = true

variable {lc lc' : LruCache} {enr : Nat} {r : Option Nat} {l : List Nat}

theorem refsOf_congr (hnr : lc'.nrElements = lc.nrElements) (hel : lc'.lcElement = lc.lcElement)
    (n : Nat) : refsOf lc' n = refsOf lc n := by
  rw [refsOf, refsOf, hnr, hel]

open Finset

/-- A get that succeeds adds one reference to its extent, and nothing to any other. -/
theorem refsOf_get (h : GetEffect lc lc' enr r) (n : Nat) :
    refsOf lc' n = refsOf lc n + if r ≠ none ∧ n = enr then 1 else 0 := by
  cases hr : r with
  | none => simpa using refsOf_congr h.nr_eq (h.missed hr) n
  | some e =>
    have hgot := h.got e hr
    have hmem : e ∈ range lc.nrElements := mem_range.mpr hgot.lt
    rw [refsOf, refsOf, h.nr_eq, ← add_sum_erase _ _ hmem, ← add_sum_erase _ _ hmem]
    have hrest : ∑ f ∈ (range lc.nrElements).erase e,
        (if (lc'.lcElement f).lcNewNumber = n then (lc'.lcElement f).refcnt else 0) =
        ∑ f ∈ (range lc.nrElements).erase e,
        if (lc.lcElement f).lcNewNumber = n then (lc.lcElement f).refcnt else 0 := by
      refine sum_congr rfl fun f hf => ?_
      rw [hgot.others f (ne_of_mem_erase hf)]
    rw [hrest, hgot.label, hgot.refcnt]
    -- an element that changed its label had no reference
    have hkept := hgot.kept
    by_cases hn : n = enr
    · subst hn
      by_cases hlabel : (lc.lcElement e).lcNewNumber = n
      · simp [hlabel]
        omega
      have hzero : (lc.lcElement e).refcnt = 0 := by
        omega
      simp [hzero]
      omega
    · have hzero : (lc.lcElement e).lcNewNumber = n → (lc.lcElement e).refcnt = 0 := by
        omega
      simp only [Ne.symm hn, hn, and_false, if_false]
      split_ifs with hlabel
      · rw [hzero hlabel]
        rfl
      · rfl

/-- While the cache is locked, a get finds what is there and changes no label. -/
theorem lcGetCumulative_locked (h : LcInv lc) (hfree : enr ≠ lcFree) (hlocked : lc.locked = true)
    (hstarving : lc.starving = false) (hrun : lcGetCumulative lc enr = .ok (lc', r)) :
    (r ≠ none ↔ Cached lc enr) ∧ lc'.starving = false ∧
      ∀ f, (lc'.lcElement f).lcNewNumber = (lc.lcElement f).lcNewNumber := by
  obtain ⟨_, htracked⟩ := (h.with_flags true lc.dirty lc.locked lc.starving).tracked
  unfold lcGetCumulative lcGetBase at hrun
  obtain ⟨_, hbody, rfl⟩ := guarded_eq hrun
  obtain ⟨found, hfind, hiff⟩ := htracked.find_iff enr true
  rw [if_neg (by simp [hstarving]), hfind] at hbody
  cases found with
  | some e =>
    obtain ⟨⟨⟨k, hplace, _⟩, hlabel⟩, _⟩ := (hiff e).mp rfl
    have hcached : Cached lc enr := ⟨e, (htracked.placed_iff e).mp ⟨k, hplace⟩, hlabel⟩
    have hres := Except.ok.inj hbody
    unfold lcGetHit at hres
    dsimp only at hres
    rw [if_pos rfl] at hres
    split_ifs at hres <;> cases hres
    all_goals
      refine ⟨by simp [hcached], hstarving, fun f => ?_⟩
      by_cases hf : f = e
      · subst hf
        simp [setElement, listMove]
      · simp [setElement, listMove, Function.update_of_ne hf]
  | none =>
    have hmissing : ¬Cached lc enr := by
      rintro ⟨e, he, hlabel⟩
      obtain ⟨k, hplace⟩ := (htracked.placed_iff e).mpr he
      have hne : k ≠ .free := by
        intro hk
        exact hfree (hlabel.symm.trans ((htracked.element e k hplace).free_iff.mp hk))
      have hsome := (hiff e).mpr ⟨⟨⟨k, hplace, hne⟩, hlabel⟩, .inr rfl⟩
      cases hsome
    unfold lcGetMiss at hbody
    rw [if_pos hlocked] at hbody
    cases hbody
    exact ⟨by simp [hmissing], hstarving, fun f => rfl⟩

open List

/-- The loop while the cache is locked: what is not cached is left out. -/
theorem getExtents_locked [DecidablePred (Cached lc)] (h : LcInv lc) (hquiet : lc.paranoia = false)
    (hfree : ∀ enr ∈ l, enr ≠ lcFree) (hlocked : lc.locked = true)
    (hstarving : lc.starving = false) : ∃ lc', getExtents lc l = .ok lc' ∧
      ∀ n, refsOf lc' n = refsOf lc n + if Cached lc n then l.count n else 0 := by
  have hgen : ∀ lc₀, LcInv lc₀ → lc₀.paranoia = false → lc₀.locked = true → lc₀.starving = false →
      (∀ n, Cached lc₀ n ↔ Cached lc n) → ∃ lc', getExtents lc₀ l = .ok lc' ∧
      ∀ n, refsOf lc' n = refsOf lc₀ n + if Cached lc n then l.count n else 0 := by
    induction l with
    | nil => exact fun lc₀ _ _ _ _ _ => ⟨lc₀, rfl, fun n => by simp⟩
    | cons m l ih =>
      intro lc₀ h hquiet hlocked hstarving hsame
      have hm := hfree m mem_cons_self
      obtain ⟨lc₁, r, hrun, hquiet₁, hkept, _⟩ := lcGetBase_kept h hquiet hm true true
      have heffect := lcGetBase_effect h hrun
      obtain ⟨hfound, hstarving₁, hlabels⟩ := lcGetCumulative_locked h hm hlocked hstarving hrun
      obtain ⟨lc', hrest, hrefs⟩ := ih (fun n hn => hfree n (mem_cons_of_mem m hn)) lc₁ hkept.inv
        hquiet₁ (heffect.locked_eq.trans hlocked) hstarving₁ fun n => by
          rw [← hsame n, Cached, Cached, heffect.nr_eq]
          simp only [hlabels]
      refine ⟨lc', by rw [getExtents, lcGetCumulative, hrun]; exact hrest, fun n => ?_⟩
      rw [hrefs n, refsOf_get heffect n]
      simp only [hfound, hsame m]
      by_cases hn : n = m
      · subst hn
        by_cases hc : Cached lc n
        · simp [hc]
          omega
        · simp [hc]
      · rw [count_cons_of_ne (Ne.symm hn)]
        simp [hn]
  exact hgen lc h hquiet hlocked hstarving fun _ => Iff.rfl

/-- The loop with a slot and room in the transaction for each extent. -/
theorem getExtents_room (h : LcInv lc) (hquiet : lc.paranoia = false)
    (hfree : ∀ enr ∈ l, enr ≠ lcFree) (hlocked : lc.locked = false)
    (hstarving : lc.starving = false) (hused : lc.used + l.length ≤ lc.nrElements)
    (hpending : lc.pendingChanges + l.length ≤ lc.maxPendingChanges) :
    ∃ lc', getExtents lc l = .ok lc' ∧ ∀ n, refsOf lc' n = refsOf lc n + l.count n := by
  induction l generalizing lc with
  | nil => exact ⟨lc, rfl, fun n => by simp⟩
  | cons m l ih =>
    rw [length_cons] at hused hpending
    obtain ⟨_, r, hrun, hquiet₁, hkept, _⟩ :=
      lcGetBase_kept h hquiet (hfree m mem_cons_self) true true
    have heffect := lcGetBase_effect h hrun
    have hne := lcGetCumulative_ne_none h hrun hlocked hstarving (by omega) (by omega)
    obtain ⟨e, rfl⟩ := Option.ne_none_iff_exists'.mp hne
    have hgot := heffect.got e rfl
    have h1 := hgot.used
    have h2 := hgot.pending
    obtain ⟨lc', hrest, hrefs⟩ := ih hkept.inv hquiet₁
      (fun n hn => hfree n (mem_cons_of_mem m hn)) (heffect.locked_eq.trans hlocked)
      hgot.starving (by rw [heffect.nr_eq]; omega) (by rw [heffect.max_eq]; omega)
    refine ⟨lc', by rw [getExtents, lcGetCumulative, hrun]; exact hrest, fun n => ?_⟩
    rw [hrefs n, refsOf_get heffect n]
    by_cases hn : n = m
    · subst hn
      simp
      omega
    · rw [count_cons_of_ne (Ne.symm hn)]
      simp [hn]

theorem count_extents (i : Interval) (n : Nat) : i.extents.count n = if n ∈ i.extents then 1 else 0 := by
  have hnodup : i.extents.Nodup := nodup_range'
  split_ifs with hn
  · exact count_eq_one_of_mem hnodup hn
  · exact count_eq_zero.mpr hn

/-- `bsr_al_begin_io_nonblock` is all-or-nothing exactly if no transaction holds the lock, or the
write is turned away before the gets, or all of its extents are in the cache already. -/
theorem nonblock_allOrNothing_iff (env : Env) (i : Interval) (h : LcInv lc)
    (hquiet : lc.paranoia = false) (hfree : ∀ enr ∈ i.extents, enr < lcFree) :
    ∃ lc' err, bsrAlBeginIoNonblock env lc i = .ok (lc', err) ∧
      (AllOrNothing lc lc' i err ↔
        lc.locked = false ∨ TurnedAway env lc i ∨ ∀ enr ∈ i.extents, Cached lc enr) := by
  classical
  have hne : ∀ enr ∈ i.extents, enr ≠ lcFree := fun enr henr => Nat.ne_of_lt (hfree enr henr)
  unfold bsrAlBeginIoNonblock
  by_cases hshort : availableUpdateSlots env lc < 1 + i.last - i.first
  · rw [if_pos hshort]
    refine ⟨_, _, rfl, iff_of_true (fun e => ?_) (.inr (.inl (.inl hshort)))⟩
    split_ifs <;> rfl
  rw [if_neg hshort]
  by_cases hbusy : i.extents.any env.resyncActive = true
  · rw [if_pos hbusy]
    exact ⟨_, _, rfl, iff_of_true (fun e => rfl) (.inr (.inl (.inr hbusy)))⟩
  rw [if_neg hbusy]
  have haway : ¬TurnedAway env lc i := fun hor => hor.elim hshort hbusy
  have hinv := h.with_flags lc.paranoia lc.dirty lc.locked false
  rcases Bool.eq_false_or_eq_true lc.locked with hlocked | hlocked
  · obtain ⟨lc', hrun, hrefs⟩ :=
      @getExtents_locked { lc with starving := false } i.extents _ hinv hquiet hne hlocked rfl
    rw [hrun]
    refine ⟨lc', none, rfl, ?_⟩
    have hsame : ∀ n, refsOf lc' n = refsOf lc n + if Cached lc n then i.extents.count n else 0 := hrefs
    simp only [AllOrNothing, hsame, count_extents, haway, false_or, hlocked, Bool.true_eq_false]
    refine ⟨fun hall enr henr => ?_, fun hcached enr => ?_⟩
    · have heq := hall enr
      by_contra hmissing
      rw [if_neg hmissing, if_pos henr] at heq
      omega
    · by_cases henr : enr ∈ i.extents
      · rw [if_pos (hcached enr henr)]
      · simp [henr]
  · have hlen : i.extents.length = 1 + i.last - i.first := by
      rw [Interval.extents, length_range', Nat.add_comm]
    have hroom : lc.used + i.extents.length ≤ lc.nrElements ∧
        lc.pendingChanges + i.extents.length ≤ lc.maxPendingChanges ∨ i.extents = [] := by
      have hle := Nat.not_lt.mp hshort
      unfold availableUpdateSlots at hle
      rw [← length_eq_zero_iff]
      split_ifs at hle <;> omega
    obtain ⟨lc', hrun, hrefs⟩ : ∃ lc', getExtents { lc with starving := false } i.extents =
        .ok lc' ∧ ∀ n, refsOf lc' n = refsOf lc n + i.extents.count n := by
      rcases hroom with hroom | hnil
      · exact @getExtents_room { lc with starving := false } i.extents hinv hquiet hne hlocked rfl hroom.1 hroom.2
      · rw [hnil]
        exact ⟨_, rfl, fun n => rfl⟩
    rw [hrun]
    refine ⟨lc', none, rfl, iff_of_true (fun enr => ?_) (.inl hlocked)⟩
    rw [hrefs, count_extents]

theorem nonblock_allOrNothing_fresh : ∃ lc, lcCreate 64 7 = some lc ∧
    ∃ lc' err, bsrAlBeginIoNonblock {} lc ⟨0, 4096⟩ = .ok (lc', err) ∧ AllOrNothing lc lc' ⟨0, 4096⟩ err := by
  obtain ⟨lc, hcreate⟩ : ∃ lc, lcCreate 64 7 = some lc := ⟨_, rfl⟩
  obtain ⟨hinv, hquiet, _⟩ := lcCreate_inv (by decide) hcreate
  obtain ⟨lc', err, hrun, hiff⟩ := nonblock_allOrNothing_iff {} ⟨0, 4096⟩ hinv hquiet (by decide)
  refine ⟨lc, hcreate, lc', err, hrun, hiff.mpr (.inl ?_)⟩
  cases hcreate
  rfl

/-- A transaction holds the lock, and the extent of the write is not in the cache: the call returns
0, and nothing refers to the extent. -/
theorem nonblock_locked_misses : ∃ lc, lcCreate 64 7 = some lc ∧
    ∃ lc', bsrAlBeginIoNonblock {} (lcTryLockForTransaction lc).1 ⟨0, 4096⟩ = .ok (lc', none) ∧
      refsOf lc' 0 = 0 ∧ ¬AllOrNothing (lcTryLockForTransaction lc).1 lc' ⟨0, 4096⟩ none := by
  refine ⟨_, rfl, _, rfl, ?_, fun hall => ?_⟩
  · decide
  · exact absurd (hall 0) (by decide)

end Bsr.Submitter
