import Bsr.Lru.Invariant

/-!
# Every operation keeps the cache consistent

One lemma per operation of `lru_cache.c`: called as documented it passes its `BUG_ON` checks and
keeps `LcInv`. The lemmas also say what happens to the committed labels.
-/

namespace Bsr.Lru

open Function List

open Lib

/-- The cache is consistent, and its pending changes are counted and bounded. -/
structure LcInv (lc : LruCache) : Prop where
  tracked : ∃ place, Tracked lc place
  pending_eq : lc.pendingChanges = (lc.list .toBeChanged).length
  pending_le : lc.pendingChanges ≤ lc.maxPendingChanges

/-- `lc'` is a consistent cache of the same size as `lc`. -/
structure Kept (lc lc' : LruCache) : Prop where
  inv : LcInv lc'
  nr_eq : lc'.nrElements = lc.nrElements
  max_eq : lc'.maxPendingChanges = lc.maxPendingChanges

/-- No element changes its committed label. -/
def SameNumbers (lc lc' : LruCache) : Prop :=
  ∀ e, (lc'.lcElement e).lcNumber = (lc.lcElement e).lcNumber

variable {lc lc' : LruCache} {place : Nat → Option LcList} {e enr : Nat}

theorem Kept.rfl (h : LcInv lc) : Kept lc lc :=
  ⟨h, Eq.refl _, Eq.refl _⟩

theorem LcInv.nr_pos (h : LcInv lc) : 0 < lc.nrElements := by
  obtain ⟨_, htracked⟩ := h.tracked
  exact htracked.nr_pos

theorem LcInv.with_flags (h : LcInv lc) (paranoia dirty locked starving : Bool) : LcInv { lc with
      paranoia := paranoia
      dirty := dirty
      locked := locked
      starving := starving } := by
  obtain ⟨place, htracked⟩ := h.tracked
  exact ⟨⟨place, { htracked with }⟩, h.pending_eq, h.pending_le⟩

theorem guarded_ok {α : Type} {body : LruCache → Except LcBug (LruCache × α)}
    {P : LruCache → α → Prop} (h : LcInv lc) (hquiet : lc.paranoia = false)
    (hbody : LcInv { lc with paranoia := true } → ∃ lc' r, body { lc with paranoia := true } = .ok (lc', r) ∧
      P { lc' with paranoia := false } r) :
    ∃ lc' r, guarded lc body = .ok (lc', r) ∧ lc'.paranoia = false ∧ P lc' r := by
  obtain ⟨lc', r, hrun, hprop⟩ := hbody (h.with_flags true lc.dirty lc.locked lc.starving)
  refine ⟨_, r, ?_, Eq.refl false, hprop⟩
  unfold guarded
  rw [if_neg (Nat.ne_of_gt h.nr_pos), hquiet, if_neg (by decide), hrun]

theorem Kept.of_flags (h : Kept { lc with paranoia := true } lc') :
    Kept lc { lc' with paranoia := false } :=
  ⟨h.inv.with_flags false lc'.dirty lc'.locked lc'.starving, h.nr_eq, h.max_eq⟩

/-! ## lc_get -/

theorem Tracked.chain_self (h : Tracked lc place) {k k' : LcList} (hplace : place e = some k)
    (hk : k ≠ .free) (hk' : k' ≠ .free) {x : LcElement}
    (hnew : x.lcNewNumber = (lc.lcElement e).lcNewNumber) :
    Placed lc.lcSlot (update (chainOf lc place) e
      (if k' = .free then none else some (x.lcNewNumber % lc.nrElements))) := by
  rw [if_neg hk', hnew, ← chainOf_hashed lc hplace hk, update_eq_self]
  exact h.chains

@[simp] theorem ref_refcnt (x : LcElement) : x.ref.refcnt = x.refcnt + 1 := rfl

@[simp] theorem ref_lcNumber (x : LcElement) : x.ref.lcNumber = x.lcNumber := rfl

@[simp] theorem ref_lcNewNumber (x : LcElement) : x.ref.lcNewNumber = x.lcNewNumber := rfl

theorem sameNumbers_update (lc : LruCache) (e : Nat) {x : LcElement}
    (hx : x.lcNumber = (lc.lcElement e).lcNumber) (f : Nat) :
    (update lc.lcElement e x f).lcNumber = (lc.lcElement f).lcNumber := by
  by_cases hf : f = e
  · subst hf
    rw [update_self, hx]
  · rw [update_of_ne hf]

section

variable (h : Tracked lc place)

include h

/-- An element that leaves or enters no pending change leaves their number alone. -/
theorem Tracked.pending_same {j k : LcList} (hplace : place e = some j)
    (hj : j ≠ .toBeChanged) (hk : k ≠ .toBeChanged) :
    (moveTo lc.list e k .toBeChanged).length = (lc.list .toBeChanged).length := by
  have hlen := h.lists.length_moveTo e k .toBeChanged
  have hnot : place e ≠ some .toBeChanged := by
    rw [hplace]
    simpa using hj
  rw [if_neg hnot, if_neg (Ne.symm hk)] at hlen
  exact hlen

omit h in
theorem lcGetHit_kept (h : LcInv lc) (htracked : Tracked lc place)
    (hcarries : Carries lc place e enr) (mayUseUncommitted : Bool) :
    Kept lc (lcGetHit lc e mayUseUncommitted).1 ∧
      SameNumbers lc (lcGetHit lc e mayUseUncommitted).1 := by
  obtain ⟨⟨k, hplace, hk⟩, _⟩ := hcarries
  have hok := htracked.element e k hplace
  have hlt : e < lc.nrElements := (htracked.placed_iff e).mp ⟨k, hplace⟩
  unfold lcGetHit
  by_cases hchanging : (lc.lcElement e).lcNewNumber ≠ (lc.lcElement e).lcNumber
  · -- a pending change: the element stays where it is
    rw [if_pos hchanging]
    obtain rfl : k = .toBeChanged := hok.changing_iff.mpr (Ne.symm hchanging)
    cases mayUseUncommitted with
    | false => exact ⟨.rfl h, fun f => Eq.refl _⟩
    | true =>
      have hset : Tracked (setElement lc e (lc.lcElement e).ref) place :=
        htracked.set _ hplace (Eq.refl _) { hok with held := by simp }
      exact ⟨⟨⟨⟨place, hset⟩, h.pending_eq, h.pending_le⟩, Eq.refl _, Eq.refl _⟩,
        sameNumbers_update lc e (Eq.refl _)⟩
  · rw [if_neg hchanging]
    have hne : k ≠ .toBeChanged := fun hk' => hchanging (Ne.symm (hok.changing_iff.mp hk'))
    have hmoved : Tracked (listMove { setElement lc e (lc.lcElement e).ref with
        used := if (lc.lcElement e).refcnt = 0 then lc.used + 1 else lc.used } e .inUse)
        (update place e (some .inUse)) := by
      apply htracked.move (lc.lcElement e).ref .inUse hlt
      · rfl
      · rfl
      · rfl
      · exact htracked.chain_self hplace hk (by decide) (Eq.refl _)
      · have hfree := hok.free_iff
        have hchg := hok.changing_iff
        simp only [hk, hne] at hfree hchg
        exact ⟨by simp, by simpa using hfree, by simpa using hchg⟩
      · -- the first reference counts the element as used
        have hheld := hok.held
        show (if (lc.lcElement e).refcnt = 0 then lc.used + 1 else lc.used) + _ = _
        cases k <;> simp_all
        omega
      · intro _ f k' hf hplacef hk' hsame
        exact hf (htracked.distinct f e hsame ⟨k', hplacef, hk'⟩ ⟨k, hplace, hk⟩)
    have hpending := h.pending_eq
    rw [← htracked.pending_same hplace hne (show LcList.inUse ≠ .toBeChanged by decide)] at hpending
    exact ⟨⟨⟨⟨_, hmoved⟩, hpending, h.pending_le⟩, Eq.refl _, Eq.refl _⟩,
      sameNumbers_update lc e (Eq.refl _)⟩

theorem Tracked.recyclable (hsome : recyclable lc = some e) :
    place e = some .free ∨ place e = some .lru := by
  unfold Lru.recyclable at hsome
  cases hfree : lc.list .free with
  | cons f rest =>
    rw [hfree] at hsome
    cases hsome
    refine .inl (h.mem_iff.mp ?_)
    rw [hfree]
    exact mem_cons_self
  | nil =>
    rw [hfree] at hsome
    exact .inr (h.mem_iff.mp (mem_of_getLast? hsome))

theorem Tracked.prepare (hfree : enr ≠ lcFree)
    (hmiss : ∀ f, ¬ Carries lc place f enr) (hplace : place e = some .free ∨ place e = some .lru)
    (hnr : lc'.nrElements = lc.nrElements) (hlist : lc'.list = moveTo lc.list e .toBeChanged)
    (hel : lc'.lcElement = update lc.lcElement e
      ⟨(lc.lcElement e).refcnt + 1, (lc.lcElement e).lcNumber, enr⟩)
    (hslot : lc'.lcSlot = moveTo lc.lcSlot e (enr % lc.nrElements))
    (hused : lc'.used = lc.used + 1) : Tracked lc' (update place e (some .toBeChanged)) := by
  obtain ⟨k, hk⟩ : ∃ k, place e = some k := by
    rcases hplace with h | h <;> exact ⟨_, h⟩
  have hok := h.element e k hk
  have hlt : e < lc.nrElements := (h.placed_iff e).mp ⟨k, hk⟩
  have hsettled : (lc.lcElement e).lcNumber = (lc.lcElement e).lcNewNumber := by
    have hchg := hok.changing_iff
    rw [hk] at hplace
    rcases hplace with hp | hp <;> cases hp <;> simpa using hchg
  have hdiffers : (lc.lcElement e).lcNumber ≠ enr := by
    -- a recycled label is `LC_FREE` or still in the hash
    rw [hsettled]
    rcases hplace with hp | hp
    · rw [(h.element e .free hp).free_iff.mp (Eq.refl _)]
      exact Ne.symm hfree
    · intro hlabel
      exact hmiss e ⟨⟨.lru, hp, by decide⟩, hlabel⟩
  apply h.move ⟨(lc.lcElement e).refcnt + 1, (lc.lcElement e).lcNumber,
    enr⟩ .toBeChanged hlt hnr hlist hel
  · rw [hslot]
    exact h.chains.moveTo e _
  · exact ⟨by simp, by simp [hfree], by simp [hdiffers]⟩
  · rw [hused]
    rcases hplace with hp | hp <;> simp [hp]
  · intro _ f k' _ hf hk' hlabel
    exact hmiss f ⟨⟨k', hf, hk'⟩, hlabel⟩

theorem Tracked.spare (hplace : place e = some .free ∨ place e = some .lru) :
    e < lc.nrElements ∧ (lc.lcElement e).refcnt = 0 := by
  rcases hplace with hp | hp <;>
    exact ⟨(h.placed_iff e).mp ⟨_, hp⟩, by simpa using (h.element e _ hp).held⟩

omit h in
/-- A label that is not in the hash is not got, for a reason, or an unused element is prepared for
it. -/
theorem lcGetMiss_cases (htracked : Tracked lc place) (enr : Nat) (mayChange : Bool) :
    (∃ dirty starving, lcGetMiss lc enr mayChange = .ok ({ lc with dirty := dirty, starving := starving }, none) ∧
      (mayChange = true → lc.locked = false → lc.pendingChanges < lc.maxPendingChanges →
        lc.list .free = [] ∧ lc.list .lru = [])) ∨
    ∃ e, (place e = some .free ∨ place e = some .lru) ∧ lc.pendingChanges < lc.maxPendingChanges ∧
      lcGetMiss lc enr mayChange = .ok ({ listMove (rehash { lc with dirty := true } e enr) e .toBeChanged with
        lcElement := update lc.lcElement e ⟨(lc.lcElement e).refcnt + 1, (lc.lcElement e).lcNumber, enr⟩
        starving := false
        used := lc.used + 1
        pendingChanges := lc.pendingChanges + 1 }, some e) := by
  unfold lcGetMiss
  dsimp only
  split_ifs with hmay hlocked havail hfull
  · exact .inl ⟨_, _, rfl, fun h => absurd (hmay.symm.trans h) (by decide)⟩
  · exact .inl ⟨_, _, rfl, fun _ h => absurd (hlocked.symm.trans h) (by decide)⟩
  · exact .inl ⟨_, _, rfl, fun _ _ _ => by simpa [lcUnusedElementAvailable] using havail⟩
  · exact .inl ⟨_, _, rfl, fun _ _ h => absurd h (Nat.not_lt.mpr hfull)⟩
  unfold lcPrepareForChange
  cases hrec : recyclable { lc with dirty := true } with
  | none =>
    refine .inl ⟨_, _, rfl, fun _ _ _ => ?_⟩
    unfold recyclable at hrec
    cases hfree : lc.list .free <;> simp_all
  | some e =>
    have hplace := htracked.recyclable hrec
    obtain ⟨hlt, hzero⟩ := htracked.spare hplace
    refine .inr ⟨e, hplace, Nat.not_le.mp hfull, ?_⟩
    dsimp only
    rw [if_neg (Nat.not_le.mpr hlt)]
    dsimp only [listMove, rehash, setElement]
    rw [if_neg (by simp [hzero]), update_idem, update_self]
    rfl

omit h in
theorem lcGetMiss_kept (h : LcInv lc) (htracked : Tracked lc place)
    (hfree : enr ≠ lcFree) (hmiss : ∀ f, ¬ Carries lc place f enr) (mayChange : Bool) :
    ∃ lc' r, lcGetMiss lc enr mayChange = .ok (lc', r) ∧ Kept lc lc' ∧ SameNumbers lc lc' := by
  rcases lcGetMiss_cases htracked enr mayChange with ⟨dirty, starving, heq, -⟩ | ⟨e, hplace, hroom, heq⟩
  · exact ⟨_, none, heq, ⟨h.with_flags lc.paranoia dirty lc.locked starving, rfl, rfl⟩, fun f => rfl⟩
  refine ⟨_, some e, heq, ⟨⟨⟨_, htracked.prepare hfree hmiss hplace rfl rfl rfl rfl rfl⟩, ?_,
    hroom⟩, rfl, rfl⟩, sameNumbers_update lc e rfl⟩
  have hlen := htracked.lists.length_moveTo e .toBeChanged .toBeChanged
  have hpending := h.pending_eq
  rw [if_pos rfl, if_neg (by rcases hplace with hp | hp <;> simp [hp])] at hlen
  show lc.pendingChanges + 1 = (moveTo lc.list e .toBeChanged .toBeChanged).length
  omega

omit h in
theorem lcGetBase_kept (h : LcInv lc) (hquiet : lc.paranoia = false)
    (hfree : enr ≠ lcFree) (mayChange mayUseUncommitted : Bool) :
    ∃ lc' r, lcGetBase lc enr mayChange mayUseUncommitted = .ok (lc', r) ∧ lc'.paranoia = false ∧
      Kept lc lc' ∧ SameNumbers lc lc' := by
  refine guarded_ok h hquiet fun hin => ?_
  obtain ⟨place, htracked⟩ := hin.tracked
  split_ifs
  · exact ⟨_, none, rfl, (Kept.rfl hin).of_flags, fun f => rfl⟩
  obtain ⟨r, hfind, hiff⟩ := htracked.find_iff enr true
  rw [hfind]
  cases r with
  | some e =>
    obtain ⟨hkept, hnumbers⟩ := lcGetHit_kept hin htracked ((hiff e).mp rfl).1 mayUseUncommitted
    exact ⟨_, _, rfl, hkept.of_flags, hnumbers⟩
  | none =>
    have hmiss : ∀ f, ¬ Carries { lc with paranoia := true } place f enr := by
      intro f hf
      cases (hiff f).mpr ⟨hf, .inr rfl⟩
    obtain ⟨lc', r, hrun, hkept, hnumbers⟩ := lcGetMiss_kept hin htracked hfree hmiss mayChange
    exact ⟨lc', r, hrun, hkept.of_flags, hnumbers⟩

/-! ## lc_del, lc_put and lc_set -/

/-- An element without references is free or on the LRU list, and has one label. -/
theorem Tracked.unused (he : e < lc.nrElements) (hzero : (lc.lcElement e).refcnt = 0) :
    (place e = some .free ∨ place e = some .lru) ∧
      (lc.lcElement e).lcNumber = (lc.lcElement e).lcNewNumber := by
  obtain ⟨k, hk⟩ := (h.placed_iff e).mpr he
  have hok := h.element e k hk
  have hheld := hok.held
  have hchg := hok.changing_iff
  cases k <;> simp_all

theorem Tracked.relabel (he : e < lc.nrElements)
    (hzero : (lc.lcElement e).refcnt = 0) (enr : Nat) {k : LcList}
    (hk : k = if enr = lcFree then .free else .lru)
    (hdistinct : enr ≠ lcFree → ∀ f < lc.nrElements, f ≠ e → (lc.lcElement f).lcNewNumber ≠ enr)
    (hnr : lc'.nrElements = lc.nrElements) (hlist : lc'.list = moveTo lc.list e k)
    (hel : lc'.lcElement = update lc.lcElement e ⟨(lc.lcElement e).refcnt, enr, enr⟩)
    (hslot : Placed lc'.lcSlot (update (chainOf lc place) e
      (if k = .free then none else some (enr % lc.nrElements)))) (hused : lc'.used = lc.used) :
    Tracked lc' (update place e (some k)) := by
  obtain ⟨hplace, -⟩ := h.unused he hzero
  apply h.move ⟨(lc.lcElement e).refcnt, enr, enr⟩ k he hnr hlist hel hslot
  · rw [hk]
    split_ifs with hfree <;> exact ⟨by simp [hzero], by simp [hfree], by simp⟩
  · rw [hused, hk]
    by_cases hfree : enr = lcFree <;> rcases hplace with hp | hp <;> simp [hp, hfree]
  · intro hne f k' hf hplacef _
    have hfree : enr ≠ lcFree := by
      rintro rfl
      exact hne (by rw [hk, if_pos rfl])
    exact hdistinct hfree f ((h.placed_iff f).mp ⟨k', hplacef⟩) hf

end

/-- The number of pending changes when an unused element gets a label. -/
theorem LcInv.of_relabel (h : LcInv lc) (htracked : Tracked lc place) (he : e < lc.nrElements)
    (hzero : (lc.lcElement e).refcnt = 0) {k : LcList} (hk : k ≠ .toBeChanged)
    (htracked' : Tracked lc' (update place e (some k)))
    (hlist : lc'.list = moveTo lc.list e k) (hpending : lc'.pendingChanges = lc.pendingChanges)
    (hmax : lc'.maxPendingChanges = lc.maxPendingChanges) : LcInv lc' := by
  refine ⟨⟨_, htracked'⟩, ?_, by rw [hpending, hmax]; exact h.pending_le⟩
  rw [hpending, hlist, h.pending_eq]
  rcases (htracked.unused he hzero).1 with hp | hp <;> exact (htracked.pending_same hp (by decide) hk).symm

section

variable (h : LcInv lc) (hquiet : lc.paranoia = false)

include h hquiet

theorem lcDel_kept (he : e < lc.nrElements) (hzero : (lc.lcElement e).refcnt = 0) :
    ∃ lc' r, lcDel lc e = .ok (lc', r) ∧ lc'.paranoia = false ∧ Kept lc lc' ∧
      ∀ f, (lc'.lcElement f).lcNumber = if f = e then lcFree else (lc.lcElement f).lcNumber := by
  refine guarded_ok h hquiet fun hin => ?_
  obtain ⟨place, htracked⟩ := hin.tracked
  rw [if_neg (Nat.not_le.mpr he), if_neg (not_not.mpr hzero)]
  have hmoved : Tracked (listMove (hlistDel (setElement { lc with paranoia := true } e
      { lc.lcElement e with lcNumber := lcFree, lcNewNumber := lcFree }) e) e .free)
      (update place e (some .free)) :=
    htracked.relabel he hzero lcFree rfl (fun hne => absurd rfl hne) rfl rfl rfl
      (htracked.chains.unlink e) rfl
  refine ⟨_, (), rfl, Kept.of_flags ⟨hin.of_relabel htracked he hzero (by decide)
    hmoved rfl rfl rfl, rfl, rfl⟩, fun f => ?_⟩
  show (update lc.lcElement e _ f).lcNumber = _
  rw [update_apply]
  split_ifs <;> rfl

theorem lcSet_kept {index : Int}
    (hlegal : ∀ e < lc.nrElements, index = e → (lc.lcElement e).refcnt = 0 ∧
      (enr ≠ lcFree → ∀ f < lc.nrElements, f ≠ e → (lc.lcElement f).lcNewNumber ≠ enr)) :
    ∃ lc' r, lcSet lc enr index = .ok (lc', r) ∧ lc'.paranoia = false ∧ Kept lc lc' := by
  unfold lcSet
  by_cases hout : index < 0 ∨ index ≥ lc.nrElements
  · rw [if_pos hout]
    exact ⟨lc, (), rfl, hquiet, .rfl h⟩
  obtain ⟨place, htracked⟩ := h.tracked
  have he : index.toNat < lc.nrElements := by omega
  obtain ⟨hzero, hdistinct⟩ := hlegal index.toNat he (by omega)
  have hsettled := (htracked.unused he hzero).2
  rw [if_neg (not_not.mpr hsettled), if_neg (not_not.mpr hzero)]
  split_ifs with hfree
  · have hmoved : Tracked (listMove (hlistDel (setElement lc index.toNat
        { lc.lcElement index.toNat with lcNumber := enr, lcNewNumber := enr }) index.toNat)
        index.toNat .free) (update place index.toNat (some .free)) :=
      htracked.relabel he hzero enr (if_pos hfree).symm hdistinct rfl rfl rfl (htracked.chains.unlink _) rfl
    exact ⟨_, (), rfl, hquiet, ⟨h.of_relabel htracked he hzero (by decide) hmoved rfl rfl rfl, rfl, rfl⟩⟩
  · have hmoved : Tracked (listMove (rehash (setElement lc index.toNat
        { lc.lcElement index.toNat with lcNumber := enr, lcNewNumber := enr }) index.toNat enr)
        index.toNat .lru) (update place index.toNat (some .lru)) :=
      htracked.relabel he hzero enr (if_neg hfree).symm hdistinct rfl rfl rfl (htracked.chains.moveTo _ _) rfl
    exact ⟨_, (), rfl, hquiet, ⟨h.of_relabel htracked he hzero (by decide) hmoved rfl rfl rfl, rfl, rfl⟩⟩

theorem lcPut_kept (he : e < lc.nrElements) (hpos : 0 < (lc.lcElement e).refcnt)
    (hsettled : (lc.lcElement e).lcNumber = (lc.lcElement e).lcNewNumber) :
    ∃ lc' r, lcPut lc e = .ok (lc', r) ∧ lc'.paranoia = false ∧ Kept lc lc' ∧ SameNumbers lc lc' := by
  refine guarded_ok h hquiet fun hin => ?_
  obtain ⟨place, htracked⟩ := hin.tracked
  obtain ⟨k, hplace⟩ := (htracked.placed_iff e).mpr he
  have hok := htracked.element e k hplace
  obtain rfl : k = .inUse := by
    have hheld := hok.held
    have hchg := hok.changing_iff
    cases k <;> simp_all
  rw [if_neg (Nat.not_le.mpr he), if_neg (Nat.ne_of_gt hpos), if_neg (not_not.mpr hsettled)]
  by_cases hlast : (lc.lcElement e).refcnt - 1 = 0
  · -- the last reference: to the front of the LRU list
    rw [if_pos hlast]
    have hused := htracked.used_eq
    have hmem := length_pos_of_mem (htracked.mem_iff.mpr hplace)
    have hmoved : Tracked { listMove (setElement { lc with paranoia := true } e
        { lc.lcElement e with refcnt := (lc.lcElement e).refcnt - 1 }) e .lru with
          used := lc.used - 1, starving := false } (update place e (some .lru)) := by
      apply htracked.move { lc.lcElement e with refcnt := (lc.lcElement e).refcnt - 1 } .lru he
      · rfl
      · rfl
      · rfl
      · exact htracked.chain_self hplace (by decide) (by decide) rfl
      · have hfree := hok.free_iff
        exact ⟨by simp [hlast], by simpa using hfree, by simp [hsettled]⟩
      · show lc.used - 1 + _ = _
        rw [hplace]
        simp only [true_or, if_true, reduceCtorEq, or_self, if_false]
        dsimp only at hused hmem
        omega
      · intro _ f k' hf hplacef hk' hsame
        exact hf (htracked.distinct f e hsame ⟨k', hplacef, hk'⟩ ⟨.inUse, hplace, by decide⟩)
    have hpending := hin.pending_eq
    rw [← htracked.pending_same hplace (by decide) (show LcList.lru ≠ .toBeChanged by decide)]
      at hpending
    exact ⟨_, _, rfl, Kept.of_flags ⟨⟨⟨_, hmoved⟩, hpending, h.pending_le⟩, rfl, rfl⟩,
      sameNumbers_update _ _ rfl⟩
  · rw [if_neg hlast]
    have hset : Tracked (setElement { lc with paranoia := true } e
        { lc.lcElement e with refcnt := (lc.lcElement e).refcnt - 1 }) place :=
      htracked.set _ hplace rfl { hok with held := by simp; omega }
    exact ⟨_, _, rfl, Kept.of_flags ⟨⟨⟨place, hset⟩, h.pending_eq, h.pending_le⟩, rfl, rfl⟩,
      sameNumbers_update _ _ rfl⟩

/-! ## lc_committed, lc_reset and lc_create -/

omit h hquiet in
theorem Tracked.commitOne (h : Tracked lc place) (hplace : place e = some .toBeChanged) :
    Tracked (commitOne lc e) (update place e (some .inUse)) := by
  have hok := h.element e _ hplace
  have hlt : e < lc.nrElements := (h.placed_iff e).mp ⟨_, hplace⟩
  apply h.move { lc.lcElement e with lcNumber := (lc.lcElement e).lcNewNumber } .inUse hlt
  · rfl
  · rfl
  · rfl
  · exact h.chain_self hplace (by decide) (by decide) rfl
  · have hheld := hok.held
    have hfree := hok.free_iff
    exact ⟨by simpa using hheld, by simpa using hfree, by simp⟩
  · rw [hplace]
    rfl
  · intro _ f k' hf hplacef hk' hsame
    exact hf (h.distinct f e hsame ⟨k', hplacef, hk'⟩ ⟨_, hplace, by decide⟩)

omit h hquiet in
theorem Tracked.commit (h : Tracked lc place) {pending : List Nat}
    (hpending : lc.list .toBeChanged = pending) :
    (∃ place', Tracked (pending.foldl Lru.commitOne lc) place') ∧
      (pending.foldl Lru.commitOne lc).list .toBeChanged = [] ∧
      (pending.foldl Lru.commitOne lc).nrElements = lc.nrElements ∧
      (pending.foldl Lru.commitOne lc).maxPendingChanges = lc.maxPendingChanges ∧
      ∀ f < lc.nrElements,
        ((pending.foldl Lru.commitOne lc).lcElement f).lcNumber = (lc.lcElement f).lcNewNumber := by
  induction pending generalizing lc place with
  | nil =>
    refine ⟨⟨place, h⟩, hpending, rfl, rfl, fun f hf => ?_⟩
    -- without pending changes both labels agree
    obtain ⟨k, hk⟩ := (h.placed_iff f).mpr hf
    have hchg := (h.element f k hk).changing_iff
    have hne : k ≠ .toBeChanged := by
      rintro rfl
      have hmem := h.mem_iff.mpr hk
      rw [hpending] at hmem
      cases hmem
    simpa [hne] using hchg
  | cons e rest ih =>
    have hplace : place e = some .toBeChanged := by
      rw [← h.mem_iff, hpending]
      exact mem_cons_self
    have hrest : (Lru.commitOne lc e).list .toBeChanged = rest := by
      show moveTo lc.list e .inUse .toBeChanged = rest
      rw [moveTo, update_of_ne (by decide), unlink, hpending, erase_cons_head]
    obtain ⟨htracked, hempty, hnr, hmax, hnumbers⟩ := ih (h.commitOne hplace) hrest
    refine ⟨htracked, hempty, hnr, hmax, fun f hf => ?_⟩
    rw [foldl_cons, hnumbers f hf]
    show (update lc.lcElement e _ f).lcNewNumber = _
    by_cases hfe : f = e
    · rw [hfe, update_self]
    · rw [update_of_ne hfe]

/-- `lc_committed` makes every new number the committed one. -/
theorem lcCommitted_kept :
    ∃ lc' r, lcCommitted lc = .ok (lc', r) ∧ lc'.paranoia = false ∧ Kept lc lc' ∧
      ∀ f < lc.nrElements, (lc'.lcElement f).lcNumber = (lc.lcElement f).lcNewNumber := by
  refine guarded_ok h hquiet fun hin => ?_
  obtain ⟨_, htracked⟩ := hin.tracked
  obtain ⟨⟨place', htracked'⟩, hempty, hnr, hmax, hnumbers⟩ := htracked.commit rfl
  refine ⟨_, (), rfl, Kept.of_flags ⟨⟨⟨place', { htracked' with }⟩, ?_, Nat.zero_le _⟩,
    hnr, hmax⟩, hnumbers⟩
  rw [hempty]
  rfl

end

theorem tracked_fresh (hnr : 0 < lc.nrElements) (hlist : lc.list = freshLists lc.nrElements)
    (hused : lc.used = 0) (hslot : lc.lcSlot = fun _ => [])
    (hel : lc.lcElement = fun _ => freshElement) :
    Tracked lc (fun e => if e < lc.nrElements then some .free else none) := by
  have hplaced : ∀ {f : Nat} {k : LcList},
      (if f < lc.nrElements then some LcList.free else none) = some k → k = .free := by
    simp
  constructor
  · exact hnr
  · rw [hlist]
    constructor
    · intro k
      cases k <;> simp [freshLists, nodup_range]
    · intro k f
      cases k <;> simp [freshLists]
  · simp
  · rw [hused, hlist]
    rfl
  · intro f k hk
    cases hplaced hk
    rw [hel]
    exact ⟨by simp [freshElement], by simp [freshElement], by simp [freshElement]⟩
  · rw [hslot]
    constructor
    · simp
    intro c f
    simp only [chainOf]
    split_ifs <;> simp
  · simp

theorem lcReset_kept (h : LcInv lc) : Kept lc (lcReset lc) := by
  have hfresh : Tracked (lcReset lc) _ := tracked_fresh h.nr_pos rfl rfl rfl rfl
  exact ⟨⟨⟨_, hfresh⟩, rfl, Nat.zero_le _⟩, rfl, rfl⟩

theorem lcCreate_inv {maxPendingChanges eCount : Nat} (hpos : 0 < eCount)
    (hcreate : lcCreate maxPendingChanges eCount = some lc) :
    LcInv lc ∧ lc.paranoia = false ∧ lc.nrElements = eCount ∧
      lc.maxPendingChanges = maxPendingChanges := by
  unfold lcCreate at hcreate
  split at hcreate
  · cases hcreate
  · cases hcreate
    exact ⟨⟨⟨_, tracked_fresh hpos rfl rfl rfl rfl⟩, rfl, Nat.zero_le _⟩, rfl, rfl, rfl⟩

end Bsr.Lru
