import Bsr.Lru.Labels

/-!
# Who holds the elements of a cache

The users of a cache each know what they have got. `Holds lc held` says that every label is held at
least as often as `held` counts; what is held keeps its labels, whatever else happens to the cache.
-/

namespace Bsr.Lru

open Function

open Lib

/-- Every label with holders is carried by an element with as many references. -/
def Holds (lc : LruCache) (held : Nat → Nat) : Prop :=
  ∀ enr, 0 < held enr → ∃ e < lc.nrElements,
    (lc.lcElement e).lcNewNumber = enr ∧ held enr ≤ (lc.lcElement e).refcnt

/-- The label is committed and held. -/
def Settled (lc : LruCache) (enr : Nat) : Prop :=
  ∃ e < lc.nrElements, (lc.lcElement e).lcNumber = enr ∧ (lc.lcElement e).lcNewNumber = enr ∧
    0 < (lc.lcElement e).refcnt

variable {lc lc' : LruCache} {held : Nat → Nat} {enr e : Nat} {r : Option Nat}

theorem LcInv.unique (h : LcInv lc) {f : Nat} (he : e < lc.nrElements) (hf : f < lc.nrElements)
    (hre : 0 < (lc.lcElement e).refcnt) (hrf : 0 < (lc.lcElement f).refcnt)
    (hlabel : (lc.lcElement e).lcNewNumber = (lc.lcElement f).lcNewNumber) : e = f := by
  obtain ⟨place, htracked⟩ := h.tracked
  have hplaced : ∀ g < lc.nrElements, 0 < (lc.lcElement g).refcnt → ∃ k, place g = some k ∧ k ≠ .free := by
    intro g hg hrg
    obtain ⟨k, hk⟩ := (htracked.placed_iff g).mpr hg
    refine ⟨k, hk, fun hfree => ?_⟩
    have hheld := (htracked.element g k hk).held.mp hrg
    rw [hfree] at hheld
    rcases hheld with hc | hc <;> cases hc
  exact htracked.distinct e f hlabel (hplaced e he hre) (hplaced f hf hrf)

/-! ## What a get does -/

/-- The element `e` is the result of a get. -/
structure GotElement (lc lc' : LruCache) (enr e : Nat) : Prop where
  lt : e < lc.nrElements
  others : ∀ f, f ≠ e → lc'.lcElement f = lc.lcElement f
  label : (lc'.lcElement e).lcNewNumber = enr
  number : (lc'.lcElement e).lcNumber = (lc.lcElement e).lcNumber
  refcnt : (lc'.lcElement e).refcnt = (lc.lcElement e).refcnt + 1
  kept : 0 < (lc.lcElement e).refcnt → (lc.lcElement e).lcNewNumber = enr
  used : lc'.used ≤ lc.used + 1
  pending : lc'.pendingChanges ≤ lc.pendingChanges + 1
  starving : lc'.starving = false

/-- The effect of `__lc_get`. -/
structure GetEffect (lc lc' : LruCache) (enr : Nat) (r : Option Nat) : Prop where
  nr_eq : lc'.nrElements = lc.nrElements
  max_eq : lc'.maxPendingChanges = lc.maxPendingChanges
  locked_eq : lc'.locked = lc.locked
  missed : r = none → lc'.lcElement = lc.lcElement
  got : ∀ e, r = some e → GotElement lc lc' enr e

theorem lcGetHit_effect (he : e < lc.nrElements) (hlabel : (lc.lcElement e).lcNewNumber = enr)
    (hstarving : lc.starving = false) (mayUseUncommitted : Bool) :
    GetEffect lc (lcGetHit lc e mayUseUncommitted).1 enr (lcGetHit lc e mayUseUncommitted).2 := by
  -- one more reference, and the element may move to another list
  have hgot : ∀ used ≤ lc.used + 1, ∀ list, GetEffect lc
      { setElement lc e (lc.lcElement e).ref with used := used, list := list } enr (some e) := by
    intro used hused list
    refine ⟨rfl, rfl, rfl, by simp, fun f hf => ?_⟩
    cases hf
    refine ⟨he, fun g hg => update_of_ne hg .., ?_, ?_, ?_, fun _ => hlabel, hused, Nat.le_succ _, hstarving⟩
    all_goals simp [setElement, hlabel]
  unfold lcGetHit
  dsimp only
  split_ifs with hchanging hmay
  · exact hgot _ (Nat.le_succ _) _
  · exact ⟨rfl, rfl, rfl, fun _ => rfl, by simp⟩
  · exact hgot _ (Nat.le_refl _) _
  · exact hgot _ (Nat.le_succ _) _

theorem lcGetMiss_effect {place : Nat → Option LcList} (htracked : Tracked lc place) {mayChange : Bool}
    (hrun : lcGetMiss lc enr mayChange = .ok (lc', r)) : GetEffect lc lc' enr r := by
  rcases lcGetMiss_cases htracked enr mayChange with ⟨_, _, heq, -⟩ | ⟨e, hplace, -, heq⟩ <;>
    rw [heq] at hrun <;> cases hrun
  · exact ⟨rfl, rfl, rfl, fun _ => rfl, nofun⟩
  obtain ⟨hlt, hzero⟩ := htracked.spare hplace
  refine ⟨rfl, rfl, rfl, nofun, fun f hf => ?_⟩
  cases hf
  refine ⟨hlt, fun g hg => update_of_ne hg .., ?_, ?_, ?_, fun hpos => ?_, Nat.le_refl _, Nat.le_refl _, rfl⟩
  iterate 3
    · simp
  · omega

theorem GetEffect.of_flags (h : GetEffect { lc with paranoia := true } lc' enr r) :
    GetEffect lc { lc' with paranoia := false } enr r := by
  exact { h with got := fun e he => { h.got e he with } }

theorem lcGetBase_effect (h : LcInv lc) {mayChange mayUseUncommitted : Bool}
    (hrun : lcGetBase lc enr mayChange mayUseUncommitted = .ok (lc', r)) :
    GetEffect lc lc' enr r := by
  obtain ⟨_, htracked⟩ := (h.with_flags true lc.dirty lc.locked lc.starving).tracked
  obtain ⟨lc₁, hbody, rfl⟩ := guarded_eq hrun
  suffices hgoal : GetEffect { lc with paranoia := true } lc₁ enr r from hgoal.of_flags
  obtain ⟨found, hfind, hiff⟩ := htracked.find_iff enr true
  split_ifs at hbody with hstarving
  · cases hbody
    exact ⟨rfl, rfl, rfl, fun _ => rfl, nofun⟩
  rw [hfind] at hbody
  cases found with
  | some e =>
    obtain ⟨⟨⟨k, hplace, _⟩, hlabel⟩, _⟩ := (hiff e).mp rfl
    have hlt : e < lc.nrElements := (htracked.placed_iff e).mp ⟨k, hplace⟩
    have heffect := @lcGetHit_effect { lc with paranoia := true } enr e hlt hlabel
      (Bool.eq_false_of_not_eq_true hstarving) mayUseUncommitted
    have hres := Except.ok.inj hbody
    rw [hres] at heffect
    exact heffect
  | none => exact lcGetMiss_effect htracked hbody

theorem lcTryGet_number (h : LcInv lc) (hrun : lcTryGet lc enr = .ok (lc', some e)) :
    (lc'.lcElement e).lcNumber = enr ∧ (lc'.lcElement e).lcNewNumber = enr := by
  have heffect := (lcGetBase_effect h hrun).got e rfl
  refine ⟨?_, heffect.label⟩
  rw [heffect.number]
  obtain ⟨_, htracked⟩ := (h.with_flags true lc.dirty lc.locked lc.starving).tracked
  unfold lcTryGet lcGetBase at hrun
  obtain ⟨_, hbody, _⟩ := guarded_eq hrun
  obtain ⟨found, hfind, hiff⟩ := htracked.find_iff enr true
  split_ifs at hbody with hstarving
  · cases hbody
  rw [hfind] at hbody
  cases found with
  | none => cases hbody
  | some f =>
    obtain ⟨⟨_, hlabel⟩, _⟩ := (hiff f).mp rfl
    have hres := Except.ok.inj hbody
    unfold lcGetHit at hres
    dsimp only at hres
    rw [if_neg Bool.false_ne_true] at hres
    split_ifs at hres with hne <;> cases hres
    all_goals
      rw [← hlabel]
      exact (not_not.mp hne).symm

/-- With an unused element and room in the transaction, `lc_get_cumulative` succeeds. -/
theorem lcGetCumulative_ne_none (h : LcInv lc) (hrun : lcGetCumulative lc enr = .ok (lc', r))
    (hlocked : lc.locked = false) (hstarving : lc.starving = false) (hused : lc.used < lc.nrElements)
    (hpending : lc.pendingChanges < lc.maxPendingChanges) : r ≠ none := by
  obtain ⟨_, htracked⟩ := (h.with_flags true lc.dirty lc.locked lc.starving).tracked
  unfold lcGetCumulative lcGetBase at hrun
  obtain ⟨_, hbody, _⟩ := guarded_eq hrun
  obtain ⟨found, hfind, _⟩ := htracked.find_iff enr true
  rw [if_neg (by simp [hstarving]), hfind] at hbody
  -- the elements that are not used are free or on the LRU list
  have hunused : lc.list .free ≠ [] ∨ lc.list .lru ≠ [] := by
    by_contra hnone
    rw [not_or, not_not, not_not] at hnone
    have hlen := htracked.lists_perm.length_eq
    have hcount := htracked.used_eq
    simp only [List.length_append, List.length_range, hnone.1, hnone.2, List.length_nil] at hlen
    simp only at hcount
    omega
  cases found with
  | some e =>
    have hres := Except.ok.inj hbody
    unfold lcGetHit at hres
    dsimp only at hres
    rintro rfl
    rw [if_pos rfl] at hres
    split_ifs at hres <;> cases hres
  | none =>
    rcases lcGetMiss_cases htracked enr true with ⟨dirty, starving, heq, hwhy⟩ | ⟨e, -, -, heq⟩ <;>
      rw [heq] at hbody <;> cases hbody
    · obtain ⟨hfree, hlru⟩ := hwhy rfl hlocked hpending
      exact absurd hunused (not_or.mpr ⟨not_not.mpr hfree, not_not.mpr hlru⟩)
    · exact Option.some_ne_none e

/-! ## What is held stays -/

/-- The references and the labels of held elements are kept. -/
def KeepsHeld (lc lc' : LruCache) : Prop :=
  lc'.nrElements = lc.nrElements ∧ ∀ f < lc.nrElements, 0 < (lc.lcElement f).refcnt →
    (lc.lcElement f).refcnt ≤ (lc'.lcElement f).refcnt ∧
    (lc'.lcElement f).lcNewNumber = (lc.lcElement f).lcNewNumber ∧
    ((lc'.lcElement f).lcNumber = (lc.lcElement f).lcNumber ∨
      (lc'.lcElement f).lcNumber = (lc'.lcElement f).lcNewNumber)

theorem KeepsHeld.of_eq (hnr : lc'.nrElements = lc.nrElements) (h : lc'.lcElement = lc.lcElement) :
    KeepsHeld lc lc' := by
  refine ⟨hnr, fun f _ _ => ?_⟩
  rw [h]
  exact ⟨Nat.le_refl _, rfl, .inl rfl⟩

theorem KeepsHeld.refl (lc : LruCache) : KeepsHeld lc lc :=
  KeepsHeld.of_eq rfl rfl

theorem KeepsHeld.trans {lc'' : LruCache} (h : KeepsHeld lc lc') (h' : KeepsHeld lc' lc'') :
    KeepsHeld lc lc'' := by
  refine ⟨h'.1.trans h.1, fun f hf hpos => ?_⟩
  obtain ⟨hle, hnew, hnum⟩ := h.2 f hf hpos
  obtain ⟨hle', hnew', hnum'⟩ := h'.2 f (h.1.symm ▸ hf) (Nat.lt_of_lt_of_le hpos hle)
  omega

theorem KeepsHeld.holds (hkeep : KeepsHeld lc lc') (h : Holds lc held) : Holds lc' held := by
  intro enr hpos
  obtain ⟨e, he, hlabel, hle⟩ := h enr hpos
  obtain ⟨hrefs, hnew, _⟩ := hkeep.2 e he (Nat.lt_of_lt_of_le hpos hle)
  exact ⟨e, hkeep.1.symm ▸ he, hnew.trans hlabel, Nat.le_trans hle hrefs⟩

theorem KeepsHeld.settled (hkeep : KeepsHeld lc lc') (h : Settled lc enr) : Settled lc' enr := by
  obtain ⟨e, he, hnumber, hnew, hpos⟩ := h
  obtain ⟨hrefs, hnew', hnumber'⟩ := hkeep.2 e he hpos
  refine ⟨e, hkeep.1.symm ▸ he, ?_, hnew'.trans hnew, Nat.lt_of_lt_of_le hpos hrefs⟩
  omega

theorem GetEffect.keepsHeld (h : GetEffect lc lc' enr r) : KeepsHeld lc lc' := by
  cases hr : r with
  | none => exact KeepsHeld.of_eq h.nr_eq (h.missed hr)
  | some e =>
    have hgot := h.got e hr
    refine ⟨h.nr_eq, fun f _ hf => ?_⟩
    by_cases hfe : f = e
    · subst hfe
      rw [hgot.refcnt, hgot.number, hgot.label, hgot.kept hf]
      exact ⟨Nat.le_succ _, rfl, .inl rfl⟩
    · rw [hgot.others f hfe]
      exact ⟨Nat.le_refl _, rfl, .inl rfl⟩

theorem GetEffect.holds (h : GetEffect lc lc' enr r) (hinv' : LcInv lc') (hholds : Holds lc held) :
    Holds lc' (if r = none then held else update held enr (held enr + 1)) := by
  have hkept := h.keepsHeld.holds hholds
  cases hr : r with
  | none => exact hkept
  | some e =>
    have hgot := h.got e hr
    have hlt : e < lc'.nrElements := h.nr_eq.symm ▸ hgot.lt
    rw [if_neg (Option.some_ne_none e)]
    intro n hn
    by_cases hne : n = enr
    · subst hne
      rw [update_self]
      refine ⟨e, hlt, hgot.label, ?_⟩
      rw [hgot.refcnt]
      by_cases hpos : 0 < held n
      · obtain ⟨f, hf, hlabel, hle⟩ := hholds n hpos
        obtain ⟨_, hnew, _⟩ := h.keepsHeld.2 f hf (Nat.lt_of_lt_of_le hpos hle)
        -- both carry the label in the new cache, so they are one
        have hef : f = e := by
          apply hinv'.unique (h.nr_eq.symm ▸ hf) hlt
          · omega
          · rw [hgot.refcnt]
            omega
          · rw [hnew, hlabel, hgot.label]
        rw [← hef]
        omega
      · omega
    · rw [update_of_ne hne] at hn ⊢
      exact hkept n hn

theorem lcDel_keepsHeld {u : Unit} (hrun : lcDel lc e = .ok (lc', u)) : KeepsHeld lc lc' := by
  obtain ⟨_, hbody, rfl⟩ := guarded_eq hrun
  split_ifs at hbody with he hzero
  cases hbody
  refine ⟨rfl, fun f _ hf => ?_⟩
  have hfe : f ≠ e := by
    rintro rfl
    exact hzero (Nat.ne_of_gt hf)
  have hsame : (setElement { lc with paranoia := true } e
      { lc.lcElement e with lcNumber := lcFree, lcNewNumber := lcFree }).lcElement f =
      lc.lcElement f := update_of_ne hfe ..
  dsimp only [listMove, hlistDel]
  rw [hsame]
  exact ⟨Nat.le_refl _, rfl, .inl rfl⟩

theorem commitOne_foldl_refs (l : List Nat) (lc : LruCache) (f : Nat) :
    ((l.foldl commitOne lc).lcElement f).refcnt = (lc.lcElement f).refcnt ∧
      ((l.foldl commitOne lc).lcElement f).lcNewNumber = (lc.lcElement f).lcNewNumber := by
  induction l generalizing lc with
  | nil => exact ⟨rfl, rfl⟩
  | cons e l ih =>
    obtain ⟨h1, h2⟩ := ih (commitOne lc e)
    rw [List.foldl_cons, h1, h2]
    by_cases hf : f = e
    · subst hf
      simp [commitOne, listMove, setElement]
    · simp [commitOne, listMove, setElement, update_of_ne hf]

theorem lcCommitted_keepsHeld (h : LcInv lc) (hquiet : lc.paranoia = false) {u : Unit}
    (hrun : lcCommitted lc = .ok (lc', u)) :
    KeepsHeld lc lc' ∧ ∀ f < lc.nrElements, (lc'.lcElement f).lcNumber = (lc'.lcElement f).lcNewNumber := by
  obtain ⟨_, _, hrun', _, hkept, hnumbers⟩ := lcCommitted_kept h hquiet
  rw [hrun] at hrun'
  cases hrun'
  obtain ⟨_, hbody, rfl⟩ := guarded_eq hrun
  cases hbody
  have hrefs := commitOne_foldl_refs (lc.list .toBeChanged) { lc with paranoia := true }
  have hall : ∀ f < lc.nrElements,
      (((lc.list .toBeChanged).foldl commitOne { lc with paranoia := true }).lcElement f).lcNumber =
      (((lc.list .toBeChanged).foldl commitOne { lc with paranoia := true }).lcElement f).lcNewNumber := by
    intro f hf
    rw [(hrefs f).2]
    exact hnumbers f hf
  exact ⟨⟨hkept.nr_eq, fun f hf _ => ⟨Nat.le_of_eq (hrefs f).1.symm, (hrefs f).2,
    .inr (hall f hf)⟩⟩, hall⟩

theorem lcPut_effect {n : Nat} (hrun : lcPut lc e = .ok (lc', n)) :
    lc'.nrElements = lc.nrElements ∧ e < lc.nrElements ∧ 0 < (lc.lcElement e).refcnt ∧
    lc'.lcElement = update lc.lcElement e
      { lc.lcElement e with refcnt := (lc.lcElement e).refcnt - 1 } := by
  obtain ⟨_, hbody, rfl⟩ := guarded_eq hrun
  dsimp only at hbody
  split_ifs at hbody with he hzero hchanging hlast
  · cases hbody
    exact ⟨rfl, Nat.not_le.mp he, Nat.pos_of_ne_zero hzero, rfl⟩
  · cases hbody
    exact ⟨rfl, Nat.not_le.mp he, Nat.pos_of_ne_zero hzero, rfl⟩

theorem Holds.put {n : Nat} (hinv : LcInv lc) (hrun : lcPut lc e = .ok (lc', n))
    (h : Holds lc (update held enr (held enr + 1)))
    (hlabel : (lc.lcElement e).lcNewNumber = enr) : Holds lc' held := by
  obtain ⟨hnr, he, hpos, hel⟩ := lcPut_effect hrun
  intro m hm
  by_cases hme : m = enr
  · subst hme
    obtain ⟨f, hf, hlabelf, hle⟩ := h m (by rw [update_self]; exact Nat.succ_pos _)
    rw [update_self] at hle
    have hfe : f = e := hinv.unique hf he (by omega) hpos (by rw [hlabelf, hlabel])
    subst hfe
    refine ⟨f, hnr.symm ▸ hf, ?_, ?_⟩
    · rw [hel, update_self]
      exact hlabelf
    rw [hel, update_self]
    show held m ≤ (lc.lcElement f).refcnt - 1
    omega
  · obtain ⟨f, hf, hlabelf, hle⟩ := h m (by rw [update_of_ne hme]; exact hm)
    rw [update_of_ne hme] at hle
    have hfe : f ≠ e := by
      rintro rfl
      exact hme (hlabelf.symm.trans hlabel)
    refine ⟨f, hnr.symm ▸ hf, ?_, ?_⟩
    · rw [hel, update_of_ne hfe]
      exact hlabelf
    · rw [hel, update_of_ne hfe]
      exact hle

/-- A committed label that is held by someone else, too, survives a put. -/
theorem Settled.put {n m : Nat} (hrun : lcPut lc e = .ok (lc', n)) (hinv : LcInv lc)
    (hholds : Holds lc' held) (hpos : 0 < held m) (h : Settled lc m) : Settled lc' m := by
  obtain ⟨hnr, _, _, hel⟩ := lcPut_effect hrun
  obtain ⟨f, hf, hnumber, hnew, hposf⟩ := h
  obtain ⟨g, hg, hlabelg, _⟩ := hholds m hpos
  have hsame : ∀ i, (lc'.lcElement i).lcNumber = (lc.lcElement i).lcNumber ∧
      (lc'.lcElement i).lcNewNumber = (lc.lcElement i).lcNewNumber ∧
      (lc'.lcElement i).refcnt ≤ (lc.lcElement i).refcnt := by
    intro i
    rw [hel]
    by_cases hi : i = e
    · subst hi
      simp
    · rw [update_of_ne hi]
      exact ⟨rfl, rfl, Nat.le_refl _⟩
  have hgf : g = f := by
    apply hinv.unique (hnr ▸ hg) hf _ hposf
    · rw [hnew, ← (hsame g).2.1, hlabelg]
    · have := (hsame g).2.2
      omega
  subst hgf
  refine ⟨g, hg, (hsame g).1.trans hnumber, hlabelg, by omega⟩

end Bsr.Lru
