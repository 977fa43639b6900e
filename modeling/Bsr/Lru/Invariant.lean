import Bsr.Lru.Model

/-!
# The joint invariant of the cache

`Tracked lc place` ties together the four lists, the reference counts, the two labels of every
element and the hash chains; `place` says on which list an element is. Every operation moves at most
one element at a time, and `Tracked.move` says once what such a move has to respect.
-/

namespace Bsr.Lru

open Function

open Lib

/-- The chain an element is on: elements off the free list are hashed by their new number. -/
def chainOf (lc : LruCache) (place : Nat → Option LcList) (e : Nat) : Option Nat :=
  match place e with
  | none | some .free => none
  | some _ => some ((lc.lcElement e).lcNewNumber % lc.nrElements)

/-- What the labels and the reference count of an element on list `k` look like. -/
structure ElementOk (k : LcList) (x : LcElement) : Prop where
  held : 0 < x.refcnt ↔ k = .inUse ∨ k = .toBeChanged
  free_iff : k = .free ↔ x.lcNewNumber = lcFree
  changing_iff : k = .toBeChanged ↔ x.lcNumber ≠ x.lcNewNumber

/-- The lists, the elements and the chains of a cache fit together. -/
structure Tracked (lc : LruCache) (place : Nat → Option LcList) : Prop where
  nr_pos : 0 < lc.nrElements
  lists : Placed lc.list place
  placed_iff : ∀ e, (∃ k, place e = some k) ↔ e < lc.nrElements
  used_eq : lc.used = (lc.list .inUse).length + (lc.list .toBeChanged).length
  element : ∀ e k, place e = some k → ElementOk k (lc.lcElement e)
  chains : Placed lc.lcSlot (chainOf lc place)
  distinct : ∀ e f, (lc.lcElement e).lcNewNumber = (lc.lcElement f).lcNewNumber →
    (∃ k, place e = some k ∧ k ≠ .free) → (∃ k, place f = some k ∧ k ≠ .free) → e = f

variable {lc lc' : LruCache} {place : Nat → Option LcList} {e : Nat} {k : LcList}

theorem chainOf_free (lc : LruCache) (h : place e = some .free) : chainOf lc place e = none := by
  simp [chainOf, h]

theorem chainOf_hashed (lc : LruCache) (h : place e = some k) (hk : k ≠ .free) :
    chainOf lc place e = some ((lc.lcElement e).lcNewNumber % lc.nrElements) := by
  unfold chainOf
  rw [h]
  cases k <;> first | rfl | exact absurd rfl hk

/-- Only the element that moves can change its chain. -/
theorem chainOf_move {x : LcElement} (hnr : lc'.nrElements = lc.nrElements)
    (hel : lc'.lcElement = update lc.lcElement e x) (k : LcList) :
    chainOf lc' (update place e (some k)) = update (chainOf lc place) e
      (if k = .free then none else some (x.lcNewNumber % lc.nrElements)) := by
  funext f
  by_cases hf : f = e
  · subst hf
    rw [update_self]
    split_ifs with hk
    · rw [hk]
      exact chainOf_free lc' (update_self ..)
    · rw [chainOf_hashed lc' (update_self ..) hk, hel, update_self, hnr]
  · rw [update_of_ne hf]
    unfold chainOf
    rw [update_of_ne hf, hel, update_of_ne hf, hnr]

variable (h : Tracked lc place)

include h

theorem Tracked.move (x : LcElement) (k : LcList)
    (he : e < lc.nrElements) (hnr : lc'.nrElements = lc.nrElements)
    (hlist : lc'.list = moveTo lc.list e k) (hel : lc'.lcElement = update lc.lcElement e x)
    (hslot : Placed lc'.lcSlot (update (chainOf lc place) e
      (if k = .free then none else some (x.lcNewNumber % lc.nrElements)))) (hok : ElementOk k x)
    (hused : lc'.used + (if place e = some .inUse ∨ place e = some .toBeChanged then 1 else 0) =
      lc.used + (if k = .inUse ∨ k = .toBeChanged then 1 else 0))
    (hfresh : k ≠ .free → ∀ f k', f ≠ e → place f = some k' → k' ≠ .free →
      (lc.lcElement f).lcNewNumber ≠ x.lcNewNumber) : Tracked lc' (update place e (some k)) := by
  constructor
  · omega
  · rw [hlist]
    exact h.lists.moveTo e k
  · intro f
    rw [hnr, ← h.placed_iff f]
    by_cases hf : f = e
    · subst hf
      rw [update_self]
      exact ⟨fun _ => (h.placed_iff f).mpr he, fun _ => ⟨k, rfl⟩⟩
    · rw [update_of_ne hf]
  · have huse := h.lists.length_moveTo e k .inUse
    have hchg := h.lists.length_moveTo e k .toBeChanged
    have hbefore := h.used_eq
    cases hplace : place e with
    | none => simp_all; cases k <;> simp_all <;> omega
    | some j => cases j <;> cases k <;> simp_all <;> omega
  · intro f j hplace
    rw [hel]
    by_cases hf : f = e
    · subst hf
      rw [update_self] at hplace ⊢
      cases hplace
      exact hok
    · rw [update_of_ne hf] at hplace ⊢
      exact h.element f j hplace
  · rw [chainOf_move hnr hel k]
    exact hslot
  · intro f g hlabel ⟨kf, hf, hkf⟩ ⟨kg, hg, hkg⟩
    rw [hel] at hlabel
    by_cases hfe : f = e <;> by_cases hge : g = e
    · rw [hfe, hge]
    · subst hfe
      rw [update_self, update_of_ne hge] at hlabel
      rw [update_self] at hf
      rw [update_of_ne hge] at hg
      cases hf
      exact absurd hlabel.symm (hfresh hkf g kg hge hg hkg)
    · subst hge
      rw [update_self, update_of_ne hfe] at hlabel
      rw [update_self] at hg
      rw [update_of_ne hfe] at hf
      cases hg
      exact absurd hlabel (hfresh hkg f kf hfe hf hkf)
    · rw [update_of_ne hfe, update_of_ne hge] at hlabel
      rw [update_of_ne hfe] at hf
      rw [update_of_ne hge] at hg
      exact h.distinct f g hlabel ⟨kf, hf, hkf⟩ ⟨kg, hg, hkg⟩

theorem Tracked.set (x : LcElement) (hplace : place e = some k)
    (hnew : x.lcNewNumber = (lc.lcElement e).lcNewNumber) (hok : ElementOk k x) :
    Tracked (setElement lc e x) place := by
  have hlabel : ∀ f, ((setElement lc e x).lcElement f).lcNewNumber = (lc.lcElement f).lcNewNumber := by
    intro f
    by_cases hf : f = e
    · subst hf
      simp [setElement, hnew]
    · simp [setElement, hf]
  have hchain : chainOf (setElement lc e x) place = chainOf lc place := by
    funext f
    unfold chainOf
    rw [hlabel]
    rfl
  constructor
  · exact h.nr_pos
  · exact h.lists
  · exact h.placed_iff
  · exact h.used_eq
  · intro f j hf
    by_cases hfe : f = e
    · subst hfe
      rw [hplace] at hf
      cases hf
      simpa [setElement] using hok
    · simpa [setElement, hfe] using h.element f j hf
  · rw [hchain]
    exact h.chains
  · intro f g hfg
    rw [hlabel, hlabel] at hfg
    exact h.distinct f g hfg

/-! ## Consequences -/

theorem Tracked.mem_iff : e ∈ lc.list k ↔ place e = some k :=
  h.lists.mem_iff k e

theorem Tracked.lt_of_mem (hmem : e ∈ lc.list k) : e < lc.nrElements :=
  (h.placed_iff e).mp ⟨k, h.mem_iff.mp hmem⟩

theorem Tracked.mem_chain_iff (c : Nat) : e ∈ lc.lcSlot c ↔ ∃ k, place e = some k ∧ k ≠ .free ∧
      (lc.lcElement e).lcNewNumber % lc.nrElements = c := by
  rw [h.chains.mem_iff]
  constructor
  · intro hc
    cases hplace : place e with
    | none => simp [chainOf, hplace] at hc
    | some k =>
      by_cases hk : k = .free
      · subst hk
        rw [chainOf_free lc hplace] at hc
        cases hc
      · rw [chainOf_hashed lc hplace hk] at hc
        exact ⟨k, rfl, hk, Option.some.inj hc⟩
  · rintro ⟨k, hplace, hk, rfl⟩
    exact chainOf_hashed lc hplace hk

/-- The element that carries a label, committed or pending. -/
def Carries (lc : LruCache) (place : Nat → Option LcList) (e enr : Nat) : Prop :=
  (∃ k, place e = some k ∧ k ≠ .free) ∧ (lc.lcElement e).lcNewNumber = enr

theorem Tracked.mem_slot_of_carries {enr : Nat} (hc : Carries lc place e enr) :
    e ∈ lc.lcSlot (lcHashSlot lc enr) := by
  obtain ⟨⟨k, hplace, hk⟩, hlabel⟩ := hc
  rw [h.mem_chain_iff]
  exact ⟨k, hplace, hk, by rw [hlabel, lcHashSlot]⟩

omit h in
theorem findInChain_some {enr : Nat} {includeChanging : Bool} {chain : List Nat}
    (hfind : findInChain lc enr includeChanging chain = some e) :
    e ∈ chain ∧ (lc.lcElement e).lcNewNumber = enr ∧
      ((lc.lcElement e).lcNumber = enr ∨ includeChanging = true) := by
  induction chain with
  | nil => cases hfind
  | cons f rest ih =>
    unfold findInChain at hfind
    by_cases hlabel : (lc.lcElement f).lcNewNumber ≠ enr
    · rw [if_pos hlabel] at hfind
      obtain ⟨hmem, hrest⟩ := ih hfind
      exact ⟨List.mem_cons_of_mem f hmem, hrest⟩
    rw [if_neg hlabel] at hfind
    rw [not_not] at hlabel
    split at hfind
    · rename_i hcond
      cases hfind
      refine ⟨List.mem_cons_self, hlabel, ?_⟩
      rcases hcond with hnumber | hinclude
      · exact .inl (by rw [← hnumber, hlabel])
      · exact .inr hinclude
    · cases hfind

omit h in
/-- A walk along a chain with one carrier of the label finds it, if it may. -/
theorem findInChain_eq {enr : Nat} {includeChanging : Bool} {chain : List Nat} (hmem : e ∈ chain)
    (hlabel : (lc.lcElement e).lcNewNumber = enr)
    (hunique : ∀ f ∈ chain, (lc.lcElement f).lcNewNumber = enr → f = e)
    (hmay : (lc.lcElement e).lcNumber = enr ∨ includeChanging = true) :
    findInChain lc enr includeChanging chain = some e := by
  induction chain with
  | nil => cases hmem
  | cons f rest ih =>
    unfold findInChain
    by_cases hf : (lc.lcElement f).lcNewNumber = enr
    · obtain rfl := hunique f List.mem_cons_self hf
      rw [if_neg (not_not.mpr hf), if_pos]
      rcases hmay with hnumber | hinclude
      · exact .inl (by rw [hlabel, hnumber])
      · exact .inr hinclude
    · have hne : e ≠ f := by
        rintro rfl
        exact hf hlabel
      rw [if_pos hf]
      exact ih ((List.mem_cons.mp hmem).resolve_left hne)
        (fun g hg => hunique g (List.mem_cons_of_mem f hg))

/-- `__lc_find` finds the carrier of a label, unless it must be committed and is not. -/
theorem Tracked.find_iff (enr : Nat) (includeChanging : Bool) :
    ∃ r, lcFindBase lc enr includeChanging = .ok r ∧ ∀ e, r = some e ↔
      Carries lc place e enr ∧ ((lc.lcElement e).lcNumber = enr ∨ includeChanging = true) := by
  refine ⟨_, if_neg (Nat.ne_of_gt h.nr_pos), fun e => ⟨fun hfind => ?_, ?_⟩⟩
  · obtain ⟨hmem, hlabel, hmay⟩ := findInChain_some hfind
    obtain ⟨k, hplace, hk, -⟩ := (h.mem_chain_iff _).mp hmem
    exact ⟨⟨⟨k, hplace, hk⟩, hlabel⟩, hmay⟩
  rintro ⟨hcarries, hmay⟩
  refine findInChain_eq (h.mem_slot_of_carries hcarries) hcarries.2 ?_ hmay
  intro f hf hlabel
  obtain ⟨k, hplace, hk, -⟩ := (h.mem_chain_iff _).mp hf
  exact h.distinct f e (hlabel.trans hcarries.2.symm) ⟨k, hplace, hk⟩ hcarries.1

end Bsr.Lru
