import Bsr.Lib.RangeList

/-!
# The list of pending resync sectors

A resync target keeps the ranges of sectors that wait for a resync request
(`resync_pending_sectors`). In an entry `lo` is `sst` and `hi` is `est`.

* `listAddResyncPending` adds a range: it expands the first entry that overlaps and cuts the others,
  or sorts a new entry in;
* `dedupFromResyncPending` removes a range, which may split an entry;
* `resync_pending_exact` says that the list stands for the set of the sectors added and not removed
since. -/

namespace Bsr.Resync

open Lib

/-- `struct bsr_resync_pending_sectors`. -/
abbrev PendingSectors := Range Nat

/-! ## Model -/

/-- One round of the loop of `dedup_from_resync_pending`: what is left of an entry. -/
def dedupEntry (sst est : Nat) (target : PendingSectors) : List PendingSectors :=
  if sst ≤ target.lo ∧ est ≥ target.hi then []
  else
    -- the middle is removed, and what follows it becomes an entry of its own
    let inside := sst ≥ target.lo ∧ est ≤ target.hi
    let split : List PendingSectors := if inside then [⟨est, target.hi⟩] else []
    let target := if inside then { target with hi := sst } else target
    let target := if sst ≤ target.lo ∧ est > target.lo ∧ est ≤ target.hi then { target with lo := est } else target
    let target := if sst ≥ target.lo ∧ sst < target.hi ∧ est ≥ target.hi then { target with hi := sst } else target
    target :: split

variable (l : List PendingSectors)

/-- `dedup_from_resync_pending`; the entry that a split adds is not visited. -/
def dedupFromResyncPending (sst est : Nat) : List PendingSectors :=
  l.flatMap (dedupEntry sst est)

/-- One round of the loop of `resync_pending_check_and_expand_dup`. -/
def expandDup (sst est : Nat) (p : PendingSectors) : Option PendingSectors :=
  if sst ≥ p.lo ∧ sst ≤ p.hi ∧ est ≤ p.hi then some p
  else if sst ≤ p.lo ∧ est ≥ p.lo ∧ est > p.hi then some ⟨sst, est⟩
  else if sst ≥ p.lo ∧ sst < p.hi ∧ est > p.hi then some { p with hi := est }
  else if sst < p.lo ∧ est > p.lo ∧ est ≤ p.hi then some { p with lo := sst }
  else none

/-- A list around one of its entries. -/
structure Located where
  before : List PendingSectors
  entry : PendingSectors
  after : List PendingSectors

/-- `resync_pending_check_and_expand_dup`: the entry that was found, expanded in its place. -/
def resyncPendingCheckAndExpandDup (sst est : Nat) : List PendingSectors → Option Located
  | [] => none
  | p :: rest =>
    match expandDup sst est p with
    | some p' => some ⟨[], p', rest⟩
    | none => (resyncPendingCheckAndExpandDup sst est rest).map fun z => { z with before := p :: z.before }

/-- One round of the loop of `resync_pending_list_all_check_and_dedup`. -/
def cutDup (pending target : PendingSectors) : List PendingSectors :=
  if pending.lo ≤ target.lo ∧ pending.hi ≥ target.hi then []
  else
    let target := if pending.lo > target.lo ∧ pending.lo ≤ target.hi then { target with hi := pending.lo } else target
    let target := if pending.lo ≤ target.lo ∧ pending.hi > target.lo then { target with lo := pending.hi } else target
    [target]

def resyncPendingListAllCheckAndDedup (z : Located) : List PendingSectors :=
  z.before.flatMap (cutDup z.entry) ++ z.entry :: z.after.flatMap (cutDup z.entry)

/-- "add to the list in sequential sort". -/
def insertSorted (p : PendingSectors) : List PendingSectors → List PendingSectors
  | [] => [p]
  | target :: rest => if p.lo < target.lo then p :: target :: rest else target :: insertSorted p rest

def listAddResyncPending (sst est : Nat) : List PendingSectors :=
  match resyncPendingCheckAndExpandDup sst est l with
  | some z => resyncPendingListAllCheckAndDedup z
  | none => insertSorted ⟨sst, est⟩ l

/-! ## Removing -/

section

variable {sst est : Nat} {p q : PendingSectors} {l : List PendingSectors}

theorem dedupEntry_eq (hlt : sst < est) (hp : p.lo ≤ p.hi) : dedupEntry sst est p =
      if sst ≤ p.lo ∧ p.hi ≤ est then []
      else if p.lo ≤ sst ∧ est ≤ p.hi then [⟨p.lo, sst⟩, ⟨est, p.hi⟩]
      else if sst < p.lo ∧ p.lo < est then [⟨est, p.hi⟩]
      else if sst < p.hi ∧ p.hi < est then [⟨p.lo, sst⟩]
      else [p] := by
  unfold dedupEntry
  dsimp only
  split_ifs <;> first | rfl | (exfalso; omega) | (simp only at *; exfalso; omega)

open Separated

theorem dedupEntry_spec (hlt : sst < est) (hp : p.lo ≤ p.hi) :
    Separated (dedupEntry sst est p) ∧ (∀ q ∈ dedupEntry sst est p, p.lo ≤ q.lo ∧ q.hi ≤ p.hi) ∧
      covered (dedupEntry sst est p) = p.toSet \ Set.Ico sst est := by
  rw [dedupEntry_eq hlt hp]
  refine ⟨?_, ?_, ?_⟩
  · split_ifs <;> simp [cons_iff, nil] <;> omega
  · split_ifs <;> simp <;> omega
  · ext x
    split_ifs <;> simp [covered_cons, Range.toSet] <;> omega

theorem separated_dedup (hlt : sst < est) (h : Separated l) : Separated (dedupFromResyncPending l sst est) :=
  h.flatMap fun p hp => ⟨(dedupEntry_spec hlt (h.valid p hp)).1, (dedupEntry_spec hlt (h.valid p hp)).2.1⟩

theorem covered_dedup (hlt : sst < est) (h : Separated l) :
    covered (dedupFromResyncPending l sst est) = covered l \ Set.Ico sst est :=
  covered_flatMap_diff fun p hp => (dedupEntry_spec hlt (h.valid p hp)).2.2

/-! ## Adding -/

/-- An entry that is not expanded lies apart from the range. -/
theorem apart_of_expandDup_none (h : expandDup sst est p = none) : p.hi ≤ sst ∨ est ≤ p.lo := by
  unfold expandDup at h
  split_ifs at h
  omega

/-- An entry that is expanded overlaps the range or is empty, and grows to the hull of both. -/
theorem expandDup_some (hp : p.lo ≤ p.hi) (hlt : sst < est) (h : expandDup sst est p = some q) :
    q.lo = min p.lo sst ∧ q.hi = max p.hi est ∧ p.lo < est ∧ sst ≤ p.hi := by
  unfold expandDup at h
  split_ifs at h
  · cases h
    omega
  · cases h
    change sst = _ ∧ est = _ ∧ _
    omega
  · cases h
    change p.lo = _ ∧ est = _ ∧ _
    omega
  · cases h
    change sst = _ ∧ p.hi = _ ∧ _
    omega

/-- An entry on one side of the expanded one loses what they have in common. -/
theorem cutDup_spec (hp : p.lo ≤ p.hi) (hq : q.lo ≤ q.hi) (hside : p.hi ≤ q.lo ∨ q.lo ≤ p.lo) :
    Separated (cutDup q p) ∧ (∀ r ∈ cutDup q p, p.lo ≤ r.lo ∧ r.hi ≤ p.hi ∧
      (q.lo ≤ p.lo → q.hi ≤ r.lo)) ∧ covered (cutDup q p) = p.toSet \ q.toSet := by
  unfold cutDup
  dsimp only
  refine ⟨?_, ?_, ?_⟩
  · split_ifs <;> simp_all [cons_iff, nil] <;> omega
  · split_ifs <;> simp_all <;> omega
  · ext x
    split_ifs <;> simp_all [covered_cons, Range.toSet] <;> omega

open List

/-- Where the entry was found: those before it lie before the range. -/
theorem checkAndExpandDup_some (hlt : sst < est) {z : Located} (h : Separated l)
    (hz : resyncPendingCheckAndExpandDup sst est l = some z) :
    ∃ p, l = z.before ++ p :: z.after ∧ expandDup sst est p = some z.entry ∧ ∀ q ∈ z.before, q.hi ≤ sst := by
  induction l generalizing z with
  | nil => cases hz
  | cons p rest ih =>
    obtain ⟨_, hrel, hrest⟩ := cons_iff.1 h
    unfold resyncPendingCheckAndExpandDup at hz
    cases hex : expandDup sst est p with
    | some p' =>
      rw [hex] at hz
      cases hz
      exact ⟨p, rfl, hex, nofun⟩
    | none =>
      rw [hex] at hz
      obtain ⟨_, hz', rfl⟩ := Option.map_eq_some_iff.1 hz
      obtain ⟨r, hl, hr, hbefore⟩ := ih hrest hz'
      refine ⟨r, congrArg (p :: ·) hl, hr, ?_⟩
      have hmem : r ∈ rest := hl ▸ mem_append_right _ (mem_cons_self ..)
      have hover := (expandDup_some (hrest.valid r hmem) hlt hr).2.2.1
      have hgap := hrel r hmem
      refine forall_mem_cons.2 ⟨?_, hbefore⟩
      have hapart := apart_of_expandDup_none hex
      omega

theorem checkAndExpandDup_none (h : resyncPendingCheckAndExpandDup sst est l = none) :
    ∀ p ∈ l, p.hi ≤ sst ∨ est ≤ p.lo := by
  induction l with
  | nil => exact nofun
  | cons p rest ih =>
    unfold resyncPendingCheckAndExpandDup at h
    cases hex : expandDup sst est p with
    | some p' =>
      rw [hex] at h
      cases h
    | none =>
      rw [hex] at h
      exact forall_mem_cons.2 ⟨apart_of_expandDup_none hex, ih (Option.map_eq_none_iff.1 h)⟩

theorem allCheckAndDedup_spec (hlt : sst < est) {z : Located} (h : Separated (z.before ++ p :: z.after))
    (hp : expandDup sst est p = some z.entry) (hbefore : ∀ q ∈ z.before, q.hi ≤ sst) :
    Separated (resyncPendingListAllCheckAndDedup z) ∧
      covered (resyncPendingListAllCheckAndDedup z) = covered (z.before ++ p :: z.after) ∪ Set.Ico sst est := by
  obtain ⟨hb, hpa, hrel⟩ := append_iff.1 h
  obtain ⟨hvalid, hpafter, ha⟩ := cons_iff.1 hpa
  obtain ⟨_, _, _, _⟩ := expandDup_some hvalid hlt hp
  have hq : z.entry.lo ≤ z.entry.hi := by omega
  have hleft : ∀ r ∈ z.before, r.hi ≤ z.entry.lo := by
    intro r hr
    have hsst := hbefore r hr
    have hplo := hrel r hr p (mem_cons_self ..)
    omega
  have hright : ∀ r ∈ z.after, z.entry.lo ≤ r.lo := by
    intro r hr
    have hphi := hpafter r hr
    omega
  have hcutb := fun r hr => cutDup_spec (hb.valid r hr) hq (.inl (hleft r hr))
  have hcuta := fun r hr => cutDup_spec (ha.valid r hr) hq (.inr (hright r hr))
  have hnext : ∀ r ∈ z.after.flatMap (cutDup z.entry), z.entry.hi ≤ r.lo := by
    intro r hr
    obtain ⟨r', hr', hmem⟩ := mem_flatMap.1 hr
    exact ((hcuta r' hr').2.1 r hmem).2.2 (hright r' hr')
  constructor
  · refine append_iff.2 ⟨hb.flatMap fun r hr => ⟨(hcutb r hr).1, fun x hx => ?_⟩,
      cons_iff.2 ⟨hq, hnext, ha.flatMap fun r hr => ⟨(hcuta r hr).1, fun x hx => ?_⟩⟩, ?_⟩
    · exact ⟨((hcutb r hr).2.1 x hx).1, ((hcutb r hr).2.1 x hx).2.1⟩
    · exact ⟨((hcuta r hr).2.1 x hx).1, ((hcuta r hr).2.1 x hx).2.1⟩
    · intro x hx y hy
      obtain ⟨r, hr, hmem⟩ := mem_flatMap.1 hx
      have hxr := ((hcutb r hr).2.1 x hmem).2.1
      have hrlo := hleft r hr
      rcases mem_cons.1 hy with rfl | hy
      · omega
      · have hylo := hnext y hy
        omega
  · have hhull : z.entry.toSet = p.toSet ∪ Set.Ico sst est := by
      ext x
      simp only [Range.toSet, Set.mem_union, Set.mem_Ico]
      omega
    unfold resyncPendingListAllCheckAndDedup
    rw [covered_append, covered_cons, covered_append, covered_cons,
      covered_flatMap_diff fun r hr => (hcutb r hr).2.2, covered_flatMap_diff fun r hr => (hcuta r hr).2.2, hhull]
    ext x
    simp only [Set.mem_union, Set.mem_sdiff]
    tauto

theorem mem_insertSorted : q ∈ insertSorted p l ↔ q = p ∨ q ∈ l := by
  induction l with
  | nil => simp [insertSorted]
  | cons r rest ih =>
    unfold insertSorted
    split_ifs
    · simp
    · simp [ih, or_left_comm]

theorem insertSorted_spec (hp : p.lo < p.hi) (h : Separated l) (hapart : ∀ q ∈ l, q.hi ≤ p.lo ∨ p.hi ≤ q.lo) :
    Separated (insertSorted p l) ∧ covered (insertSorted p l) = covered l ∪ p.toSet := by
  constructor
  · induction l with
    | nil => exact cons_iff.2 ⟨hp.le, nofun, .nil⟩
    | cons q rest ih =>
      obtain ⟨hq, hrel, hrest⟩ := cons_iff.1 h
      obtain ⟨_, hapart⟩ := forall_mem_cons.1 hapart
      unfold insertSorted
      split_ifs with hlt
      · refine cons_iff.2 ⟨hp.le, forall_mem_cons.2 ⟨by omega, fun r hr => ?_⟩, h⟩
        have hqr := hrel r hr
        omega
      · refine cons_iff.2 ⟨hq, fun r hr => ?_, ih hrest hapart⟩
        rcases mem_insertSorted.1 hr with rfl | hr
        · omega
        · exact hrel r hr
  · ext x
    simp only [covered, mem_insertSorted, or_and_right, exists_or, exists_eq_left]
    exact or_comm

theorem add_spec (hlt : sst < est) (h : Separated l) : Separated (listAddResyncPending l sst est) ∧
      covered (listAddResyncPending l sst est) = covered l ∪ Set.Ico sst est := by
  unfold listAddResyncPending
  cases hz : resyncPendingCheckAndExpandDup sst est l with
  | some z =>
    obtain ⟨p, rfl, hp, hbefore⟩ := checkAndExpandDup_some hlt h hz
    exact allCheckAndDedup_spec hlt h hp hbefore
  | none => exact insertSorted_spec hlt h (checkAndExpandDup_none hz)

end

/-! ## Runs -/

inductive Op where
  | add (sst est : Nat)
  | remove (sst est : Nat)
  deriving DecidableEq, Repr

namespace Op

/-- The range is not empty. -/
def Proper : Op → Prop
  | add sst est => sst < est
  | remove sst est => sst < est

def apply : Op → List PendingSectors
  | add sst est => listAddResyncPending l sst est
  | remove sst est => dedupFromResyncPending l sst est

/-- What a call means for the set of sectors. -/
def onSet (S : Set Nat) : Op → Set Nat
  | add sst est => S ∪ Set.Ico sst est
  | remove sst est => S \ Set.Ico sst est

end Op

theorem apply_spec {l : List PendingSectors} {op : Op} (hop : op.Proper) (h : Separated l) :
    Separated (op.apply l) ∧ covered (op.apply l) = op.onSet (covered l) := by
  cases op with
  | add sst est => exact add_spec hop h
  | remove sst est => exact ⟨separated_dedup hop h, covered_dedup hop h⟩

theorem run_spec {ops : List Op} (hops : ∀ op ∈ ops, op.Proper) {l : List PendingSectors} (h : Separated l) :
    Separated (ops.foldl Op.apply l) ∧ covered (ops.foldl Op.apply l) = ops.foldl Op.onSet (covered l) := by
  induction ops generalizing l with
  | nil => exact ⟨h, rfl⟩
  | cons op ops ih =>
    obtain ⟨hop, hops⟩ := List.forall_mem_cons.1 hops
    obtain ⟨hsep, hcov⟩ := apply_spec hop h
    rw [List.foldl_cons, List.foldl_cons, ← hcov]
    exact ih hops hsep

/-- After any calls the list is sorted by the start, its ranges have no sector in common, and it
stands for the sectors that were added and not removed since. -/
theorem resync_pending_exact {ops : List Op} (hops : ∀ op ∈ ops, op.Proper) :
    (ops.foldl Op.apply []).Pairwise (fun p q => p.lo ≤ q.lo) ∧
      (ops.foldl Op.apply []).Pairwise (fun p q => Disjoint p.toSet q.toSet) ∧
        covered (ops.foldl Op.apply []) = ops.foldl Op.onSet ∅ := by
  obtain ⟨hsep, hcov⟩ := run_spec hops .nil
  rw [covered_nil] at hcov
  exact ⟨hsep.sorted, hsep.disjoint, hcov⟩

/-- A range is added, its middle removed, and another range put over the gap. -/
theorem resync_pending_exact_gap :
    [Op.add 8 32, .remove 16 24, .add 20 28].foldl Op.apply [] = [⟨8, 16⟩, ⟨20, 32⟩] ∧
      covered ([Op.add 8 32, .remove 16 24, .add 20 28].foldl Op.apply []) =
        [Op.add 8 32, .remove 16 24, .add 20 28].foldl Op.onSet ∅ := by
  refine ⟨by decide, (resync_pending_exact ?_).2.2⟩
  simp [Op.Proper]

end Bsr.Resync
