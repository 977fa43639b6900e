import Bsr.Resync.Pending
import Bsr.Resync.Split

/-!
# Resync data for sectors that are pending again

When resync data has been written, `dup_verification_and_processing` compares its range with the
list of pending sectors. What is pending again is set out of sync and refused, the rest is set in
sync and acknowledged; a split request is answered elsewhere.

* `getResyncPendingRange` finds the next piece, `dupPieces` is the loop over the range;
* `Tiles`, `dupPieces_neg` and `dupPieces_done` say what the pieces are;
* a bit is cleared only if its block lies in one piece. An entry of length zero, which a removal may
  leave behind, ends a piece too, so that `dup_cleared_iff` needs a condition.

Acknowledgements are sent without an error; an error ends the loop and the connection.
-/

namespace Bsr.Resync

open Lib List

/-! ## Model -/

/-- `get_resync_pending_range`: where the next piece ends, and whether it is a duplicate. -/
def getResyncPendingRange (sst est : Nat) : List PendingSectors → Nat × Bool
  | [] => (est, false)
  | target :: rest =>
    if est ≤ target.lo then (est, false)
    else if sst ≥ target.lo ∧ est ≤ target.hi then (est, true)
    else if sst < target.lo ∧ est > target.lo then (target.lo, false)
    else if sst < target.lo ∧ (est ≤ target.hi ∨ est ≥ target.hi) then (min target.hi est, true)
    else if sst ≥ target.lo ∧ sst < target.hi ∧ est > target.hi then (target.hi, true)
    else getResyncPendingRange sst est rest

/-- An acknowledgement: `neg` is `P_NEG_ACK`, `done` is `ID_SYNCER_SPLIT_DONE`. -/
structure Ack where
  sst : Nat
  cst : Nat
  neg : Bool
  done : Bool
deriving DecidableEq, Repr

theorem getResyncPendingRange_gt {l : List PendingSectors} {sst est : Nat} (h : sst < est) :
    sst < (getResyncPendingRange sst est l).1 ∧ (getResyncPendingRange sst est l).1 ≤ est := by
  induction l with
  | nil => exact ⟨h, Nat.le_refl _⟩
  | cons target rest ih =>
    unfold getResyncPendingRange
    split_ifs <;> first | exact ih | (constructor <;> dsimp only <;> omega)

/-- The loop of `dup_verification_and_processing`. -/
def dupPieces (l : List PendingSectors) (sst est : Nat) : List Ack :=
  if h : sst < est then
    let r := getResyncPendingRange sst est l
    ⟨sst, r.1, r.2, r.1 == est⟩ :: dupPieces l r.1 est
  else []
termination_by est - sst
decreasing_by
  have := (@getResyncPendingRange_gt l sst est h).1
  omega

/-- What a piece does to the bitmap of the peer. -/
def Ack.process (t : Target) (p : Ack) : Target :=
  if p.neg then t.setOutOfSync p.sst (p.cst - p.sst) else (t.setInSync p.sst (p.cst - p.sst)).1

/-- `dup_verification_and_processing` for `n` sectors from `sector`. -/
def dupVerificationAndProcessing (t : Target) (l : List PendingSectors) (sector n : Nat) : Target × List Ack :=
  let acks := dupPieces l sector (sector + n)
  (acks.foldl Ack.process t, acks)

/-! ## What is claimed -/

/-- The pieces follow each other from `a` to `b`. -/
def Tiles : Nat → List Ack → Nat → Prop
  | a, [], b => a = b
  | a, p :: rest, b => p.sst = a ∧ a < p.cst ∧ Tiles p.cst rest b

/-- The sectors of a block, on a device of `capacity` sectors. -/
def blockSectors (capacity b : Nat) : Set Nat :=
  { x | x / 8 = b ∧ x < capacity }

variable (capacity : Nat)

/-- The block lies in the range and does not meet the pending set. -/
def Verified (l : List PendingSectors) (sector n b : Nat) : Prop :=
  (blockSectors capacity b).Nonempty ∧ blockSectors capacity b ⊆ Set.Ico sector (sector + n) ∧
    Disjoint (blockSectors capacity b) (covered l)

structure Processed (t : Target) (l : List PendingSectors) (sector n : Nat) : Prop where
  tiles : Tiles sector (dupVerificationAndProcessing t l sector n).2 (sector + n)
  neg : ∀ p ∈ (dupVerificationAndProcessing t l sector n).2,
    p.neg = true ↔ Set.Ico p.sst p.cst ⊆ covered l
  done : ∀ before p after, (dupVerificationAndProcessing t l sector n).2 = before ++ p :: after →
    (p.done = true ↔ after = [])
  cleared : ∀ b, t.oos b = true →
    ((dupVerificationAndProcessing t l sector n).1.oos b = false ↔ Verified t.capacity l sector n b)

/-- An entry of length zero lies inside the block. -/
def Nicked (l : List PendingSectors) (b : Nat) : Prop :=
  ∃ p ∈ l, p.lo = p.hi ∧ 8 * b < p.lo ∧ p.lo < 8 * b + 8 ∧ p.lo < capacity

/-! ## The pieces -/

section

variable {l : List PendingSectors} {sst est : Nat}

/-- What `get_resync_pending_range` says about the piece that it finds. -/
structure FoundRange (l : List PendingSectors) (sst est : Nat) (r : Nat × Bool) : Prop where
  dup : r.2 = true → Set.Ico sst r.1 ⊆ covered l
  fresh : r.2 = false → Disjoint (Set.Ico sst r.1) (covered l)
  /-- No entry starts inside. -/
  starts : ∀ p ∈ l, sst < p.lo → r.1 ≤ p.lo ∨ est ≤ p.lo
  /-- It ends at an entry, or at the end of the range. -/
  ends : r.1 = est ∨ ∃ p ∈ l, if r.2 then r.1 = p.hi else r.1 = p.lo

theorem disjoint_covered {a b : Nat} (h : ∀ p ∈ l, p.hi ≤ a ∨ b ≤ p.lo) :
    Disjoint (Set.Ico a b) (covered l) := by
  rw [Set.disjoint_left]
  rintro x ⟨_, _⟩ ⟨p, hp, _, _⟩
  rcases h p hp with hle | hle <;> omega

open List

theorem getResyncPendingRange_found (h : Separated l) (hlt : sst < est) :
    FoundRange l sst est (getResyncPendingRange sst est l) := by
  induction l with
  | nil => exact ⟨nofun, fun _ => by simp, nofun, .inl rfl⟩
  | cons target rest ih =>
    obtain ⟨_, hrel, hrest⟩ := Separated.cons_iff.1 h
    unfold getResyncPendingRange
    split_ifs with h1 h2 h3 h4 h5
    · refine ⟨nofun, fun _ => disjoint_covered ?_, ?_, .inl rfl⟩
      · exact forall_mem_cons.2 ⟨.inr h1, fun p hp => by have := hrel p hp; dsimp only; omega⟩
      · exact forall_mem_cons.2 ⟨fun _ => .inl h1, fun p hp _ => by have := hrel p hp; dsimp only; omega⟩
    · refine ⟨fun _ x hx => ⟨target, mem_cons_self, ?_, ?_⟩, nofun, ?_, .inl rfl⟩
      · have := hx.1
        omega
      · exact Nat.lt_of_lt_of_le hx.2 h2.2
      · exact forall_mem_cons.2 ⟨fun _ => by omega, fun p hp _ => by have := hrel p hp; dsimp only; omega⟩
    · refine ⟨nofun, fun _ => disjoint_covered ?_, ?_, .inr ⟨target, mem_cons_self, rfl⟩⟩
      · exact forall_mem_cons.2 ⟨.inr (Nat.le_refl _), fun p hp => by have := hrel p hp; dsimp only; omega⟩
      · exact forall_mem_cons.2 ⟨fun _ => .inl (Nat.le_refl _),
          fun p hp _ => by have := hrel p hp; dsimp only; omega⟩
    · omega
    · refine ⟨fun _ x hx => ⟨target, mem_cons_self, ?_, hx.2⟩, nofun, ?_,
        .inr ⟨target, mem_cons_self, rfl⟩⟩
      · have := hx.1
        omega
      · exact forall_mem_cons.2 ⟨fun _ => by omega, fun p hp _ => .inl (hrel p hp)⟩
    · have hskip : target.hi ≤ sst := by omega
      obtain ⟨hdup, hfresh, hstarts, hends⟩ := ih hrest
      refine ⟨fun hr x hx => ?_, fun hr => ?_, forall_mem_cons.2 ⟨fun _ => by omega, hstarts⟩, ?_⟩
      · obtain ⟨p, hp, hin⟩ := hdup hr hx
        exact ⟨p, mem_cons_of_mem _ hp, hin⟩
      · rw [covered_cons, Set.disjoint_union_right]
        refine ⟨?_, hfresh hr⟩
        rw [Set.disjoint_left]
        rintro x ⟨hx, _⟩ ⟨_, _⟩
        omega
      · exact hends.imp_right fun ⟨p, hp, heq⟩ => ⟨p, mem_cons_of_mem _ hp, heq⟩

theorem dupPieces_of_lt (hlt : sst < est) : dupPieces l sst est =
      ⟨sst, (getResyncPendingRange sst est l).1, (getResyncPendingRange sst est l).2,
        (getResyncPendingRange sst est l).1 == est⟩ ::
        dupPieces l (getResyncPendingRange sst est l).1 est := by
  rw [dupPieces, dif_pos hlt]

theorem dupPieces_of_ge (hge : est ≤ sst) : dupPieces l sst est = [] := by
  rw [dupPieces, dif_neg (Nat.not_lt.mpr hge)]

theorem dupPieces_induct {P : Nat → List Ack → Prop} (hend : P est [])
    (hstep : ∀ a rest, a < est → P (getResyncPendingRange a est l).1 rest → P a
      (⟨a, (getResyncPendingRange a est l).1, (getResyncPendingRange a est l).2,
        (getResyncPendingRange a est l).1 == est⟩ :: rest)) (hle : sst ≤ est) : P sst (dupPieces l sst est) := by
  generalize hm : est - sst = m
  induction m using Nat.strong_induction_on generalizing sst with
  | _ m ih =>
    by_cases hlt : sst < est
    · obtain ⟨_, hle'⟩ := @getResyncPendingRange_gt l sst est hlt
      rw [dupPieces_of_lt hlt]
      exact hstep sst _ hlt (ih _ (by omega) hle' rfl)
    · obtain rfl : sst = est := by omega
      rw [dupPieces_of_ge (Nat.le_refl _)]
      exact hend

theorem dupPieces_tiles (hle : sst ≤ est) : Tiles sst (dupPieces l sst est) est := by
  refine dupPieces_induct (P := fun a ps => Tiles a ps est) rfl (fun a rest hlt hrest => ?_) hle
  exact ⟨rfl, (@getResyncPendingRange_gt l a est hlt).1, hrest⟩

/-- Every piece is one that `get_resync_pending_range` has found. -/
theorem dupPieces_found (h : Separated l) (hle : sst ≤ est) :
    ∀ p ∈ dupPieces l sst est, sst ≤ p.sst ∧ p.sst < p.cst ∧ p.cst ≤ est ∧
      FoundRange l p.sst est (p.cst, p.neg) ∧ p.done = (p.cst == est) := by
  refine dupPieces_induct (P := fun a ps => ∀ p ∈ ps, a ≤ p.sst ∧ p.sst < p.cst ∧ p.cst ≤ est ∧
    FoundRange l p.sst est (p.cst, p.neg) ∧ p.done = (p.cst == est)) nofun (fun a rest hlt hrest => ?_) hle
  obtain ⟨hgt, hle'⟩ := @getResyncPendingRange_gt l a est hlt
  refine forall_mem_cons.2 ⟨⟨Nat.le_refl _, hgt, hle', getResyncPendingRange_found h hlt, rfl⟩, fun p hp => ?_⟩
  obtain ⟨_, h2⟩ := hrest p hp
  exact ⟨by omega, h2⟩

theorem Tiles.exists_mem {ps : List Ack} {a b x : Nat} (h : Tiles a ps b) (hax : a ≤ x)
    (hxb : x < b) : ∃ p ∈ ps, p.sst ≤ x ∧ x < p.cst := by
  induction ps generalizing a with
  | nil =>
    have heq : a = b := h
    omega
  | cons p rest ih =>
    obtain ⟨_, _, hrest⟩ := h
    by_cases hx : x < p.cst
    · exact ⟨p, mem_cons_self, by omega, hx⟩
    · obtain ⟨q, hq, hin⟩ := ih hrest (by omega)
      exact ⟨q, mem_cons_of_mem p hq, hin⟩

theorem Tiles.le {ps : List Ack} {a b : Nat} (h : Tiles a ps b) : a ≤ b := by
  induction ps generalizing a with
  | nil => exact Nat.le_of_eq h
  | cons p rest ih =>
    have := ih h.2.2
    have := h.2.1
    omega

theorem Tiles.last {before after : List Ack} {p : Ack} {a b : Nat}
    (h : Tiles a (before ++ p :: after) b) : p.cst = b ↔ after = [] := by
  induction before generalizing a with
  | nil =>
    cases after with
    | nil => exact ⟨fun _ => rfl, fun _ => h.2.2⟩
    | cons q rest =>
      have hlt := h.2.2.2.1
      have hle := Tiles.le h.2.2.2.2
      simp only [reduceCtorEq, iff_false]
      omega
  | cons q rest ih => exact ih h.2.2

theorem dupPieces_neg (h : Separated l) (hle : sst ≤ est) {p : Ack} (hp : p ∈ dupPieces l sst est) :
    p.neg = true ↔ Set.Ico p.sst p.cst ⊆ covered l := by
  obtain ⟨_, hlt, _, hfound, _⟩ := dupPieces_found h hle p hp
  refine ⟨hfound.dup, fun hsub => ?_⟩
  by_contra hneg
  have hdisj := hfound.fresh (Bool.eq_false_of_not_eq_true hneg)
  have hmem : p.sst ∈ Set.Ico p.sst p.cst := ⟨Nat.le_refl _, hlt⟩
  exact Set.disjoint_left.1 hdisj hmem (hsub hmem)

theorem dupPieces_done (h : Separated l) (hle : sst ≤ est) {before after : List Ack} {p : Ack}
    (heq : dupPieces l sst est = before ++ p :: after) : p.done = true ↔ after = [] := by
  have hmem : p ∈ dupPieces l sst est := heq ▸ mem_append_right _ mem_cons_self
  rw [(dupPieces_found h hle p hmem).2.2.2.2, beq_iff_eq]
  exact Tiles.last (heq ▸ dupPieces_tiles hle)

end

/-! ## The bitmap -/

def Ack.Clears (p : Ack) (b : Nat) : Prop :=
  p.neg = false ∧ wholeStart p.sst ≤ b ∧ b < wholeEnd capacity p.sst (p.cst - p.sst)

def Ack.Sets (p : Ack) (b : Nat) : Prop :=
  p.neg = true ∧ p.sst / 8 ≤ b ∧ b ≤ lastSector capacity p.sst (p.cst - p.sst) / 8

section

variable {t : Target} {l : List PendingSectors} {ps : List Ack} {p : Ack} {sector n b : Nat}

open Ack

theorem Ack.process_capacity (t : Target) (p : Ack) : (p.process t).capacity = t.capacity := by
  unfold process
  split_ifs <;> rfl

theorem Ack.process_cleared (h : p.Clears t.capacity b) : (p.process t).oos b = false := by
  rw [process, if_neg (by simp [h.1]), setInSync_oos, if_pos h.2]

theorem Ack.process_kept (hset : ¬p.Sets t.capacity b) (hb : t.oos b = false) : (p.process t).oos b = false := by
  unfold process
  split_ifs with hneg
  · exact (if_neg fun hin => hset ⟨hneg, hin⟩).trans hb
  · rw [setInSync_oos, hb, ite_self]

theorem Ack.process_set (hclear : ¬p.Clears t.capacity b) (hb : t.oos b = true) : (p.process t).oos b = true := by
  unfold process
  split_ifs with hneg
  · show (if _ then true else t.oos b) = true
    rw [hb, ite_self]
  · rw [setInSync_oos, if_neg fun hin => hclear ⟨Bool.eq_false_of_not_eq_true hneg, hin⟩, hb]

theorem foldl_process_set (hclear : ∀ p ∈ ps, ¬p.Clears t.capacity b) (hb : t.oos b = true) :
    (ps.foldl process t).oos b = true := by
  induction ps generalizing t with
  | nil => exact hb
  | cons p rest ih =>
    obtain ⟨hp, _⟩ := forall_mem_cons.1 hclear
    exact ih (by rwa [p.process_capacity]) (process_set hp hb)

theorem foldl_process_kept (hset : ∀ p ∈ ps, ¬p.Sets t.capacity b) (hb : t.oos b = false) :
    (ps.foldl process t).oos b = false := by
  induction ps generalizing t with
  | nil => exact hb
  | cons p rest ih =>
    obtain ⟨hp, _⟩ := forall_mem_cons.1 hset
    exact ih (by rwa [p.process_capacity]) (process_kept hp hb)

theorem foldl_process_cleared (hset : ∀ p ∈ ps, ¬p.Sets t.capacity b) (hp : p ∈ ps)
    (h : p.Clears t.capacity b) : (ps.foldl process t).oos b = false := by
  induction ps generalizing t with
  | nil => cases hp
  | cons q rest ih =>
    obtain ⟨_, _⟩ := forall_mem_cons.1 hset
    have hcap := q.process_capacity t
    rcases mem_cons.1 hp with rfl | hmem
    · show (rest.foldl process (p.process t)).oos b = false
      exact foldl_process_kept (by rwa [hcap]) (process_cleared h)
    · exact ih (by rwa [hcap]) hmem (by rwa [hcap])

/-- The blocks that `bsr_set_in_sync` clears. On a device smaller than a block there is none. -/
theorem whole_iff {capacity : Nat} (hin : 0 < n ∧ sector + n ≤ capacity) :
    wholeStart sector ≤ b ∧ b < wholeEnd capacity sector n ↔
      sector ≤ 8 * b ∧ (8 * b + 8 ≤ sector + n ∨ sector + n = capacity ∧ 8 * b < capacity ∧ 8 ≤ capacity) := by
  unfold wholeStart wholeEnd lastSector
  dsimp only
  split_ifs <;> omega

theorem verified_bounds (h : Verified t.capacity l sector n b) (hin : sector + n ≤ t.capacity) :
    8 * b < t.capacity ∧ sector ≤ 8 * b ∧ (8 * b + 8 ≤ sector + n ∨ sector + n = t.capacity) := by
  obtain ⟨⟨x, _, _⟩, hsub, _⟩ := h
  have hfirst : 8 * b ∈ Set.Ico sector (sector + n) := hsub ⟨by omega, by omega⟩
  refine ⟨by omega, hfirst.1, ?_⟩
  by_contra hnot
  -- else the sector behind the range belongs to the block
  have hend : sector + n ∈ Set.Ico sector (sector + n) :=
    hsub ⟨by have := hfirst.2; omega, by omega⟩
  exact absurd hend.2 (Nat.lt_irrefl _)

section

variable (h : Separated l) (hin : sector + n ≤ t.capacity)

include h hin

/-- A bit is cleared only if its block lies in the range and meets no pending sector. -/
theorem verified_of_clears (hp : p ∈ dupPieces l sector (sector + n))
    (hclears : p.Clears t.capacity b) : Verified t.capacity l sector n b := by
  obtain ⟨_, _, h3, hfound, _⟩ := dupPieces_found h (Nat.le_add_right sector n) p hp
  have hwhole := (whole_iff (by omega)).1 hclears.2
  have hblock : blockSectors t.capacity b ⊆ Set.Ico p.sst p.cst := by
    rintro x ⟨hx, _⟩
    constructor <;> omega
  refine ⟨⟨8 * b, by omega, by omega⟩, fun x hx => ?_, (hfound.fresh hclears.1).mono_left hblock⟩
  have := hblock hx
  exact ⟨by have := this.1; omega, Nat.lt_of_lt_of_le this.2 h3⟩

theorem not_sets_of_verified (hv : Verified t.capacity l sector n b)
    (hp : p ∈ dupPieces l sector (sector + n)) : ¬p.Sets t.capacity b := by
  rintro ⟨hneg, _, _⟩
  obtain ⟨_, _, _, hfound, _⟩ := dupPieces_found h (Nat.le_add_right sector n) p hp
  have hlast : lastSector t.capacity p.sst (p.cst - p.sst) = p.cst - 1 := by
    unfold lastSector
    split_ifs <;> omega
  have hmem : max p.sst (8 * b) ∈ Set.Ico p.sst p.cst := ⟨by omega, by omega⟩
  exact Set.disjoint_left.1 hv.2.2 ⟨by omega, by have := hmem.2; omega⟩ (hfound.dup hneg hmem)

/-- Such a block lies in one piece, unless an entry of length zero lies inside. -/
theorem exists_clears_iff (hv : Verified t.capacity l sector n b) :
    (∃ p ∈ dupPieces l sector (sector + n), p.Clears t.capacity b) ↔
      8 ≤ t.capacity ∧ ¬Nicked t.capacity l b := by
  have hbounds := verified_bounds hv hin
  constructor
  · rintro ⟨p, hp, hclears⟩
    obtain ⟨h1, h2, h3, hfound, _⟩ := dupPieces_found h (Nat.le_add_right sector n) p hp
    have hwhole := (whole_iff (by omega)).1 hclears.2
    refine ⟨by omega, ?_⟩
    rintro ⟨e, he, _, hlo, _, hcap⟩
    have hstart := hfound.starts e he (by omega)
    omega
  · rintro ⟨hcap, hnicked⟩
    obtain ⟨p, hp, hps, hpc⟩ := (dupPieces_tiles (Nat.le_add_right sector n)).exists_mem hbounds.2.1
      (by omega : 8 * b < sector + n)
    obtain ⟨h1, h2, h3, hfound, _⟩ := dupPieces_found h (Nat.le_add_right sector n) p hp
    have hneg : p.neg = false := by
      by_contra hneg
      have hpending := hfound.dup (Bool.eq_true_of_not_eq_false hneg) ⟨hps, hpc⟩
      exact Set.disjoint_left.1 hv.2.2 ⟨by omega, hbounds.1⟩ hpending
    refine ⟨p, hp, hneg, (whole_iff (by omega)).2 ⟨hps, ?_⟩⟩
    by_contra hshort
    rcases hfound.ends with hend | ⟨e, he, hend⟩
    · omega
    rw [hneg] at hend
    have hlo : p.cst = e.lo := hend
    have hvalid := h.valid e he
    -- the entry starts inside the block, so it must be empty
    by_cases hempty : e.lo = e.hi
    · exact hnicked ⟨e, he, hempty, by omega, by omega, by omega⟩
    · have hmem : e.lo ∈ blockSectors t.capacity b := ⟨by omega, by omega⟩
      exact Set.disjoint_left.1 hv.2.2 hmem ⟨e, he, Nat.le_refl _, by omega⟩

end

theorem exists_clears_of_cleared (hb : t.oos b = true)
    (hcleared : (dupVerificationAndProcessing t l sector n).1.oos b = false) :
    ∃ p ∈ dupPieces l sector (sector + n), p.Clears t.capacity b := by
  by_contra hno
  rw [not_exists] at hno
  have hset := foldl_process_set (fun p hp hc => hno p ⟨hp, hc⟩) hb
  rw [dupVerificationAndProcessing, hset] at hcleared
  cases hcleared

end

/-- With any list that calls on the empty one lead to, `dup_verification_and_processing` does what
it should exactly if no set bit is left that should be cleared: inside no verified block of a set
bit lies an entry of length zero, and the device is not smaller than a block. -/
theorem dup_verification_iff {ops : List Op} (hops : ∀ op ∈ ops, op.Proper) (t : Target) (sector n : Nat)
    (hin : sector + n ≤ t.capacity) : Processed t (ops.foldl Op.apply []) sector n ↔
      ∀ b, t.oos b = true → Verified t.capacity (ops.foldl Op.apply []) sector n b →
        8 ≤ t.capacity ∧ ¬Nicked t.capacity (ops.foldl Op.apply []) b := by
  have h : Separated (ops.foldl Op.apply []) := (run_spec hops Separated.nil).1
  have hle := Nat.le_add_right sector n
  constructor
  · intro hproc b hb hv
    exact (exists_clears_iff h hin hv).1 (exists_clears_of_cleared hb ((hproc.cleared b hb).2 hv))
  intro hall
  refine ⟨dupPieces_tiles hle, fun p hp => dupPieces_neg h hle hp,
    fun before p after heq => dupPieces_done h hle heq, fun b hb => ⟨fun hcleared => ?_, fun hv => ?_⟩⟩
  · obtain ⟨p, hp, hclears⟩ := exists_clears_of_cleared hb hcleared
    exact verified_of_clears h hin hp hclears
  · obtain ⟨p, hp, hclears⟩ := (exists_clears_iff h hin hv).2 (hall b hb hv)
    exact foldl_process_cleared (fun q hq => not_sets_of_verified h hin hv hq) hp hclears

/-- A device of `capacity` sectors, all of it out of sync. -/
def allOutOfSync : Target :=
  ⟨capacity, fun _ => true, [], 0, 0, 0, 0, 0⟩

/-- Resync data for sectors 0 to 31, of which 8 to 15 have been written meanwhile. -/
theorem dup_verification_pending :
    Processed (allOutOfSync 128) ([Op.add 8 16].foldl Op.apply []) 0 32 := by
  apply (dup_verification_iff (by simp [Op.Proper]) (allOutOfSync 128) 0 32 (by decide)).2
  intro b _ _
  refine ⟨by decide, ?_⟩
  rintro ⟨p, hp, hempty, _⟩
  rw [show [Op.add 8 16].foldl Op.apply [] = [⟨8, 16⟩] from rfl, mem_singleton] at hp
  subst hp
  cases hempty

/-- A removal leaves an entry of length zero at sector 4. The resync data for sectors 0 to 15 is
acknowledged in two pieces, and the bit of the first block stays set. -/
theorem dup_verification_nicked :
    [Op.add 4 100, Op.remove 4 20].foldl Op.apply [] = [⟨4, 4⟩, ⟨20, 100⟩] ∧
    Verified 128 [⟨4, 4⟩, ⟨20, 100⟩] 0 16 0 ∧
    (dupVerificationAndProcessing (allOutOfSync 128) [⟨4, 4⟩, ⟨20, 100⟩] 0 16).1.oos 0 = true ∧
    ¬Processed (allOutOfSync 128) [⟨4, 4⟩, ⟨20, 100⟩] 0 16 := by
  have hsep : Separated [(⟨4, 4⟩ : PendingSectors), ⟨20, 100⟩] := by
    simp [Separated.cons_iff, Separated.nil]
  have hv : Verified (allOutOfSync 128).capacity [⟨4, 4⟩, ⟨20, 100⟩] 0 16 0 := by
    refine ⟨⟨0, rfl, by decide⟩, fun x hx => ⟨Nat.zero_le x, ?_⟩, ?_⟩
    · have := hx.1
      omega
    rw [Set.disjoint_left]
    rintro x ⟨hx, _⟩ ⟨p, hp, hlo, hhi⟩
    simp only [mem_cons, not_mem_nil, or_false] at hp
    rcases hp with rfl | rfl <;> dsimp only at hlo hhi <;> omega
  have hset : (dupVerificationAndProcessing (allOutOfSync 128) [⟨4, 4⟩, ⟨20, 100⟩] 0 16).1.oos 0 = true := by
    by_contra hcleared
    have hclears := exists_clears_of_cleared rfl (Bool.eq_false_of_not_eq_true hcleared)
    have hwhole := (exists_clears_iff hsep (by decide) hv).1 hclears
    exact hwhole.2 ⟨⟨4, 4⟩, mem_cons_self, rfl, by decide⟩
  refine ⟨rfl, hv, hset, fun hproc => ?_⟩
  have hcleared := (hproc.cleared 0 rfl).2 hv
  rw [hset] at hcleared
  cases hcleared

end Bsr.Resync
