import Bsr.ActLog.Block

/-!
# Replaying the ring

`Survivors` describes a ring that holds the consecutive transactions `lo`, …, `hi - 1` and nothing
else that is a valid update. The first loop of `replay_al_84` finds the oldest and the newest of
them, the second one applies them in order.
-/

namespace Bsr.ActLog

open Lib Lru List

/-- The ring holds the transactions `lo`, …, `hi - 1`. -/
structure Survivors (mx : Nat) (cell : Nat → DiskBlock) (hist : Nat → AlTransaction)
    (lo hi : Nat) : Prop where
  lo_le : lo ≤ hi
  room : hi ≤ lo + mx
  number : ∀ n, lo ≤ n → n < hi → (hist n).trNumber = n
  update : ∀ n, lo ≤ n → n < hi → (hist n).transactionType = .update
  block : ∀ n, lo ≤ n → n < hi → cell (n % mx) = ⟨hist n, true⟩
  rest : ∀ p < mx, (∀ n, lo ≤ n → n < hi → n % mx ≠ p) →
    (cell p).intact = false ∨ (cell p).al.transactionType = .initialized

/-- What the first loop knows after `k` positions. -/
structure Scanned (mx lo hi k : Nat) (scan : AlScan) : Prop where
  valid : scan.foundValidUpdates ≤ scan.foundValid
  none_seen : scan.foundValidUpdates = 0 → ∀ n, lo ≤ n → n < hi → k ≤ n % mx
  extremes : scan.foundValidUpdates ≠ 0 → ∃ a b, (lo ≤ a ∧ a < hi) ∧ (lo ≤ b ∧ b < hi) ∧
    scan.oldest = ⟨a % mx, a⟩ ∧ scan.newest = ⟨b % mx, b⟩ ∧
    ∀ n, lo ≤ n → n < hi → n % mx < k → a ≤ n ∧ n ≤ b

section Scan

variable {mx lo hi : Nat} {cell : Nat → DiskBlock} {hist : Nat → AlTransaction}

theorem Scanned.skip {k : Nat} {scan : AlScan} (h : Scanned mx lo hi k scan) (block : DiskBlock)
    (hrest : block.intact = false ∨ block.al.transactionType = .initialized)
    (hempty : ∀ n, lo ≤ n → n < hi → n % mx ≠ k) :
    Scanned mx lo hi (k + 1) (scanBlock scan k block) := by
  have hsame : (scanBlock scan k block).foundValidUpdates = scan.foundValidUpdates ∧
      (scanBlock scan k block).oldest = scan.oldest ∧
      (scanBlock scan k block).newest = scan.newest ∧
      scan.foundValid ≤ (scanBlock scan k block).foundValid := by
    unfold scanBlock
    by_cases hintact : block.intact = false
    · simp [hintact]
    · have hinit := hrest.resolve_left hintact
      simp [hintact, hinit]
  obtain ⟨hfound, hold, hnew, hvalid⟩ := hsame
  constructor
  · rw [hfound]
    exact Nat.le_trans h.valid hvalid
  · intro hzero n hlo hhi
    have hk := h.none_seen (hfound ▸ hzero) n hlo hhi
    have hne := hempty n hlo hhi
    omega
  · intro hpos
    obtain ⟨a, b, ha, hb, hoa, hnb, hall⟩ := h.extremes (hfound ▸ hpos)
    refine ⟨a, b, ha, hb, hold ▸ hoa, hnew ▸ hnb, ?_⟩
    intro n hlo hhi hk
    have hne := hempty n hlo hhi
    exact hall n hlo hhi (by omega)

/-- A position that holds transaction `m` moves the cursors to it when it is older or newer. -/
theorem Scanned.see {k m : Nat} {scan : AlScan} (h : Scanned mx lo hi k scan)
    (hmx : mx ≤ 2 ^ 22) (hroom : hi ≤ lo + mx) (al : AlTransaction) (hnumber : al.trNumber = m)
    (hupdate : al.transactionType = .update) (hm : lo ≤ m ∧ m < hi) (hpos : m % mx = k) :
    Scanned mx lo hi (k + 1) (scanBlock scan k ⟨al, true⟩) := by
  -- only `m` is at position `k`
  have honly : ∀ n, lo ≤ n → n < hi → n % mx < k + 1 → n % mx < k ∨ n = m := by
    intro n hlo hhi hk
    by_cases hlt : n % mx < k
    · exact .inl hlt
    · exact .inr (ringPos_inj (m := mx) (by omega) (by omega))
  by_cases hfirst : scan.foundValidUpdates = 0
  · have hscan : scanBlock scan k ⟨al, true⟩ =
        ⟨scan.foundValid + 1, 1, ⟨m % mx, m⟩, ⟨m % mx, m⟩⟩ := by
      simp [scanBlock, hupdate, hfirst, hnumber, hpos]
    rw [hscan]
    refine ⟨Nat.le_add_left _ _, fun hzero => absurd hzero (by simp), fun _ => ?_⟩
    refine ⟨m, m, hm, hm, rfl, rfl, ?_⟩
    intro n hlo hhi hk
    rcases honly n hlo hhi hk with hlt | rfl
    · exact absurd (h.none_seen hfirst n hlo hhi) (Nat.not_le.mpr hlt)
    · exact ⟨Nat.le_refl _, Nat.le_refl _⟩
  · obtain ⟨a, b, _, _, hoa, hnb, hall⟩ := h.extremes hfirst
    have hda : serialDiff m a = (m : Int) - a := serialDiff_eq (by omega)
    have hdb : serialDiff m b = (m : Int) - b := serialDiff_eq (by omega)
    have hscan : scanBlock scan k ⟨al, true⟩ = ⟨scan.foundValid + 1, scan.foundValidUpdates + 1,
        ⟨min m a % mx, min m a⟩, ⟨max m b % mx, max m b⟩⟩ := by
      simp only [scanBlock, hupdate, hnumber, hoa, hnb, hda, hdb]
      rw [if_neg (by simp), if_neg (by simp), if_neg (by omega)]
      congr 1
      · by_cases hlt : m < a
        · rw [if_pos (by omega), min_eq_left (by omega), hpos]
        · rw [if_neg (by omega), min_eq_right (by omega)]
      · by_cases hlt : b < m
        · rw [if_pos (by omega), max_eq_left (by omega), hpos]
        · rw [if_neg (by omega), max_eq_right (by omega)]
    rw [hscan]
    refine ⟨Nat.succ_le_succ h.valid, fun hzero => absurd hzero (by simp), fun _ => ?_⟩
    refine ⟨min m a, max m b, by omega, by omega, rfl, rfl, ?_⟩
    intro n hlo hhi hk
    rcases honly n hlo hhi hk with hlt | rfl
    · have := hall n hlo hhi hlt
      omega
    · omega

theorem Survivors.scanned (h : Survivors mx cell hist lo hi) (hmx : mx ≤ 2 ^ 22) {k : Nat}
    (hk : k ≤ mx) : Scanned mx lo hi k ((range k).foldl (fun scan b => scanBlock scan b (cell b))
      ⟨0, 0, ⟨0, 0⟩, ⟨0, 0⟩⟩) := by
  induction k with
  | zero => exact ⟨Nat.le_refl _, fun _ _ _ _ => Nat.zero_le _, fun hne => absurd rfl hne⟩
  | succ k ih =>
    rw [range_succ, foldl_append, foldl_cons]
    have ih := ih (by omega)
    by_cases hheld : ∃ n, (lo ≤ n ∧ n < hi) ∧ n % mx = k
    · obtain ⟨n, hn, hpos⟩ := hheld
      rw [← hpos, h.block n hn.1 hn.2, hpos]
      exact ih.see hmx h.room (hist n) (h.number n hn.1 hn.2) (h.update n hn.1 hn.2) hn hpos
    · have hempty : ∀ n, lo ≤ n → n < hi → n % mx ≠ k := fun n hlo hhi hpos =>
        hheld ⟨n, ⟨hlo, hhi⟩, hpos⟩
      exact ih.skip (cell k) (h.rest k (by omega) hempty) hempty

end Scan

theorem Scanned.cursors {mx lo hi : Nat} {scan : AlScan} (h : Scanned mx lo hi mx scan)
    (hmx : 0 < mx) (hlt : lo < hi) : scan.foundValidUpdates ≠ 0 ∧ scan.oldest = ⟨lo % mx, lo⟩ ∧
      scan.newest = ⟨(hi - 1) % mx, hi - 1⟩ := by
  have hfound : scan.foundValidUpdates ≠ 0 := fun hzero =>
    absurd (h.none_seen hzero lo (by omega) hlt) (Nat.not_le.mpr (Nat.mod_lt _ hmx))
  obtain ⟨a, b, _, _, hold, hnew, hall⟩ := h.extremes hfound
  have hla := hall lo (by omega) hlt (Nat.mod_lt _ hmx)
  have hlb := hall (hi - 1) (by omega) (by omega) (Nat.mod_lt _ hmx)
  obtain rfl : a = lo := by omega
  obtain rfl : b = hi - 1 := by omega
  exact ⟨hfound, hold, hnew⟩

theorem newest_sub_oldest {mx lo hi : Nat} (hlt : lo < hi) (hroom : hi ≤ lo + mx) :
    (if (hi - 1) % mx < lo % mx then (hi - 1) % mx + mx else (hi - 1) % mx) + 1 - lo % mx =
      hi - lo := by
  have hmod := Nat.mod_lt lo (show 0 < mx by omega)
  have hsum : (hi - 1) % mx = (lo % mx + (hi - 1 - lo)) % mx := by
    rw [Nat.mod_add_mod]
    congr 1
    omega
  by_cases hwrap : lo % mx + (hi - 1 - lo) < mx
  · rw [hsum, Nat.mod_eq_of_lt hwrap, if_neg (by omega)]
    omega
  · rw [hsum, Nat.mod_eq_sub_mod (by omega), Nat.mod_eq_of_lt (by omega), if_pos (by omega)]
    omega

/-- The second loop starts at the oldest update and ends at the newest. -/
theorem replayAl84_of_cursors (L : AlLayout) {disk : Nat → DiskBlock} {lo hi : Nat} (hlt : lo < hi)
    (hroom : hi ≤ lo + L.alSize4k) {scan : AlScan} (hscan : (range L.alSize4k).foldl
      (fun scan b => scanBlock scan b (L.cell disk b)) ⟨0, 0, ⟨0, 0⟩, ⟨0, 0⟩⟩ = scan)
    (hvalid : scan.foundValidUpdates ≤ scan.foundValid) (hfound : scan.foundValidUpdates ≠ 0)
    (hold : scan.oldest.i = lo % L.alSize4k) (hnew : scan.newest.i = (hi - 1) % L.alSize4k) :
    replayAl84 L disk = ((scan.foundValidUpdates : Int), (range (hi - lo)).foldl
      (fun hot k => applyBlock hot (L.cell disk ((lo + k) % L.alSize4k))) fun _ => 2 ^ 32 - 1) := by
  unfold AlLayout.cell at hscan
  unfold replayAl84
  dsimp only
  rw [hscan, if_neg (by omega), if_neg hfound, hold, hnew, newest_sub_oldest hlt hroom,
    range'_eq_map_range, foldl_map]
  congr 1
  refine foldl_ext _ _ _ fun hot k _ => ?_
  rw [Nat.mod_add_mod]
  rfl

/-- Replaying a ring applies the survivors, from the oldest to the newest. -/
theorem replayAl84_eq (L : AlLayout) {disk : Nat → DiskBlock} {hist : Nat → AlTransaction}
    {rec : Nat → Nat → Option Nat} {lo hi : Nat}
    (h : Survivors L.alSize4k (L.cell disk) hist lo hi) (hlt : lo < hi)
    (heffect : ∀ n, lo ≤ n → n < hi → ∀ hot, applyBlock hot ⟨hist n, true⟩ = overwrite (rec n) hot) :
    0 < (replayAl84 L disk).1 ∧
      (replayAl84 L disk).2 = replay rec lo (hi - lo) fun _ => 2 ^ 32 - 1 := by
  have hscanned := h.scanned L.alSize4k_le (Nat.le_refl _)
  obtain ⟨hfound, hold, hnew⟩ := hscanned.cursors L.alSize4k_pos hlt
  rw [replayAl84_of_cursors L hlt h.room rfl hscanned.valid hfound (congrArg AlCursor.i hold)
    (congrArg AlCursor.i hnew)]
  constructor
  · dsimp only
    omega
  refine foldl_ext _ _ _ fun hot k hk => ?_
  have hk := mem_range.mp hk
  rw [← heffect (lo + k) (by omega) (by omega), ← h.block (lo + k) (by omega) (by omega)]

/-! ## Where the labels come from -/

/-- A block of the ring names the extent `v`; a label that is not set is named by all. -/
def NamedBy (cell : Nat → DiskBlock) (mx v : Nat) : Prop :=
  v = lcFree ∨ ∃ b < mx, (∃ i < alContextPerTransaction, (cell b).al.context i = v) ∨
    ∃ i < alUpdatesPerTransaction, (cell b).al.updateExtentNr i = v

instance (cell : Nat → DiskBlock) (mx v : Nat) : Decidable (NamedBy cell mx v) :=
  inferInstanceAs (Decidable (v = lcFree ∨ ∃ b < mx,
    (∃ i < alContextPerTransaction, (cell b).al.context i = v) ∨
    ∃ i < alUpdatesPerTransaction, (cell b).al.updateExtentNr i = v))

/-- A transaction names `v`, in its context or in its updates. -/
def AlTransaction.Names (al : AlTransaction) (v : Nat) : Prop :=
  (∃ i < alContextPerTransaction, al.context i = v) ∨
    ∃ i < alUpdatesPerTransaction, al.updateExtentNr i = v

/-- What holds of all labels before a block and of all extents that a valid block names holds of all
labels after it. -/
theorem applyBlock_forall {P : Nat → Prop} {block : DiskBlock} {hot : Nat → Nat}
    (hnames : block.intact = true → block.al.transactionType = .update →
      ∀ v, block.al.Names v → P v)
    (hhot : ∀ slot, P (hot slot)) (slot : Nat) : P (applyBlock hot block slot) := by
  unfold applyBlock
  split_ifs with hskip
  · exact hhot slot
  rw [not_or, Bool.not_eq_false] at hskip
  have hupdate : block.al.transactionType = .update := by
    cases htype : block.al.transactionType with
    | update => rfl
    | initialized => exact absurd htype hskip.2
  -- first the context, then the updates: each entry replaces one label
  refine foldlRecOn (motive := fun hot : Nat → Nat => ∀ slot, P (hot slot)) _ _ ?_ ?_ slot
  · refine foldlRecOn (motive := fun hot : Nat → Nat => ∀ slot, P (hot slot)) _ _ hhot ?_
    intro hot' hlabels i hi slot
    unfold applyContext
    split_ifs
    · exact hlabels slot
    · exact hlabels slot
    · rw [Function.update_apply]
      split_ifs
      · exact hnames hskip.1 hupdate _ (.inl ⟨i, mem_range.1 hi, rfl⟩)
      · exact hlabels slot
  · intro hot' hlabels i hi slot
    unfold applyUpdate
    split_ifs
    · exact hlabels slot
    · exact hlabels slot
    · rw [Function.update_apply]
      split_ifs
      · exact hnames hskip.1 hupdate _ (.inr ⟨i, mem_range.1 hi, rfl⟩)
      · exact hlabels slot

/-- Every label the replay finds is unset or named by a valid block. -/
theorem replayAl84_forall {P : Nat → Prop} (L : AlLayout) (disk : Nat → DiskBlock)
    (hfree : P lcFree) (hnames : ∀ b < L.alSize4k, (L.cell disk b).intact = true →
      (L.cell disk b).al.transactionType = .update → ∀ v, (L.cell disk b).al.Names v → P v)
    (slot : Nat) : P ((replayAl84 L disk).2 slot) := by
  have hfold : ∀ l : List Nat, ∀ slot, P (l.foldl (fun hot b => applyBlock hot
      (L.alDisk disk (L.alTrNumberToOnDiskSlot (b % L.alSize4k)))) (fun _ => 2 ^ 32 - 1) slot) := by
    intro l
    refine foldlRecOn (motive := fun hot : Nat → Nat => ∀ slot, P (hot slot)) _ _
      (fun _ => hfree) ?_
    intro hot hlabels b _ slot
    exact applyBlock_forall (hnames _ (Nat.mod_lt b L.alSize4k_pos)) hlabels slot
  unfold replayAl84
  dsimp only
  split_ifs
  · exact hfree
  · exact hfree
  · exact hfree
  · exact hfree
  · exact hfold _ slot
  · exact hfold _ slot

/-- The replay finds no extent hot that no block names. -/
theorem replayAl84_namedBy (L : AlLayout) (disk : Nat → DiskBlock) (slot : Nat) :
    NamedBy (L.cell disk) L.alSize4k ((replayAl84 L disk).2 slot) := by
  apply replayAl84_forall
  · exact .inl rfl
  · intro b hb _ _ v hv
    exact .inr ⟨b, hb, hv⟩

end Bsr.ActLog
