import Bsr.ActLog.Replay
import Bsr.MetaData.Superblock

/-!
# The ring and the transaction counter

The counter of transactions has 32 bits, and so has the product of the two stripe values that the
metadata check looks at. Every block of the ring gets its turn again after one round, also when the
counter starts over, if the product does not overflow and the size of the ring divides `2 ^ 32`:
`ring_mapped_iff`.

* `replayAl84_wrapped`: the replay compares numbers modulo `2 ^ 32`, so that it finds the order of
  the updates across the end of the counter.
-/

namespace Bsr.ActLog

open Lib MetaData

/-- Stripe values in core, from values on disk that `check_activity_log_stripe_size` accepts. -/
structure StripeLayout where
  alStripes : Nat
  alStripeSize4k : Nat
  alSize4k : Nat
  accepted : ∃ s < 2 ^ 32, ∃ z < 2 ^ 32, checkActivityLogStripeSize s z = some alSize4k ∧
    (alStripes, alStripeSize4k) = stripes s z

namespace StripeLayout

variable (L : StripeLayout)

/-- `al_tr_number_to_on_disk_slot`; `mx` is the product in 32 bits. -/
def alTrNumberToOnDiskSlot (b : Nat) : Nat :=
  let t := b % (L.alStripes * L.alStripeSize4k % 2 ^ 32)
  (t % L.alStripes * L.alStripeSize4k + t / L.alStripes) % 2 ^ 32

/-- `al_tr_number_to_on_disk_sector`, for an area that starts at sector `start`. -/
def alTrNumberToOnDiskSector (start alTrNumber : Nat) : Nat :=
  let t := alTrNumber % L.alSize4k
  start + (t % L.alStripes * L.alStripeSize4k + t / L.alStripes) % 2 ^ 32 * 8 % 2 ^ 32

theorem bounds : L.alStripes < 2 ^ 32 ∧ L.alStripeSize4k < 2 ^ 32 ∧ 8 ≤ L.alSize4k ∧
    L.alSize4k ≤ 2 ^ 22 ∧ L.alSize4k = L.alStripes * L.alStripeSize4k % 2 ^ 32 := by
  obtain ⟨s, _, z, _, hcheck, heq⟩ := L.accepted
  obtain ⟨hprod, hlo, hhi⟩ := checkActivityLogStripeSize_spec hcheck
  rw [← heq] at hprod
  unfold stripes at heq
  split_ifs at heq
  all_goals
    obtain ⟨_, _⟩ := Prod.mk.inj heq
    exact ⟨by omega, by omega, hlo, hhi, hprod⟩

end StripeLayout

/-- The updates `lo`, …, `hi - 1` of a run are on the ring and no others, with the numbers that the
counter had. -/
structure Wrapped (A : AlLayout) (disk : Nat → DiskBlock) (hist : Nat → AlTransaction) (lo hi : Nat) : Prop where
  lo_lt : lo < hi
  room : hi ≤ lo + A.alSize4k
  number : ∀ n, lo ≤ n → n < hi → (hist n).trNumber = n % 2 ^ 32
  update : ∀ n, lo ≤ n → n < hi → (hist n).transactionType = .update
  block : ∀ n, lo ≤ n → n < hi → A.cell disk (n % 2 ^ 32 % A.alSize4k) = ⟨hist n, true⟩
  rest : ∀ p < A.alSize4k, (∀ n, lo ≤ n → n < hi → n % 2 ^ 32 % A.alSize4k ≠ p) →
    (A.cell disk p).intact = false ∨ (A.cell disk p).al.transactionType = .initialized

theorem serialDiff_mod (a b : Nat) : serialDiff (a % 2 ^ 32) (b % 2 ^ 32) = serialDiff a b := by
  rw [serialDiff, Int.natCast_mod, Int.natCast_mod, Int.emod_sub_bmod, Int.sub_emod_bmod, serialDiff]

/-- The scan with the numbers of the counter. -/
def AlScan.wrap (scan : AlScan) : AlScan :=
  { scan with
    oldest := { scan.oldest with trNumber := scan.oldest.trNumber % 2 ^ 32 }
    newest := { scan.newest with trNumber := scan.newest.trNumber % 2 ^ 32 } }

theorem scanBlock_wrap (scan : AlScan) (b n : Nat) {al : AlTransaction}
    (hal : al.trNumber = n % 2 ^ 32) (hupdate : al.transactionType = .update) :
    scanBlock scan.wrap b ⟨al, true⟩ = (scanBlock scan b ⟨{ al with trNumber := n }, true⟩).wrap := by
  unfold scanBlock AlScan.wrap
  simp only [hal, serialDiff_mod]
  split_ifs <;> simp_all

section Replay

variable {A : AlLayout} {disk : Nat → DiskBlock} {hist : Nat → AlTransaction} {lo hi : Nat}

open Classical in
/-- The updates are applied in the order in which they were written, also across the end of the
counter. -/
theorem replayAl84_wrapped (hdvd : A.alSize4k ∣ 2 ^ 32) (h : Wrapped A disk hist lo hi) :
    (replayAl84 A disk).2 =
      (List.range (hi - lo)).foldl (fun hot k => applyBlock hot ⟨hist (lo + k), true⟩) fun _ => 2 ^ 32 - 1 := by
  have hmod : ∀ n, n % 2 ^ 32 % A.alSize4k = n % A.alSize4k := fun n => Nat.mod_mod_of_dvd n hdvd
  -- the same ring with numbers that do not wrap
  let cell p := if h : ∃ n, (lo ≤ n ∧ n < hi) ∧ n % A.alSize4k = p then
    (⟨{ hist h.choose with trNumber := h.choose }, true⟩ : DiskBlock) else A.cell disk p
  have hheld : ∀ n, lo ≤ n → n < hi → cell (n % A.alSize4k) = ⟨{ hist n with trNumber := n }, true⟩ := by
    intro n hlo hhi
    have hex : ∃ k, (lo ≤ k ∧ k < hi) ∧ k % A.alSize4k = n % A.alSize4k := ⟨n, ⟨hlo, hhi⟩, rfl⟩
    have hn : hex.choose = n := by
      have hroom := h.room
      have hspec := hex.choose_spec
      exact ringPos_inj hspec.2 (by omega)
    simp only [cell, dif_pos hex, hn]
  have hother : ∀ p < A.alSize4k, (∀ n, lo ≤ n → n < hi → n % A.alSize4k ≠ p) → cell p = A.cell disk p ∧
      ((A.cell disk p).intact = false ∨ (A.cell disk p).al.transactionType = .initialized) := by
    intro p hp hnone
    refine ⟨dif_neg fun ⟨n, hn, hpos⟩ => hnone n hn.1 hn.2 hpos, h.rest p hp fun n hlo hhi => ?_⟩
    rw [hmod]
    exact hnone n hlo hhi
  have hsurv : Survivors A.alSize4k cell (fun n => { hist n with trNumber := n }) lo hi :=
    ⟨Nat.le_of_lt h.lo_lt, h.room, fun _ _ _ => rfl, h.update, hheld, fun p hp hnone =>
      (hother p hp hnone).1 ▸ (hother p hp hnone).2⟩
  have hscanned := hsurv.scanned A.alSize4k_le (Nat.le_refl _)
  obtain ⟨hfound, hold, hnew⟩ := hscanned.cursors A.alSize4k_pos h.lo_lt
  have hscan : (List.range A.alSize4k).foldl (fun scan b => scanBlock scan b (A.cell disk b)) ⟨0, 0, ⟨0, 0⟩, ⟨0, 0⟩⟩ =
      ((List.range A.alSize4k).foldl (fun scan b => scanBlock scan b (cell b)) ⟨0, 0, ⟨0, 0⟩, ⟨0, 0⟩⟩).wrap := by
    refine List.foldl_rel (r := fun scan scan' => scan = AlScan.wrap scan') rfl ?_
    rintro b hb _ scan rfl
    by_cases hex : ∃ n, (lo ≤ n ∧ n < hi) ∧ n % A.alSize4k = b
    · obtain ⟨n, hn, rfl⟩ := hex
      rw [hheld n hn.1 hn.2, ← hmod n, h.block n hn.1 hn.2]
      exact scanBlock_wrap scan _ n (h.number n hn.1 hn.2) (h.update n hn.1 hn.2)
    · obtain ⟨hcell, _⟩ := hother b (List.mem_range.1 hb) fun n hlo hhi hpos => hex ⟨n, ⟨hlo, hhi⟩, hpos⟩
      rw [hcell]
      unfold scanBlock AlScan.wrap
      grind
  rw [replayAl84_of_cursors A h.lo_lt h.room hscan hscanned.valid hfound (congrArg AlCursor.i hold)
    (congrArg AlCursor.i hnew)]
  refine List.foldl_ext _ _ _ fun hot k hk => ?_
  have hk := List.mem_range.1 hk
  rw [← hmod, h.block (lo + k) (by omega) (by omega)]

end Replay

/-- Both programs mean the same block, one round of numbers reaches every block once, and the replay
takes the updates in order. -/
structure StripeLayout.RingMapped (L : StripeLayout) : Prop where
  same : ∀ start, ∀ n < 2 ^ 32, L.alTrNumberToOnDiskSector start n = start + 8 * L.alTrNumberToOnDiskSlot n
  round : ∀ n, Set.BijOn (fun i => L.alTrNumberToOnDiskSlot ((n + i) % 2 ^ 32))
    (Finset.range L.alSize4k) (Finset.range L.alSize4k)
  replayed : ∀ (A : AlLayout) disk hist lo hi, A.alStripes = L.alStripes →
    A.alStripeSize4k = L.alStripeSize4k → Wrapped A disk hist lo hi → (replayAl84 A disk).2 =
      (List.range (hi - lo)).foldl (fun hot k => applyBlock hot ⟨hist (lo + k), true⟩) fun _ => 2 ^ 32 - 1

namespace StripeLayout

variable {L : StripeLayout}

open Finset

/-- A product beyond 32 bits: the first stripe that starts behind the end of the area is reached. -/
theorem RingMapped.small (h : L.RingMapped) : L.alStripes * L.alStripeSize4k < 2 ^ 32 := by
  obtain ⟨_, _, h8, _, hm⟩ := L.bounds
  by_contra hover
  have hround := h.round 0
  simp only [alTrNumberToOnDiskSlot, ← hm] at hround
  generalize L.alStripes = S, L.alStripeSize4k = Z, L.alSize4k = m at *
  obtain ⟨y, rfl⟩ : ∃ y, Z = y + 1 := ⟨Z - 1, by rcases Z with - | Z <;> omega⟩
  have hdiv := Nat.div_add_mod' (m + y) (y + 1)
  have hrem := Nat.mod_lt (m + y) (show 0 < y + 1 by omega)
  generalize (m + y) / (y + 1) = t at hdiv
  have hpos : 0 < y := by
    rcases y with - | y
    · omega
    · exact Nat.succ_pos y
  have hS' : t < S := by
    by_contra hge
    have hmul := Nat.mul_le_mul_right (y + 1) (Nat.le_of_not_lt hge)
    omega
  have hm' : t < m := by
    by_contra hge
    have hmul := Nat.mul_le_mul (Nat.le_of_not_lt hge) (Nat.le_refl (y + 1))
    have hmore := Nat.mul_le_mul h8 (Nat.le_refl y)
    rw [Nat.mul_add m] at hmul
    omega
  have hbelow : t * (y + 1) < 2 ^ 32 := by
    rcases t with - | - | t
    · omega
    · omega
    · rw [Nat.add_mul, Nat.add_mul] at hdiv ⊢
      omega
  have hin := hround.mapsTo (mem_coe.2 (mem_range.2 hm'))
  rw [mem_coe, mem_range, Nat.zero_add, Nat.mod_eq_of_lt (show t < 2 ^ 32 by omega),
    Nat.mod_eq_of_lt hm', Nat.mod_eq_of_lt hS', Nat.div_eq_of_lt hS', Nat.add_zero] at hin
  omega

/-- Otherwise the last number and one of the first ones share a block. -/
theorem RingMapped.dvd (h : L.RingMapped) : L.alSize4k ∣ 2 ^ 32 := by
  obtain ⟨-, -, _, _, hm⟩ := L.bounds
  have hround := h.round (2 ^ 32 - 1)
  simp only [alTrNumberToOnDiskSlot, ← hm] at hround
  generalize L.alSize4k = m at *
  have hdiv := Nat.div_add_mod (2 ^ 32 - 1) m
  have hr := Nat.mod_lt (2 ^ 32 - 1) (show 0 < m by omega)
  by_contra hnot
  have hlast : (2 ^ 32 - 1) % m + 1 < m := by
    refine Nat.lt_of_le_of_ne hr fun heq => hnot ⟨(2 ^ 32 - 1) / m + 1, ?_⟩
    rw [Nat.mul_add]
    omega
  have hwrap : (2 ^ 32 - 1 + ((2 ^ 32 - 1) % m + 1)) % 2 ^ 32 = (2 ^ 32 - 1) % m := by omega
  have hfirst : 0 ∈ (range m : Set Nat) := mem_coe.2 (mem_range.2 (by omega))
  have hsame := hround.injOn hfirst (mem_coe.2 (mem_range.2 hlast)) (by
    simp only [hwrap, Nat.mod_mod]
    rfl)
  omega

/-- The mapping is right just for the layouts whose product is in range and whose ring size divides
`2 ^ 32`. -/
theorem ring_mapped_iff (L : StripeLayout) :
    L.RingMapped ↔ L.alStripes * L.alStripeSize4k < 2 ^ 32 ∧ L.alSize4k ∣ 2 ^ 32 := by
  refine ⟨fun h => ⟨h.small, h.dvd⟩, fun ⟨hsmall, hdvd⟩ => ?_⟩
  obtain ⟨-, -, h8, hle, hm⟩ := L.bounds
  rw [Nat.mod_eq_of_lt hsmall] at hm
  let A : AlLayout := ⟨0, 0, L.alStripes, L.alStripeSize4k, hm ▸ h8, hm ▸ hle⟩
  have hA : A.alSize4k = L.alSize4k := hm.symm
  have hlt : ∀ n, A.stripe (n % L.alSize4k) < L.alSize4k := fun n => hA ▸ A.stripe_lt (Nat.mod_lt n A.alSize4k_pos)
  have hslot : ∀ n, L.alTrNumberToOnDiskSlot n = A.stripe (n % L.alSize4k) := by
    intro n
    unfold alTrNumberToOnDiskSlot
    rw [Nat.mod_eq_of_lt hsmall, ← hm]
    exact Nat.mod_eq_of_lt (Nat.lt_of_lt_of_le (hlt n) (by omega))
  have hmaps : ∀ n, Set.MapsTo (fun i => L.alTrNumberToOnDiskSlot ((n + i) % 2 ^ 32))
      (range L.alSize4k) (range L.alSize4k) := by
    intro n i _
    simpa [hslot] using hlt _
  have hinj : ∀ n, Set.InjOn (fun i => L.alTrNumberToOnDiskSlot ((n + i) % 2 ^ 32)) (range L.alSize4k) := by
    intro n i hi j hj heq
    simp only [hslot, Nat.mod_mod_of_dvd _ hdvd] at heq
    rw [mem_coe, mem_range] at hi hj
    have hpos := A.stripe_inj (hA ▸ Nat.mod_lt _ (by omega)) (hA ▸ Nat.mod_lt _ (by omega)) heq
    have hsum := ringPos_inj hpos (by omega)
    omega
  refine ⟨fun start n _ => ?_, fun n => ⟨hmaps n, hinj n, ?_⟩, fun B disk hist lo hi hS hZ hw => ?_⟩
  · have hn := hlt n
    have hsame : L.alTrNumberToOnDiskSector start n = start + L.alTrNumberToOnDiskSlot n * 8 % 2 ^ 32 := by
      unfold alTrNumberToOnDiskSector alTrNumberToOnDiskSlot
      rw [Nat.mod_eq_of_lt hsmall, ← hm]
    rw [hsame, hslot]
    omega
  · exact surjOn_of_injOn_of_card_le _ (hmaps n) (hinj n) (Nat.le_refl _)
  · refine replayAl84_wrapped ?_ hw
    rwa [AlLayout.alSize4k, hS, hZ, ← hm]

/-- Nine blocks in one stripe. -/
def nine : StripeLayout :=
  ⟨1, 9, 9, 1, by decide, 9, by decide, rfl, rfl⟩

/-- A product of `2 ^ 32 + 2 ^ 20`. -/
def wide : StripeLayout :=
  ⟨2 ^ 20, 4097, 2 ^ 20, 2 ^ 20, by decide, 4097, by decide, rfl, rfl⟩

/-- Transaction 3 after the counter has started over goes to the block of the last one before it;
transaction 256 of the other layout goes behind the area. -/
theorem ring_not_mapped : nine.alTrNumberToOnDiskSlot 3 = nine.alTrNumberToOnDiskSlot (2 ^ 32 - 1) ∧
    wide.alSize4k ≤ wide.alTrNumberToOnDiskSlot 256 := by
  decide

end StripeLayout

end Bsr.ActLog
