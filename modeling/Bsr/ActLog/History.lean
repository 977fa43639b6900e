import Bsr.ActLog.Replay

/-!
# The history of a ring

The proofs speak about all transactions ever written, which `AlHistory` records by their numbers;
the disk only holds the last ones.

* `Ring` ties the disk to the history, `Ring.survivors` and `Ring.torn` say what a crash leaves;
* `Recorded` says that the history ends with a slot at an extent: the last change of the slot set
  it, and every context window that has passed it since repeated it;
* `Recorded.replayed`: then the replay puts the slot at that extent.
-/

namespace Bsr.ActLog

open Lib Lru Function

/-- All transactions since `first`, with the slots they mention and the cycles they started from. -/
structure AlHistory where
  first : Nat
  block : Nat → AlTransaction
  record : Nat → Nat → Option Nat
  cycle : Nat → Nat
  effect : ∀ n hot, applyBlock hot ⟨block n, true⟩ = overwrite (record n) hot

namespace AlHistory

/-- The block `initialize_al` writes. -/
def blankBlock : AlTransaction where
  trNumber := 0
  transactionType := .initialized
  nUpdates := 0
  contextSize := 0
  contextStartSlotNr := 0
  updateSlotNr := fun _ => 0
  updateExtentNr := fun _ => 0
  context := fun _ => 0

/-- Nothing written yet. -/
def empty (first cycle : Nat) : AlHistory where
  first := first
  block := fun _ => blankBlock
  record := fun _ _ => none
  cycle := fun _ => cycle
  effect := by
    intro n hot
    rfl

/-- Transaction `n` becomes `t`; the next one starts from cycle `c`. -/
def push (h : AlHistory) (n : Nat) (t : AlTransaction) (r : Nat → Option Nat) (c : Nat)
    (heffect : ∀ hot, applyBlock hot ⟨t, true⟩ = overwrite r hot) : AlHistory where
  first := h.first
  block := update h.block n t
  record := update h.record n r
  cycle := update h.cycle (n + 1) c
  effect := by
    intro k hot
    by_cases hk : k = n
    · rw [hk, update_self, update_self]
      exact heffect hot
    · rw [update_of_ne hk, update_of_ne hk]
      exact h.effect k hot

end AlHistory

/-! ## The disk and the history -/

/-- The ring holds the last transactions of the history, up to number `now`. -/
structure Ring (L : AlLayout) (disk : Nat → DiskBlock) (h : AlHistory) (now : Nat) : Prop where
  first_le : h.first ≤ now
  number : ∀ n, h.first ≤ n → n < now → (h.block n).trNumber = n
  update : ∀ n, h.first ≤ n → n < now → (h.block n).transactionType = .update
  block : ∀ n, h.first ≤ n → n < now → now ≤ n + L.alSize4k →
    L.cell disk (n % L.alSize4k) = ⟨h.block n, true⟩
  blank : ∀ p < L.alSize4k, (∀ n, h.first ≤ n → n < now → n % L.alSize4k ≠ p) →
    (L.cell disk p).al.transactionType = .initialized

namespace Ring

variable {L : AlLayout} {disk : Nat → DiskBlock} {h : AlHistory} {now : Nat}

variable (hring : Ring L disk h now)

include hring

theorem congr {h' : AlHistory} (hfirst : h'.first = h.first)
    (hblock : ∀ n < now, h'.block n = h.block n) : Ring L disk h' now := by
  constructor
  · rw [hfirst]
    exact hring.first_le
  · intro n hlo hhi
    rw [hblock n hhi]
    exact hring.number n (hfirst ▸ hlo) hhi
  · intro n hlo hhi
    rw [hblock n hhi]
    exact hring.update n (hfirst ▸ hlo) hhi
  · intro n hlo hhi
    rw [hblock n hhi]
    exact hring.block n (hfirst ▸ hlo) hhi
  · intro p hp hnone
    apply hring.blank p hp
    rw [← hfirst]
    exact hnone

theorem write (hnumber : (h.block now).trNumber = now)
    (hupdate : (h.block now).transactionType = .update) :
    Ring L (Function.update disk (L.alTrNumberToOnDiskSector now) ⟨h.block now, true⟩) h
      (now + 1) := by
  have hmx := L.alSize4k_pos
  constructor
  · exact Nat.le_succ_of_le hring.first_le
  · intro n hlo hhi
    by_cases hn : n = now
    · rw [hn, hnumber]
    · exact hring.number n hlo (by omega)
  · intro n hlo hhi
    by_cases hn : n = now
    · rw [hn, hupdate]
    · exact hring.update n hlo (by omega)
  · intro n hlo hhi _
    rw [L.cell_update _ _ _ (Nat.mod_lt _ hmx)]
    by_cases hn : n = now
    · rw [if_pos (by rw [hn]), hn]
    have hpos : n % L.alSize4k ≠ now % L.alSize4k := fun heq =>
      hn (ringPos_inj heq (by omega))
    rw [if_neg hpos]
    exact hring.block n hlo (by omega) (by omega)
  · intro p hp hnone
    have hpos : p ≠ now % L.alSize4k := fun heq =>
      hnone now hring.first_le (Nat.lt_succ_self _) heq.symm
    rw [L.cell_update _ _ _ hp, if_neg hpos]
    exact hring.blank p hp fun n hlo hhi => hnone n hlo (by omega)

theorem survivors :
    Survivors L.alSize4k (L.cell disk) h.block (max h.first (now - L.alSize4k)) now := by
  have hfirst := hring.first_le
  refine ⟨by omega, by omega, fun n hlo => hring.number n (by omega),
    fun n hlo => hring.update n (by omega), fun n hlo hhi => hring.block n (by omega) hhi (by omega),
    fun p hp hnone => .inr (hring.blank p hp ?_)⟩
  intro n hlo hhi hpos
  by_cases hkept : now ≤ n + L.alSize4k
  · exact hnone n (by omega) hhi hpos
  -- position `p` has been written again since
  obtain ⟨k, hk, _, hkpos⟩ := exists_ringPos hp (show L.alSize4k ≤ now by omega)
  exact hnone k (by omega) hk hkpos

/-- A torn write destroys the oldest of them at most. -/
theorem torn (garbage : AlTransaction) : Survivors L.alSize4k
      (L.cell (Function.update disk (L.alTrNumberToOnDiskSector now) ⟨garbage, false⟩)) h.block
      (max h.first (now + 1 - L.alSize4k)) now := by
  have hfirst := hring.first_le
  have hmx := L.alSize4k_pos
  refine ⟨by omega, by omega, fun n hlo => hring.number n (by omega),
    fun n hlo => hring.update n (by omega), ?_, ?_⟩
  · intro n hlo hhi
    have hpos : n % L.alSize4k ≠ now % L.alSize4k := fun heq => by
      have := ringPos_inj heq (by omega)
      omega
    rw [L.cell_update _ _ _ (Nat.mod_lt _ hmx), if_neg hpos]
    exact hring.block n (by omega) hhi (by omega)
  intro p hp hnone
  rw [L.cell_update _ _ _ hp]
  split_ifs with hpos
  · exact .inl rfl
  right
  apply hring.blank p hp
  intro n hlo hhi hn
  by_cases hkept : now < n + L.alSize4k
  · exact hnone n (by omega) hhi hn
  obtain ⟨k, hk, _, hkpos⟩ := exists_ringPos hp (show L.alSize4k ≤ now by omega)
  by_cases hlast : now = k + L.alSize4k
  · rw [hlast, Nat.add_mod_right] at hpos
    exact hpos hkpos.symm
  · exact hnone k (by omega) hk hkpos

end Ring

/-! ## Slots -/

/-- The history up to `now` ends with slot `e` at extent `v`. -/
def Recorded (h : AlHistory) (nr now e v : Nat) : Prop :=
  ∃ n, (h.first ≤ n ∧ n < now) ∧ h.record n e = some v ∧
    Rotates alContextPerTransaction nr h.cycle (n + 1) now ∧
    ∀ k, n < k → k < now → (h.record k e = none ∨ h.record k e = some v) ∧
      (h.cycle k ≤ e → e < h.cycle k + alContextPerTransaction → h.record k e = some v)

namespace Recorded

variable {h : AlHistory} {nr now e v : Nat}

theorem congr (hrec : Recorded h nr now e v) {h' : AlHistory} (hfirst : h'.first = h.first)
    (hrecord : ∀ n < now, h'.record n = h.record n) (hcycle : ∀ n ≤ now, h'.cycle n = h.cycle n) :
    Recorded h' nr now e v := by
  obtain ⟨n, hn, hset, hrot, hlater⟩ := hrec
  refine ⟨n, hfirst.symm ▸ hn, by rw [hrecord n hn.2, hset], ?_, ?_⟩
  · constructor
    · intro k hk hk'
      rw [hcycle k hk']
      exact hrot.aligned k hk hk'
    · intro k hk hk'
      rw [hcycle k hk']
      exact hrot.inside k hk hk'
    · intro k hk hk'
      rw [hcycle k (by omega), hcycle (k + 1) (by omega)]
      exact hrot.next k hk hk'
  · intro k hk hk'
    rw [hrecord k hk', hcycle k (by omega)]
    exact hlater k hk hk'

theorem changed (hfirst : h.first ≤ now) (hset : h.record now e = some v)
    (haligned : alContextPerTransaction ∣ h.cycle (now + 1)) (hinside : h.cycle (now + 1) < nr) :
    Recorded h nr (now + 1) e v := by
  refine ⟨now, ⟨hfirst, Nat.lt_succ_self _⟩, hset, ?_, fun k hk hk' => by omega⟩
  constructor
  · intro k hk hk'
    rw [show k = now + 1 by omega]
    exact haligned
  · intro k hk hk'
    rw [show k = now + 1 by omega]
    exact hinside
  · intro k hk hk'
    omega

theorem extend (hrec : Recorded h nr now e v) (hnr : 0 < nr)
    (hmention : h.record now e = none ∨ h.record now e = some v)
    (hwindow : h.cycle now ≤ e → e < h.cycle now + alContextPerTransaction →
      h.record now e = some v)
    (hcycle : h.cycle (now + 1) = nextCycle nr (h.cycle now)) : Recorded h nr (now + 1) e v := by
  obtain ⟨n, _, hset, hrot, hlater⟩ := hrec
  have haligned := hrot.aligned now (by omega) (by omega)
  refine ⟨n, by omega, hset, ?_, ?_⟩
  · constructor
    · intro k hk hk'
      by_cases hlast : k = now + 1
      · rw [hlast, hcycle, nextCycle]
        split
        · exact Nat.dvd_zero _
        · exact Nat.dvd_add haligned (Nat.dvd_refl _)
      · exact hrot.aligned k hk (by omega)
    · intro k hk hk'
      by_cases hlast : k = now + 1
      · rw [hlast, hcycle, nextCycle]
        split <;> omega
      · exact hrot.inside k hk (by omega)
    · intro k hk hk'
      by_cases hlast : k = now
      · rw [hlast, hcycle, nextCycle]
      · exact hrot.next k hk (by omega)
  · intro k hk hk'
    by_cases hlast : k = now
    · rw [hlast]
      exact ⟨hmention, hwindow⟩
    · exact hlater k hk (by omega)

/-- Replaying the survivors puts the slot at its extent, as long as no more than one block of the
ring is lost. -/
theorem replayed (hrec : Recorded h nr now e v) {L : AlLayout} {disk : Nat → DiskBlock} {lo : Nat}
    (hnr : nr ≤ L.bsrAlExtentsMax) (he : e < nr)
    (hsurv : Survivors L.alSize4k (L.cell disk) h.block lo now)
    (hlo : lo = h.first ∨ lo + (L.alSize4k - 1) ≤ now) :
    0 < (replayAl84 L disk).1 ∧ (replayAl84 L disk).2 e = v := by
  obtain ⟨n, hn, hset, hrot, hlater⟩ := hrec
  -- a transaction among the survivors that puts the slot at `v`, with no other extent after it
  obtain ⟨m, hm, hmset, hmlater⟩ : ∃ m, (lo ≤ m ∧ m < now) ∧ h.record m e = some v ∧
      ∀ k, m < k → k < now → h.record k e = none ∨ h.record k e = some v := by
    by_cases hkept : lo ≤ n
    · exact ⟨n, ⟨hkept, hn.2⟩, hset, fun k hk hk' => (hlater k hk hk').1⟩
    -- the change itself is lost, but a full round of windows has survived
    have hrounds : nr ≤ alContextPerTransaction * (L.alSize4k - 1) :=
      Nat.le_trans hnr L.bsrAlExtentsMax_le.1
    have hrot' : Rotates alContextPerTransaction nr h.cycle lo now :=
      ⟨fun k hk => hrot.aligned k (by omega), fun k hk => hrot.inside k (by omega),
        fun k hk => hrot.next k (by omega)⟩
    obtain ⟨m, hm, hm', hstart, hend⟩ := hrot'.covers (by decide) he hrounds (by omega)
    refine ⟨m, ⟨hm, hm'⟩, (hlater m (by omega) hm').2 hstart hend, ?_⟩
    intro k hk hk'
    exact (hlater k (by omega) hk').1
  obtain ⟨hpos, heq⟩ := replayAl84_eq L hsurv (by omega) fun k _ _ hot => h.effect k hot
  refine ⟨hpos, ?_⟩
  rw [heq]
  apply replay_eq_of_last _ hm.1 (by omega) hmset
  intro k hk hk'
  exact hmlater k hk (by omega)

end Recorded

end Bsr.ActLog
