import Mathlib

/-!
# The answer to a split request

Resync data that is written in several requests is answered once, when the last of them is complete:
`split_request_complete` walks over the bitmap bits of the data and acknowledges run after run.

* `splitAcks` is the loop. The code jumps from the last bit, with the index already at the end, into
  the branch of the other value, so a run that ends at the end of the range goes through the same
  lines as one that ends at a bit of the other value;
* `MaximalRuns` says what the acknowledgements should be, `splitAcks_maximal` that they are.

Each bit is read once, so `oos` is the pattern as the loop finds it. An error of one acknowledgement
does not stop the loop.
-/

namespace Bsr.Resync

/-- A call of `bsr_send_ack`, with `P_NEG_ACK` if `neg` and with `P_RS_WRITE_ACK` otherwise; `done`
is `ID_SYNCER_SPLIT_DONE`. -/
structure RunAck where
  sector : Nat
  size : Nat
  neg : Bool
  done : Bool
deriving DecidableEq, Repr

/-- The lines after the two labels, for the bits from `sBb` to before `iBb`. The size is an
`unsigned int`. -/
def runAck (eNextBb sBb iBb : Nat) (neg : Bool) : RunAck :=
  ⟨8 * sBb, 8 * (iBb - sBb) % 2 ^ 32 * 2 ^ 9 % 2 ^ 32, neg, iBb == eNextBb⟩

/-- The loop with `n` bits to go. The branches for a set and a clear bit have the values
exchanged. -/
def splitAcks (oos : Nat → Bool) (start eNextBb : Nat) : Nat → Nat → Nat → Bool → List RunAck
  | 0, _, _, _ => []
  | n + 1, iBb, sBb, isInSync =>
    let set := oos iBb
    -- the bit before had the other value
    let ends := isInSync = set ∧ iBb ≠ start
    let acks := if ends then [runAck eNextBb sBb iBb !set] else []
    let sBb := if ends then iBb else sBb
    acks ++ if iBb + 1 = eNextBb then [runAck eNextBb sBb eNextBb set]
      else splitAcks oos start eNextBb n (iBb + 1) sBb !set

/-- What `split_request_complete` sends. -/
def splitRequestComplete (oos : Nat → Bool) (isSyncTarget : Bool) (sBb eNextBb : Nat) : List RunAck :=
  if isSyncTarget then splitAcks oos sBb eNextBb (eNextBb - sBb) sBb sBb false
  else [runAck eNextBb sBb eNextBb true]

/-- The acknowledgements are the runs of equal bits from `sBb` on, none of which can be longer, in
order; set bits are refused, and only the last one says that it is the last. -/
def MaximalRuns (oos : Nat → Bool) (eNextBb : Nat) : Nat → List RunAck → Prop
  | sBb, [] => eNextBb ≤ sBb
  | sBb, a :: rest => ∃ iBb, sBb < iBb ∧ iBb ≤ eNextBb ∧ a.sector = 8 * sBb ∧ a.size = 4096 * (iBb - sBb) ∧
      (∀ b, sBb ≤ b → b < iBb → oos b = a.neg) ∧ (iBb < eNextBb → oos iBb = !a.neg) ∧
      (a.done = true ↔ rest = []) ∧ MaximalRuns oos eNextBb iBb rest

section

variable {oos : Nat → Bool} {start eNextBb sBb iBb : Nat}

theorem runAck_size {neg : Bool} (hlen : iBb - sBb < 2 ^ 20) :
    (runAck eNextBb sBb iBb neg).size = 4096 * (iBb - sBb) := by
  simp only [runAck]
  omega

theorem MaximalRuns.cons {rest : List RunAck} (h : MaximalRuns oos eNextBb iBb rest) (hlt : sBb < iBb)
    (hend : iBb < eNextBb) (hlen : eNextBb - sBb < 2 ^ 20) (hrun : ∀ b, sBb ≤ b → b < iBb → oos b = !oos iBb) :
    MaximalRuns oos eNextBb sBb (runAck eNextBb sBb iBb (!oos iBb) :: rest) := by
  refine ⟨iBb, hlt, Nat.le_of_lt hend, rfl, runAck_size (by omega), hrun, fun _ => (Bool.not_not _).symm, ?_, h⟩
  -- more is to come, since the bit itself is not acknowledged yet
  have hne : rest ≠ [] := by
    rintro rfl
    exact absurd h (Nat.not_le.mpr hend)
  simp [runAck, Nat.ne_of_lt hend, hne]

theorem maximalRuns_last (hlt : sBb < eNextBb) (hlen : eNextBb - sBb < 2 ^ 20) {set : Bool}
    (hrun : ∀ b, sBb ≤ b → b < eNextBb → oos b = set) :
    MaximalRuns oos eNextBb sBb [runAck eNextBb sBb eNextBb set] :=
  ⟨eNextBb, hlt, Nat.le_refl _, rfl, runAck_size hlen, hrun, fun h => absurd h (Nat.lt_irrefl _),
    by simp [runAck], Nat.le_refl _⟩

/-- The run that is open at `iBb` started at `sBb` and has the value of the bit before; there is
none yet at the start of the range. -/
theorem splitAcks_maximal {n : Nat} {isInSync : Bool} (hn : iBb + n = eNextBb) (hlt : iBb < eNextBb)
    (hlen : eNextBb - start < 2 ^ 20) (hstart : start ≤ sBb) (hle : sBb ≤ iBb)
    (hfirst : iBb = start ∨ sBb < iBb) (hrun : ∀ b, sBb ≤ b → b < iBb → oos b = !isInSync) :
    MaximalRuns oos eNextBb sBb (splitAcks oos start eNextBb n iBb sBb isInSync) := by
  induction n generalizing iBb sBb isInSync with
  | zero => omega
  | succ n ih =>
    -- the bit itself belongs to the run from `s` on
    have htail : ∀ s, start ≤ s → s ≤ iBb → (∀ b, s ≤ b → b ≤ iBb → oos b = oos iBb) →
        MaximalRuns oos eNextBb s (if iBb + 1 = eNextBb then [runAck eNextBb s eNextBb (oos iBb)]
          else splitAcks oos start eNextBb n (iBb + 1) s !oos iBb) := by
      intro s hs _ hbits
      split_ifs with hlast
      · exact maximalRuns_last (by omega) (by omega) fun b h1 h2 => hbits b h1 (by omega)
      refine ih (by omega) (by omega) hs (by omega) (.inr (by omega)) fun b h1 h2 => ?_
      rw [Bool.not_not]
      exact hbits b h1 (by omega)
    unfold splitAcks
    dsimp only
    by_cases hends : isInSync = oos iBb ∧ iBb ≠ start
    · rw [if_pos hends, if_pos hends]
      refine (htail iBb (by omega) (Nat.le_refl _) fun b h1 h2 => ?_).cons
        (hfirst.resolve_left hends.2) hlt (by omega) fun b h1 h2 => ?_
      · rw [Nat.le_antisymm h2 h1]
      · rw [hrun b h1 h2, hends.1]
    · rw [if_neg hends, if_neg hends]
      refine htail sBb hstart hle fun b h1 h2 => ?_
      rcases Nat.eq_or_lt_of_le h2 with rfl | hb
      · rfl
      · have hne : isInSync ≠ oos iBb := fun heq => hends ⟨heq, by omega⟩
        rw [hrun b h1 hb, Bool.eq_not_of_ne hne.symm]

end

/-- While sync target, the acknowledgements are the maximal runs of equal bits of the range,
whatever the bits are. `read_in_block` takes at most 1 MiB, so the size of a run fits. -/
theorem split_request_complete_runs (oos : Nat → Bool) (sBb eNextBb : Nat) (hlen : eNextBb - sBb < 2 ^ 20) :
    MaximalRuns oos eNextBb sBb (splitRequestComplete oos true sBb eNextBb) := by
  rw [splitRequestComplete]
  by_cases hlt : sBb < eNextBb
  · exact splitAcks_maximal (by omega) hlt hlen (Nat.le_refl _) (Nat.le_refl _) (.inl rfl)
      fun b h1 h2 => absurd h1 (Nat.not_le.mpr h2)
  · rw [Nat.sub_eq_zero_of_le (Nat.not_lt.mp hlt)]
    exact Nat.not_lt.mp hlt

/-- Five blocks, the second and third of them out of sync, in three acks. -/
theorem split_request_complete_five : splitRequestComplete (fun b => b == 3 || b == 4) true 2 7 =
      [⟨16, 4096, false, false⟩, ⟨24, 8192, true, false⟩, ⟨40, 8192, false, true⟩] ∧
    MaximalRuns (fun b => b == 3 || b == 4) 7 2 (splitRequestComplete (fun b => b == 3 || b == 4) true 2 7) :=
  ⟨by decide, split_request_complete_runs _ 2 7 (by decide)⟩

end Bsr.Resync
