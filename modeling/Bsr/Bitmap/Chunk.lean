import Bsr.Bitmap.Model

/-!
# One chunk of bits

The head, a round of the word loop and the tail of `____bm_op` each process a run of bits that lies
in a single word of the mapped page. This file says what such a chunk does, for every operation at
once:

* `BmOp.newBit` and `BmOp.tallied` give the effect of an operation on one bit;
* `ChunkDone op n s s'` says that `s'` is `s` after the `n` bits at its cursor were processed;
* `ChunkFlow op n s flow` adds the early return of a successful search.
-/

namespace Bsr.Bitmap

open Lib

variable {op : BmOp}

namespace BmOp

/-- Value of a bit after the operation, from its old value and the bit of the source buffer. -/
def newBit : BmOp → Bool → Bool → Bool
  | .set, _, _ => true
  | .clear, _, _ => false
  | .merge, old, src => old || src
  | _, old, _ => old

/-- Whether the operation counts a bit in its return value. -/
def tallied : BmOp → Bool → Bool → Bool
  | .set, old, _ => !old
  | .clear, old, _ => old
  | .count, old, _ => old
  | .merge, old, src => !old && src
  | _, _, _ => false

/-- The searching operations. -/
def isFind : BmOp → Bool
  | .findBit | .findZeroBit | .rangeFindBit | .rangeFindZeroBit => true
  | _ => false

/-- The bit value a searching operation looks for. -/
def want : BmOp → Bool
  | .findBit | .rangeFindBit => true
  | _ => false

/-- The operations the bit-at-a-time loops are written for. -/
def bitwise : BmOp → Bool
  | .set | .clear | .count => true
  | _ => false

theorem newBit_src (h : op ≠ .merge) (old a b : Bool) : op.newBit old a = op.newBit old b := by
  cases op <;> first | rfl | exact absurd rfl h

theorem tallied_src (h : op ≠ .merge) (old a b : Bool) : op.tallied old a = op.tallied old b := by
  cases op <;> first | rfl | exact absurd rfl h

theorem newBit_find (h : op.isFind = true) (old src : Bool) : op.newBit old src = old := by
  cases op <;> first | rfl | cases h

end BmOp

/-! ## Bits of a page -/

namespace Page

variable {bit k : Nat}

variable (p : Page)

include p

theorem testBit_setWordAt (v : BitVec 32) (hbit : bit < bitsPerPage) (hk : k < bitsPerPage) :
    (p.setWordAt bit v).testBit k =
      if k / 32 = bit / 32 then v.getLsbD (k % 32) else p.testBit k := by
  have hiff : Fin.ofNat wordsPerPage (k / 32) = Fin.ofNat wordsPerPage (bit / 32) ↔
      k / 32 = bit / 32 := by
    simp only [Fin.ext_iff, Fin.ofNat, wordsPerPage]
    unfold bitsPerPage at hbit hk
    omega
  simp only [testBit, wordAt, setWordAt, Function.update_apply, shiftRight_5_eq_div, hiff]
  split <;> rfl

theorem wordAt_getLsbD {bit j : Nat} (halign : bit % 32 = 0) (hj : j < 32) :
    (p.wordAt bit).getLsbD j = p.testBit (bit + j) := by
  have hdiv : (bit + j) / 32 = bit / 32 := by omega
  have hmod : (bit + j) % 32 = j := by omega
  simp [testBit, wordAt, shiftRight_5_eq_div, hdiv, hmod]

theorem wordAt_congr (h : k / 32 = bit / 32) : p.wordAt k = p.wordAt bit := by
  simp [wordAt, shiftRight_5_eq_div, h]

theorem testBit_setBit (hbit : bit < bitsPerPage) (hk : k < bitsPerPage) :
    (p.setBit bit).testBit k = (decide (k = bit) || p.testBit k) := by
  rw [setBit, testBit_setWordAt _ _ hbit hk]
  by_cases hword : k / 32 = bit / 32
  · rw [if_pos hword, BitVec.getLsbD_or, BitVec.getLsbD_twoPow, Bool.or_comm, testBit,
      wordAt_congr p hword]
    have hiff : bit % 32 = k % 32 ↔ k = bit := by omega
    simp [hiff, Nat.mod_lt]
  · have hne : k ≠ bit := fun h => hword (by rw [h])
    rw [if_neg hword]
    simp [hne]

theorem testBit_clearBit (hbit : bit < bitsPerPage) (hk : k < bitsPerPage) :
    (p.clearBit bit).testBit k = (!decide (k = bit) && p.testBit k) := by
  rw [clearBit, testBit_setWordAt _ _ hbit hk]
  by_cases hword : k / 32 = bit / 32
  · rw [if_pos hword, BitVec.getLsbD_and, BitVec.getLsbD_not, BitVec.getLsbD_twoPow, Bool.and_comm,
      testBit, wordAt_congr p hword]
    have hiff : bit % 32 = k % 32 ↔ k = bit := by omega
    simp [hiff, Nat.mod_lt]
  · have hne : k ≠ bit := fun h => hword (by rw [h])
    rw [if_neg hword]
    simp [hne]

/-- Storing a word that differs from the old one in its low `n` bits only. -/
theorem testBit_storeWord {v : BitVec 32} {bit n k : Nat} {f : Nat → Bool}
    (halign : bit % 32 = 0) (hn : n ≤ 32) (hbit : bit < bitsPerPage) (hk : k < bitsPerPage)
    (hv : ∀ j < 32, v.getLsbD j = if j < n then f j else p.testBit (bit + j)) :
    (p.setWordAt bit v).testBit k =
      if bit ≤ k ∧ k < bit + n then f (k - bit) else p.testBit k := by
  rw [testBit_setWordAt _ _ hbit hk]
  by_cases hword : k / 32 = bit / 32
  · have hj : k % 32 = k - bit := by omega
    have hback : bit + (k - bit) = k := by omega
    rw [hj, hv _ (by omega), hback]
    split_ifs <;> first | rfl | omega
  · rw [if_neg hword, if_neg (by omega)]

theorem hweight_wordAt {bit : Nat} (halign : bit % 32 = 0) :
    hweight (p.wordAt bit) = tally (fun j => p.testBit (bit + j)) 0 32 :=
  hweight_eq_tally le_rfl (fun _ hj => p.wordAt_getLsbD halign hj) (fun _ hj => BitVec.getLsbD_of_ge _ _ hj)

theorem hweight_not_wordAt {bit : Nat} (halign : bit % 32 = 0) :
    hweight (~~~(p.wordAt bit)) = tally (fun j => !p.testBit (bit + j)) 0 32 := by
  refine hweight_eq_tally le_rfl (fun j hj => ?_) (fun _ hj => BitVec.getLsbD_of_ge _ _ hj)
  rw [BitVec.getLsbD_not, p.wordAt_getLsbD halign hj]
  simp [hj]

end Page

/-! ## Processed chunks -/

namespace Scan

/-- Bits counted so far. Only the writing operations count per page; a search uses `count` for
positions. -/
def sum (op : BmOp) (s : Scan) : Nat :=
  match op with
  | .clear | .set | .merge => s.total + s.count
  | .count | .extract | .test => s.total
  | _ => 0

/-- `s'` is `s` after the operation processed the `n` bits at the cursor of `s`. -/
structure ChunkDone (op : BmOp) (n : Nat) (s s' : Scan) : Prop where
  bits : ∀ k < bitsPerPage, s'.page.testBit k =
    if s.bitInPage ≤ k ∧ k < s.bitInPage + n then
      op.newBit (s.page.testBit k) (streamBit s.src (k - s.bitInPage))
    else s.page.testBit k
  sum_eq : s'.sum op = s.sum op +
    tally (fun j => op.tallied (s.page.testBit (s.bitInPage + j)) (streamBit s.src j)) 0 n
  src_eq : op = .merge → s'.src = s.src.tail
  out_eq : op ≠ .extract → s'.out = s.out
  out_extract : op = .extract → ∃ w, s'.out = s.out ++ [w] ∧
    ∀ j < 32, w.getLsbD j = (decide (j < n) && s.page.testBit (s.bitInPage + j))
  miss : op.isFind = true → ∀ j < n, s.page.testBit (s.bitInPage + j) ≠ op.want

/-- What a part of the loop body does with a chunk of `n` bits: it processes the chunk, or it is a
search that returns the chunk's first match. -/
inductive ChunkFlow (op : BmOp) (n : Nat) (s : Scan) : Flow → Prop
  | fall {s' : Scan} (h : ChunkDone op n s s') : ChunkFlow op n s (.fall s')
  | nextPage {s' : Scan} (h : ChunkDone op n s s') : ChunkFlow op n s (.nextPage s')
  | ret {j : Nat} (hfind : op.isFind = true) (hj : j < n)
      (hmatch : s.page.testBit (s.bitInPage + j) = op.want)
      (hfirst : ∀ i < j, s.page.testBit (s.bitInPage + i) ≠ op.want) :
      ChunkFlow op n s (.ret (s.start + j))

variable {n : Nat}

open BmOp

/-- Two consecutive chunks of a bitwise operation are one chunk. -/
theorem ChunkDone.append {m n : Nat} {s s₁ s₂ : Scan} (hop : op.bitwise = true)
    (hpage : s.bitInPage + m + n ≤ bitsPerPage) (hcursor : s₁.bitInPage = s.bitInPage + m)
    (h₁ : ChunkDone op m s s₁) (h₂ : ChunkDone op n s₁ s₂) : ChunkDone op (m + n) s s₂ := by
  have hmerge : op ≠ .merge := by rintro rfl; cases hop
  have hextract : op ≠ .extract := by rintro rfl; cases hop
  have hfind : op.isFind = false := by cases op <;> first | rfl | cases hop
  have huntouched : ∀ j < n, s₁.page.testBit (s.bitInPage + m + j) =
      s.page.testBit (s.bitInPage + m + j) := by
    intro j hj
    rw [h₁.bits _ (by omega), if_neg (by omega)]
  refine ⟨?_, ?_, fun h => absurd h hmerge, fun _ => ?_, fun h => absurd h hextract, ?_⟩
  · intro k hk
    rw [h₂.bits k hk, h₁.bits k hk]
    split_ifs
    all_goals first | omega | rfl | exact newBit_src hmerge _ _ _
  · rw [h₂.sum_eq, h₁.sum_eq, tally_add, Nat.add_assoc, Nat.zero_add, hcursor]
    congr 2
    rw [← Nat.add_zero m, ← tally_shift]
    apply tally_congr
    intro j _ hj
    rw [Nat.add_zero, huntouched j (by omega), Nat.add_assoc]
    exact tallied_src hmerge _ _ _
  · rw [h₂.out_eq hextract, h₁.out_eq hextract]
  · rw [hfind]
    nofun

variable {s : Scan}

theorem bitStep_done (hop : op.bitwise = true)
    (hpage : s.bitInPage < bitsPerPage) : ChunkDone op 1 s (s.bitStep op) := by
  have htally : ∀ p : Nat → Bool, tally p 0 1 = if p 0 then 1 else 0 := by
    intro p
    simp [tally_succ]
  have hwindow : ∀ k, (s.bitInPage ≤ k ∧ k < s.bitInPage + 1) ↔ k = s.bitInPage := by
    intro k
    omega
  cases op with
  | set | clear | count =>
    refine ⟨fun k hk => ?_, ?_, nofun, fun _ => rfl, nofun, nofun⟩
    · simp only [bitStep, Nat.add_sub_cancel, Page.testBit_setBit _ hpage hk,
        Page.testBit_clearBit _ hpage hk, hwindow, newBit]
      by_cases h : k = s.bitInPage <;> simp [h]
    · simp only [bitStep, sum, htally, tallied]
      cases s.page.testBit s.bitInPage <;> simp [Nat.add_assoc]
  | _ => cases hop

@[simp] theorem bitStep_bitInPage (op : BmOp) (s : Scan) :
    (s.bitStep op).bitInPage = s.bitInPage + 1 := by
  cases op <;> rfl

@[simp] theorem bitStep_start (op : BmOp) (s : Scan) : (s.bitStep op).start = s.start := by
  cases op <;> rfl

@[simp] theorem bitLoop_bitInPage (op : BmOp) (n : Nat) (s : Scan) :
    (s.bitLoop op n).bitInPage = s.bitInPage + n := by
  induction n generalizing s with
  | zero => rfl
  | succ n ih =>
    rw [bitLoop, ih, bitStep_bitInPage]
    omega

@[simp] theorem bitLoop_start (op : BmOp) (n : Nat) (s : Scan) :
    (s.bitLoop op n).start = s.start := by
  induction n generalizing s with
  | zero => rfl
  | succ n ih => rw [bitLoop, ih, bitStep_start]

theorem bitLoop_done (hop : op.bitwise = true) (n : Nat) (s : Scan)
    (hpage : s.bitInPage + n ≤ bitsPerPage) : ChunkDone op n s (s.bitLoop op n) := by
  induction n generalizing s with
  | zero =>
    refine ⟨fun k hk => ?_, by simp [bitLoop], ?_, fun _ => rfl, ?_, by simp⟩
    · rw [if_neg (by omega), bitLoop]
    all_goals
      rintro rfl
      cases hop
  | succ n ih =>
    have hstep := bitStep_done hop (show s.bitInPage < bitsPerPage by omega)
    have hrest := ih (s.bitStep op) (by rw [bitStep_bitInPage]; omega)
    have hboth := hstep.append hop (by omega) (bitStep_bitInPage op s) hrest
    rwa [Nat.add_comm 1 n] at hboth

/-! ## The searching operations -/

/-- A search that finds nothing leaves everything but `count` alone. -/
theorem find_flow (hop : op.isFind = true) (hn : 0 < n)
    (upd : Scan → Scan) (hupd : ∀ t, (upd t).page = t.page ∧ (upd t).src = t.src ∧
      (upd t).out = t.out) : ChunkFlow op n s (s.find op.want (s.bitInPage + n) upd) := by
  have hmerge : op ≠ .merge := by rintro rfl; cases hop
  have hextract : op ≠ .extract := by rintro rfl; cases hop
  set p : Nat → Bool := fun k => s.page.testBit k == op.want with hp
  have hcount : s.page.findNext op.want (s.bitInPage + n) s.bitInPage =
      findFrom p n s.bitInPage := by
    rw [Page.findNext, if_neg (by omega), Nat.add_sub_cancel_left]
  have hlo := le_findFrom p n s.bitInPage
  rw [find, hcount]
  by_cases hfound : findFrom p n s.bitInPage < s.bitInPage + n
  · obtain ⟨j, hj⟩ := Nat.exists_eq_add_of_le hlo
    have hmatch := findFrom_sound hfound
    rw [if_pos hfound, hj, show s.start + (s.bitInPage + j) - s.bitInPage = s.start + j by omega]
    refine .ret hop (by omega) ?_ ?_
    · rw [hj] at hmatch
      simpa [hp] using hmatch
    intro i _
    have hlt : s.bitInPage + i < findFrom p n s.bitInPage := by omega
    have hmin := findFrom_minimal (Nat.le_add_right _ _) hlt
    simpa [hp] using hmin
  · rw [if_neg hfound]
    obtain ⟨hpage, _, hout⟩ := hupd { s with count := findFrom p n s.bitInPage }
    have hnone : ∀ old src, op.tallied old src = false := by
      intro old src
      cases op <;> first | rfl | cases hop
    refine .fall ⟨fun k _ => ?_, ?_, fun h => absurd h hmerge, fun _ => ?_,
      fun h => absurd h hextract, fun _ j hj => ?_⟩
    · rw [hpage]
      simp [newBit_find hop]
    · have hsum : ∀ t : Scan, t.sum op = 0 := by
        intro t
        cases op <;> first | rfl | cases hop
      rw [hsum, hsum, tally_eq_zero (fun i _ _ => hnone _ _)]
    · rw [hout]
    · have hlt : s.bitInPage + j < findFrom p n s.bitInPage := by omega
      have hmin := findFrom_minimal (Nat.le_add_right _ _) hlt
      simpa [hp] using hmin

/-! ## Whole and partial words -/

theorem merge_done {s s' : Scan} {b : BitVec 32} {rest : List (BitVec 32)}
    (halign : s.bitInPage % 32 = 0) (hn : n ≤ 32) (hpage : s.bitInPage < bitsPerPage)
    (hsrc : s.src = b :: rest) (hsrc' : s'.src = rest) (hout : s'.out = s.out)
    (hword : s'.page = s.page.setWordAt s.bitInPage
      (s.page.wordAt s.bitInPage ||| (b &&& lowMask 32 n))) (htotal : s'.total = s.total)
    (hcount : s'.count = s.count + hweight (~~~(s.page.wordAt s.bitInPage) &&& (b &&& lowMask 32 n))) :
    ChunkDone .merge n s s' := by
  refine ⟨fun k hk => ?_, ?_, fun _ => by rw [hsrc, hsrc', List.tail_cons], fun _ => hout, nofun,
    nofun⟩
  · rw [hword, Page.testBit_storeWord s.page halign hn hpage hk
      (f := fun j => s.page.testBit (s.bitInPage + j) || b.getLsbD j)]
    · split_ifs with hin
      · rw [hsrc, streamBit_cons_low (by omega), Nat.add_sub_cancel' hin.1]
        rfl
      · rfl
    · intro j hj
      rw [BitVec.getLsbD_or, BitVec.getLsbD_and, getLsbD_lowMask, s.page.wordAt_getLsbD halign hj]
      by_cases hlow : j < n <;> simp [hj, hlow]
  · have hfull : hweight (~~~(s.page.wordAt s.bitInPage) &&& (b &&& lowMask 32 n)) =
        tally (fun j => merge.tallied (s.page.testBit (s.bitInPage + j)) (streamBit s.src j))
          0 n := by
      refine hweight_eq_tally hn (fun j hj => ?_) (fun j hj => ?_)
      · have hj' : j < 32 := by omega
        rw [BitVec.getLsbD_and, BitVec.getLsbD_not, BitVec.getLsbD_and, getLsbD_lowMask,
          s.page.wordAt_getLsbD halign hj', hsrc, streamBit_cons_low hj']
        simp [hj', hj, tallied]
      · rw [BitVec.getLsbD_and]
        simp [Nat.not_lt.mpr hj]
    simp only [sum, hcount, htotal, hfull]
    simp [Nat.add_assoc]

theorem extract_done {s s' : Scan} {w : BitVec 32}
    (halign : s.bitInPage % 32 = 0) (hword : w = s.page.wordAt s.bitInPage &&& lowMask 32 n)
    (hout : s'.out = s.out ++ [w]) (hpage : s'.page = s.page) (htotal : s'.total = s.total) :
    ChunkDone .extract n s s' := by
  refine ⟨fun k _ => ?_, ?_, nofun, fun h => absurd rfl h, fun _ => ⟨w, hout, fun j hj => ?_⟩,
    nofun⟩
  · rw [hpage]
    simp [newBit]
  · have hnone : tally (fun j => extract.tallied (s.page.testBit (s.bitInPage + j))
        (streamBit s.src j)) 0 n = 0 := tally_eq_zero (fun _ _ _ => rfl)
    rw [sum, htotal, hnone]
    rfl
  · rw [hword, BitVec.getLsbD_and, getLsbD_lowMask, s.page.wordAt_getLsbD halign hj, Bool.and_comm]
    simp [hj]

theorem and_lowMask_full (w : BitVec 32) : w &&& lowMask 32 32 = w := by
  apply BitVec.eq_of_getLsbD_eq
  intro i hi
  simp [hi]

/-- The buffer a merge reads must not be used up. -/
def HasSrc (op : BmOp) (s : Scan) : Prop :=
  op = .merge → s.src ≠ []

theorem wordStep_flow (htest : op ≠ .test)
    (halign : s.bitInPage % 32 = 0) (hpage : s.bitInPage < bitsPerPage) (hsrc : s.HasSrc op) :
    ∃ flow, s.wordStep op = .ok flow ∧ ChunkFlow op 32 s flow ∧
      ∀ s', flow = .fall s' → s'.start = s.start ∧ s'.bitInPage = s.bitInPage := by
  have hstays : ∀ {t s' : Scan}, t.start = s.start → t.bitInPage = s.bitInPage →
      Flow.fall t = .fall s' → s'.start = s.start ∧ s'.bitInPage = s.bitInPage := by
    rintro t s' hstart hbit ⟨⟩
    exact ⟨hstart, hbit⟩
  cases op with
  | test => exact absurd rfl htest
  | clear =>
    refine ⟨_, rfl, .fall ⟨fun k hk => ?_, ?_, nofun, fun _ => rfl, nofun, nofun⟩, fun _ => hstays rfl rfl⟩
    · apply Page.testBit_storeWord s.page halign le_rfl hpage hk (f := fun _ => false)
      intro j hj
      simp [hj]
    · simp only [sum, s.page.hweight_wordAt halign, tallied]
      simp [Nat.add_assoc]
  | set =>
    refine ⟨_, rfl, .fall ⟨fun k hk => ?_, ?_, nofun, fun _ => rfl, nofun, nofun⟩, fun _ => hstays rfl rfl⟩
    · apply Page.testBit_storeWord s.page halign le_rfl hpage hk (f := fun _ => true)
      intro j hj
      rw [BitVec.getLsbD_allOnes, if_pos hj, decide_eq_true hj]
    · simp only [sum, s.page.hweight_not_wordAt halign, tallied]
      simp [Nat.add_assoc]
  | count =>
    refine ⟨_, rfl, .fall ⟨fun k _ => ?_, ?_, nofun, fun _ => rfl, nofun, nofun⟩, fun _ => hstays rfl rfl⟩
    · simp [newBit]
    · simp only [sum, s.page.hweight_wordAt halign, tallied]
  | merge =>
    obtain ⟨b, _, hcons⟩ := List.exists_cons_of_ne_nil (hsrc rfl)
    simp only [wordStep, hcons]
    refine ⟨_, rfl, .fall (merge_done halign le_rfl hpage hcons rfl rfl ?_ rfl ?_), fun _ => hstays rfl rfl⟩
    · rw [and_lowMask_full]
    · rw [and_lowMask_full]
  | extract =>
    exact ⟨_, rfl, .fall (extract_done halign (and_lowMask_full _).symm rfl rfl rfl), fun _ => hstays rfl rfl⟩
  | _ =>
    refine ⟨_, rfl, find_flow rfl (by omega) id (fun _ => ⟨rfl, rfl, rfl⟩), ?_⟩
    intro s' hfall
    simp only [find] at hfall
    split at hfall
    · cases hfall
    · cases hfall
      exact ⟨rfl, rfl⟩

theorem wordStep_ne_nextPage (op : BmOp) (s s' : Scan) : s.wordStep op ≠ .ok (.nextPage s') := by
  intro h
  cases op <;> simp only [wordStep, find] at h
  case merge => split at h <;> cases h
  all_goals first | cases h | (split at h <;> cases h)

theorem headPart_ne_nextPage (op : BmOp) (s s' : Scan) : s.headPart op ≠ .ok (.nextPage s') := by
  intro h
  cases op <;> simp only [headPart, find] at h <;> first | cases h | (split at h <;> cases h)

theorem or_31_sub (n : Nat) : (n ||| 31) + 1 = n + (32 - n % 32) := by
  rw [or_31_eq]
  omega

theorem headPart_flow (htest : op ≠ .test) (hmerge : op ≠ .merge)
    (hextract : op ≠ .extract) (hpage : s.bitInPage < bitsPerPage) :
    ∃ flow, s.headPart op = .ok flow ∧ ChunkFlow op (32 - s.bitInPage % 32) s flow ∧
      ∀ s', flow = .fall s' → s'.start = s.start ∧
        s'.bitInPage = s.bitInPage + (32 - s.bitInPage % 32) := by
  have hfit : s.bitInPage + (32 - s.bitInPage % 32) ≤ bitsPerPage := by
    unfold bitsPerPage at hpage ⊢
    omega
  have hlen : (s.bitInPage ||| 31) + 1 - s.bitInPage = 32 - s.bitInPage % 32 := by
    rw [or_31_sub]
    omega
  by_cases hbit : op.bitwise = true
  · have hhead : s.headPart op = .ok (.fall (s.bitLoop op (32 - s.bitInPage % 32))) := by
      rw [← hlen]
      cases op <;> first | rfl | cases hbit
    refine ⟨_, hhead, .fall (bitLoop_done hbit _ s hfit), ?_⟩
    simp
  have hfind : op.isFind = true := by
    cases op <;> first | rfl | exact absurd rfl hbit | contradiction
  have hhead : s.headPart op = .ok (s.find op.want (s.bitInPage + (32 - s.bitInPage % 32))
      (fun t => { t with bitInPage := s.bitInPage + (32 - s.bitInPage % 32) })) := by
    rw [← or_31_sub]
    cases op <;> first | rfl | cases hfind
  refine ⟨_, hhead, find_flow hfind (by omega) _ (fun _ => ⟨rfl, rfl, rfl⟩), ?_⟩
  intro s' hfall
  simp only [find] at hfall
  split at hfall
  · cases hfall
  · cases hfall
    exact ⟨rfl, rfl⟩

theorem tailPart_flow {stop n : Nat} (htest : op ≠ .test)
    (hn : n = stop - s.start + 1) (hstart : s.start ≤ stop) (hword : s.bitInPage % 32 + n ≤ 32)
    (halign : op = .merge ∨ op = .extract → s.bitInPage % 32 = 0)
    (hpage : s.bitInPage < bitsPerPage) (hsrc : s.HasSrc op) :
    ∃ flow, s.tailPart op stop = .ok flow ∧ ChunkFlow op n s flow ∧
      ∀ s', flow = .fall s' ∨ flow = .nextPage s' → s'.start = stop + 1 := by
  have hfit : s.bitInPage + n ≤ bitsPerPage := by
    unfold bitsPerPage at hpage ⊢
    omega
  by_cases hbit : op.bitwise = true
  · have htail : s.tailPart op stop =
        .ok (.nextPage { s.bitLoop op n with start := s.start + n }) := by
      rw [hn]
      cases op <;> first | rfl | cases hbit
    refine ⟨_, htail, .nextPage { bitLoop_done hbit n s hfit with }, ?_⟩
    rintro s' (h | h)
    · cases h
    cases h
    show s.start + n = stop + 1
    omega
  by_cases hfind : op.isFind = true
  · have htail : s.tailPart op stop = .ok (s.find op.want (s.bitInPage + n)
        (fun t => { t with start := stop + 1 })) := by
      rw [hn]
      cases op <;> first | rfl | cases hfind
    refine ⟨_, htail, find_flow hfind (by omega) _ (fun _ => ⟨rfl, rfl, rfl⟩), ?_⟩
    intro s' hflow
    simp only [find] at hflow
    split at hflow
    · rcases hflow with h | h <;> cases h
    · rcases hflow with h | h <;> cases h
      rfl
  cases op with
  | merge =>
    obtain ⟨b, _, hcons⟩ := List.exists_cons_of_ne_nil (hsrc rfl)
    simp only [tailPart, hcons, ← hn]
    refine ⟨_, rfl, .nextPage (merge_done (halign (.inl rfl)) (by omega) hpage hcons rfl rfl rfl
      rfl rfl), ?_⟩
    simp
  | extract =>
    simp only [tailPart, ← hn]
    refine ⟨_, rfl, .nextPage (extract_done (halign (.inr rfl)) rfl rfl rfl rfl), ?_⟩
    simp
  | test => exact absurd rfl htest
  | _ => first | exact absurd rfl hbit | exact absurd rfl hfind

end Scan

end Bsr.Bitmap
