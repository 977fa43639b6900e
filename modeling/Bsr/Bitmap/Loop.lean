import Bsr.Bitmap.Progress

/-!
# The loops of `____bm_op`

A `Call` is a call of `____bm_op` with what its callers promise: a slot below `bm_max_peers`, and
for MERGE and EXTRACT a word-aligned start and a long enough buffer. The parts of the loop body are
followed by the position `Call.At` of the cursor; `pageLoop_spec` runs the page loop to its end.
-/

namespace Bsr.Bitmap

open Lib

/-- A call of `____bm_op` on memory `mem`, up to the bit `stop`. -/
structure Call where
  op : BmOp
  slots : PeerSlots
  idx : Nat
  first : Nat
  stop : Nat
  src : List (BitVec 32)
  mem : Nat → Bool
  idx_lt : idx < slots.val
  not_test : op ≠ .test
  aligned : op = .merge ∨ op = .extract → first % 32 = 0
  enough : op = .merge → (stop + 1 - first + 31) / 32 ≤ src.length

namespace Call

variable (c : Call)

/-- `word32_skip`. -/
def skip : Nat := 32 * c.slots.val

theorem skip_bounds : 32 ≤ c.skip ∧ c.skip ≤ 1024 := by
  have hpos := c.slots.pos
  have hmax := c.slots.le_max
  unfold peersMax at hmax
  unfold skip
  omega

/-- Address of bit `i` of the slot the call works on. -/
def addr (i : Nat) : Nat := bitAddr c.slots.val c.idx i

theorem addr_mod (i : Nat) : c.addr i % 32 = i % 32 := bitAddr_mod _ _ _

/-- The cursor of `s` stands at bit `s.start`, with all bits before it processed. -/
structure At (pages : List Page) (pg : Nat) (s : Scan) : Prop where
  progress : Progress c.op c.slots.val c.idx c.first c.src c.mem s.start
    (memBit (pages.set pg s.page)) s
  le_stop : s.start ≤ c.stop + 1
  cursor : pg * bitsPerPage + s.bitInPage = c.addr s.start

/-- `r` is the first bit of the range with the value the search wants. -/
structure Found (r : Nat) : Prop where
  isFind : c.op.isFind = true
  first_le : c.first ≤ r
  le_stop : r ≤ c.stop
  hit : c.mem (c.addr r) = c.op.want
  least : ∀ i, c.first ≤ i → i < r → c.mem (c.addr i) ≠ c.op.want

/-- Where control may be after a part of the loop body that ends at a word boundary. -/
inductive Next (pages : List Page) (pg : Nat) : Flow → Prop
  | fall {s : Scan} (hat : c.At pages pg s) (haligned : s.start % 32 = 0)
      (hpage : s.bitInPage < bitsPerPage) : Next pages pg (.fall s)
  | nextPage {s : Scan} (hat : c.At pages pg s) (haligned : s.start % 32 = 0)
      (hpage : bitsPerPage ≤ s.bitInPage) (hnear : s.bitInPage < 2 * bitsPerPage) :
      Next pages pg (.nextPage s)
  | ret {r : Nat} (hfound : c.Found r) : Next pages pg (.ret r)

/-- Where control may be after the loop body. -/
inductive Left (pages : List Page) (pg : Nat) : Flow → Prop
  | more {s : Scan} (hat : c.At pages pg s) (haligned : s.start % 32 = 0)
      (hpage : bitsPerPage ≤ s.bitInPage) (hnear : s.bitInPage < 2 * bitsPerPage) :
      Left pages pg (.nextPage s)
  | stopFall {s : Scan} (hprogress : Progress c.op c.slots.val c.idx c.first c.src c.mem s.start
      (memBit (pages.set pg s.page)) s) (hstop : s.start = c.stop + 1) : Left pages pg (.fall s)
  | stopNext {s : Scan} (hprogress : Progress c.op c.slots.val c.idx c.first c.src c.mem s.start
      (memBit (pages.set pg s.page)) s) (hstop : s.start = c.stop + 1) : Left pages pg (.nextPage s)
  | ret {r : Nat} (hfound : c.Found r) : Left pages pg (.ret r)

variable {c} {pages : List Page} {pg n : Nat} {s s' : Scan}

theorem At.bitInPage_mod (hat : c.At pages pg s) : s.bitInPage % 32 = s.start % 32 := by
  have hmod := c.addr_mod s.start
  rw [← hat.cursor] at hmod
  unfold bitsPerPage at hmod
  omega

theorem At.chunk_fits (hat : c.At pages pg s) (hpage : s.bitInPage < bitsPerPage)
    (hword : s.start % 32 + n ≤ 32) : s.bitInPage + n ≤ bitsPerPage := by
  have hmod := hat.bitInPage_mod
  unfold bitsPerPage at hpage ⊢
  omega

theorem At.hasSrc (hat : c.At pages pg s) (haligned : c.op = .merge → s.start % 32 = 0)
    (hstart : s.start ≤ c.stop) : s.HasSrc c.op := by
  intro hmerge hnil
  have hlen := congrArg List.length (hat.progress.src_eq hmerge)
  have hle := hat.progress.le
  have hfirst := c.aligned (.inl hmerge)
  have henough := c.enough hmerge
  have hs := haligned hmerge
  rw [hnil, List.length_drop] at hlen
  simp only [List.length_nil] at hlen
  omega

section

variable (hat : c.At pages pg s) (hpg : pg < pages.length) (hpage : s.bitInPage < bitsPerPage)

include hat hpg hpage

theorem At.chunk (hn : 0 < n) (hword : s.start % 32 + n ≤ 32)
    (haligned : c.op = .merge ∨ c.op = .extract → s.start % 32 = 0) (hdone : s.ChunkDone c.op n s') :
    Progress c.op c.slots.val c.idx c.first c.src c.mem (s.start + n)
      (memBit (pages.set pg s'.page)) s' := by
  refine hat.progress.chunk c.idx_lt hpg hat.cursor hword (hat.chunk_fits hpage hword) hdone hn ?_
  intro h
  have hfirst := c.aligned h
  have hs := haligned h
  omega

theorem At.found (hword : s.start % 32 + n ≤ 32)
    (hstop : s.start + n ≤ c.stop + 1) {j : Nat} (hfind : c.op.isFind = true) (hj : j < n)
    (hmatch : s.page.testBit (s.bitInPage + j) = c.op.want)
    (hfirst : ∀ i < j, s.page.testBit (s.bitInPage + i) ≠ c.op.want) : c.Found (s.start + j) := by
  have hle := hat.progress.le
  have hbit : ∀ i < n, s.page.testBit (s.bitInPage + i) = c.mem (c.addr (s.start + i)) :=
    fun i hi => hat.progress.cursor_bit c.idx_lt hpg hat.cursor hword
      (hat.chunk_fits hpage hword) hi
  refine ⟨hfind, by omega, by omega, by rw [← hbit j hj]; exact hmatch, ?_⟩
  intro i hlo _
  by_cases hi : i < s.start
  · exact hat.progress.miss hfind i hlo hi
  obtain ⟨d, rfl⟩ := Nat.exists_eq_add_of_le (Nat.not_lt.mp hi)
  rw [← hbit d (by omega)]
  exact hfirst d (by omega)

omit hat hpg hpage in
theorem progress_moveCursor {x start bitInPage : Nat} {m : Nat → Bool}
    (hp : Progress c.op c.slots.val c.idx c.first c.src c.mem x m s) :
    Progress c.op c.slots.val c.idx c.first c.src c.mem x m
      { s with start := start, bitInPage := bitInPage } :=
  { hp with }

theorem At.advance (hstop : s.start + (32 - s.start % 32) ≤ c.stop + 1)
    (haligned : c.op = .merge ∨ c.op = .extract → s.start % 32 = 0)
    (hdone : s.ChunkDone c.op (32 - s.start % 32) s') {start' bit' : Nat}
    (hstart' : start' = s.start + (32 - s.start % 32))
    (hbit' : bit' = s.bitInPage - s.start % 32 + c.skip) :
    c.Next pages pg (s'.advance start' bit') := by
  have hmod := hat.bitInPage_mod
  have hskip := c.skip_bounds
  have hp := hat.chunk hpg hpage (by omega) (by omega) haligned hdone
  rw [← hstart'] at hp
  have hcursor : pg * bitsPerPage + bit' = c.addr start' := by
    have hnext := bitAddr_next_word c.slots.val c.idx s.start
    have hcur := hat.cursor
    have hstart'' : start' = 32 * (s.start / 32) + 32 := by omega
    unfold addr at hcur ⊢
    rw [hstart'']
    unfold skip at hbit'
    omega
  have hat' : c.At pages pg { s' with start := start', bitInPage := bit' } :=
    ⟨progress_moveCursor hp, show start' ≤ c.stop + 1 by omega, hcursor⟩
  have hzero : start' % 32 = 0 := by omega
  by_cases hleave : bitsPerPage ≤ bit'
  · rw [Scan.advance, if_pos hleave]
    refine .nextPage hat' hzero hleave ?_
    show bit' < 2 * bitsPerPage
    unfold bitsPerPage at hpage ⊢
    omega
  · rw [Scan.advance, if_neg hleave]
    exact .fall hat' hzero (Nat.not_le.mp hleave)

end

open Scan

theorem wordLoop_next (hpg : pg < pages.length) (fuel : Nat) (hat : c.At pages pg s)
    (haligned : s.start % 32 = 0) (hpage : s.bitInPage < bitsPerPage)
    (hfuel : bitsPerPage ≤ s.bitInPage + 32 * fuel) :
    ∃ flow, s.wordLoop c.op c.skip c.stop fuel = .ok flow ∧ c.Next pages pg flow ∧
      ∀ t, flow = .fall t → c.stop < t.start + 31 := by
  -- every round moves the cursor by at least 32 bits of the page
  induction fuel generalizing s with
  | zero => omega
  | succ fuel ih =>
    rw [Scan.wordLoop]
    split_ifs with hmore
    · have hmod := hat.bitInPage_mod
      have hsrc := hat.hasSrc (fun _ => haligned) (by omega)
      obtain ⟨flow, hstep, hflow, hkeep⟩ :=
        wordStep_flow c.not_test (by omega) hpage hsrc
      rw [hstep]
      cases hflow with
      | nextPage hdone =>
        exact absurd hstep (wordStep_ne_nextPage _ _ _)
      | ret hfind hj hmatch hfirst =>
        refine ⟨_, rfl, .ret ?_, nofun⟩
        exact hat.found hpg hpage (by omega) (by omega) hfind hj hmatch hfirst
      | @fall s₁ hdone =>
        obtain ⟨_, _⟩ := hkeep s₁ rfl
        have hskip := c.skip_bounds
        have hnext : c.Next pages pg
            (s₁.advance (s₁.start + 32) (s₁.bitInPage + c.skip)) := by
          apply hat.advance hpg hpage (by omega) (fun _ => haligned)
          · rw [haligned]
            exact hdone
          · omega
          · omega
        have hadv : ∀ t, s₁.advance (s₁.start + 32) (s₁.bitInPage + c.skip) = .fall t →
            t.bitInPage = s₁.bitInPage + c.skip := by
          intro t ht
          rw [advance] at ht
          split at ht
          · cases ht
          · cases ht
            rfl
        dsimp only
        revert hnext hadv
        generalize s₁.advance (s₁.start + 32) (s₁.bitInPage + c.skip) = flow
        intro hnext hadv
        cases hnext with
        | fall hat₂ haligned₂ hpage₂ =>
          have hbit₂ := hadv _ rfl
          exact ih hat₂ haligned₂ hpage₂ (by omega)
        | nextPage hat₂ haligned₂ hpage₂ hnear₂ =>
          exact ⟨_, rfl, .nextPage hat₂ haligned₂ hpage₂ hnear₂, nofun⟩
        | ret hfound => exact ⟨_, rfl, .ret hfound, nofun⟩
    · refine ⟨_, rfl, .fall hat haligned hpage, ?_⟩
      rintro t ⟨⟩
      omega

section

variable (hpg : pg < pages.length) (hat : c.At pages pg s)

include hpg hat

theorem tail_left (hpage : s.bitInPage < bitsPerPage)
    (haligned : c.op = .merge ∨ c.op = .extract → s.start % 32 = 0)
    (hrest : s.start ≤ c.stop → s.start % 32 + (c.stop - s.start) < 32) :
    ∃ flow, (if s.start > c.stop then .ok (.nextPage s) else s.tailPart c.op c.stop) =
      Except.ok flow ∧ c.Left pages pg flow := by
  split_ifs with hend
  · have hle := hat.le_stop
    exact ⟨_, rfl, .stopNext hat.progress (by omega)⟩
  have hstart : s.start ≤ c.stop := by omega
  have hmod := hat.bitInPage_mod
  obtain ⟨flow, htail, hflow, hstop⟩ := Scan.tailPart_flow c.not_test
    rfl hstart (by omega)
    (fun h => by rw [hmod]; exact haligned h) hpage
    (hat.hasSrc (fun h => haligned (.inl h)) hstart)
  refine ⟨flow, htail, ?_⟩
  have hchunk : ∀ {t : Scan}, s.ChunkDone c.op (c.stop - s.start + 1) t → t.start = c.stop + 1 →
      Progress c.op c.slots.val c.idx c.first c.src c.mem t.start
        (memBit (pages.set pg t.page)) t := by
    intro t hdone ht
    have hp := hat.chunk hpg hpage (by omega) (by omega) haligned hdone
    rwa [show s.start + (c.stop - s.start + 1) = t.start by omega] at hp
  cases hflow with
  | @fall t hdone =>
    have ht := hstop t (.inl rfl)
    exact .stopFall (hchunk hdone ht) ht
  | @nextPage t hdone =>
    have ht := hstop t (.inr rfl)
    exact .stopNext (hchunk hdone ht) ht
  | ret hfind hj hmatch hfirst =>
    exact .ret (hat.found hpg hpage (by omega) (by omega) hfind hj
      hmatch hfirst)

theorem body_left (haligned : s.start % 32 = 0) (hpage : s.bitInPage < bitsPerPage) : ∃ flow, (do
      match ← s.wordLoop c.op c.skip c.stop (wordsPerPage + 1) with
      | .fall s => if s.start > c.stop then pure (.nextPage s) else s.tailPart c.op c.stop
      | flow => pure flow) = Except.ok flow ∧ c.Left pages pg flow := by
  obtain ⟨flow, hloop, hnext, hshort⟩ := wordLoop_next hpg (wordsPerPage + 1) hat haligned hpage
    (by unfold bitsPerPage wordsPerPage; omega)
  rw [hloop]
  cases hnext with
  | fall hat₁ haligned₁ hpage₁ =>
    have hlt := hshort _ rfl
    exact tail_left hpg hat₁ hpage₁ (fun _ => haligned₁) (fun _ => by omega)
  | nextPage hat₁ haligned₁ hpage₁ hnear₁ =>
    exact ⟨_, rfl, .more hat₁ haligned₁ hpage₁ hnear₁⟩
  | ret hfound => exact ⟨_, rfl, .ret hfound⟩

theorem pageBody_left (hpage : s.bitInPage < bitsPerPage) (hstart : s.start ≤ c.stop)
    (haligned : c.op = .merge ∨ c.op = .extract → s.start % 32 = 0) :
    ∃ flow, s.pageBody c.op c.skip c.stop = .ok flow ∧ c.Left pages pg flow := by
  have hmod := hat.bitInPage_mod
  have hor := or_31_eq s.start
  have hand := and_31_eq_mod s.start
  by_cases hhead : s.start &&& 31 ≠ 0 ∧ s.start ||| 31 ≤ c.stop
  · have hmerge : c.op ≠ .merge := fun h => hhead.1 (by rw [hand]; exact haligned (.inl h))
    have hextract : c.op ≠ .extract := fun h => hhead.1 (by rw [hand]; exact haligned (.inr h))
    obtain ⟨flow, hpart, hflow, hkeep⟩ := Scan.headPart_flow c.not_test hmerge hextract hpage
    rw [pageBody, if_pos (.inl hhead), hpart]
    rw [hmod] at hflow hkeep
    cases hflow with
    | nextPage hdone => exact absurd hpart (headPart_ne_nextPage _ _ _)
    | ret hfind hj hmatch hfirst =>
      exact ⟨_, rfl, .ret (hat.found hpg hpage (by omega) (by omega)
        hfind hj hmatch hfirst)⟩
    | @fall s₁ hdone =>
      obtain ⟨_, _⟩ := hkeep s₁ rfl
      have hor₁ := or_31_eq s₁.start
      have hnext : c.Next pages pg
          (s₁.advance ((s₁.start ||| 31) + 1) (s₁.bitInPage + c.skip - 32)) := by
        apply hat.advance hpg hpage (by omega) haligned hdone
        · omega
        · omega
      show ∃ flow, (do
        match s₁.advance ((s₁.start ||| 31) + 1) (s₁.bitInPage + c.skip - 32) with
        | .fall s =>
          match ← s.wordLoop c.op c.skip c.stop (wordsPerPage + 1) with
          | .fall s => if s.start > c.stop then pure (.nextPage s) else s.tailPart c.op c.stop
          | flow => pure flow
        | flow => pure flow) = Except.ok flow ∧ _
      revert hnext
      generalize s₁.advance ((s₁.start ||| 31) + 1) (s₁.bitInPage + c.skip - 32) = flow
      intro hnext
      cases hnext with
      | fall hat₂ haligned₂ hpage₂ => exact body_left hpg hat₂ haligned₂ hpage₂
      | nextPage hat₂ haligned₂ hpage₂ hnear₂ =>
        exact ⟨_, rfl, .more hat₂ haligned₂ hpage₂ hnear₂⟩
      | ret hfound => exact ⟨_, rfl, .ret hfound⟩
  · have hskip : ¬ ((s.start &&& 31 ≠ 0 ∧ s.start ||| 31 ≤ c.stop) ∨ c.op = .test) := by
      rintro (h | h)
      · exact hhead h
      · exact c.not_test h
    rw [Scan.pageBody, if_neg hskip]
    by_cases hzero : s.start % 32 = 0
    · exact body_left hpg hat hzero hpage
    -- a partial word that is first and last: the word loop has nothing to do
    have hloop : s.wordLoop c.op c.skip c.stop (wordsPerPage + 1) = .ok (.fall s) := by
      rw [wordLoop, if_neg (by omega)]
    show ∃ flow, (do
      match ← s.wordLoop c.op c.skip c.stop (wordsPerPage + 1) with
      | .fall s => if s.start > c.stop then pure (.nextPage s) else s.tailPart c.op c.stop
      | flow => pure flow) = Except.ok flow ∧ _
    rw [hloop]
    exact tail_left hpg hat hpage haligned (fun _ => by omega)

end

/-- How the page loop ends on page array `pages`. -/
inductive Ended (len : Nat) : List Page → LoopEnd → Prop
  | ret {pages : List Page} {r : Nat} (hlen : pages.length = len) (hmem : memBit pages = c.mem)
      (hfound : c.Found r) : Ended len pages (.ret r)
  | done {pages : List Page} {s : Scan} (hlen : pages.length = len)
      (hprogress : Progress c.op c.slots.val c.idx c.first c.src c.mem (c.stop + 1) (memBit pages)
        { s with count := 0 }) : Ended len pages (.done s)

theorem pageLoop_ended (fuel : Nat) (hroom : ∀ x ≤ c.stop, c.addr x / bitsPerPage < pages.length)
    (hpos : 0 < fuel) (hfuel : pages.length < pg + fuel)
    (hp : Progress c.op c.slots.val c.idx c.first c.src c.mem s.start (memBit pages)
      { s with count := 0 })
    (hle : s.start ≤ c.stop + 1)
    (hcur : s.start ≤ c.stop → pg * bitsPerPage + s.bitInPage = c.addr s.start ∧
      s.bitInPage < bitsPerPage ∧ (c.op = .merge ∨ c.op = .extract → s.start % 32 = 0)) :
    ∃ pages' fin, pageLoop c.op c.skip c.stop fuel pg pages s = .ok (pages', fin) ∧
      c.Ended pages.length pages' fin := by
  induction fuel generalizing pg pages s with
  | zero => omega
  | succ fuel ih =>
    rw [pageLoop]
    by_cases hmore : s.start ≤ c.stop
    · obtain ⟨hcursor, hpage, haligned⟩ := hcur hmore
      have hpg : pg < pages.length := by
        have hlt := hroom s.start hmore
        rw [← hcursor] at hlt
        unfold bitsPerPage at hlt hpage
        omega
      have hget : pages[pg]? = some pages[pg] := List.getElem?_eq_getElem hpg
      have hat : c.At pages pg { s with page := pages[pg], count := 0 } := by
        refine ⟨?_, hle, hcursor⟩
        rw [memBit_set_self hget]
        exact { hp with }
      obtain ⟨_, hbody, hleft⟩ := pageBody_left hpg hat hpage hmore haligned
      rw [if_pos hmore, hget]
      dsimp only
      rw [hbody]
      -- all pages below `pg + 1` are done; the rest of the loop runs on the updated array
      have hnext : ∀ t : Scan,
          Progress c.op c.slots.val c.idx c.first c.src c.mem t.start
            (memBit (pages.set pg t.page)) t → t.start ≤ c.stop + 1 →
          (t.start ≤ c.stop → pg * bitsPerPage + t.bitInPage = c.addr t.start ∧
            bitsPerPage ≤ t.bitInPage ∧ t.bitInPage < 2 * bitsPerPage ∧ t.start % 32 = 0) →
          ∃ pages' fin, pageLoop c.op c.skip c.stop fuel (pg + 1)
            (pages.set pg (t.leavePage c.op).page) (t.leavePage c.op) = .ok (pages', fin) ∧
            c.Ended pages.length pages' fin := by
        intro t hpt hlet hcurt
        have hlen : (pages.set pg (t.leavePage c.op).page).length = pages.length :=
          List.length_set
        have hfuel' : (pages.set pg (t.leavePage c.op).page).length < pg + 1 + fuel := by
          omega
        have hleave := hpt.leavePage hpg
        rw [← Scan.leavePage_start c.op t] at hleave
        have hloop := ih (by rw [hlen]; exact hroom) (by omega) hfuel'
          hleave (by rw [leavePage_start]; exact hlet)
          (by
            rw [leavePage_start, leavePage_bitInPage]
            intro hmore'
            obtain ⟨_, _, _, hz⟩ := hcurt hmore'
            refine ⟨?_, by omega, fun _ => hz⟩
            rw [Nat.add_mul]
            omega)
        rwa [hlen] at hloop
      cases hleft with
      | more hat₁ haligned₁ hpage₁ hnear₁ =>
        exact hnext _ hat₁.progress hat₁.le_stop
          (fun _ => ⟨hat₁.cursor, hpage₁, hnear₁, haligned₁⟩)
      | stopFall hprogress hstop | stopNext hprogress hstop =>
        exact hnext _ hprogress (by omega) (fun h => by omega)
      | ret hfound =>
        refine ⟨_, _, rfl, .ret rfl ?_ hfound⟩
        rw [hp.mem, image_find hfound.isFind]
    · rw [if_neg hmore]
      refine ⟨_, _, rfl, .done rfl ?_⟩
      rwa [show c.stop + 1 = s.start by omega]

end Call

end Bsr.Bitmap
