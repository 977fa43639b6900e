import Bsr.Bitmap.Chunk

/-!
# Progress of an operation through the page array

`____bm_op` is followed against the memory it started from. `image` is that memory after the bits
`[a, e)` of one slot were processed; `Progress` relates the locals of the running loop to it. A
processed chunk extends the progress by its bits (`Progress.chunk`).
-/

namespace Bsr.Bitmap

open Lib List

/-- Bit `k` of the page array; addresses outside of it read as clear. -/
def memBit (pages : List Page) (k : Nat) : Bool :=
  match pages[k / bitsPerPage]? with
  | some p => p.testBit (k % bitsPerPage)
  | none => false

theorem memBit_set {pages : List Page} {pg : Nat} (p : Page) (hpg : pg < pages.length) (k : Nat) :
    memBit (pages.set pg p) k =
      if k / bitsPerPage = pg then p.testBit (k % bitsPerPage) else memBit pages k := by
  split_ifs with hk
  · rw [memBit, hk, getElem?_set_self hpg]
  · rw [memBit, memBit, getElem?_set_ne (fun h => hk h.symm)]

theorem memBit_set_self {pages : List Page} {pg : Nat} {p : Page} (h : pages[pg]? = some p) :
    pages.set pg p = pages := by
  obtain ⟨hlt, rfl⟩ := List.getElem?_eq_some_iff.mp h
  exact set_getElem_self hlt

/-- The memory `m` after the bits `[a, e)` of slot `idx` went through the operation; bit `i` of the
slot meets bit `i - a` of the source. -/
def image (op : BmOp) (mp idx a e : Nat) (src m : Nat → Bool) (k : Nat) : Bool :=
  if addrSlot mp k = idx ∧ a ≤ addrBit mp k ∧ addrBit mp k < e then
    op.newBit (m k) (src (addrBit mp k - a))
  else m k

theorem image_empty (op : BmOp) (mp idx a : Nat) (src m : Nat → Bool) :
    image op mp idx a a src m = m := by
  ext k
  rw [image, if_neg (by omega)]

theorem image_find {op : BmOp} (h : op.isFind = true) (mp idx a e : Nat) (src m : Nat → Bool) :
    image op mp idx a e src m = m := by
  ext k
  rw [image, BmOp.newBit_find h, ite_self]

theorem image_add {op : BmOp} {mp idx a x n : Nat} {src m : Nat → Bool} (hidx : idx < mp)
    (hax : a ≤ x) (hword : x % 32 + n ≤ 32) (k : Nat) : image op mp idx a (x + n) src m k =
      if bitAddr mp idx x ≤ k ∧ k < bitAddr mp idx x + n then
        op.newBit (m k) (src (x - a + (k - bitAddr mp idx x)))
      else image op mp idx a x src m k := by
  have hiff := mem_chunk_iff (k := k) hidx hword
  by_cases hin : bitAddr mp idx x ≤ k ∧ k < bitAddr mp idx x + n
  · obtain ⟨hslot, hlo, hhi⟩ := hiff.mp hin
    have hk : k = bitAddr mp idx (addrBit mp k) := by
      rw [← hslot, bitAddr_addrBit]
    obtain ⟨d, hd⟩ := Nat.exists_eq_add_of_le hlo
    have hoff : k - bitAddr mp idx x = d := by
      rw [hd, bitAddr_add (by omega)] at hk
      omega
    rw [if_pos hin, image, if_pos ⟨hslot, by omega, hhi⟩, hd]
    congr 2
    omega
  · rw [image, image]
    split_ifs <;> first | rfl | omega

theorem image_bitAddr_ge {op : BmOp} {mp idx a x i : Nat} {src m : Nat → Bool} (hidx : idx < mp)
    (hi : x ≤ i) : image op mp idx a x src m (bitAddr mp idx i) = m (bitAddr mp idx i) := by
  rw [image, addrBit_bitAddr hidx, if_neg (by omega)]

/-- State of the loop after the bits `[a, x)` of slot `idx` were processed, starting from memory
`m₀` and buffer `src`. `m` is the memory with the mapped page in place. -/
structure Progress (op : BmOp) (mp idx a : Nat) (src : List (BitVec 32)) (m₀ : Nat → Bool)
    (x : Nat) (m : Nat → Bool) (s : Scan) : Prop where
  le : a ≤ x
  mem : m = image op mp idx a x (streamBit src) m₀
  sum_eq : s.sum op =
    tally (fun i => op.tallied (m₀ (bitAddr mp idx i)) (streamBit src (i - a))) a (x - a)
  src_eq : op = .merge → s.src = src.drop ((x - a + 31) / 32)
  out_other : op ≠ .extract → s.out = []
  out_length : op = .extract → s.out.length = (x - a + 31) / 32
  out_bits : op = .extract → ∀ j, streamBit s.out j =
    (decide (j < x - a) && m₀ (bitAddr mp idx (a + j)))
  miss : op.isFind = true → ∀ i, a ≤ i → i < x → m₀ (bitAddr mp idx i) ≠ op.want

namespace Progress

variable {op : BmOp} {mp idx a x n pg : Nat} {src : List (BitVec 32)} {m₀ : Nat → Bool}
  {pages : List Page} {s s' : Scan}

variable (hp : Progress op mp idx a src m₀ x (memBit (pages.set pg s.page)) s)
  (hidx : idx < mp) (hpg : pg < pages.length)
  (hcur : pg * bitsPerPage + s.bitInPage = bitAddr mp idx x) (hword : x % 32 + n ≤ 32)
  (hpage : s.bitInPage + n ≤ bitsPerPage)

include hp hidx hpg hcur hword hpage

theorem cursor_bit {j : Nat} (hj : j < n) :
    s.page.testBit (s.bitInPage + j) = m₀ (bitAddr mp idx (x + j)) := by
  have haddr : bitAddr mp idx (x + j) = pg * bitsPerPage + (s.bitInPage + j) := by
    rw [bitAddr_add (by omega)]
    omega
  have hdiv : bitAddr mp idx (x + j) / bitsPerPage = pg := by
    unfold bitsPerPage at haddr hpage ⊢
    omega
  have hmod : bitAddr mp idx (x + j) % bitsPerPage = s.bitInPage + j := by
    unfold bitsPerPage at haddr hpage ⊢
    omega
  have hmem := congrFun hp.mem (bitAddr mp idx (x + j))
  rw [image_bitAddr_ge hidx (by omega), memBit_set _ hpg, if_pos hdiv, hmod] at hmem
  exact hmem

theorem chunk_mem (hdone : s.ChunkDone op n s') (halign : op = .merge → (x - a) % 32 = 0) :
    memBit (pages.set pg s'.page) = image op mp idx a (x + n) (streamBit src) m₀ := by
  ext k
  have hold := congrFun hp.mem k
  rw [memBit_set _ hpg] at hold ⊢
  rw [image_add hidx hp.le hword]
  by_cases hk : k / bitsPerPage = pg
  · have hkmod : k % bitsPerPage < bitsPerPage := Nat.mod_lt _ (by decide)
    have hkeq : pg * bitsPerPage + k % bitsPerPage = k := by
      rw [← hk, Nat.mul_comm, Nat.div_add_mod]
    rw [if_pos hk] at hold ⊢
    rw [hdone.bits _ hkmod]
    by_cases hin : s.bitInPage ≤ k % bitsPerPage ∧ k % bitsPerPage < s.bitInPage + n
    · have hoff : k - bitAddr mp idx x = k % bitsPerPage - s.bitInPage := by omega
      obtain ⟨j, hj⟩ := Nat.exists_eq_add_of_le hin.1
      have hcursor := hp.cursor_bit hidx hpg hcur hword hpage (show j < n by omega)
      have hkaddr : bitAddr mp idx (x + j) = k := by
        rw [bitAddr_add (by omega)]
        omega
      rw [if_pos hin, if_pos (by omega), hoff, hj, hcursor, hkaddr]
      by_cases hmerge : op = .merge
      · have hdrop : 32 * ((x - a + 31) / 32) = x - a := by
          have := halign hmerge
          omega
        rw [hp.src_eq hmerge, streamBit_drop, hdrop]
      · exact BmOp.newBit_src hmerge _ _ _
    · rw [if_neg hin, if_neg (by omega)]
      exact hold
  · rw [if_neg hk] at hold ⊢
    rw [if_neg, hold]
    unfold bitsPerPage at hk hpage hcur
    omega

theorem chunk (hdone : s.ChunkDone op n s') (hn : 0 < n)
    (halign : op = .merge ∨ op = .extract → (x - a) % 32 = 0) :
    Progress op mp idx a src m₀ (x + n) (memBit (pages.set pg s'.page)) s' := by
  have hle := hp.le
  have hbit : ∀ j < n, s.page.testBit (s.bitInPage + j) = m₀ (bitAddr mp idx (x + j)) :=
    fun j hj => hp.cursor_bit hidx hpg hcur hword hpage hj
  refine ⟨by omega, hp.chunk_mem hidx hpg hcur hword hpage hdone (fun h => halign (.inl h)),
    ?_, ?_, ?_, ?_, ?_, ?_⟩
  · rw [hdone.sum_eq, hp.sum_eq, show x + n - a = (x - a) + n by omega, tally_add]
    congr 1
    rw [show a + (x - a) = x + 0 by omega, ← tally_shift]
    apply tally_congr
    intro j _ hj
    rw [hbit j (by omega)]
    by_cases hmerge : op = .merge
    · have hdrop : 32 * ((x - a + 31) / 32) = x - a := by
        have := halign (.inl hmerge)
        omega
      rw [hp.src_eq hmerge, streamBit_drop, hdrop, show x + j - a = x - a + j by omega]
    · exact BmOp.tallied_src hmerge _ _ _
  · intro hmerge
    have := halign (.inl hmerge)
    rw [hdone.src_eq hmerge, hp.src_eq hmerge, tail_drop,
      show (x + n - a + 31) / 32 = (x - a + 31) / 32 + 1 by omega]
  · intro hextract
    rw [hdone.out_eq hextract, hp.out_other hextract]
  · intro hextract
    have := halign (.inr hextract)
    obtain ⟨w, hout, -⟩ := hdone.out_extract hextract
    rw [hout, length_append, hp.out_length hextract, length_singleton]
    omega
  · intro hextract j
    have := halign (.inr hextract)
    obtain ⟨w, hout, hw⟩ := hdone.out_extract hextract
    have hlen : 32 * s.out.length = x - a := by
      rw [hp.out_length hextract]
      omega
    rw [hout]
    by_cases hj : j < x - a
    · rw [streamBit_append_left (by omega), hp.out_bits hextract, decide_eq_true hj,
        decide_eq_true (show j < x + n - a by omega)]
    obtain ⟨i, rfl⟩ := Nat.exists_eq_add_of_le (Nat.not_lt.mp hj)
    have hright := streamBit_append_right s.out [w] i
    rw [hlen] at hright
    rw [hright, show a + (x - a + i) = x + i by omega]
    by_cases hi : i < n
    · rw [streamBit_cons_low (by omega), hw i (by omega), hbit i hi, decide_eq_true hi,
        decide_eq_true (show x - a + i < x + n - a by omega)]
    rw [decide_eq_false (show ¬ x - a + i < x + n - a by omega), Bool.false_and]
    by_cases hi32 : i < 32
    · rw [streamBit_cons_low hi32, hw i hi32, decide_eq_false hi, Bool.false_and]
    · exact streamBit_of_length_le (by rw [length_singleton]; omega)
  · intro hfind i hlo _
    by_cases hi : i < x
    · exact hp.miss hfind i hlo hi
    obtain ⟨j, rfl⟩ := Nat.exists_eq_add_of_le (Nat.not_lt.mp hi)
    rw [← hbit j (by omega)]
    exact hdone.miss hfind j (by omega)

end Progress

/-! ## Leaving a page -/

namespace Scan

variable (op : BmOp) (s : Scan)

theorem leavePage_eq : ∃ p total, s.leavePage op =
    { s with bitInPage := s.bitInPage - bitsPerPage, page := p, total := total } ∧
    (∀ k, p.testBit k = s.page.testBit k) ∧
    Scan.sum op { s with page := p, total := total, count := 0 } = s.sum op := by
  by_cases hcount : s.count = 0
  · refine ⟨s.page, s.total, ?_, fun _ => rfl, ?_⟩
    · cases op <;> simp [leavePage, hcount]
    · cases op <;> simp [sum, hcount]
  cases op with
  | clear =>
    refine ⟨{ s.page with lazyWriteout := true }, s.total + s.count, ?_, fun _ => rfl, ?_⟩
    · simp [leavePage, hcount]
    · simp [sum]
  | set | merge =>
    refine ⟨{ s.page with needWriteout := true }, s.total + s.count, ?_, fun _ => rfl, ?_⟩
    · simp [leavePage, hcount]
    · simp [sum]
  | _ =>
    refine ⟨s.page, s.total, ?_, fun _ => rfl, ?_⟩
    · simp [leavePage]
    · simp [sum]

@[simp] theorem leavePage_start : (s.leavePage op).start = s.start := by
  obtain ⟨p, _, heq, -, -⟩ := leavePage_eq op s
  rw [heq]

@[simp] theorem leavePage_bitInPage : (s.leavePage op).bitInPage = s.bitInPage - bitsPerPage := by
  obtain ⟨p, _, heq, -, -⟩ := leavePage_eq op s
  rw [heq]

end Scan

namespace Progress

variable {op : BmOp} {mp idx a x pg : Nat} {src : List (BitVec 32)} {m₀ : Nat → Bool}
  {pages : List Page} {s : Scan}

theorem leavePage (hp : Progress op mp idx a src m₀ x (memBit (pages.set pg s.page)) s)
    (hpg : pg < pages.length) :
    Progress op mp idx a src m₀ x (memBit (pages.set pg (s.leavePage op).page))
      { s.leavePage op with count := 0 } := by
  obtain ⟨p, total, heq, hbits, hsum⟩ := Scan.leavePage_eq op s
  rw [heq]
  have hmem : memBit (pages.set pg p) = memBit (pages.set pg s.page) := by
    ext k
    rw [memBit_set _ hpg, memBit_set _ hpg, hbits]
  have hsum' : Scan.sum op
      ⟨s.start, s.bitInPage - bitsPerPage, p, 0, total, s.src, s.out⟩ = s.sum op := by
    rw [← hsum]
    cases op <;> simp [Scan.sum]
  exact { hp with mem := hmem.trans hp.mem, sum_eq := hsum'.trans hp.sum_eq }

end Progress

end Bsr.Bitmap
