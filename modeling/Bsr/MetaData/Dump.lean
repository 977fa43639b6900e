import Bsr.MetaData.ApplyAl

/-!
# Printing the bitmap

`fprintf_bm` of `bsrmeta.c` prints the on-disk bitmap of one peer as 64-bit numbers. It reads the
interleaved bitmap of all peers chunk by chunk and takes every `max_peers`-th word; runs of equal
words are printed once, with a repeat count.

* `fprintfBm` is the loop with its jumps, as a machine that prints `Item`s;
* a row is one 32-bit word of every peer: word `y` of peer `p` is cell `max_peers * y + p` of the
  disk;
* `fprintfBm_values`: whatever the chunks and runs are, the numbers printed for a peer are the pairs
  of its words, in order.

Line breaks, comments and the count of set bits are left out.
-/

namespace Bsr.MetaData

open Lib Bitmap List

/-- What can stop `bsrmeta`: it gives up, it does not return, or it writes outside of its buffer. -/
inductive MetaFault where
  | exit (e : Exit)
  | noReturn
  | overrun
deriving DecidableEq, Repr

/-! ## The printer -/

/-- `0x%08X%08X;` and `%u times 0x%08X%08X;`. -/
inductive Item where
  | word (v : Nat)
  | times (n v : Nat)
deriving DecidableEq, Repr

/-- The 64-bit number printed for a high and a low word. -/
def hex64 (hi lo : BitVec 32) : Nat :=
  hi.toNat * 2 ^ 32 + lo.toNat

/-- The numbers an item stands for. -/
def Item.values : Item → List Nat
  | word v => [v]
  | times n v => replicate n v

def roundDown (i g : Nat) : Nat :=
  i / g * g

namespace BmCfg

/-- The 32-bit words of the bitmap, all peers. -/
def n (cfg : BmCfg) : Nat :=
  cfg.bmBytes / 4

def maxChunkSize (cfg : BmCfg) : Nat :=
  roundDown bufferSize (4096 * cfg.maxPeers)

end BmCfg

/-- The variables of `fprintf_bm`; `bm` is the buffer, `out` what is printed. -/
structure DumpState where
  i : Nat
  r : Nat
  count : Nat
  nBuffer : Nat
  bmOnDiskOff : Nat
  cw : BitVec 32
  lw : BitVec 32
  bm : Nat → BitVec 32
  out : List Item

/-- Where the loop goes on: at its condition, at the label `next`, or behind it. -/
inductive DumpFlow where
  | top (s : DumpState)
  | next (s : DumpState)
  | stop (s : DumpState)

section

variable (cfg : BmCfg) (peerNr : Nat) (disk : Nat → BitVec 32)

/-- From the label `start` to the label `next`. -/
def readChunk (s : DumpState) : Except MetaFault DumpState :=
  let chunk := min (align ((cfg.n - roundDown s.r cfg.maxPeers) * 4) cfg.mdHardSectSize) cfg.maxChunkSize
  if chunk = 0 then .error (.exit .assertion)
  else .ok { s with
    bm := fetch disk s.bm (s.bmOnDiskOff / 4) (chunk / 4)
    bmOnDiskOff := s.bmOnDiskOff + chunk
    nBuffer := chunk / 4 }

/-- The inner loop over `j`. -/
def scanRun (s : DumpState) : Nat → Nat → Nat
  | 0, j => j
  | fuel + 1, j => if j < s.nBuffer ∧ s.cw = s.bm j then scanRun s fuel (j + cfg.maxPeers) else j

/-- The end of the loop body: one word. -/
def printWord (s : DumpState) : Except MetaFault DumpFlow :=
  if s.nBuffer ≤ s.i then .error (.exit .assertion)
  else
    let s := if s.i / cfg.maxPeers % 2 = 0 then { s with lw := s.bm s.i }
      else { s with out := s.out ++ [.word (hex64 (s.bm s.i) s.lw)] }
    .ok (.top { s with r := s.r + cfg.maxPeers, i := s.i + cfg.maxPeers })

/-- A run of `tmp` words that was found at the start of a line, up to `j`. -/
def printRun (s : DumpState) (j tmp : Nat) : Except MetaFault DumpFlow :=
  let s := if 8 < tmp then { s with
      count := s.count + tmp, r := s.r + tmp * cfg.maxPeers, i := s.i + tmp * cfg.maxPeers } else s
  -- the run may go on in the next chunk
  if 8 < tmp ∧ s.nBuffer ≤ j ∧ s.r < cfg.n then .ok (.top s)
  else if s.count ≠ 0 then
    let s' := { s with out := s.out ++ [.times (s.count / 2) (hex64 s.cw s.cw)], count := 0 }
    .ok (if cfg.n ≤ s.r then .stop s' else .next s')
  else printWord cfg s

/-- The loop body from the label `next` on. -/
def dumpNext (s : DumpState) : Except MetaFault DumpFlow :=
  if s.nBuffer ≤ s.i then .error (.exit .assertion)
  else
    let s := if s.count = 0 then { s with cw := s.bm s.i } else s
    if s.i % (8 * cfg.maxPeers) = peerNr then
      let j := scanRun cfg s s.nBuffer s.i
      printRun cfg s j (roundDown (j / cfg.maxPeers - s.i / cfg.maxPeers) 8)
    else printWord cfg s

/-- The loop of `fprintf_bm`. -/
def dumpLoop : Nat → DumpFlow → Except MetaFault (List Item)
  | 0, _ => .error .noReturn
  | _ + 1, .stop s => .ok s.out
  | fuel + 1, .next s =>
    match dumpNext cfg peerNr s with
    | .error e => .error e
    | .ok flow => dumpLoop fuel flow
  | fuel + 1, .top s =>
    if cfg.n ≤ s.r then .ok s.out
    else if cfg.maxChunkSize ≤ s.i * 4 then
      match readChunk cfg disk { s with i := s.i - cfg.maxChunkSize / 4 } with
      | .error e => .error e
      | .ok s => dumpLoop fuel (.next s)
    else dumpLoop fuel (.next s)

def fprintfBm : Except MetaFault (List Item) :=
  if bufferSize < peersMax * 4096 ∨ cfg.maxChunkSize = 0 then .error (.exit .assertion)
  else if cfg.n ≤ peerNr then .ok []
  else
    match readChunk cfg disk ⟨peerNr, peerNr, 0, 0, 0, 0, 0, fun _ => 0, []⟩ with
    | .error e => .error e
    | .ok s => dumpLoop cfg peerNr disk (3 * cfg.n + 3) (.next s)

end

/-! ## Rows -/

section

variable {mp p x y m : Nat}

theorem row_div (hp : p < mp) : (p + mp * x) / mp = x := by
  rw [Nat.add_mul_div_left _ _ (by omega), Nat.div_eq_of_lt hp, Nat.zero_add]

theorem row_lt_iff (hp : p < mp) : p + mp * x < mp * m ↔ x < m := by
  constructor
  · intro h
    by_contra hge
    have := Nat.mul_le_mul_left mp (Nat.le_of_not_lt hge)
    omega
  · intro h
    have := Nat.mul_le_mul_left mp (Nat.succ_le_of_lt h)
    rw [Nat.mul_succ] at this
    omega

theorem row_roundDown (hp : p < mp) : roundDown (p + mp * y) mp = mp * y := by
  rw [roundDown, row_div hp, Nat.mul_comm]

theorem row_mod_iff (hp : p < mp) : (p + mp * x) % (8 * mp) = p ↔ x % 8 = 0 := by
  have hx := Nat.div_add_mod x 8
  have hle : mp * (x % 8) ≤ mp * 7 := Nat.mul_le_mul_left _ (by omega)
  have hsplit : p + mp * x = p + mp * (x % 8) + 8 * mp * (x / 8) := by
    conv_lhs => rw [← hx]
    ring
  rw [hsplit, Nat.add_mul_mod_self_left, Nat.mod_eq_of_lt (by omega)]
  constructor
  · intro h
    have hzero : mp * (x % 8) = 0 := by omega
    rcases Nat.mul_eq_zero.1 hzero with h0 | h0
    · omega
    · exact h0
  · intro h
    rw [h]
    omega

end

/-- The rows of peer `p` among `n` words. -/
def rowsOf (n mp p : Nat) : Nat :=
  (n + (mp - 1 - p)) / mp

theorem lt_rowsOf_iff {n mp p y : Nat} (hp : p < mp) : y < rowsOf n mp p ↔ p + mp * y < n := by
  rw [rowsOf, Nat.lt_iff_add_one_le, Nat.le_div_iff_mul_le (by omega), Nat.mul_comm, Nat.mul_succ]
  omega

/-- A bitmap as it is printed: the size is rounded up to 4 KiB, which the sectors divide. -/
structure BmCfg.Rounded (cfg : BmCfg) (slots : PeerSlots) : Prop where
  maxPeers : cfg.maxPeers = slots.val
  page : cfg.bmBytes % 4096 = 0
  sect_pos : 0 < cfg.mdHardSectSize
  sect_dvd : cfg.mdHardSectSize ∣ 4096

variable (slots : PeerSlots)

/-- The rows a chunk has room for. -/
def rowsPerChunk : Nat :=
  bufferSize / (4096 * slots.val) * 1024

theorem rowsPerChunk_pos : 1024 ≤ rowsPerChunk slots := by
  have hle : 4096 * slots.val ≤ 4096 * 32 := Nat.mul_le_mul_left _ slots.le_max
  have hpos := slots.pos
  have hdiv : 1 ≤ bufferSize / (4096 * slots.val) := by
    rw [Nat.le_div_iff_mul_le (by omega)]
    exact Nat.le_trans (by omega) (show 4096 * 32 ≤ bufferSize by decide)
  unfold rowsPerChunk
  omega

theorem rowsPerChunk_mod : rowsPerChunk slots % 1024 = 0 :=
  Nat.mul_mod_left _ _

theorem BmCfg.Rounded.maxChunkSize_eq {cfg : BmCfg} {slots : PeerSlots} (h : cfg.Rounded slots) :
    cfg.maxChunkSize = 4 * (slots.val * rowsPerChunk slots) := by
  rw [BmCfg.maxChunkSize, h.maxPeers, roundDown, rowsPerChunk]
  ring

/-! ## The run of the printer -/

section

variable {cfg : BmCfg} {slots : PeerSlots} {p : Nat} {disk : Nat → BitVec 32}

/-- Word `y` of peer `p`. -/
def rowWord (slots : PeerSlots) (p : Nat) (disk : Nat → BitVec 32) (y : Nat) : BitVec 32 :=
  disk (slots.val * y + p)

/-- The first `k` numbers of a peer. -/
def rowValues (slots : PeerSlots) (p : Nat) (disk : Nat → BitVec 32) (k : Nat) : List Nat :=
  (range k).map fun q => hex64 (rowWord slots p disk (2 * q + 1)) (rowWord slots p disk (2 * q))

theorem rowValues_succ (k : Nat) : rowValues slots p disk (k + 1) = rowValues slots p disk k ++
    [hex64 (rowWord slots p disk (2 * k + 1)) (rowWord slots p disk (2 * k))] := by
  simp [rowValues, range_succ]

variable (slots p disk) in
theorem rowValues_run (cw : BitVec 32) {k n : Nat}
    (h : ∀ z, 2 * k ≤ z → z < 2 * (k + n) → rowWord slots p disk z = cw) :
    rowValues slots p disk (k + n) = rowValues slots p disk k ++ replicate n (hex64 cw cw) := by
  induction n with
  | zero => simp
  | succ n ih =>
    rw [← Nat.add_assoc, rowValues_succ, ih fun z hz hlt => h z hz (by omega),
      h (2 * (k + n) + 1) (by omega) (by omega), h (2 * (k + n)) (by omega) (by omega),
      replicate_succ', append_assoc]

/-- The buffer holds a chunk whose first row is `b`. -/
structure Buffered (cfg : BmCfg) (slots : PeerSlots) (disk : Nat → BitVec 32)
    (s : DumpState) (b : Nat) : Prop where
  aligned : b % 1024 = 0
  size : s.nBuffer = min (cfg.n - slots.val * b) (slots.val * rowsPerChunk slots)
  off : s.bmOnDiskOff = 4 * (slots.val * b + s.nBuffer)
  cells : ∀ j < s.nBuffer, s.bm j = disk (slots.val * b + j)

/-- The words up to row `y` are printed, but for `count` equal ones and, in an odd row, the low
word. -/
structure Printed (slots : PeerSlots) (p : Nat) (disk : Nat → BitVec 32) (s : DumpState) (y : Nat) :
    Prop where
  run_mod : s.count % 8 = 0 ∧ s.count ≤ y
  run : s.count ≠ 0 → y % 8 = 0 ∧ ∀ z, y - s.count ≤ z → z < y → rowWord slots p disk z = s.cw
  low : y % 2 = 1 → s.lw = rowWord slots p disk (y - 1)
  out : s.out.flatMap Item.values = rowValues slots p disk ((y - s.count) / 2)

/-- The printer is at row `y`, which is row `x` of the buffer. -/
structure DumpAt (cfg : BmCfg) (slots : PeerSlots) (p : Nat) (disk : Nat → BitVec 32)
    (s : DumpState) (x y : Nat) : Prop where
  i_eq : s.i = p + slots.val * x
  r_eq : s.r = p + slots.val * y
  x_le : x ≤ y
  room : x ≤ rowsPerChunk slots
  buffered : Buffered cfg slots disk s (y - x)
  passed : y ≤ rowsOf cfg.n slots.val p
  printed : Printed slots p disk s y

/-- The first row of the buffer is the same while the printer goes on. -/
theorem base_add {x y k : Nat} (h : x ≤ y) : y + k - (x + k) = y - x := by
  omega

variable {s : DumpState} {x y : Nat} {k : Nat}

section

variable (h : DumpAt cfg slots p disk s x y)

include h

theorem DumpAt.base_mul : slots.val * y = slots.val * (y - x) + slots.val * x := by
  rw [← Nat.mul_add, Nat.sub_add_cancel h.x_le]

theorem DumpAt.cell (hk : s.i + slots.val * k < s.nBuffer) :
    s.bm (s.i + slots.val * k) = rowWord slots p disk (y + k) := by
  rw [h.buffered.cells _ hk, h.i_eq]
  congr 1
  rw [Nat.mul_add, h.base_mul]
  omega

theorem DumpAt.lt_rows (hp : p < slots.val) (hk : s.i + slots.val * k < s.nBuffer) :
    x + k < rowsPerChunk slots ∧ y + k < rowsOf cfg.n slots.val p := by
  have hsize := h.buffered.size
  have hi := h.i_eq
  have hmul := h.base_mul
  rw [← row_lt_iff hp, lt_rowsOf_iff hp, Nat.mul_add, Nat.mul_add]
  omega

theorem DumpAt.advance {s' : DumpState} (hi : s'.i = s.i + slots.val * k) (hr : s'.r = s.r + slots.val * k)
    (hbuf : s'.nBuffer = s.nBuffer ∧ s'.bmOnDiskOff = s.bmOnDiskOff ∧ s'.bm = s.bm)
    (hx : x + k ≤ rowsPerChunk slots) (hy : y + k ≤ rowsOf cfg.n slots.val p)
    (hprinted : Printed slots p disk s' (y + k)) : DumpAt cfg slots p disk s' (x + k) (y + k) := by
  obtain ⟨hsize, hoff, hbm⟩ := hbuf
  have hxy := h.x_le
  refine ⟨?_, ?_, by omega, hx, ?_, hy, hprinted⟩
  · rw [hi, h.i_eq, Nat.mul_add, Nat.add_assoc]
  · rw [hr, h.r_eq, Nat.mul_add, Nat.add_assoc]
  · rw [base_add hxy]
    refine ⟨h.buffered.aligned, ?_, ?_, ?_⟩
    · rw [hsize]
      exact h.buffered.size
    · rw [hoff, hsize]
      exact h.buffered.off
    · rw [hsize, hbm]
      exact h.buffered.cells

theorem DumpAt.flush (hne : s.count ≠ 0) : DumpAt cfg slots p disk
      { s with out := s.out ++ [.times (s.count / 2) (hex64 s.cw s.cw)], count := 0 } x y := by
  obtain ⟨_, _⟩ := h.printed.run_mod
  obtain ⟨_, hrun⟩ := h.printed.run hne
  refine h.advance (k := 0) rfl rfl ⟨rfl, rfl, rfl⟩ h.room h.passed ?_
  refine ⟨⟨rfl, Nat.zero_le _⟩, fun h0 => absurd rfl h0, h.printed.low, ?_⟩
  have hvalues := rowValues_run slots p disk s.cw (k := (y - s.count) / 2)
    (n := s.count / 2) fun z hz hlt => hrun z (by omega) (by omega)
  rw [flatMap_append, h.printed.out, show (y + 0 - 0) / 2 = (y - s.count) / 2 + s.count / 2 by omega, hvalues]
  simp [Item.values]

theorem DumpAt.extend {t : Nat} (hp : p < slots.val) (hx : x % 8 = 0) (ht : t % 8 = 0) (hpos : 0 < t)
    (hrun : ∀ z < t, s.i + slots.val * z < s.nBuffer ∧ s.bm (s.i + slots.val * z) = s.cw) :
    DumpAt cfg slots p disk { s with
      count := s.count + t, r := s.r + t * slots.val, i := s.i + t * slots.val } (x + t) (y + t) := by
  obtain ⟨_, _⟩ := h.lt_rows hp (hrun (t - 1) (by omega)).1
  obtain ⟨_, _⟩ := h.printed.run_mod
  have hxy := h.x_le
  have hbase := h.buffered.aligned
  refine h.advance (by dsimp only; rw [Nat.mul_comm]) (by dsimp only; rw [Nat.mul_comm])
    ⟨rfl, rfl, rfl⟩ (by omega) (by omega) ?_
  refine ⟨⟨by dsimp only; omega, by dsimp only; omega⟩, fun _ => ⟨by omega, fun z hz hlt => ?_⟩,
    fun hodd => by omega, ?_⟩
  · dsimp only at hz
    by_cases hnew : y ≤ z
    · have hcell := h.cell (hrun (z - y) (by omega)).1
      rw [(hrun (z - y) (by omega)).2, show y + (z - y) = z by omega] at hcell
      exact hcell.symm
    · exact (h.printed.run (by omega)).2 z (by omega) (by omega)
  · dsimp only
    rw [h.printed.out]
    congr 1
    omega

theorem DumpAt.load (hcount : s.count = 0) :
    DumpAt cfg slots p disk { s with cw := s.bm s.i } x y := by
  refine h.advance (k := 0) rfl rfl ⟨rfl, rfl, rfl⟩ h.room h.passed ?_
  exact { h.printed with run := fun hne => absurd hcount hne }

theorem DumpAt.finished (hp : p < slots.val) (hcount : s.count = 0) (hend : cfg.n ≤ s.r) :
    s.out.flatMap Item.values = rowValues slots p disk (rowsOf cfg.n slots.val p / 2) := by
  have hrows : ¬y < rowsOf cfg.n slots.val p := by
    rw [lt_rowsOf_iff hp, ← h.r_eq]
    omega
  have hy : y = rowsOf cfg.n slots.val p := by
    have := h.passed
    omega
  rw [h.printed.out, hcount, Nat.sub_zero, hy]

end

/-! ### Reading a chunk -/

variable (hcfg : cfg.Rounded slots) (hp : p < slots.val)

include hcfg hp

variable (disk) in
theorem readChunk_spec {y : Nat}
    (hi : s.i = p) (hr : s.r = p + slots.val * y) (hlt : s.r < cfg.n) (hy : y % 1024 = 0)
    (hoff : s.bmOnDiskOff = 4 * (slots.val * y)) (hprinted : Printed slots p disk s y) :
    ∃ s', readChunk cfg disk s = .ok s' ∧ DumpAt cfg slots p disk s' 0 y ∧ s'.i < s'.nBuffer ∧
      s'.count = s.count := by
  have hpage := hcfg.page
  have hm := rowsPerChunk_pos slots
  have hn : 4 * cfg.n = cfg.bmBytes := by
    unfold BmCfg.n
    omega
  have hrow : 4 * (slots.val * y) % 4096 = 0 := by
    rw [← Nat.div_add_mod y 1024, hy, Nat.add_zero,
      show 4 * (slots.val * (1024 * (y / 1024))) = 4096 * (slots.val * (y / 1024)) by ring]
    exact Nat.mul_mod_right _ _
  have halign : align ((cfg.n - slots.val * y) * 4) cfg.mdHardSectSize = 4 * (cfg.n - slots.val * y) := by
    rw [Nat.mul_comm]
    refine align_of_dvd hcfg.sect_pos (Nat.dvd_trans hcfg.sect_dvd (Nat.dvd_of_mod_eq_zero ?_))
    omega
  have hroom : slots.val ≤ slots.val * rowsPerChunk slots := Nat.le_mul_of_pos_right _ (by omega)
  have hrd : roundDown s.r cfg.maxPeers = slots.val * y := by
    rw [hcfg.maxPeers, hr, row_roundDown hp]
  unfold readChunk
  rw [hrd, halign, hcfg.maxChunkSize_eq]
  generalize hcap : slots.val * rowsPerChunk slots = cap at hroom
  have hchunk : min (4 * (cfg.n - slots.val * y)) (4 * cap) = 4 * min (cfg.n - slots.val * y) cap := by
    omega
  rw [hchunk]
  rw [if_neg (by omega), Nat.mul_div_cancel_left _ (by decide)]
  refine ⟨_, rfl, ⟨hi.trans (by omega), hr, Nat.zero_le _, Nat.zero_le _, ⟨hy, ?_, ?_, ?_⟩, ?_, ?_⟩, ?_, rfl⟩
  · show min (cfg.n - slots.val * y) cap = _
    rw [hcap, Nat.sub_zero]
  · show s.bmOnDiskOff + 4 * min (cfg.n - slots.val * y) cap = _
    rw [Nat.sub_zero]
    dsimp only
    omega
  · intro j hj
    show fetch disk s.bm (s.bmOnDiskOff / 4) (min (cfg.n - slots.val * y) cap) j = _
    rw [fetch, if_pos hj, hoff, Nat.mul_div_cancel_left _ (by decide), Nat.sub_zero]
  · refine Nat.le_of_lt ((lt_rowsOf_iff hp).2 ?_)
    omega
  · exact { hprinted with }
  · show s.i < min (cfg.n - slots.val * y) cap
    omega

/-! ### One round -/

/-- What is known where the loop goes on, and how many rounds it may still take. -/
def FlowAt (cfg : BmCfg) (slots : PeerSlots) (p : Nat) (disk : Nat → BitVec 32) (k : Nat) : DumpFlow → Prop
  | .top s => ∃ x y, DumpAt cfg slots p disk s x y ∧ (s.count ≠ 0 → s.r < cfg.n) ∧
      3 * (rowsOf cfg.n slots.val p - y) + (if s.count = 0 then 0 else 1) + 1 ≤ k
  | .next s => ∃ x y, DumpAt cfg slots p disk s x y ∧ s.i < s.nBuffer ∧
      3 * (rowsOf cfg.n slots.val p - y) + (if s.count = 0 then 0 else 1) ≤ k
  | .stop s => ∃ x y, DumpAt cfg slots p disk s x y ∧ s.count = 0 ∧ cfg.n ≤ s.r

/-- A word is printed with the next one, or with the one before. -/
theorem printWord_spec (h : DumpAt cfg slots p disk s x y) (hin : s.i < s.nBuffer) (hcount : s.count = 0) :
    ∃ s', printWord cfg s = .ok (.top s') ∧ DumpAt cfg slots p disk s' (x + 1) (y + 1) ∧ s'.count = 0 := by
  have hcell := h.cell (k := 0) (by omega)
  obtain ⟨hx, hy⟩ := h.lt_rows hp (k := 0) (by omega)
  have hxy := h.x_le
  have hbase := h.buffered.aligned
  have hout := h.printed.out
  have hlow := h.printed.low
  rw [Nat.mul_zero, Nat.add_zero] at hcell
  have hdiv : s.i / cfg.maxPeers = x := by rw [hcfg.maxPeers, h.i_eq, row_div hp]
  obtain ⟨i, r, count, nBuffer, _, _, _, _, out⟩ := s
  dsimp only at hcount hin hcell hout hdiv hlow
  subst hcount
  unfold printWord
  dsimp only
  rw [if_neg (by omega), hdiv, hcfg.maxPeers]
  split_ifs with heven
  · refine ⟨_, rfl, h.advance (by simp) (by simp) ⟨rfl, rfl, rfl⟩ hx hy ?_, rfl⟩
    refine ⟨⟨rfl, Nat.zero_le _⟩, fun hne => absurd rfl hne, fun _ => hcell, ?_⟩
    dsimp only
    rw [hout]
    congr 1
    omega
  · refine ⟨_, rfl, h.advance (by simp) (by simp) ⟨rfl, rfl, rfl⟩ hx hy ?_, rfl⟩
    refine ⟨⟨rfl, Nat.zero_le _⟩, fun hne => absurd rfl hne, fun hodd => by omega, ?_⟩
    -- the low word is that of the row before
    have hhalf : 2 * (y / 2) + 1 = y := by omega
    have hpair : 2 * (y / 2) = y - 1 := by omega
    rw [flatMap_append, hout, hcell, hlow (by omega), show (y + 1 - 0) / 2 = y / 2 + 1 by omega,
      rowValues_succ, hhalf, hpair]
    rfl

omit hcfg hp in
theorem scanRun_spec (s : DumpState) (mp fuel j : Nat) (hmp : cfg.maxPeers = mp) :
    ∃ t, scanRun cfg s fuel j = j + mp * t ∧
      ∀ z < t, j + mp * z < s.nBuffer ∧ s.bm (j + mp * z) = s.cw := by
  induction fuel generalizing j with
  | zero => exact ⟨0, rfl, fun z hz => absurd hz (Nat.not_lt_zero z)⟩
  | succ fuel ih =>
    rw [scanRun]
    split_ifs with hgo
    · obtain ⟨t, heq, hrun⟩ := ih (j + cfg.maxPeers)
      rw [hmp] at heq hrun ⊢
      refine ⟨t + 1, by rw [Nat.mul_succ]; omega, fun z hz => ?_⟩
      cases z with
      | zero => exact ⟨by omega, hgo.2.symm⟩
      | succ z =>
        have := hrun z (by omega)
        rw [Nat.mul_succ, show j + (mp * z + mp) = j + mp + mp * z by omega]
        exact this
    · exact ⟨0, rfl, fun z hz => absurd hz (Nat.not_lt_zero z)⟩

/-- A run of `t` rows at the start of a line is printed, kept for the next chunk, or too short. -/
theorem printRun_spec {x y t k : Nat}
    (h : DumpAt cfg slots p disk s x y) (hin : s.i < s.nBuffer) (hx : x % 8 = 0)
    (hrun : ∀ z < t, s.i + slots.val * z < s.nBuffer ∧ s.bm (s.i + slots.val * z) = s.cw)
    (hk : 3 * (rowsOf cfg.n slots.val p - y) + (if s.count = 0 then 0 else 1) ≤ k + 1) :
    ∃ flow, printRun cfg s (s.i + slots.val * t) (roundDown t 8) = .ok flow ∧
      FlowAt cfg slots p disk k flow := by
  have hle : roundDown t 8 ≤ t := Nat.div_mul_le_self t 8
  have hmod : roundDown t 8 % 8 = 0 := Nat.mul_mod_left _ _
  obtain ⟨-, _⟩ := h.lt_rows hp (k := 0) (by omega)
  unfold printRun
  rw [hcfg.maxPeers]
  by_cases hlong : 8 < roundDown t 8
  · have hext := h.extend hp hx hmod (by omega) fun z hz => hrun z (by omega)
    have hmul := Nat.mul_le_mul_left slots.val hle
    rw [Nat.mul_comm slots.val (roundDown t 8)] at hmul
    rw [if_pos hlong]
    by_cases hmore : 8 < roundDown t 8 ∧ s.nBuffer ≤ s.i + slots.val * t ∧ s.r + roundDown t 8 * slots.val < cfg.n
    · -- the run reaches the end of the buffer
      rw [if_pos hmore]
      refine ⟨_, rfl, _, _, hext, fun _ => hmore.2.2, ?_⟩
      rw [if_neg (by dsimp only; omega)]
      split_ifs at hk <;> omega
    rw [if_neg hmore, if_pos (by dsimp only; omega)]
    refine ⟨_, rfl, ?_⟩
    have hflush := hext.flush (by dsimp only; omega)
    split_ifs with hend
    · exact ⟨_, _, hflush, rfl, hend⟩
    refine ⟨_, _, hflush, ?_, ?_⟩
    · dsimp only at hend ⊢
      omega
    · rw [if_pos rfl]
      split_ifs at hk <;> omega
  · rw [if_neg hlong, if_neg fun hmore => hlong hmore.1]
    by_cases hcount : s.count = 0
    · rw [if_neg fun hne => hne hcount]
      obtain ⟨_, heq, hat, hzero⟩ := printWord_spec hcfg hp h hin hcount
      refine ⟨_, heq, _, _, hat, fun hne => absurd hzero hne, ?_⟩
      rw [if_pos hzero]
      omega
    · rw [if_pos hcount]
      refine ⟨_, rfl, ?_⟩
      rw [if_neg hcount] at hk
      split_ifs with hend
      · exact ⟨_, _, h.flush hcount, rfl, hend⟩
      refine ⟨_, _, h.flush hcount, hin, ?_⟩
      rw [if_pos rfl]
      omega

theorem dumpNext_spec (h : FlowAt cfg slots p disk (k + 1) (.next s)) :
    ∃ flow, dumpNext cfg p s = .ok flow ∧ FlowAt cfg slots p disk k flow := by
  obtain ⟨x, y, hat, hin, hk⟩ := h
  have hmp := hcfg.maxPeers
  unfold dumpNext
  rw [if_neg (by omega)]
  dsimp only
  -- the state with the word of the run at hand
  obtain ⟨s', hs', hi', hn', hc', hat'⟩ : ∃ s', (if s.count = 0 then { s with cw := s.bm s.i } else s) = s' ∧
      s'.i = s.i ∧ s'.nBuffer = s.nBuffer ∧ s'.count = s.count ∧ DumpAt cfg slots p disk s' x y := by
    split_ifs with hcount
    · exact ⟨_, rfl, rfl, rfl, rfl, hat.load hcount⟩
    · exact ⟨s, rfl, rfl, rfl, rfl, hat⟩
  have hline : s'.i % (8 * slots.val) = p ↔ x % 8 = 0 := by rw [hat'.i_eq, row_mod_iff hp]
  rw [hs', hmp]
  rw [← hi', ← hn'] at hin
  rw [← hc'] at hk
  by_cases hx : x % 8 = 0
  · rw [if_pos (hline.2 hx)]
    obtain ⟨t, hscan, hrun⟩ := scanRun_spec s' slots.val s'.nBuffer s'.i hmp
    rw [hscan]
    have ht : (s'.i + slots.val * t) / slots.val - s'.i / slots.val = t := by
      rw [Nat.add_mul_div_left _ _ slots.pos]
      omega
    rw [ht]
    exact printRun_spec hcfg hp hat' hin hx hrun hk
  · rw [if_neg (mt hline.1 hx)]
    -- a run is pending at the start of a line only
    have hzero : s'.count = 0 := by
      by_contra hne
      have hy := (hat'.printed.run hne).1
      have hbase := hat'.buffered.aligned
      have hxy := hat'.x_le
      omega
    obtain ⟨_, heq, hat'', hzero'⟩ := printWord_spec hcfg hp hat' hin hzero
    obtain ⟨-, hy⟩ := hat'.lt_rows hp (k := 0) (by omega)
    refine ⟨_, heq, _, _, hat'', fun hne => absurd hzero' hne, ?_⟩
    rw [if_pos hzero']
    omega

theorem DumpAt.refill (h : DumpAt cfg slots p disk s x y) (hr : s.r < cfg.n) (hfull : cfg.maxChunkSize ≤ s.i * 4) :
    ∃ s', readChunk cfg disk { s with i := s.i - cfg.maxChunkSize / 4 } = .ok s' ∧
      DumpAt cfg slots p disk s' 0 y ∧ s'.i < s'.nBuffer ∧ s'.count = s.count := by
  have hroom := h.room
  have hxy := h.x_le
  have hm := rowsPerChunk_mod slots
  rw [hcfg.maxChunkSize_eq, h.i_eq] at hfull
  have hx : x = rowsPerChunk slots := by
    refine Nat.le_antisymm hroom (Nat.le_of_not_lt fun hlt => ?_)
    have := (row_lt_iff hp).2 hlt
    omega
  have hbase := h.buffered.aligned
  have hmul := h.base_mul
  have hreq := h.r_eq
  have hsize := h.buffered.size
  rw [← hx] at hsize
  refine readChunk_spec disk hcfg hp ?_ h.r_eq hr (by omega) ?_ ?_
  · dsimp only
    rw [hcfg.maxChunkSize_eq, Nat.mul_div_cancel_left _ (by decide), h.i_eq, hx, Nat.add_sub_cancel]
  · dsimp only
    rw [h.buffered.off]
    omega
  · exact { h.printed with }

theorem dumpLoop_spec {flow : DumpFlow}
    (h : FlowAt cfg slots p disk k flow) : ∃ out, dumpLoop cfg p disk (k + 1) flow = .ok out ∧
      out.flatMap Item.values = rowValues slots p disk (rowsOf cfg.n slots.val p / 2) := by
  induction k generalizing flow with
  | zero =>
    cases flow with
    | stop s =>
      obtain ⟨x, y, hat, hcount, hend⟩ := h
      exact ⟨_, rfl, hat.finished hp hcount hend⟩
    | next s =>
      obtain ⟨x, y, hat, hin, hk⟩ := h
      have := (hat.lt_rows hp (k := 0) (by omega)).2
      omega
    | top s =>
      obtain ⟨x, y, hat, -, hk⟩ := h
      omega
  | succ k ih =>
    cases flow with
    | stop s =>
      obtain ⟨x, y, hat, hcount, hend⟩ := h
      exact ⟨_, rfl, hat.finished hp hcount hend⟩
    | next s =>
      obtain ⟨flow, heq, hflow⟩ := dumpNext_spec hcfg hp h
      rw [dumpLoop, heq]
      exact ih hflow
    | top s =>
      obtain ⟨x, y, hat, _, hk⟩ := h
      rw [dumpLoop]
      split_ifs with hend hfull
      · refine ⟨_, rfl, hat.finished hp ?_ hend⟩
        by_contra hne
        omega
      · obtain ⟨_, heq, hat', hin, hcount⟩ := hat.refill hcfg hp (by omega) hfull
        rw [heq]
        refine ih ⟨0, y, hat', hin, ?_⟩
        rw [hcount]
        omega
      · refine ih ⟨x, y, hat, ?_, by omega⟩
        -- not at the end of the chunk, and not at the end of the bitmap
        have hsize := hat.buffered.size
        have hi := hat.i_eq
        have hr := hat.r_eq
        have hmul := hat.base_mul
        rw [hcfg.maxChunkSize_eq] at hfull
        omega

variable (disk) in
theorem fprintfBm_values : ∃ out, fprintfBm cfg p disk = .ok out ∧
      out.flatMap Item.values = rowValues slots p disk (rowsOf cfg.n slots.val p / 2) := by
  have hm := rowsPerChunk_pos slots
  have hpos := Nat.le_mul_of_pos_left (rowsPerChunk slots) slots.pos
  have hchunk := hcfg.maxChunkSize_eq
  unfold fprintfBm
  rw [if_neg (by rw [not_or]; exact ⟨by decide, by omega⟩)]
  split_ifs with hend
  · refine ⟨[], rfl, ?_⟩
    have hrows : ¬0 < rowsOf cfg.n slots.val p := by
      rw [lt_rowsOf_iff hp]
      omega
    rw [Nat.eq_zero_of_not_pos hrows]
    rfl
  obtain ⟨s, heq, hat, hin, hcount⟩ := readChunk_spec disk hcfg hp (y := 0)
    (s := ⟨p, p, 0, 0, 0, 0, 0, fun _ => 0, []⟩) rfl (by simp) (by dsimp only; omega) rfl (by simp)
    ⟨⟨rfl, Nat.le_refl _⟩, fun hne => absurd rfl hne, fun hodd => by omega, by simp [rowValues]⟩
  rw [heq]
  refine dumpLoop_spec hcfg hp ⟨0, 0, hat, hin, ?_⟩
  have hrows : rowsOf cfg.n slots.val p ≤ cfg.n := by
    by_contra hlt
    have := (lt_rowsOf_iff hp).1 (Nat.lt_of_not_le hlt)
    have := Nat.le_mul_of_pos_left cfg.n slots.pos
    omega
  rw [if_pos (by rw [hcount])]
  omega

end

end Bsr.MetaData
