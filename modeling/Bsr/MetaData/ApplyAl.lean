import Bsr.Lib.Window
import Bsr.ActLog.Runs
import Bsr.MetaData.Regions

/-!
# Applying the activity log to the bitmap

`apply_al` of `bsrmeta.c` sets the bits of the hot extents in the on-disk bitmap of all peers,
through a buffer of 32 MiB.

* the bitmap on disk is a stream of bits, bit `32 * w + i` being bit `i` of word `w`; the kernel
  finds bit `b` of slot `p` at `bitAddr`;
* positions are computed as the source does: 32 bits for the place of an extent;
* `apply_al_exact_iff` says for which devices every set of hot extents is applied exactly.

`bits_set` and the messages are left out. The writes stay inside the bitmap region, which
`validate_offsets_or_die` accepts.
-/

namespace Bsr.MetaData

open Lib Bitmap List

/-! ## `apply_al` -/

def bufferSize : Nat := 32 * 1024 * 1024

def bmBytesPerAlExt : Nat := 128

/-- What is read of `struct format` where the bitmap is read or written. -/
structure BmCfg where
  maxPeers : Nat
  bmBytesPerBit : Nat
  /-- `cfg->bm_bytes`, an `unsigned int`. -/
  bmBytes : Nat
  mdHardSectSize : Nat

namespace BmCfg

def extentsSize (cfg : BmCfg) : Nat :=
  bmBytesPerAlExt * cfg.maxPeers % 2 ^ 32

def alignedBmBytes (cfg : BmCfg) : Nat :=
  align cfg.bmBytes cfg.mdHardSectSize % 2 ^ 32

/-- `hot_extent[i] * extents_size`: both are 32 bits wide. -/
def bmPos (cfg : BmCfg) (e : Nat) : Nat :=
  e * cfg.extentsSize % 2 ^ 32

end BmCfg

/-- The disk, the buffer and the window of the disk that it holds; cells are bits, positions
bytes. -/
structure ApplyState where
  disk : Nat → Bool
  onDiskBuffer : Nat → Bool
  bmOnDiskPos : Nat
  chunk : Nat

namespace ApplyState

/-- `pwrite_or_die` of the buffer. -/
def pwrite (s : ApplyState) : ApplyState :=
  { s with disk := patch s.disk s.onDiskBuffer (8 * s.bmOnDiskPos) (8 * s.chunk) }

/-- `pread_or_die` of the window at `pos`. -/
def pread (s : ApplyState) (pos chunk : Nat) : ApplyState :=
  { s with
    onDiskBuffer := fetch s.disk s.onDiskBuffer (8 * pos) (8 * chunk)
    bmOnDiskPos := pos
    chunk := chunk }

/-- `memset` of the buffer with `0xff`. -/
def memset (s : ApplyState) (pos n : Nat) : ApplyState :=
  { s with onDiskBuffer := fill s.onDiskBuffer (8 * pos) (8 * n) true }

end ApplyState

/-- Where a window for position `pos` begins. -/
def pageOf (pos : Nat) : Nat :=
  pos / 4096 * 4096

variable (cfg : BmCfg)

/-- The window for the extent at `pos` is in the buffer, or is brought there. -/
def moveWindow (i pos : Nat) (s : ApplyState) : ApplyState :=
  if i = 0 ∨ s.bmOnDiskPos + s.chunk ≤ pos + cfg.extentsSize then
    let s := if i ≠ 0 then s.pwrite else s
    s.pread (pageOf pos) (min (cfg.alignedBmBytes - pageOf pos) bufferSize)
  else s

/-- One round of the loop of `apply_al`; the differences are unsigned. -/
def applyExtent (i e : Nat) (s : ApplyState) : Except Exit ApplyState :=
  if cfg.bmBytesPerBit ≠ 4096 then .error .assertion
  -- "extent %u beyond end of bitmap!"
  else if cfg.alignedBmBytes ≤ cfg.bmPos e then .ok s
  else
    let s := moveWindow cfg i (cfg.bmPos e) s
    let inBuffer := toU64 (cfg.bmPos e - s.bmOnDiskPos)
    if toU64 (s.chunk - cfg.extentsSize) < inBuffer then .error .assertion
    else if inBuffer % 8 ≠ 0 then .error .assertion
    else .ok (s.memset inBuffer cfg.extentsSize)

/-- The loop of `apply_al` from index `i` on; the first unused entry ends it. -/
def applyLoop (cfg : BmCfg) : Nat → List Nat → ApplyState → Except Exit (Nat × ApplyState)
  | i, [], s => .ok (i, s)
  | i, e :: rest, s =>
    if e = 2 ^ 32 - 1 then .ok (i, s)
    else
      match applyExtent cfg i e s with
      | .error x => .error x
      | .ok s => applyLoop cfg (i + 1) rest s

/-- `apply_al` on the sorted array `hotExtent`. -/
def applyAl (hotExtent : List Nat) (disk : Nat → Bool) : Except Exit (Nat → Bool) :=
  match applyLoop cfg 0 hotExtent ⟨disk, fun _ => false, 0, 0⟩ with
  | .error x => .error x
  | .ok (i, s) => .ok (if i ≠ 0 then s.pwrite.disk else s.disk)

/-- The configuration of a device of `size` sectors, as `clip_effective_size_and_bm_bytes` leaves
it. -/
def applyCfg (slots : PeerSlots) (size hardSect : Nat) : BmCfg where
  maxPeers := slots.val
  bmBytesPerBit := 4096
  bmBytes := 512 * bsrCapacityToOnDiskBmSect size slots.val % 2 ^ 32
  mdHardSectSize := hardSect

/-! ## Where the extents are -/

/-- The number of extents of a device of `size` sectors. -/
def extentCount (size : Nat) : Nat :=
  (size + 8191) / 8192

/-- The bits of extent `e` of all slots are in one piece. -/
def InExtent (slots : PeerSlots) (e k : Nat) : Prop :=
  8 * (e * (bmBytesPerAlExt * slots.val)) ≤ k ∧
    k < 8 * (e * (bmBytesPerAlExt * slots.val)) + 8 * (bmBytesPerAlExt * slots.val)

variable {slots : PeerSlots}

theorem inExtent_iff {e k : Nat} : InExtent slots e k ↔ k / (1024 * slots.val) = e := by
  have hpos : 0 < 1024 * slots.val := Nat.mul_pos (by decide) slots.pos
  rw [Nat.div_eq_iff hpos, InExtent, bmBytesPerAlExt]
  have hmul : 8 * (e * (128 * slots.val)) = e * (1024 * slots.val) := by ring
  omega

theorem inExtent_bitAddr {p b e : Nat} (hp : p < slots.val) :
    InExtent slots e (bitAddr slots.val p b) ↔ b / 1024 = e := by
  have hword : (b / 32 * slots.val + p) / slots.val = b / 32 := by
    rw [Nat.mul_comm, Nat.mul_add_div slots.pos, Nat.div_eq_of_lt hp, Nat.add_zero]
  have hdiv : bitAddr slots.val p b / (1024 * slots.val) = b / 1024 := by
    rw [show 1024 * slots.val = 32 * slots.val * 32 by ring, ← Nat.div_div_eq_div_mul,
      ← Nat.div_div_eq_div_mul, bitAddr_div, hword, Nat.div_div_eq_div_mul]
  rw [inExtent_iff, hdiv]

/-! ## One extent -/

/-- The numbers of a configuration whose positions fit 32 bits. -/
structure BmCfg.Fine (cfg : BmCfg) (slots : PeerSlots) (bm : Nat) : Prop where
  perBit : cfg.bmBytesPerBit = 4096
  ext : cfg.extentsSize = bmBytesPerAlExt * slots.val
  bytes : cfg.alignedBmBytes = bm
  page : bm % 4096 = 0
  lt : bm < 2 ^ 32

/-- The window begins at or before `pos`. -/
structure ApplyState.Before (s : ApplyState) (pos : Nat) : Prop where
  aligned : s.bmOnDiskPos % 8 = 0
  low : s.bmOnDiskPos ≤ pos
  chunk_le : s.chunk ≤ bufferSize

section

variable {cfg : BmCfg} {slots : PeerSlots} {bm i e pos : Nat} {s : ApplyState}

theorem ext_le (slots : PeerSlots) : bmBytesPerAlExt * slots.val ≤ 4096 :=
  Nat.mul_le_mul_left bmBytesPerAlExt slots.le_max

open ApplyState

theorem moveWindow_spec (hcfg : cfg.Fine slots bm) (hpos : pos + bmBytesPerAlExt * slots.val ≤ bm)
    (hfirst : i = 0 → s.chunk = 0) (hwin : s.Before pos) :
    (moveWindow cfg i pos s).pwrite.disk = s.pwrite.disk ∧ (moveWindow cfg i pos s).Before pos ∧
      pos + bmBytesPerAlExt * slots.val ≤
        (moveWindow cfg i pos s).bmOnDiskPos + (moveWindow cfg i pos s).chunk := by
  have hext := ext_le slots
  have hbuf : bufferSize = 33554432 := rfl
  unfold moveWindow
  rw [hcfg.ext, hcfg.bytes]
  generalize bmBytesPerAlExt * slots.val = ext at *
  by_cases hmove : i = 0 ∨ s.bmOnDiskPos + s.chunk ≤ pos + ext
  · rw [if_pos hmove]
    refine ⟨?_, ⟨?_, ?_, ?_⟩, ?_⟩
    · by_cases hi : i = 0
      · rw [if_neg (by omega)]
        simp [pwrite, pread, hfirst hi]
      · rw [if_pos hi]
        simp [pwrite, pread]
    · show pageOf pos % 8 = 0
      unfold pageOf
      omega
    · show pageOf pos ≤ pos
      unfold pageOf
      omega
    · exact Nat.min_le_right _ _
    · show pos + ext ≤ pageOf pos + min (bm - pageOf pos) bufferSize
      unfold pageOf
      omega
  · rw [if_neg hmove]
    exact ⟨rfl, hwin, by omega⟩

theorem applyExtent_spec (hcfg : cfg.Fine slots bm) (hin : (e + 1) * (bmBytesPerAlExt * slots.val) ≤ bm)
    (hfirst : i = 0 → s.chunk = 0) (hwin : s.Before (e * (bmBytesPerAlExt * slots.val))) :
    ∃ s', applyExtent cfg i e s = .ok s' ∧ s'.Before (e * (bmBytesPerAlExt * slots.val)) ∧
      s'.pwrite.disk = fill s.pwrite.disk (8 * (e * (bmBytesPerAlExt * slots.val)))
        (8 * (bmBytesPerAlExt * slots.val)) true := by
  have hlt := hcfg.lt
  have hmod : e * (bmBytesPerAlExt * slots.val) % 8 = 0 := by
    rw [show e * (bmBytesPerAlExt * slots.val) = 8 * (e * (16 * slots.val)) by
      rw [bmBytesPerAlExt]
      ring]
    exact Nat.mul_mod_right _ _
  have hextpos : 0 < bmBytesPerAlExt * slots.val := Nat.mul_pos (by decide) slots.pos
  rw [Nat.succ_mul] at hin
  have hbmpos : cfg.bmPos e = e * (bmBytesPerAlExt * slots.val) := by
    unfold BmCfg.bmPos
    rw [hcfg.ext, Nat.mod_eq_of_lt (by omega)]
  obtain ⟨hdisk, hwin', hend⟩ := moveWindow_spec hcfg hin hfirst hwin
  unfold applyExtent
  rw [if_neg (by rw [hcfg.perBit]; decide), hcfg.bytes, hbmpos, if_neg (by omega), hcfg.ext]
  dsimp only
  generalize moveWindow cfg i (e * (bmBytesPerAlExt * slots.val)) s = t at hdisk hwin' hend ⊢
  generalize e * (bmBytesPerAlExt * slots.val) = pos at hin hmod hwin' hend ⊢
  generalize bmBytesPerAlExt * slots.val = ext at hin hextpos hend ⊢
  have halign := hwin'.aligned
  have hlow := hwin'.low
  have hchunk : t.chunk ≤ 33554432 := hwin'.chunk_le
  have hoff : toU64 (pos - t.bmOnDiskPos) = pos - t.bmOnDiskPos := by
    unfold toU64
    omega
  have hroom : toU64 (t.chunk - ext) = t.chunk - ext := by
    unfold toU64
    omega
  rw [hoff, if_neg (by omega), if_neg (by omega)]
  refine ⟨_, rfl, ⟨halign, hlow, hchunk⟩, ?_⟩
  rw [← hdisk]
  show patch t.disk (fill t.onDiskBuffer (8 * (pos - t.bmOnDiskPos)) (8 * ext) true)
    (8 * t.bmOnDiskPos) (8 * t.chunk) = _
  rw [show 8 * (pos - t.bmOnDiskPos) = 8 * pos - 8 * t.bmOnDiskPos by omega]
  exact patch_fill (by omega) (by omega)

/-! ## All extents -/

/-- The loop over a sorted list of extents inside the bitmap sets their bits and no others. -/
theorem applyLoop_spec (hcfg : cfg.Fine slots bm) {l : List Nat} (hsorted : l.Pairwise (· ≤ ·))
    (hu32 : ∀ e ∈ l, e < 2 ^ 32)
    (hin : ∀ e ∈ l, e ≠ 2 ^ 32 - 1 → (e + 1) * (bmBytesPerAlExt * slots.val) ≤ bm)
    (hfirst : i = 0 → s.chunk = 0) (hwin : ∀ e ∈ l, s.Before (e * (bmBytesPerAlExt * slots.val))) :
    ∃ j s', applyLoop cfg i l s = .ok (j, s') ∧ (j = 0 → s'.chunk = 0) ∧
      ∀ k, s'.pwrite.disk k = true ↔
        s.pwrite.disk k = true ∨ ∃ e ∈ l, e ≠ 2 ^ 32 - 1 ∧ InExtent slots e k := by
  induction l generalizing i s with
  | nil => exact ⟨i, s, rfl, hfirst, fun k => by simp⟩
  | cons e rest ih =>
    obtain ⟨hmin, hrest⟩ := pairwise_cons.1 hsorted
    by_cases hlast : e = 2 ^ 32 - 1
    · -- the unused entries come last
      refine ⟨i, s, by rw [applyLoop, if_pos hlast], hfirst, fun k => ?_⟩
      have hnone : ¬ ∃ e' ∈ e :: rest, e' ≠ 2 ^ 32 - 1 ∧ InExtent slots e' k := by
        rintro ⟨e', he', hne, -⟩
        have hlt := hu32 e' he'
        rcases mem_cons.1 he' with rfl | hmem
        · exact hne hlast
        · have hle := hmin e' hmem
          omega
      simp only [hnone, or_false]
    · obtain ⟨s', hrun, hwin', hdisk⟩ :=
        applyExtent_spec hcfg (hin e mem_cons_self hlast) hfirst (hwin e mem_cons_self)
      obtain ⟨j, t, hloop, hzero, hbits⟩ := ih (s := s') hrest
        (fun e' he' => hu32 e' (mem_cons_of_mem _ he'))
        (fun e' he' => hin e' (mem_cons_of_mem _ he')) (fun h => absurd h (Nat.succ_ne_zero i))
        (fun e' he' => { hwin' with low := Nat.le_trans hwin'.low (Nat.mul_le_mul_right _ (hmin e' he')) })
      refine ⟨j, t, ?_, hzero, fun k => ?_⟩
      · rw [applyLoop, if_neg hlast, hrun]
        exact hloop
      rw [hbits, hdisk]
      by_cases hk : InExtent slots e k
      · exact ⟨fun _ => .inr ⟨e, mem_cons_self, hlast, hk⟩,
          fun _ => .inl (fill_of_mem hk.1 hk.2)⟩
      · simp [fill_of_not_mem hk, hk]

end

/-! ## Devices -/

/-- `apply_al` returned and left exactly the bits of the hot extents set in addition: for all bits
of the device in all slots, and for everything behind the bitmap. The padding bits of the bitmap,
which belong to no block of the device, are left free. -/
structure Exact (slots : PeerSlots) (size : Nat) (hot : List Nat) (disk disk' : Nat → Bool) : Prop where
  bits : ∀ p < slots.val, ∀ b < (size + 7) / 8,
    disk' (bitAddr slots.val p b) = true ↔ disk (bitAddr slots.val p b) = true ∨ b / 1024 ∈ hot
  outside : ∀ k, 8 * (512 * bsrCapacityToOnDiskBmSect size slots.val) ≤ k → disk' k = disk k

/-- The positions in the bitmap fit 32 bits, and the bitmap of the last extent fits in full. -/
structure Fits (slots : PeerSlots) (size : Nat) : Prop where
  small : 512 * bsrCapacityToOnDiskBmSect size slots.val < 2 ^ 32
  whole : extentCount size * (bmBytesPerAlExt * slots.val) ≤
    512 * bsrCapacityToOnDiskBmSect size slots.val

variable {e : Nat}

section

variable {slots : PeerSlots} {size hardSect : Nat}

theorem align_of_dvd {x a : Nat} (ha : 0 < a) (h : a ∣ x) : align x a = x := by
  obtain ⟨c, rfl⟩ := h
  unfold align
  rw [Nat.mul_add_div ha, Nat.div_eq_of_lt (by omega), Nat.add_zero, Nat.mul_comm]

theorem bmBytes_mod (slots : PeerSlots) (size : Nat) :
    512 * bsrCapacityToOnDiskBmSect size slots.val % 4096 = 0 := by
  have hmod := bsrCapacityToOnDiskBmSect_mod size slots.val
  omega

theorem alignedBmBytes_eq (hsect : 0 < hardSect) (hdvd : hardSect ∣ 4096) :
    (applyCfg slots size hardSect).alignedBmBytes =
      512 * bsrCapacityToOnDiskBmSect size slots.val % 2 ^ 32 := by
  have hmod := bmBytes_mod slots size
  have hdvd' : hardSect ∣ 512 * bsrCapacityToOnDiskBmSect size slots.val % 2 ^ 32 :=
    Nat.dvd_trans hdvd (Nat.dvd_of_mod_eq_zero (by omega))
  show align (512 * bsrCapacityToOnDiskBmSect size slots.val % 2 ^ 32) hardSect % 2 ^ 32 = _
  rw [align_of_dvd hsect hdvd', Nat.mod_mod]

theorem extentsSize_eq : (applyCfg slots size hardSect).extentsSize = bmBytesPerAlExt * slots.val := by
  have hle := ext_le slots
  show bmBytesPerAlExt * slots.val % 2 ^ 32 = _
  rw [Nat.mod_eq_of_lt (by omega)]

theorem Fits.fine (h : Fits slots size) (hsect : 0 < hardSect) (hdvd : hardSect ∣ 4096) :
    (applyCfg slots size hardSect).Fine slots (512 * bsrCapacityToOnDiskBmSect size slots.val) where
  perBit := rfl
  ext := extentsSize_eq
  bytes := by rw [alignedBmBytes_eq hsect hdvd, Nat.mod_eq_of_lt h.small]
  page := bmBytes_mod slots size
  lt := h.small

theorem Fits.exact (h : Fits slots size) (hsize : size ≤ 2 ^ 41) (hsect : 0 < hardSect)
    (hdvd : hardSect ∣ 4096) {hot : List Nat} (hsorted : hot.Pairwise (· ≤ ·))
    (hhot : ∀ e ∈ hot, e = 2 ^ 32 - 1 ∨ 8192 * e < size) (disk : Nat → Bool) :
    ∃ disk', applyAl (applyCfg slots size hardSect) hot disk = .ok disk' ∧ Exact slots size hot disk disk' := by
  have hwhole := h.whole
  have hin : ∀ e ∈ hot, e ≠ 2 ^ 32 - 1 → (e + 1) * (bmBytesPerAlExt * slots.val) ≤
      512 * bsrCapacityToOnDiskBmSect size slots.val := by
    intro e he hne
    have hlt := (hhot e he).resolve_left hne
    refine Nat.le_trans (Nat.mul_le_mul_right _ ?_) hwhole
    unfold extentCount
    omega
  obtain ⟨j, s, hloop, hzero, hbits⟩ := applyLoop_spec (s := ⟨disk, fun _ => false, 0, 0⟩)
    (h.fine hsect hdvd) hsorted
    (fun e he => by have := hhot e he; omega) hin (fun _ => rfl)
    (fun e _ => ⟨rfl, Nat.zero_le _, Nat.zero_le _⟩)
  have hfinal : (if j ≠ 0 then s.pwrite.disk else s.disk) = s.pwrite.disk := by
    split_ifs with hj
    · rfl
    · simp only [ne_eq, Decidable.not_not] at hj
      simp [ApplyState.pwrite, hzero hj]
  refine ⟨s.pwrite.disk, ?_, ⟨fun p hp b hb => ?_, fun k hk => ?_⟩⟩
  · rw [applyAl, hloop]
    dsimp only
    rw [hfinal]
  · rw [hbits]
    refine or_congr_right ⟨?_, fun hmem => ⟨b / 1024, hmem, by omega, (inExtent_bitAddr hp).2 rfl⟩⟩
    rintro ⟨e, he, -, hk⟩
    rwa [(inExtent_bitAddr hp).1 hk]
  · rw [Bool.eq_iff_iff, hbits]
    refine or_iff_left ?_
    rintro ⟨e, he, hne, hk⟩
    have hend := hin e he hne
    rw [Nat.succ_mul] at hend
    have hlt := hk.2
    omega

/-! ## Devices that do not fit -/

theorem lastExtent_lt (hsize : 0 < size) :
    (extentCount size - 1) * (bmBytesPerAlExt * slots.val) + 8 ≤
      512 * bsrCapacityToOnDiskBmSect size slots.val := by
  have hle := slotBits_le_onDisk size slots.val
  have hbits : (extentCount size - 1) * 128 + 8 ≤ slotBits size / 8 := by
    unfold extentCount slotBits align
    omega
  have hmul := Nat.mul_le_mul_right slots.val hbits
  have hpos := slots.pos
  rw [Nat.add_mul] at hmul
  have heq : (extentCount size - 1) * (bmBytesPerAlExt * slots.val) =
      (extentCount size - 1) * 128 * slots.val := by
    rw [bmBytesPerAlExt]
    ring
  omega

/-- The bitmap has no more than the extents of the device, and less than a page of padding. -/
theorem bmBytes_lt : 512 * bsrCapacityToOnDiskBmSect size slots.val <
    extentCount size * (bmBytesPerAlExt * slots.val) + 4096 := by
  rw [bsrCapacityToOnDiskBmSect_eq]
  have hbits : slotBits size / 8 ≤ extentCount size * 128 := by
    unfold extentCount slotBits align
    omega
  have hmul := Nat.mul_le_mul_right slots.val hbits
  have heq : extentCount size * (bmBytesPerAlExt * slots.val) = extentCount size * 128 * slots.val := by
    rw [bmBytesPerAlExt]
    ring
  unfold align
  omega

theorem applyAl_single (he : e ≠ 2 ^ 32 - 1) (disk : Nat → Bool) :
    applyAl cfg [e] disk = (applyExtent cfg 0 e ⟨disk, fun _ => false, 0, 0⟩).map fun s => s.pwrite.disk := by
  unfold applyAl
  rw [applyLoop, if_neg he]
  cases applyExtent cfg 0 e ⟨disk, fun _ => false, 0, 0⟩ with
  | error x => rfl
  | ok s => rfl

theorem applyExtent_ok {cfg : BmCfg} {i e : Nat} {s s' : ApplyState}
    (hrun : applyExtent cfg i e s = .ok s') : (cfg.alignedBmBytes ≤ cfg.bmPos e ∧ s' = s) ∨
      (cfg.bmPos e < cfg.alignedBmBytes ∧
        toU64 (cfg.bmPos e - (moveWindow cfg i (cfg.bmPos e) s).bmOnDiskPos) ≤
          toU64 ((moveWindow cfg i (cfg.bmPos e) s).chunk - cfg.extentsSize) ∧
        s' = (moveWindow cfg i (cfg.bmPos e) s).memset
          (toU64 (cfg.bmPos e - (moveWindow cfg i (cfg.bmPos e) s).bmOnDiskPos)) cfg.extentsSize) := by
  unfold applyExtent at hrun
  dsimp only at hrun
  split_ifs at hrun with h1 h2 h3 h4
  · cases hrun
    exact .inl ⟨h2, rfl⟩
  · cases hrun
    exact .inr ⟨by omega, by omega, rfl⟩

/-- What a single extent changes is at its 32-bit position, and that is inside the 32-bit size. -/
theorem applyAl_single_bits (he : e ≠ 2 ^ 32 - 1) {disk' : Nat → Bool}
    (hsect : 0 < hardSect) (hdvd : hardSect ∣ 4096)
    (hrun : applyAl (applyCfg slots size hardSect) [e] (fun _ => false) = .ok disk') {k : Nat}
    (hk : disk' k = true) : e * (bmBytesPerAlExt * slots.val) % 2 ^ 32 +
        bmBytesPerAlExt * slots.val ≤ 512 * bsrCapacityToOnDiskBmSect size slots.val % 2 ^ 32 ∧
      k < 8 * (e * (bmBytesPerAlExt * slots.val) % 2 ^ 32 + bmBytesPerAlExt * slots.val) := by
  have hle := ext_le slots
  have hmod := bmBytes_mod slots size
  have hbuf : bufferSize = 33554432 := rfl
  rw [applyAl_single _ he] at hrun
  cases hext : applyExtent (applyCfg slots size hardSect) 0 e ⟨fun _ => false, fun _ => false, 0, 0⟩ with
  | error x =>
    rw [hext] at hrun
    cases hrun
  | ok s =>
    rw [hext] at hrun
    cases hrun
    rcases applyExtent_ok hext with ⟨-, rfl⟩ | ⟨hpos, hroom, rfl⟩
    · simp [ApplyState.pwrite] at hk
    have hmove : moveWindow (applyCfg slots size hardSect) 0
        ((applyCfg slots size hardSect).bmPos e) ⟨fun _ => false, fun _ => false, 0, 0⟩ =
        ⟨fun _ => false, fun _ => false, pageOf ((applyCfg slots size hardSect).bmPos e),
          min ((applyCfg slots size hardSect).alignedBmBytes -
            pageOf ((applyCfg slots size hardSect).bmPos e)) bufferSize⟩ := by
      unfold moveWindow
      rw [if_pos (.inl rfl)]
      simp only [ApplyState.pread, ne_eq, not_true_eq_false, if_false,
        ApplyState.mk.injEq, true_and, and_true]
      funext j
      simp [fetch]
    have hbmpos : (applyCfg slots size hardSect).bmPos e =
        e * (bmBytesPerAlExt * slots.val) % 2 ^ 32 := by
      rw [BmCfg.bmPos, extentsSize_eq]
    rw [hmove, hbmpos, alignedBmBytes_eq hsect hdvd, extentsSize_eq] at hroom hk
    rw [alignedBmBytes_eq hsect hdvd] at hpos
    have hbm : 512 * bsrCapacityToOnDiskBmSect size slots.val % 2 ^ 32 % 4096 = 0 := by omega
    generalize 512 * bsrCapacityToOnDiskBmSect size slots.val % 2 ^ 32 = bm at *
    generalize e * (bmBytesPerAlExt * slots.val) % 2 ^ 32 = pos at *
    generalize bmBytesPerAlExt * slots.val = ext at *
    dsimp only [ApplyState.memset, ApplyState.pwrite] at hk hroom
    have hoff : toU64 (pos - pageOf pos) = pos - pageOf pos := by
      unfold toU64 pageOf
      omega
    have hend : toU64 ((min (bm - pageOf pos) bufferSize : Nat) - ext) =
        min (bm - pageOf pos) bufferSize - ext := by
      unfold toU64 pageOf
      omega
    rw [hoff] at hk
    have hk' : 8 * pageOf pos ≤ k ∧ k - 8 * pageOf pos < 8 * (pos - pageOf pos) + 8 * ext := by
      unfold patch fill at hk
      split_ifs at hk with h1 h2
      · exact ⟨h1.1, h2.2⟩
    unfold pageOf at *
    omega

/-- `apply_al` is exact for every sorted array of hot extents of a device and every bitmap, if and
only if the device fits. -/
theorem apply_al_exact_iff (slots : PeerSlots) (size hardSect : Nat) (hsize : size ≤ 2 ^ 41)
    (hsect : 0 < hardSect) (hdvd : hardSect ∣ 4096) :
    (∀ hot : List Nat, hot.Pairwise (· ≤ ·) → (∀ e ∈ hot, e = 2 ^ 32 - 1 ∨ 8192 * e < size) →
      ∀ disk, ∃ disk', applyAl (applyCfg slots size hardSect) hot disk = .ok disk' ∧
        Exact slots size hot disk disk') ↔ Fits slots size := by
  refine ⟨fun hall => ?_, fun h hot hsorted hhot disk => h.exact hsize hsect hdvd hsorted hhot disk⟩
  by_cases hzero : size = 0
  · subst hzero
    have h0 : bsrCapacityToOnDiskBmSect 0 slots.val = 0 := by
      simp [bsrCapacityToOnDiskBmSect, align]
    exact ⟨by rw [h0]; decide, by simp [extentCount]⟩
  -- the last extent alone
  have hcount : 0 < extentCount size ∧ 8192 * (extentCount size - 1) < size := by
    unfold extentCount
    omega
  have hstart := @lastExtent_lt slots size (Nat.pos_of_ne_zero hzero)
  have hpad := @bmBytes_lt slots size
  generalize he : extentCount size - 1 = e at hcount hstart
  obtain ⟨disk', hrun, hexact⟩ := hall [e] (pairwise_singleton _ _)
    (fun e' he' => .inr (by rw [mem_singleton.1 he']; exact hcount.2)) fun _ => false
  have hset : disk' (bitAddr slots.val 0 (1024 * e)) = true := by
    rw [hexact.bits 0 slots.pos (1024 * e) (by omega)]
    exact .inr (by rw [Nat.mul_div_cancel_left e (by decide)]; exact mem_singleton.2 rfl)
  obtain ⟨_, _⟩ := applyAl_single_bits (by omega) hsect hdvd hrun hset
  have haddr : 8 * (e * (bmBytesPerAlExt * slots.val)) ≤ bitAddr slots.val 0 (1024 * e) :=
    ((inExtent_bitAddr slots.pos).2 (Nat.mul_div_cancel_left e (by decide))).1
  have hcount' : extentCount size * (bmBytesPerAlExt * slots.val) =
      e * (bmBytesPerAlExt * slots.val) + bmBytesPerAlExt * slots.val := by
    rw [show extentCount size = e + 1 by omega, Nat.succ_mul]
  refine ⟨?_, ?_⟩ <;> omega

/-- A full device of 4 TiB minus one extent, with 32 slots, fits. -/
theorem apply_al_exact_iff_largest : Fits ⟨32, by decide, by decide⟩ (2 ^ 33 - 8192) ∧
    ∃ disk', applyAl (applyCfg ⟨32, by decide, by decide⟩ (2 ^ 33 - 8192) 512) [0, 2 ^ 20 - 2]
      (fun _ => false) = .ok disk' ∧
      Exact ⟨32, by decide, by decide⟩ (2 ^ 33 - 8192) [0, 2 ^ 20 - 2] (fun _ => false) disk' := by
  have hfits : Fits ⟨32, by decide, by decide⟩ (2 ^ 33 - 8192) := ⟨by decide, by decide⟩
  exact ⟨hfits, (apply_al_exact_iff ⟨32, by decide, by decide⟩ (2 ^ 33 - 8192) 512
    (by decide) (by decide) (by decide)).2 hfits [0, 2 ^ 20 - 2] (by decide) (by decide) _⟩

/-- Three slots and a last extent of 64 blocks: the bitmap of the whole extent does not fit and the
assertion fails. 4 TiB and 32 slots: the size of the bitmap is 0 in 32 bits and nothing is
marked. -/
theorem apply_al_inexact :
    applyAl (applyCfg ⟨3, by decide, by decide⟩ (8192 * 10 + 512) 512) [10] (fun _ => false) =
        .error .assertion ∧
      applyAl (applyCfg ⟨32, by decide, by decide⟩ (2 ^ 33) 512) [0] (fun _ => false) =
        .ok fun _ => false := by
  constructor
  · rfl
  rfl

end

end Bsr.MetaData
