import Bsr.Lib.PrefixCode
import Bsr.Lib.ByteStream

/-!
# Variable length integers in a bit stream

`bsr_vli.h`: the code table `VLI_L_1_1`, `__vli_encode_bits` and `vli_decode_bits`, and the bit
stream that packs code words across byte boundaries.

* `vliDecodeBits_encode`: a code word decodes to its value, whatever follows it;
* `bitstreamPutBits_spec`: appending bits, or the refusal when they do not fit;
* `bitstreamGetBits_spec`: fetching bits at the cursor, fewer at the end of the stream.
-/

namespace Bsr.Exchange

open Lib

/-! ## Model -/

/-- `VLI_L_1_1`. -/
def vliLevels : List Level :=
  [⟨2, 1, 0x00⟩, ⟨3, 2, 0x01⟩, ⟨5, 3, 0x03⟩, ⟨7, 4, 0x07⟩, ⟨10, 5, 0x0f⟩, ⟨14, 6, 0x1f⟩,
    ⟨21, 8, 0x3f⟩, ⟨29, 8, 0x7f⟩, ⟨42, 8, 0xbf⟩, ⟨64, 8, 0xff⟩]

/-- Negative returns of the encoder. -/
inductive VliErr where
  | einval
  | enobufs
  | eoverflow
deriving DecidableEq, Repr

/-- The unrolled `LEVEL` steps of `__vli_encode_bits`. -/
def vliEncodeLevels : List Level → Nat → Nat → Nat → Except VliErr (Nat × Nat)
  | [], _, _, _ => .error .eoverflow
  | l :: ls, max, adj, x =>
    let max := max + 1 <<< (l.total - l.width)
    if x ≤ max then .ok (l.total, ((x - adj) <<< l.width) ||| l.tag)
    else vliEncodeLevels ls max (max + 1) x

/-- `__vli_encode_bits`: number of code bits and the code word. -/
def vliEncode (x : Nat) : Except VliErr (Nat × Nat) :=
  if x = 0 then .error .einval else vliEncodeLevels vliLevels 0 1 x

/-- The unrolled `LEVEL` steps of `vli_decode_bits`; `none` is the `BUG()` behind them. -/
def vliDecodeLevels : List Level → Nat → Nat → Option (Nat × Nat)
  | [], _, _ => none
  | l :: ls, adj, w =>
    if w &&& (1 <<< l.width - 1) = l.tag then
      some (l.total, ((w &&& ((2 ^ 64 - 1) >>> (64 - l.total))) >>> l.width) + adj)
    else vliDecodeLevels ls (adj + 1 <<< (l.total - l.width)) w

/-- `vli_decode_bits`: number of bits consumed and the value. -/
def vliDecodeBits (w : Nat) : Option (Nat × Nat) :=
  vliDecodeLevels vliLevels 1 w

/-- `struct bitstream` with its cursor; `buf.length` is `buf_len`. -/
structure Bitstream where
  buf : List Nat
  curByte : Nat
  curBit : Nat
  padBits : Nat
deriving DecidableEq, Repr

def bitstreamInit (buf : List Nat) (padBits : Nat) : Bitstream :=
  ⟨buf, 0, 0, padBits⟩

variable (bs : Bitstream)

/-- `bitstream_cursor_advance`. -/
def Bitstream.advance (bits : Nat) : Bitstream :=
  { bs with curByte := bs.curByte + (bs.curBit + bits) >>> 3, curBit := (bs.curBit + bits) &&& 7 }

/-- `*b |= y` on one byte of the buffer. -/
def orByte (buf : List Nat) (j y : Nat) : List Nat :=
  buf.set j ((buf.getD j 0 ||| y) % 2 ^ 8)

/-- The loop of `bitstream_put_bits` over the bytes after the first. -/
def putLoop (val bits : Nat) : Nat → List Nat → Nat → Nat → List Nat
  | 0, buf, _, _ => buf
  | fuel + 1, buf, j, tmp =>
    if tmp < bits then putLoop val bits fuel (orByte buf j ((val >>> tmp) &&& 0xff)) (j + 1) (tmp + 8)
    else buf

/-- `bitstream_put_bits`; `none` is `-ENOBUFS`. -/
def bitstreamPutBits (val bits : Nat) : Option Bitstream :=
  if bits = 0 then some bs
  else if bs.buf.length ≤ bs.curByte + (bs.curBit + bits - 1) >>> 3 then none
  else
    let val := if bits < 64 then val &&& ((2 ^ 64 - 1) >>> (64 - bits)) else val
    let buf := orByte bs.buf bs.curByte ((val &&& 0xff) <<< bs.curBit)
    -- at most 64 bits, so at most eight further bytes
    let buf := putLoop val bits 8 buf (bs.curByte + 1) (8 - bs.curBit)
    some (Bitstream.advance { bs with buf } bits)

/-- `bitstream_get_bits`: the bits, how many were fetched, and the stream behind them; `none` is
`-EINVAL`. -/
def bitstreamGetBits (bits : Nat) : Option (Nat × Nat × Bitstream) :=
  if 64 < bits then none
  else
    let bits :=
      if bs.buf.length ≤ bs.curByte + (bs.curBit + bs.padBits + bits - 1) >>> 3 then
        (bs.buf.length - bs.curByte) <<< 3 - bs.curBit - bs.padBits
      else bits
    if bits = 0 then some (0, 0, bs)
    else
      let n := (bs.curBit + bits + 7) >>> 3
      let high :=
        if n = 0 then 0
        else (leVal ((bs.buf.drop (bs.curByte + 1)).take (n - 1)) <<< (8 - bs.curBit)) % 2 ^ 64
      let val := high ||| (bs.buf.getD bs.curByte 0 >>> bs.curBit)
      some (val &&& ((2 ^ 64 - 1) >>> (64 - bits)), bits, bs.advance bits)

def vliEncodeBits (x : Nat) : Except VliErr Bitstream :=
  match vliEncode x with
  | .error e => .error e
  | .ok (bits, code) =>
    match bitstreamPutBits bs code bits with
    | none => .error .enobufs
    | some bs => .ok bs

/-! ## The code -/

theorem vliLevels_prefixFree : PrefixFree vliLevels where
  tag_lt := by decide
  width_le := by decide
  apart := by decide

theorem vliLevels_total : ∀ l ∈ vliLevels, 0 < l.total ∧ l.total ≤ 64 := by
  decide

theorem ones_shiftRight {n : Nat} (hn : n ≤ 64) : (2 ^ 64 - 1) >>> (64 - n) = 2 ^ n - 1 := by
  apply Nat.eq_of_testBit_eq
  intro i
  rw [Nat.testBit_shiftRight, Nat.testBit_two_pow_sub_one, Nat.testBit_two_pow_sub_one]
  exact decide_eq_decide.mpr (by omega)

theorem and_ones {n : Nat} (hn : n ≤ 64) (w : Nat) :
    w &&& ((2 ^ 64 - 1) >>> (64 - n)) = w % 2 ^ n := by
  rw [ones_shiftRight hn, Nat.and_two_pow_sub_one_eq_mod]

theorem vliEncodeLevels_eq {ls : List Level} (h : PrefixFree ls) (max x : Nat) :
    vliEncodeLevels ls max (max + 1) x =
      match levelEncode ls (max + 1) x with
      | none => .error .eoverflow
      | some w => .ok w := by
  induction ls generalizing max with
  | nil => rfl
  | cons l ls ih =>
    have htag := h.tag_lt l List.mem_cons_self
    have hspan : max + 1 <<< (l.total - l.width) + 1 = max + 1 + l.span := by
      rw [Level.span]
      omega
    unfold vliEncodeLevels levelEncode
    dsimp only
    rw [ih h.tail, hspan]
    by_cases hx : x < max + 1 + l.span
    · rw [if_pos hx, if_pos (by omega), ← Nat.shiftLeft_add_eq_or_of_lt htag, Nat.shiftLeft_eq]
    · rw [if_neg hx, if_neg (by omega)]

variable {x t c : Nat}

theorem vliEncode_ok : vliEncode x = .ok (t, c) ↔ 1 ≤ x ∧ levelEncode vliLevels 1 x = some (t, c) := by
  unfold vliEncode
  rw [vliEncodeLevels_eq vliLevels_prefixFree]
  by_cases hx : x = 0
  · simp [hx]
  rw [if_neg hx]
  cases levelEncode vliLevels (0 + 1) x with
  | none => simp
  | some w => simp [Nat.pos_of_ne_zero hx, Nat.succ_le_iff]

theorem vliDecodeLevels_eq {ls : List Level} (h : ∀ l ∈ ls, l.total ≤ 64) (adj w : Nat) :
    vliDecodeLevels ls adj w = levelDecode ls adj w := by
  induction ls generalizing adj with
  | nil => rfl
  | cons l ls ih =>
    unfold vliDecodeLevels levelDecode
    rw [ih (fun m hm => h m (List.mem_cons_of_mem _ hm)), and_ones (h l List.mem_cons_self),
      Nat.one_shiftLeft, Nat.one_shiftLeft, Nat.and_two_pow_sub_one_eq_mod,
      Nat.shiftRight_eq_div_pow, Level.span]

theorem vliDecodeBits_encode (h : vliEncode x = .ok (t, c)) (rest : Nat) :
    vliDecodeBits (c + 2 ^ t * rest) = some (t, x) := by
  obtain ⟨hx, henc⟩ := vliEncode_ok.mp h
  rw [vliDecodeBits, vliDecodeLevels_eq (fun l hl => (vliLevels_total l hl).2)]
  exact levelDecode_levelEncode vliLevels_prefixFree hx henc rest

theorem vliEncode_bounds (h : vliEncode x = .ok (t, c)) : 0 < t ∧ t ≤ 64 ∧ c < 2 ^ t := by
  obtain ⟨hx, henc⟩ := vliEncode_ok.mp h
  obtain ⟨m, hm, rfl, -, hc⟩ := levelEncode_level vliLevels_prefixFree hx henc
  exact ⟨(vliLevels_total m hm).1, (vliLevels_total m hm).2, hc⟩

/-! ## The bit stream -/

/-- Position of the cursor, in bits. -/
def Bitstream.pos : Nat :=
  8 * bs.curByte + bs.curBit

/-- A stream whose buffer holds `v` and whose cursor is normalised. -/
structure Bitstream.Carries (bs : Bitstream) (v : Nat) : Prop where
  bytes : IsBytes bs.buf
  holds : Holds bs.buf v
  bit_lt : bs.curBit < 8

@[simp] theorem Bitstream.advance_buf (n : Nat) : (bs.advance n).buf = bs.buf := rfl

@[simp] theorem Bitstream.advance_padBits (n : Nat) :
    (bs.advance n).padBits = bs.padBits := rfl

theorem and_7_eq_mod (n : Nat) : n &&& 7 = n % 8 :=
  Nat.and_two_pow_sub_one_eq_mod n 3

open Bitstream

theorem Bitstream.advance_pos (n : Nat) : (bs.advance n).pos = bs.pos + n := by
  unfold pos advance
  dsimp only
  rw [and_7_eq_mod]
  omega

variable {bs : Bitstream} {v : Nat}

theorem Bitstream.Carries.advance (h : bs.Carries v) (n : Nat) : (bs.advance n).Carries v where
  bytes := h.bytes
  holds := h.holds
  bit_lt := by
    show (bs.curBit + n) &&& 7 < 8
    rw [and_7_eq_mod]
    omega

theorem Bitstream.Carries.advance_zero (h : bs.Carries v) : bs.advance 0 = bs := by
  have hbit := h.bit_lt
  cases bs
  simp_all [Bitstream.advance, and_7_eq_mod, Nat.shiftRight_eq_div_pow]

variable {buf : List Nat}

theorem byteBit_orByte {j : Nat} (hj : j < buf.length) (y k : Nat) :
    byteBit (orByte buf j y) k = (byteBit buf k || (decide (k / 8 = j) && y.testBit (k % 8))) := by
  have hk : k % 8 < 8 := Nat.mod_lt _ (by decide)
  rw [orByte, byteBit_set hj, Nat.testBit_mod_two_pow]
  by_cases h : k / 8 = j
  · simp [h, hk, byteBit]
  · simp [h]

theorem isBytes_orByte (h : IsBytes buf) (j y : Nat) : IsBytes (orByte buf j y) :=
  h.set (Nat.mod_lt _ (by decide)) j

theorem testBit_beyond {val bits pos tmp : Nat} (hval : val < 2 ^ bits)
    (hle : bits ≤ tmp) (k : Nat) : (decide (pos + tmp ≤ k) && val.testBit (k - pos)) = false := by
  by_cases hk : pos + tmp ≤ k
  · rw [Nat.testBit_lt_two_pow (hval.trans_le (Nat.pow_le_pow_right (by decide) (by omega)))]
    simp
  · simp [hk]

theorem putLoop_spec {val bits : Nat} (pos : Nat) (hval : val < 2 ^ bits) (fuel : Nat)
    {j tmp : Nat} (hbuf : IsBytes buf) (hj : 8 * j = pos + tmp) (hfuel : bits ≤ tmp + 8 * fuel)
    (hroom : pos + bits ≤ 8 * buf.length) : IsBytes (putLoop val bits fuel buf j tmp) ∧
      (putLoop val bits fuel buf j tmp).length = buf.length ∧
      ∀ k, byteBit (putLoop val bits fuel buf j tmp) k =
        (byteBit buf k || (decide (pos + tmp ≤ k) && val.testBit (k - pos))) := by
  induction fuel generalizing buf j tmp with
  | zero =>
    refine ⟨hbuf, rfl, fun k => ?_⟩
    rw [testBit_beyond hval (by omega), Bool.or_false, putLoop]
  | succ fuel ih =>
    unfold putLoop
    split_ifs with htmp
    · have hlen : (orByte buf j ((val >>> tmp) &&& 0xff)).length = buf.length := by
        simp [orByte]
      obtain ⟨hbytes, hlength, hbits⟩ := ih (isBytes_orByte hbuf j ((val >>> tmp) &&& 0xff))
        (show 8 * (j + 1) = pos + (tmp + 8) by omega) (by omega) (by rw [hlen]; exact hroom)
      refine ⟨hbytes, hlength.trans hlen, fun k => ?_⟩
      rw [hbits k, byteBit_orByte (by omega), show (0xff : Nat) = 2 ^ 8 - 1 by rfl,
        Nat.and_two_pow_sub_one_eq_mod, Nat.testBit_mod_two_pow]
      by_cases hin : k / 8 = j
      · -- this byte holds the next eight bits of the value
        have hidx : tmp + k % 8 = k - pos := by omega
        have hmod : k % 8 < 8 := Nat.mod_lt _ (by decide)
        have hlo : pos + tmp ≤ k := by omega
        have hhi : ¬ pos + (tmp + 8) ≤ k := by omega
        simp [hin, hidx, hmod, hlo, hhi]
      · have hiff : pos + (tmp + 8) ≤ k ↔ pos + tmp ≤ k := by omega
        simp [hin, hiff]
    · refine ⟨hbuf, rfl, fun k => ?_⟩
      rw [testBit_beyond hval (by omega), Bool.or_false]

theorem testBit_append {v pos : Nat} (hv : v < 2 ^ pos) (val k : Nat) :
    (v + 2 ^ pos * val).testBit k = (v.testBit k || (decide (pos ≤ k) && val.testBit (k - pos))) := by
  rw [Nat.add_comm, Nat.testBit_two_pow_mul_add _ hv]
  by_cases hk : k < pos
  · have hnot : ¬ pos ≤ k := by omega
    simp [hk, hnot]
  have hle : pos ≤ k := by omega
  rw [Nat.testBit_lt_two_pow (hv.trans_le (Nat.pow_le_pow_right (by decide) hle))]
  simp [hle]

/-- `bitstream_put_bits` refuses exactly what does not fit, and appends the rest at the cursor. -/
theorem bitstreamPutBits_spec {v val bits : Nat} (hbs : bs.Carries v)
    (hv : v < 2 ^ bs.pos) (hpos : 0 < bits) (hbits : bits ≤ 64) (hval : val < 2 ^ bits) :
    (bitstreamPutBits bs val bits = none ∧ 8 * bs.buf.length < bs.pos + bits) ∨
      ∃ bs', bitstreamPutBits bs val bits = some bs' ∧ bs'.Carries (v + 2 ^ bs.pos * val) ∧
        bs'.pos = bs.pos + bits ∧ bs'.buf.length = bs.buf.length ∧
        bs.pos + bits ≤ 8 * bs.buf.length := by
  have hbit := hbs.bit_lt
  have hposdef : bs.pos = 8 * bs.curByte + bs.curBit := rfl
  have hmask : (if bits < 64 then val &&& ((2 ^ 64 - 1) >>> (64 - bits)) else val) = val := by
    rw [and_ones hbits, Nat.mod_eq_of_lt hval, ite_self]
  unfold bitstreamPutBits
  rw [if_neg (by omega), hmask]
  split_ifs with hfull
  · exact .inl ⟨rfl, by omega⟩
  have hroom : bs.pos + bits ≤ 8 * bs.buf.length := by omega
  set first := orByte bs.buf bs.curByte ((val &&& 0xff) <<< bs.curBit) with hfirst
  have hfirstLen : first.length = bs.buf.length := by simp [hfirst, orByte]
  obtain ⟨hbytes, hlen, hloop⟩ := putLoop_spec bs.pos hval 8
    (isBytes_orByte hbs.bytes bs.curByte ((val &&& 0xff) <<< bs.curBit))
    (show 8 * (bs.curByte + 1) = bs.pos + (8 - bs.curBit) by omega) (by omega)
    (by rw [hfirstLen]; exact hroom)
  rw [← hfirst] at hbytes hlen hloop
  have hholds : Holds (putLoop val bits 8 first (bs.curByte + 1) (8 - bs.curBit))
      (v + 2 ^ bs.pos * val) := by
    intro k
    rw [hloop k, byteBit_orByte (by omega), hbs.holds k, testBit_append hv,
      show (0xff : Nat) = 2 ^ 8 - 1 by rfl, Nat.and_two_pow_sub_one_eq_mod,
      Nat.testBit_shiftLeft, Nat.testBit_mod_two_pow]
    by_cases hin : k / 8 = bs.curByte
    · -- the first byte takes the bits up to its end
      have hhi : ¬ bs.pos + (8 - bs.curBit) ≤ k := by omega
      by_cases hlo : bs.curBit ≤ k % 8
      · have hidx : k % 8 - bs.curBit = k - bs.pos := by omega
        have hlt : k - bs.pos < 8 := by omega
        have hle : bs.pos ≤ k := by omega
        simp [hin, hlo, hidx, hlt, hle, hhi]
      · have hle : ¬ bs.pos ≤ k := by omega
        simp [hlo, hle, hhi]
    · have hiff : bs.pos + (8 - bs.curBit) ≤ k ↔ bs.pos ≤ k := by omega
      simp [hin, hiff]
  have hcarries : Bitstream.Carries
      { bs with buf := putLoop val bits 8 first (bs.curByte + 1) (8 - bs.curBit) }
      (v + 2 ^ bs.pos * val) := ⟨hbytes, hholds, hbit⟩
  refine .inr ⟨_, rfl, hcarries.advance bits, advance_pos _ _, ?_, hroom⟩
  exact hlen.trans hfirstLen

/-- What `bitstream_get_bits` leaves available. -/
def Bitstream.left : Nat :=
  8 * bs.buf.length - bs.pos - bs.padBits

theorem Bitstream.advance_left (n : Nat) : (bs.advance n).left = bs.left - n := by
  unfold left
  rw [advance_pos]
  simp only [advance_buf, advance_padBits]
  omega

theorem Bitstream.advance_room {n : Nat} (h : bs.pos + bs.padBits ≤ 8 * bs.buf.length) (hn : n ≤ bs.left) :
    (bs.advance n).pos + (bs.advance n).padBits ≤ 8 * (bs.advance n).buf.length := by
  unfold left at hn
  rw [advance_pos]
  simp only [advance_buf, advance_padBits]
  omega

theorem fetch_testBit {v n : Nat} (hbs : bs.Carries v) (hn : 0 < n) (hn64 : n ≤ 64) {k : Nat} (hk : k < n) :
    ((leVal ((bs.buf.drop (bs.curByte + 1)).take ((bs.curBit + n + 7) / 8 - 1)) <<< (8 - bs.curBit)
        % 2 ^ 64) ||| (bs.buf.getD bs.curByte 0 >>> bs.curBit)).testBit k =
      v.testBit (bs.pos + k) := by
  have hbit := hbs.bit_lt
  have hposdef : bs.pos = 8 * bs.curByte + bs.curBit := rfl
  have hbyte : ∀ i, 8 ≤ i → (bs.buf.getD bs.curByte 0).testBit i = false := by
    intro i hi
    exact Nat.testBit_lt_two_pow ((hbs.bytes bs.curByte).trans_le
      (show 256 ≤ 2 ^ i from Nat.pow_le_pow_right (n := 2) (by decide) hi))
  rw [Nat.testBit_or, Nat.testBit_mod_two_pow, Nat.testBit_shiftLeft, Nat.testBit_shiftRight,
    testBit_leVal ((hbs.bytes.drop _).take _), byteBit_take, byteBit_drop, ← hbs.holds]
  have hk64 : k < 64 := by omega
  by_cases hlow : k < 8 - bs.curBit
  · -- still inside the byte of the cursor
    have hle : ¬ 8 - bs.curBit ≤ k := by omega
    have hat : byteBit bs.buf (bs.pos + k) = (bs.buf.getD bs.curByte 0).testBit (bs.curBit + k) := by
      rw [byteBit, show (bs.pos + k) / 8 = bs.curByte by omega,
        show (bs.pos + k) % 8 = bs.curBit + k by omega]
    rw [hat]
    simp [hle]
  · have hle : 8 - bs.curBit ≤ k := by omega
    rw [hbyte _ (by omega), show 8 * (bs.curByte + 1) + (k - (8 - bs.curBit)) = bs.pos + k by omega]
    have hin : k - (8 - bs.curBit) < 8 * ((bs.curBit + n + 7) / 8 - 1) := by omega
    simp [hk64, hle, hin]

/-- `bitstream_get_bits` fetches what was asked for, or everything that is left. -/
theorem bitstreamGetBits_spec (bits : Nat) (hbs : bs.Carries v)
    (hpad : bs.pos + bs.padBits ≤ 8 * bs.buf.length) (hpos : 0 < bits) (hbits : bits ≤ 64) :
    bitstreamGetBits bs bits = some ((v >>> bs.pos) % 2 ^ min bits bs.left, min bits bs.left,
      bs.advance (min bits bs.left)) := by
  have hposdef : bs.pos = 8 * bs.curByte + bs.curBit := rfl
  have hleft : bs.left = 8 * bs.buf.length - bs.pos - bs.padBits := rfl
  have hcount : (if bs.buf.length ≤ bs.curByte + (bs.curBit + bs.padBits + bits - 1) >>> 3 then
      (bs.buf.length - bs.curByte) <<< 3 - bs.curBit - bs.padBits else bits) = min bits bs.left := by
    split <;> omega
  unfold bitstreamGetBits
  rw [if_neg (by omega), hcount]
  dsimp only
  generalize hn : min bits bs.left = n
  by_cases hzero : n = 0
  · rw [if_pos hzero, hzero, hbs.advance_zero, Nat.pow_zero, Nat.mod_one]
  rw [if_neg hzero, Nat.shiftRight_eq_div_pow, if_neg (by omega), and_ones (by omega)]
  congr 2
  apply Nat.eq_of_testBit_eq
  intro k
  rw [Nat.testBit_mod_two_pow, Nat.testBit_mod_two_pow, Nat.testBit_shiftRight]
  by_cases hk : k < n
  · rw [fetch_testBit hbs (by omega) (by omega) hk]
  · simp [hk]

end Bsr.Exchange
