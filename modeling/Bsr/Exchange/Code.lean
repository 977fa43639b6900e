import Bsr.Exchange.Receiver

/-!
# The run-length code

The code of `bsr_vli.h` as a whole: every 64-bit word starts with a code word, every run length up
to `vliMax` has one, and what is appended to a bit stream is read back in pieces of any size.
-/

namespace Bsr.Exchange

open Lib List

/-- The maximum encodable value. -/
def vliMax : Nat := 0x100000400202130

/-- Run lengths appended with `vli_encode_bits`, and those left when one of them is refused. -/
def appendRuns (bs : Bitstream) : List Nat → Bitstream × List Nat
  | [] => (bs, [])
  | rl :: rls =>
    match vliEncodeBits bs rl with
    | .error _ => (bs, rl :: rls)
    | .ok bs => appendRuns bs rls

/-- Bits fetched with `bitstream_get_bits` in pieces of the given sizes, as one number. -/
def getChunks (bs : Bitstream) : List Nat → Option Nat
  | [] => some 0
  | n :: ns =>
    match bitstreamGetBits bs n with
    | none => none
    | some (val, got, bs) => (getChunks bs ns).map (val + 2 ^ got * ·)

/-- The first `count` code words of a bit string. -/
def decodeRuns : Nat → Nat → Option (List Nat)
  | 0, _ => some []
  | count + 1, w =>
    match vliDecodeBits (w % 2 ^ 64) with
    | none => none
    | some (t, rl) => (decodeRuns count (w >>> t)).map (rl :: ·)

/-- The code word of the run length does not fit any more. -/
def Bitstream.Refuses (bs : Bitstream) (rl : Nat) : Prop :=
  vliEncodeBits bs rl = .error .enobufs ∧ ∃ t c, vliEncode rl = .ok (t, c) ∧ 8 * bs.buf.length < bs.pos + t

theorem vliDecodeBits_isSome (w : Nat) : (vliDecodeBits w).isSome := by
  have htags : ∀ b < 256, ∃ l ∈ vliLevels, b % 2 ^ l.width = l.tag := by decide +kernel
  have hwidth : ∀ l ∈ vliLevels, l.width ≤ 8 := by decide
  obtain ⟨l, hl, htag⟩ := htags (w % 2 ^ 8) (Nat.mod_lt _ (by decide))
  rw [Nat.mod_mod_of_dvd _ (Nat.pow_dvd_pow 2 (hwidth l hl))] at htag
  rw [vliDecodeBits, vliDecodeLevels_eq fun l hl => (vliLevels_total l hl).2]
  exact levelDecode_isSome 1 ⟨l, hl, htag⟩

theorem exists_vliEncode {x : Nat} (hx : 1 ≤ x ∧ x ≤ vliMax) : ∃ t c, vliEncode x = .ok (t, c) := by
  have hsum : (vliLevels.map Level.span).sum = vliMax := by decide
  obtain ⟨w, hw⟩ := Option.isSome_iff_exists.mp
    (@levelEncode_isSome vliLevels 1 x hx.1 (by rw [hsum]; omega))
  exact ⟨w.1, w.2, vliEncode_ok.mpr ⟨hx.1, hw⟩⟩

section Streams

variable {bs : Bitstream} {v : Nat} {runs : List Nat} {ws : List (Nat × Nat)}

theorem appendRuns_spec (hbs : bs.Carries v) (hv : v < 2 ^ bs.pos)
    (hruns : ∀ rl ∈ runs, 1 ≤ rl ∧ rl ≤ vliMax) :
    ∃ bs' stored left ws, appendRuns bs runs = (bs', left) ∧ runs = stored ++ left ∧ Coded stored ws ∧
      bs'.Carries (v + 2 ^ bs.pos * packedVal ws) ∧ bs'.pos = bs.pos + packedLen ws ∧
      ∀ rl ∈ left.head?, bs'.Refuses rl := by
  induction runs generalizing bs v with
  | nil => exact ⟨bs, [], [], [], rfl, rfl, .nil, by simpa [packedVal] using hbs, rfl, nofun⟩
  | cons rl rls ih =>
    obtain ⟨hrl, hrls⟩ := forall_mem_cons.mp hruns
    obtain ⟨t, c, henc⟩ := exists_vliEncode hrl
    obtain ⟨ht, ht64, hc⟩ := vliEncode_bounds henc
    rcases bitstreamPutBits_spec hbs hv ht ht64 hc with ⟨hput, hfull⟩ | ⟨bs₁, hput, hbs₁, hpos, -, -⟩
    · have hrefused : vliEncodeBits bs rl = .error .enobufs := by simp [vliEncodeBits, henc, hput]
      refine ⟨bs, [], rl :: rls, [], by simp [appendRuns, hrefused], rfl, .nil,
        by simpa [packedVal] using hbs, rfl, fun x hx => ?_⟩
      cases hx
      exact ⟨hrefused, t, c, henc, hfull⟩
    have hv₁ : v + 2 ^ bs.pos * c < 2 ^ bs₁.pos := by
      have := @packedVal_lt [(bs.pos, v), (t, c)] (by simp [hv, hc])
      simpa [packedVal, hpos] using this
    obtain ⟨bs', stored, left, ws, hrest, hsplit, hcoded, hcarries, hpos', hleft⟩ := ih hbs₁ hv₁ hrls
    refine ⟨bs', rl :: stored, left, (t, c) :: ws, by simp [appendRuns, vliEncodeBits,
      henc, hput, hrest], by rw [hsplit, cons_append], .cons henc hcoded, ?_,
      by rw [hpos', hpos, packedLen_cons, Nat.add_assoc], hleft⟩
    rw [hpos] at hcarries
    convert hcarries using 1
    rw [packedVal]
    ring

theorem getChunks_spec {ns : List Nat} (hbs : bs.Carries v) (hns : ∀ n ∈ ns, 1 ≤ n ∧ n ≤ 64)
    (hroom : bs.pos + ns.sum + bs.padBits ≤ 8 * bs.buf.length) :
    getChunks bs ns = some ((v >>> bs.pos) % 2 ^ ns.sum) := by
  induction ns generalizing bs with
  | nil => simp [getChunks, Nat.mod_one]
  | cons n ns ih =>
    obtain ⟨hn, hns⟩ := forall_mem_cons.mp hns
    rw [sum_cons] at hroom ⊢
    have hmin : min n bs.left = n := by
      unfold Bitstream.left
      omega
    have hget := bitstreamGetBits_spec n hbs (by omega) hn.1 hn.2
    rw [hmin] at hget
    rw [getChunks, hget]
    dsimp only
    rw [ih (hbs.advance n) hns (by rw [Bitstream.advance_pos]; simp; omega), Bitstream.advance_pos,
      Nat.pow_add, Nat.mod_mul, Nat.shiftRight_add, Nat.shiftRight_eq_div_pow _ n]
    rfl

theorem decodeRuns_coded (h : Coded runs ws) : decodeRuns runs.length (packedVal ws) = some runs := by
  induction h with
  | nil => rfl
  | @cons rl w runs ws hw hrest ih =>
    obtain ⟨-, ht, hc⟩ := vliEncode_bounds hw
    rw [length_cons, decodeRuns, packedVal, mod_two_pow_64 hc ht, vliDecodeBits_encode hw]
    dsimp only
    rw [add_mul_pow_shiftRight hc, ih]
    rfl

end Streams

/-- The code is complete and uniquely decodable. Every word starts with a code word, every run
length up to `vliMax` has a code word that decodes whatever follows it, and run lengths appended at
a cursor are read back in pieces of any size; one that does not fit is refused and changes
nothing. -/
theorem vli_code_complete (bs : Bitstream) (v : Nat) (runs : List Nat) (hbs : bs.Carries v)
    (hv : v < 2 ^ bs.pos) (hruns : ∀ rl ∈ runs, 1 ≤ rl ∧ rl ≤ vliMax) :
    (∀ w < 2 ^ 64, ∃ t rl, vliDecodeBits w = some (t, rl)) ∧
    (∀ x, 1 ≤ x → x ≤ vliMax → ∃ t c, vliEncode x = .ok (t, c) ∧ c < 2 ^ t ∧
      ∀ rest, vliDecodeBits (c + 2 ^ t * rest) = some (t, x)) ∧
    ∃ bs' stored left, appendRuns bs runs = (bs', left) ∧ runs = stored ++ left ∧
      (∀ rl ∈ left.head?, bs'.Refuses rl) ∧
      ∀ ns padBits, (∀ n ∈ ns, 1 ≤ n ∧ n ≤ 64) → bs.pos + ns.sum = bs'.pos →
        bs'.pos + padBits ≤ 8 * bs'.buf.length →
        ∃ w, getChunks ⟨bs'.buf, bs.curByte, bs.curBit, padBits⟩ ns = some w ∧
          decodeRuns stored.length w = some stored := by
  refine ⟨fun w _ => ?_, fun x hpos hle => ?_, ?_⟩
  · obtain ⟨r, hr⟩ := Option.isSome_iff_exists.mp (vliDecodeBits_isSome w)
    exact ⟨r.1, r.2, hr⟩
  · obtain ⟨t, c, henc⟩ := exists_vliEncode ⟨hpos, hle⟩
    exact ⟨t, c, henc, (vliEncode_bounds henc).2.2, vliDecodeBits_encode henc⟩
  · obtain ⟨bs', stored, left, ws, hrun, hsplit, hcoded, hcarries, hpos, hleft⟩ :=
      appendRuns_spec hbs hv hruns
    refine ⟨bs', stored, left, hrun, hsplit, hleft, fun ns padBits hns hsum hpad =>
      ⟨packedVal ws, ?_, decodeRuns_coded hcoded⟩⟩
    have hlt := packedVal_lt fun w hw => (hcoded.bounds w hw).2.2
    have hlen : ns.sum = packedLen ws := by omega
    have hreader : Bitstream.Carries ⟨bs'.buf, bs.curByte, bs.curBit, padBits⟩ _ :=
      ⟨hcarries.bytes, hcarries.holds, hbs.bit_lt⟩
    rw [getChunks_spec hreader hns (by show bs.pos + _ + _ ≤ _; rw [hsum]; exact hpad), hlen]
    change some ((v + 2 ^ bs.pos * packedVal ws) >>> bs.pos % _) = _
    rw [add_mul_pow_shiftRight hv, Nat.mod_eq_of_lt hlt]

/-- Two run lengths in a stream of four bytes, read back in two pieces. -/
theorem vli_code_complete_two :
    ∃ w, getChunks ⟨(appendRuns (bitstreamInit (replicate 4 0) 0) [1, 9]).1.buf, 0, 0, 0⟩
      [3, 6] = some w ∧ decodeRuns 2 w = some [1, 9] := by
  obtain ⟨bs', stored, left, hrun, hsplit, -, hread⟩ := (vli_code_complete
    (bitstreamInit (replicate 4 0) 0) 0 [1, 9]
    ⟨isBytes_replicate 4, holds_replicate 4, by decide⟩ (by decide) (by decide)).2.2
  obtain rfl : _ = bs' := congrArg Prod.fst hrun
  obtain rfl : [] = left := (by decide : [] = _).trans (congrArg Prod.snd hrun)
  obtain rfl : [1, 9] = stored := by simpa using hsplit
  exact hread [3, 6] 0 (by decide) (by decide) (by decide)

end Bsr.Exchange
