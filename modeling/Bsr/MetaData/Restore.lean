import Bsr.MetaData.Dump

/-!
# Restoring the bitmap

`parse_bitmap` of `bsrmeta.c` reads the bitmaps of all peers back from a dump, once for every window
of the size of the buffer, and writes each window to the disk. With `parse_only` nothing is written.

* `Token` is what the scanner returns for the text of `printf_bm`; `printfBm` prints all peers;
* `parseBitmap` is the loop over the windows, with the `int` variables of the source;
* `assign_32_of_64bit` compares an `int` with a `size_t`: a negative `i` is beyond the window, so
  only the first window is ever restored;
* `dump_restore_iff`: the bitmaps that survive a dump and a restore are those that fit into the
  buffer.

The header of the dump is left out: the restored device has the size and the slots of the dumped
one. Cells are 32-bit words, counted from `bm_offset`.
-/

namespace Bsr.MetaData

open Lib Bitmap Function

/-! ## The dump -/

/-- The tokens of a dumped bitmap. -/
inductive Token where
  | bitmap
  | lbrack
  | rbrack
  | lbrace
  | rbrace
  | semi
  | times
  | num (n : Nat)
  | u64 (v : Nat)
deriving DecidableEq, Repr

def Item.tokens : Item → List Token
  | word v => [.u64 v, .semi]
  | times n v => [.num n, .times, .u64 v, .semi]

/-- `bitmap[%d] { ... }`. -/
def bitmapTokens (p : Nat) (items : List Item) : List Token :=
  .bitmap :: .lbrack :: .num p :: .rbrack :: .lbrace :: (items.flatMap Item.tokens ++ [.rbrace])

def printPeers (cfg : BmCfg) (disk : Nat → BitVec 32) : List Nat → Except MetaFault (List Token)
  | [] => .ok []
  | p :: ps =>
    match fprintfBm cfg p disk, printPeers cfg disk ps with
    | .ok items, .ok rest => .ok (bitmapTokens p items ++ rest)
    | .error e, _ => .error e
    | _, .error e => .error e

def printfBm (cfg : BmCfg) (disk : Nat → BitVec 32) : Except MetaFault (List Token) :=
  printPeers cfg disk (List.range cfg.maxPeers)

/-! ## The parser -/

/-- The words of the buffer. -/
def bufferWords : Nat := bufferSize / 4

/-- The position in the window, and the buffer. -/
structure ParseState where
  i : Int
  bm : Nat → BitVec 32

/-- `assign_32_of_64bit`. The first comparison is one of `size_t`. -/
def assign32Of64bit (maxPeers value : Nat) (s : ParseState) : ParseState :=
  if bufferWords ≤ toU64 s.i then s
  else
    let bm := if 0 ≤ s.i then
        update s.bm s.i.toNat
          (if s.i.toNat / maxPeers % 2 = 0 then BitVec.ofNat 32 value else BitVec.ofNat 32 (value / 2 ^ 32))
      else s.bm
    ⟨s.i + maxPeers, bm⟩

/-- Both halves of a number. -/
def assignValue (maxPeers : Nat) (s : ParseState) (value : Nat) : ParseState :=
  assign32Of64bit maxPeers value (assign32Of64bit maxPeers value s)

section

variable (cfg : BmCfg) (parseOnly : Bool)

/-- The loop of `parse_bitmap_window_one_peer`; what is not expected ends the program. -/
def parseItems : ParseState → List Token → Except MetaFault (ParseState × List Token)
  | s, .u64 v :: .semi :: rest =>
    parseItems
      (if parseOnly then { s with i := toS32 (s.i + 2 * cfg.maxPeers) } else assignValue cfg.maxPeers s v) rest
  | s, .num n :: .times :: .u64 v :: .semi :: rest =>
    parseItems
      (if parseOnly then { s with i := toS32 (s.i + 2 * (n * cfg.maxPeers)) }
      else (List.replicate (n % 2 ^ 32) v).foldl (assignValue cfg.maxPeers) s) rest
  | s, .rbrace :: rest => .ok (s, rest)
  | _, _ => .error (.exit (.code 10))

/-- What a window leaves: the words up to the last one, the buffer, and the tokens behind. -/
structure Window where
  words : Int
  bm : Nat → BitVec 32
  rest : List Token

def parseBitmapWindowOnePeer (window peerNr : Nat) (bm : Nat → BitVec 32) :
    List Token → Except MetaFault Window
  | .bitmap :: .lbrack :: .num p :: .rbrack :: .lbrace :: rest =>
    if p ≠ peerNr then .error (.exit (.code 10))
    else
      match parseItems cfg parseOnly ⟨toS32 (peerNr - window * bufferWords), bm⟩ rest with
      | .error e => .error e
      | .ok (s, rest) => .ok ⟨s.i - peerNr, s.bm, rest⟩
  | _ => .error (.exit (.code 10))

/-- The loop of `parse_bitmap_window`. -/
def parsePeers (window : Nat) : List Nat → Window → Except MetaFault Window
  | [], w => .ok w
  | p :: ps, w =>
    match parseBitmapWindowOnePeer cfg parseOnly window p w.bm w.rest with
    | .error e => .error e
    | .ok w => parsePeers window ps w

def parseBitmapWindow (window : Nat) (bm : Nat → BitVec 32) (tokens : List Token) : Except MetaFault Window :=
  parsePeers cfg parseOnly window (List.range cfg.maxPeers) ⟨0, bm, tokens⟩

/-- The variables of `parse_bitmap`, and the disk. -/
structure RestoreState where
  window : Nat
  truncated : Bool
  bm : Nat → BitVec 32
  disk : Nat → BitVec 32

/-- The window is cleared behind `words` and written, up to the end of the bitmap. -/
def storeWindow (words : Int) (s : RestoreState) : Except MetaFault RestoreState :=
  if 0 < words ∧ s.truncated = false then
    -- the length given to `memset` is a difference of unsigned numbers
    if bufferSize < 4 * words.toNat then .error .overrun
    else
      let bm := fill s.bm words.toNat (bufferWords - words.toNat) 0
      let n := align (4 * words.toNat) cfg.mdHardSectSize
      let limit := align cfg.bmBytes 4096
      if parseOnly then
        let c := min (toU64 (limit - s.window * bufferSize)) n
        .ok { s with bm := bm, truncated := n != c }
      else if limit ≤ s.window * bufferSize then .error (.exit (.code 10))
      else
        let c := min n (limit - s.window * bufferSize)
        .ok { s with
          bm := bm
          disk := patch s.disk bm (s.window * bufferWords) (c / 4)
          truncated := n != c }
  else .ok s

/-- The loop of `parse_bitmap` over the windows. -/
def parseBitmap (tokens : List Token) : Nat → RestoreState → Except MetaFault (RestoreState × List Token)
  | 0, _ => .error .noReturn
  | fuel + 1, s =>
    match parseBitmapWindow cfg parseOnly s.window s.bm tokens with
    | .error e => .error e
    | .ok w =>
      match storeWindow cfg parseOnly w.words { s with bm := w.bm } with
      | .error e => .error e
      | .ok s =>
        if w.words = bufferWords then parseBitmap tokens fuel { s with window := s.window + 1 }
        else .ok (s, w.rest)

/-- `verify_dumpfile_or_restore` from the bitmap on: the disk it leaves. The buffer holds
anything. -/
def verifyDumpfileOrRestore (tokens : List Token) (bm disk : Nat → BitVec 32) :
    Except MetaFault (Nat → BitVec 32) :=
  match parseBitmap cfg parseOnly tokens 3 ⟨0, false, bm, disk⟩ with
  | .error e => .error e
  -- "there should be no trailing garbage in the input file"
  | .ok (s, rest) => if rest = [] then .ok s.disk else .error (.exit (.code 10))

end

/-! ## Reading items -/

section

variable {cfg : BmCfg} {slots : PeerSlots} {p : Nat} {disk : Nat → BitVec 32}

theorem ofNat_hex64_low (hi lo : BitVec 32) : BitVec.ofNat 32 (hex64 hi lo) = lo := by
  apply BitVec.eq_of_toNat_eq
  rw [BitVec.toNat_ofNat, hex64]
  omega

theorem ofNat_hex64_high (hi lo : BitVec 32) : BitVec.ofNat 32 (hex64 hi lo / 2 ^ 32) = hi := by
  apply BitVec.eq_of_toNat_eq
  rw [BitVec.toNat_ofNat, hex64]
  omega

open Item List

theorem parseItems_restore {items : List Item} (hsmall : (items.flatMap values).length < 2 ^ 32)
    (s : ParseState) (rest : List Token) :
    parseItems cfg false s (items.flatMap tokens ++ .rbrace :: rest) =
      .ok ((items.flatMap values).foldl (assignValue cfg.maxPeers) s, rest) := by
  induction items generalizing s with
  | nil => rfl
  | cons item items ih =>
    rw [flatMap_cons, length_append] at hsmall
    cases item with
    | word v =>
      exact ih (by omega) _
    | times n v =>
      have hn : n % 2 ^ 32 = n := by
        refine Nat.mod_eq_of_lt ?_
        simp only [values, length_replicate] at hsmall
        omega
      simp only [flatMap_cons, tokens, cons_append, parseItems,
        foldl_append, hn]
      exact ih (by omega) _

theorem parseItems_verify {items : List Item} (s : ParseState) (rest : List Token) (hlow : -2 ^ 31 ≤ s.i)
    (hhigh : s.i + 2 * ((items.flatMap values).length * cfg.maxPeers) < 2 ^ 31) :
    parseItems cfg true s (items.flatMap tokens ++ .rbrace :: rest) =
      .ok (⟨s.i + 2 * ((items.flatMap values).length * cfg.maxPeers), s.bm⟩, rest) := by
  induction items generalizing s with
  | nil => simp [parseItems]
  | cons item items ih =>
    rw [flatMap_cons, length_append, Nat.cast_add, Int.add_mul] at hhigh
    have hrest : (0 : Int) ≤ ((items.flatMap values).length : Int) * cfg.maxPeers := by positivity
    -- the position after an item of `n` numbers
    have hstep : ∀ n : Nat, item.values.length = n → toS32 (s.i + 2 * (n * cfg.maxPeers)) =
        s.i + 2 * (n * cfg.maxPeers) := fun n hn => by
      rw [hn] at hhigh
      have : (0 : Int) ≤ (n : Int) * cfg.maxPeers := by positivity
      exact toS32_of_mem (by omega)
    have hpos : (0 : Int) ≤ (item.values.length : Int) * cfg.maxPeers := by positivity
    have hnext := ih ⟨s.i + 2 * (item.values.length * cfg.maxPeers), s.bm⟩ (by dsimp only; omega)
      (by dsimp only; omega)
    have hsum : s.i + 2 * (((item.values ++ items.flatMap values).length : Nat) *
        (cfg.maxPeers : Int)) = s.i + 2 * (item.values.length * cfg.maxPeers) +
          2 * ((items.flatMap values).length * cfg.maxPeers) := by
      rw [length_append, Nat.cast_add]
      ring
    rw [flatMap_cons, flatMap_cons, hsum, ← hnext]
    cases item with
    | word v =>
      have h1 := hstep 1 rfl
      rw [Nat.cast_one, one_mul] at h1
      simp only [tokens, values, cons_append, nil_append, parseItems, if_true,
        length_singleton, Nat.cast_one, one_mul, h1]
    | times n v =>
      have h1 := hstep n (length_replicate ..)
      simp only [tokens, values, cons_append, nil_append, parseItems, if_true,
        length_replicate, h1]

/-! ## Filling the window -/

/-- The rows of peer `p` that are in the window. -/
def windowRows (slots : PeerSlots) (p : Nat) : Nat :=
  rowsOf bufferWords slots.val p

/-- The first `x` rows of peer `p` are in the buffer, which was `bm`. -/
structure FilledTo (slots : PeerSlots) (p : Nat) (disk bm : Nat → BitVec 32)
    (s : ParseState) (x : Nat) : Prop where
  i_eq : s.i = (p + slots.val * x : Nat)
  rows : ∀ y < x, s.bm (p + slots.val * y) = rowWord slots p disk y
  others : ∀ c, c % slots.val ≠ p → s.bm c = bm c

variable {bm : Nat → BitVec 32} {s : ParseState} {x : Nat}

theorem lt_windowRows_iff (hp : p < slots.val) {y : Nat} :
    y < windowRows slots p ↔ p + slots.val * y < bufferWords :=
  lt_rowsOf_iff hp

theorem FilledTo.toU64_eq (h : FilledTo slots p disk bm s x) (hp : p < slots.val)
    (hx : x ≤ windowRows slots p) : toU64 s.i = p + slots.val * x := by
  have hmul : slots.val * windowRows slots p ≤ bufferWords + (slots.val - 1 - p) := by
    rw [Nat.mul_comm]
    exact Nat.div_mul_le_self _ _
  have hle := Nat.mul_le_mul_left slots.val hx
  have hmax : slots.val ≤ 32 := slots.le_max
  have hw : bufferWords = 2 ^ 23 := rfl
  have hi := h.i_eq
  have := toU64_of_lt (x := s.i) (by omega)
  omega

theorem FilledTo.assign_in (h : FilledTo slots p disk bm s x) (hp : p < slots.val)
    (hx : x < windowRows slots p) {v : Nat}
    (hv : (if x % 2 = 0 then BitVec.ofNat 32 v else BitVec.ofNat 32 (v / 2 ^ 32)) = rowWord slots p disk x) :
    FilledTo slots p disk bm (assign32Of64bit slots.val v s) (x + 1) := by
  have hin := (lt_windowRows_iff hp).1 hx
  have hi := h.i_eq
  have hnat : s.i.toNat = p + slots.val * x := by omega
  unfold assign32Of64bit
  rw [h.toU64_eq hp (Nat.le_of_lt hx), if_neg (by omega), if_pos (by omega), hnat, row_div hp, hv]
  refine ⟨?_, fun y hy => ?_, fun c hc => ?_⟩
  · dsimp only
    rw [Nat.mul_succ]
    omega
  · by_cases hyx : y = x
    · subst hyx
      exact update_self ..
    have hne : p + slots.val * y ≠ p + slots.val * x := fun heq =>
      hyx (Nat.eq_of_mul_eq_mul_left slots.pos (by omega))
    exact (update_of_ne hne ..).trans (h.rows y (by omega))
  · have hne : c ≠ p + slots.val * x := by
      rintro rfl
      rw [Nat.add_mul_mod_self_left, Nat.mod_eq_of_lt hp] at hc
      exact hc rfl
    exact (update_of_ne hne ..).trans (h.others c hc)

theorem FilledTo.assign_out (h : FilledTo slots p disk bm s (windowRows slots p))
    (hp : p < slots.val) (v : Nat) : assign32Of64bit slots.val v s = s := by
  have hout := (not_congr (lt_windowRows_iff hp)).1 (Nat.lt_irrefl (windowRows slots p))
  unfold assign32Of64bit
  rw [h.toU64_eq hp (Nat.le_refl _), if_pos (by omega)]

theorem FilledTo.assign {k : Nat} (h : FilledTo slots p disk bm s (min k (windowRows slots p)))
    (hp : p < slots.val) {v : Nat}
    (hv : (if k % 2 = 0 then BitVec.ofNat 32 v else BitVec.ofNat 32 (v / 2 ^ 32)) = rowWord slots p disk k) :
    FilledTo slots p disk bm (assign32Of64bit slots.val v s) (min (k + 1) (windowRows slots p)) := by
  by_cases hk : k < windowRows slots p
  · rw [Nat.min_eq_left (by omega)] at h ⊢
    exact h.assign_in hp hk hv
  rw [Nat.min_eq_right (by omega)] at h ⊢
  rw [h.assign_out hp]
  exact h

variable (disk) in
theorem foldl_rowValues (hp : p < slots.val) (bm : Nat → BitVec 32) (k : Nat) :
    FilledTo slots p disk bm ((rowValues slots p disk k).foldl (assignValue slots.val) ⟨p, bm⟩)
      (min (2 * k) (windowRows slots p)) := by
  induction k with
  | zero =>
    exact ⟨by simp [rowValues], fun y hy => absurd hy (Nat.not_lt_zero y), fun c _ => rfl⟩
  | succ k ih =>
    rw [rowValues_succ, foldl_append]
    refine (ih.assign hp ?_).assign hp ?_
    · rw [if_pos (by omega), ofNat_hex64_low]
    · rw [if_neg (by omega), ofNat_hex64_high]

/-- In a later window every position is negative, and nothing is assigned. -/
theorem foldl_of_neg (values : List Nat) (hneg : s.i < 0) (hlow : -2 ^ 31 ≤ s.i) (mp : Nat) :
    values.foldl (assignValue mp) s = s := by
  have hout : ∀ v, assign32Of64bit mp v s = s := fun v => by
    refine if_pos ?_
    have hw : bufferWords = 2 ^ 23 := rfl
    unfold toU64
    omega
  induction values with
  | nil => rfl
  | cons v values ih =>
    rw [foldl_cons, assignValue, hout, hout]
    exact ih

/-! ## The peers of a dump -/

/-- What is printed for a peer. -/
def itemsOf (cfg : BmCfg) (disk : Nat → BitVec 32) (p : Nat) : List Item :=
  match fprintfBm cfg p disk with
  | .ok items => items
  | .error _ => []

/-- The numbers printed for a peer. -/
def pairsOf (cfg : BmCfg) (slots : PeerSlots) (p : Nat) : Nat :=
  rowsOf cfg.n slots.val p / 2

def dumpTokens (cfg : BmCfg) (disk : Nat → BitVec 32) (peers : List Nat) : List Token :=
  peers.flatMap fun p => bitmapTokens p (itemsOf cfg disk p)

theorem itemsOf_spec (hcfg : cfg.Rounded slots) (hp : p < slots.val) :
    fprintfBm cfg p disk = .ok (itemsOf cfg disk p) ∧
      (itemsOf cfg disk p).flatMap values = rowValues slots p disk (pairsOf cfg slots p) := by
  obtain ⟨items, heq, hvalues⟩ := fprintfBm_values disk hcfg hp
  have hitems : itemsOf cfg disk p = items := by
    unfold itemsOf
    rw [heq]
  rw [hitems]
  exact ⟨heq, hvalues⟩

theorem printPeers_eq (hcfg : cfg.Rounded slots) {peers : List Nat} (hpeers : ∀ p ∈ peers, p < slots.val) :
    printPeers cfg disk peers = .ok (dumpTokens cfg disk peers) := by
  induction peers with
  | nil => rfl
  | cons p peers ih =>
    rw [printPeers, (itemsOf_spec hcfg (hpeers p mem_cons_self)).1,
      ih fun q hq => hpeers q (mem_cons_of_mem p hq)]
    rfl

theorem printfBm_eq (hcfg : cfg.Rounded slots) :
    printfBm cfg disk = .ok (dumpTokens cfg disk (range slots.val)) := by
  rw [printfBm, hcfg.maxPeers]
  exact printPeers_eq hcfg fun p hp => mem_range.1 hp

theorem parsePeers_dumpTokens {parseOnly : Bool} {window : Nat} {w : Nat → Int}
    {f : Nat → (Nat → BitVec 32) → Nat → BitVec 32} {peers : List Nat}
    (heach : ∀ p ∈ peers, ∀ bm rest, parseItems cfg parseOnly ⟨toS32 (p - window * bufferWords), bm⟩
      ((itemsOf cfg disk p).flatMap tokens ++ .rbrace :: rest) = .ok (⟨p + w p, f p bm⟩, rest))
    (words : Int) (bm : Nat → BitVec 32) :
    parsePeers cfg parseOnly window peers ⟨words, bm, dumpTokens cfg disk peers⟩ =
      .ok ⟨(peers.getLast?.map w).getD words, peers.foldl (fun bm p => f p bm) bm, []⟩ := by
  induction peers generalizing words bm with
  | nil => rfl
  | cons p peers ih =>
    simp only [parsePeers, dumpTokens, flatMap_cons, bitmapTokens, cons_append, append_assoc,
      parseBitmapWindowOnePeer, ne_eq, heach p mem_cons_self,
      add_sub_cancel_left]
    refine (ih (fun q hq => heach q (mem_cons_of_mem p hq)) (w p) (f p bm)).trans ?_
    cases peers with
    | nil => rfl
    | cons q peers => rw [getLast?_cons_cons]; simp [getLast?_cons]

theorem pairsOf_le (cfg : BmCfg) (slots : PeerSlots) (p : Nat) :
    2 * (pairsOf cfg slots p * slots.val) ≤ cfg.n + (slots.val - 1 - p) := by
  have hle : 2 * pairsOf cfg slots p ≤ rowsOf cfg.n slots.val p := by
    unfold pairsOf
    omega
  have hmul := Nat.mul_le_mul_right slots.val hle
  have hdiv : rowsOf cfg.n slots.val p * slots.val ≤ cfg.n + (slots.val - 1 - p) := Nat.div_mul_le_self _ _
  rw [Nat.mul_assoc] at hmul
  omega

theorem length_itemsOf (hcfg : cfg.Rounded slots) (hp : p < slots.val) :
    ((itemsOf cfg disk p).flatMap values).length = pairsOf cfg slots p := by
  rw [(itemsOf_spec hcfg hp).2]
  simp [rowValues]

section

variable (hcfg : cfg.Rounded slots) (hbytes : cfg.bmBytes < 2 ^ 32)

include hcfg hbytes

variable (disk) in
theorem length_itemsOf_lt (hp : p < slots.val) :
    2 * (((itemsOf cfg disk p).flatMap values).length * slots.val) < 2 ^ 30 + 32 := by
  have hle := pairsOf_le cfg slots p
  have hmax : slots.val ≤ 32 := slots.le_max
  rw [length_itemsOf hcfg hp]
  unfold BmCfg.n at hle
  omega

theorem parsePeer_first (hp : p < slots.val) (bm : Nat → BitVec 32) (rest : List Token) :
    parseItems cfg false ⟨toS32 (p - (0 : Nat) * bufferWords), bm⟩
        ((itemsOf cfg disk p).flatMap tokens ++ .rbrace :: rest) =
      .ok (⟨p + slots.val * min (2 * pairsOf cfg slots p) (windowRows slots p),
        ((rowValues slots p disk (pairsOf cfg slots p)).foldl (assignValue slots.val) ⟨p, bm⟩).bm⟩, rest) := by
  have hlen := length_itemsOf_lt disk hcfg hbytes hp
  have hone := Nat.le_mul_of_pos_right ((itemsOf cfg disk p).flatMap values).length slots.pos
  have hstart : toS32 ((p : Int) - (0 : Nat) * bufferWords) = p := by
    have hmax : slots.val ≤ 32 := slots.le_max
    exact toS32_of_mem (by omega)
  have hi := (foldl_rowValues disk hp bm (pairsOf cfg slots p)).i_eq
  rw [Nat.cast_add, Nat.cast_mul] at hi
  rw [hstart, parseItems_restore (by omega), (itemsOf_spec hcfg hp).2, hcfg.maxPeers, ← hi]

theorem parsePeer_second (hp : p < slots.val) (bm : Nat → BitVec 32) (rest : List Token) :
    parseItems cfg false ⟨toS32 (p - (1 : Nat) * bufferWords), bm⟩
        ((itemsOf cfg disk p).flatMap tokens ++ .rbrace :: rest) =
      .ok (⟨p + -bufferWords, bm⟩, rest) := by
  have hlen := length_itemsOf_lt disk hcfg hbytes hp
  have hone := Nat.le_mul_of_pos_right ((itemsOf cfg disk p).flatMap values).length slots.pos
  have hw : bufferWords = 2 ^ 23 := rfl
  have hmax : slots.val ≤ 32 := slots.le_max
  have hstart : toS32 ((p : Int) - (1 : Nat) * bufferWords) = p + -bufferWords := by
    exact toS32_of_mem (by omega)
  rw [hstart, parseItems_restore (by omega), foldl_of_neg _ (by dsimp only; omega) (by dsimp only; omega)]

/-- With `parse_only` the words of the whole dump are counted. -/
theorem parsePeer_verify {window : Nat} (hwindow : window ≤ 1) (hp : p < slots.val) (bm : Nat → BitVec 32)
    (rest : List Token) : parseItems cfg true ⟨toS32 (p - window * bufferWords), bm⟩
        ((itemsOf cfg disk p).flatMap tokens ++ .rbrace :: rest) =
      .ok (⟨p + ((2 * (pairsOf cfg slots p * slots.val) : Nat) - (window * bufferWords : Nat)), bm⟩, rest) := by
  have hlen := length_itemsOf_lt disk hcfg hbytes hp
  have hw : bufferWords = 2 ^ 23 := rfl
  have hmax : slots.val ≤ 32 := slots.le_max
  have hle : window * bufferWords ≤ 1 * bufferWords := Nat.mul_le_mul_right _ hwindow
  have hstart : toS32 ((p : Int) - window * bufferWords) = p - (window * bufferWords : Nat) := by
    exact toS32_of_mem (by omega)
  have hcast : (2 : Int) * (((itemsOf cfg disk p).flatMap values).length * (cfg.maxPeers : Int)) =
      (2 * (((itemsOf cfg disk p).flatMap values).length * slots.val) : Nat) := by
    rw [hcfg.maxPeers]
    rfl
  rw [hstart, parseItems_verify _ _ (by dsimp only; omega) (by dsimp only; rw [hcast]; omega),
    hcast, length_itemsOf hcfg hp, sub_add_eq_add_sub, add_sub_assoc]

/-! ## The windows -/

/-- The last peer, whose words are counted. -/
def lastPeer (slots : PeerSlots) : Nat :=
  slots.val - 1

omit hcfg hbytes in
theorem lastPeer_lt (slots : PeerSlots) : lastPeer slots < slots.val :=
  Nat.sub_lt slots.pos Nat.one_pos

omit hcfg hbytes in
theorem getLast?_peers (slots : PeerSlots) : (range slots.val).getLast? = some (lastPeer slots) := by
  have hpos := slots.pos
  rw [getLast?_range, if_neg (by omega)]
  rfl

/-- The rows of every peer that a restore brings back. -/
def restoredRows (cfg : BmCfg) (slots : PeerSlots) : Nat :=
  min (2 * pairsOf cfg slots (lastPeer slots)) (windowRows slots (lastPeer slots))

omit hcfg hbytes in
theorem rowsOf_anti (n mp : Nat) {p q : Nat} (h : p ≤ q) : rowsOf n mp q ≤ rowsOf n mp p :=
  Nat.div_le_div_right (by omega)

omit hcfg hbytes in
theorem restoredRows_le (cfg : BmCfg) (hp : p < slots.val) :
    restoredRows cfg slots ≤ min (2 * pairsOf cfg slots p) (windowRows slots p) := by
  have hlast : p ≤ lastPeer slots := Nat.le_sub_one_of_lt hp
  have h1 := rowsOf_anti cfg.n slots.val hlast
  have h2 := rowsOf_anti bufferWords slots.val hlast
  unfold restoredRows pairsOf windowRows
  omega

omit hcfg hbytes in
theorem restoredRows_mul_le (cfg : BmCfg) (slots : PeerSlots) :
    slots.val * restoredRows cfg slots ≤ cfg.n ∧ slots.val * restoredRows cfg slots ≤ bufferWords := by
  have hrows : restoredRows cfg slots ≤ cfg.n / slots.val ∧ restoredRows cfg slots ≤ bufferWords / slots.val := by
    have hlast : slots.val - 1 - lastPeer slots = 0 := Nat.sub_self _
    unfold restoredRows pairsOf windowRows rowsOf
    rw [hlast, Nat.add_zero, Nat.add_zero]
    omega
  exact ⟨(Nat.mul_le_mul_left _ hrows.1).trans (Nat.mul_div_le _ _),
    (Nat.mul_le_mul_left _ hrows.2).trans (Nat.mul_div_le _ _)⟩

omit hbytes in
theorem parseBitmapWindow_eq {parseOnly : Bool} {window : Nat} {w : Nat → Int}
    {f : Nat → (Nat → BitVec 32) → Nat → BitVec 32}
    (heach : ∀ p < slots.val, ∀ bm rest, parseItems cfg parseOnly ⟨toS32 (p - window * bufferWords), bm⟩
      ((itemsOf cfg disk p).flatMap tokens ++ .rbrace :: rest) = .ok (⟨p + w p, f p bm⟩, rest))
    (bm : Nat → BitVec 32) :
    parseBitmapWindow cfg parseOnly window bm (dumpTokens cfg disk (range slots.val)) =
      .ok ⟨w (lastPeer slots), (range slots.val).foldl (fun bm p => f p bm) bm, []⟩ := by
  rw [parseBitmapWindow, hcfg.maxPeers, parsePeers_dumpTokens fun p hp => heach p (mem_range.1 hp),
    getLast?_peers]
  rfl

variable (disk) in
theorem parseBitmapWindow_first (bm : Nat → BitVec 32) :
    ∃ bm', parseBitmapWindow cfg false 0 bm (dumpTokens cfg disk (range slots.val)) =
        .ok ⟨slots.val * restoredRows cfg slots, bm', []⟩ ∧
      ∀ p < slots.val, ∀ y < restoredRows cfg slots, bm' (p + slots.val * y) = rowWord slots p disk y := by
  refine ⟨_, parseBitmapWindow_eq hcfg (fun p hp => parsePeer_first hcfg hbytes hp) bm, ?_⟩
  -- by induction on the peers already read
  suffices h : ∀ m ≤ slots.val, ∀ p < m, ∀ y < restoredRows cfg slots,
      ((range m).foldl (fun bm p => ((rowValues slots p disk (pairsOf cfg slots p)).foldl
        (assignValue slots.val) ⟨p, bm⟩).bm) bm) (p + slots.val * y) = rowWord slots p disk y from
    h slots.val (Nat.le_refl _)
  intro m
  induction m with
  | zero => exact fun _ p hp => absurd hp (Nat.not_lt_zero p)
  | succ m ih =>
    intro _ p hp y hy
    rw [range_succ, foldl_append, foldl_cons, foldl_nil]
    have hfill := foldl_rowValues disk (show m < slots.val by omega)
      ((range m).foldl (fun bm p => ((rowValues slots p disk (pairsOf cfg slots p)).foldl
        (assignValue slots.val) ⟨p, bm⟩).bm) bm) (pairsOf cfg slots m)
    by_cases hpm : p = m
    · subst hpm
      exact hfill.rows y (Nat.lt_of_lt_of_le hy (restoredRows_le cfg (by omega)))
    · rw [hfill.others _ (by rw [Nat.add_mul_mod_self_left, Nat.mod_eq_of_lt (by omega)]; exact hpm)]
      exact ih (by omega) p (by omega) y hy

variable (disk) in
theorem parseBitmapWindow_verify {window : Nat} (hwindow : window ≤ 1) (bm : Nat → BitVec 32) :
    ∃ bm', parseBitmapWindow cfg true window bm (dumpTokens cfg disk (range slots.val)) =
      .ok ⟨(2 * (pairsOf cfg slots (lastPeer slots) * slots.val) : Nat) - (window * bufferWords : Nat), bm', []⟩ :=
  ⟨_, parseBitmapWindow_eq hcfg (fun _ hp => parsePeer_verify hcfg hbytes hwindow hp) bm⟩

omit hbytes in
/-- The first window goes to the disk up to its last word, and not beyond the buffer. -/
theorem storeWindow_first {w : Nat} (hpos : 0 < w) (hw : w ≤ bufferWords) (hn : w ≤ cfg.n)
    (bm disk0 : Nat → BitVec 32) :
    ∃ s', storeWindow cfg false w ⟨0, false, bm, disk0⟩ = .ok s' ∧ s'.window = 0 ∧
      (∀ c < w, s'.disk c = bm c) ∧ ∀ c, bufferWords ≤ c → s'.disk c = disk0 c := by
  have hsize : bufferSize = 4 * bufferWords := rfl
  have hlimit : align cfg.bmBytes 4096 = cfg.bmBytes :=
    align_of_dvd (by decide) (Nat.dvd_of_mod_eq_zero hcfg.page)
  have hbytes : 4 * cfg.n ≤ cfg.bmBytes := Nat.mul_div_le _ _
  have hlow := le_align (x := 4 * w) hcfg.sect_pos
  have hhigh : align (4 * w) cfg.mdHardSectSize ≤ bufferSize := by
    rw [← align_of_dvd hcfg.sect_pos (Nat.dvd_trans hcfg.sect_dvd (by decide : 4096 ∣ bufferSize))]
    exact align_mono (by omega)
  unfold storeWindow
  rw [if_pos ⟨by omega, rfl⟩]
  dsimp only
  rw [Int.toNat_natCast, if_neg (by omega), if_neg (by decide), if_neg (by omega)]
  refine ⟨_, rfl, rfl, fun c hc => ?_, fun c hc => ?_⟩
  · dsimp only
    rw [patch, if_pos (by omega), fill_of_not_mem (by omega)]
    congr 1
  · dsimp only
    rw [patch, if_neg (by omega)]

/-- A restore brings back the rows of the first window, and nothing behind it. -/
theorem restore_dump (disk bm disk0 : Nat → BitVec 32) :
    ∃ disk', verifyDumpfileOrRestore cfg false (dumpTokens cfg disk (range slots.val)) bm disk0 =
        .ok disk' ∧
      (∀ p < slots.val, ∀ y < restoredRows cfg slots, disk' (p + slots.val * y) = rowWord slots p disk y) ∧
      ∀ c, bufferWords ≤ c → disk' c = disk0 c := by
  obtain ⟨hn, hw⟩ := restoredRows_mul_le cfg slots
  obtain ⟨bm', hfirst, hrows⟩ := parseBitmapWindow_first disk hcfg hbytes bm
  rw [← Nat.cast_mul] at hfirst
  unfold verifyDumpfileOrRestore
  rw [parseBitmap, hfirst]
  dsimp only
  rcases Nat.eq_zero_or_pos (slots.val * restoredRows cfg slots) with hzero | hpos
  · have hnone : restoredRows cfg slots = 0 := by
      have := slots.pos
      rcases Nat.mul_eq_zero.1 hzero with h | h
      · omega
      · exact h
    rw [hzero]
    refine ⟨_, rfl, fun p _ y hy => ?_, fun c _ => rfl⟩
    omega
  · obtain ⟨s', hstore, hwin, hcells, htail⟩ := storeWindow_first hcfg hpos hw hn bm' disk0
    rw [hstore]
    dsimp only
    have hkept : ∀ p < slots.val, ∀ y < restoredRows cfg slots,
        s'.disk (p + slots.val * y) = rowWord slots p disk y := fun p hp y hy => by
      rw [hcells _ ((row_lt_iff hp).2 hy), hrows p hp y hy]
    split_ifs with hfull
    · have hsecond := parseBitmapWindow_eq hcfg (fun _ hp => @parsePeer_second _ _ _ disk hcfg hbytes hp) s'.bm
      rw [parseBitmap, hwin, hsecond]
      dsimp only
      exact ⟨_, rfl, hkept, htail⟩
    · exact ⟨_, rfl, hkept, htail⟩

omit hcfg hbytes in
theorem storeWindow_verify (cfg : BmCfg) {w : Nat} (hw : w ≤ bufferWords) (bm disk0 : Nat → BitVec 32) :
    ∃ s', storeWindow cfg true w ⟨0, false, bm, disk0⟩ = .ok s' ∧ s'.window = 0 ∧ s'.disk = disk0 := by
  have hsize : bufferSize = 4 * bufferWords := rfl
  unfold storeWindow
  by_cases hpos : 0 < (w : Int) ∧ (⟨0, false, bm, disk0⟩ : RestoreState).truncated = false
  · rw [if_pos hpos, if_neg (by omega)]
    exact ⟨_, rfl, rfl, rfl⟩
  · rw [if_neg hpos]
    exact ⟨_, rfl, rfl, rfl⟩

/-- The verify pass accepts a bitmap that fits into the buffer. -/
theorem verify_dump (hfit : cfg.n ≤ bufferWords) (disk bm disk0 : Nat → BitVec 32) :
    verifyDumpfileOrRestore cfg true (dumpTokens cfg disk (range slots.val)) bm disk0 = .ok disk0 := by
  have hwords := pairsOf_le cfg slots (lastPeer slots)
  rw [show slots.val - 1 - lastPeer slots = 0 from Nat.sub_self _] at hwords
  obtain ⟨bm', hfirst⟩ := parseBitmapWindow_verify disk hcfg hbytes (Nat.zero_le 1) bm
  obtain ⟨s', hstore, hwin, hdisk⟩ := storeWindow_verify cfg
    (show 2 * (pairsOf cfg slots (lastPeer slots) * slots.val) ≤ bufferWords by omega) bm' disk0
  rw [Nat.zero_mul, Nat.cast_zero, Int.sub_zero] at hfirst
  unfold verifyDumpfileOrRestore
  rw [parseBitmap, hfirst]
  dsimp only
  rw [hstore]
  dsimp only
  split_ifs with hfull
  · -- the bitmap ends where the buffer does: the second window has no words
    obtain ⟨_, hsecond⟩ := parseBitmapWindow_verify disk hcfg hbytes (Nat.le_refl 1) s'.bm
    rw [hfull, Nat.one_mul] at hsecond
    rw [parseBitmap, hwin, hsecond]
    dsimp only
    rw [storeWindow]
    rw [hdisk]
    rfl
  · exact (if_pos rfl).trans (congrArg Except.ok hdisk)

/-- A larger one makes the verify pass clear memory behind the buffer. -/
theorem verify_dump_overrun (hlarge : bufferWords < cfg.n) (disk bm disk0 : Nat → BitVec 32) :
    verifyDumpfileOrRestore cfg true (dumpTokens cfg disk (range slots.val)) bm disk0 =
      .error .overrun := by
  have hpage := hcfg.page
  have hn : cfg.n % 1024 = 0 := by
    unfold BmCfg.n
    omega
  have hsize : bufferSize = 4 * bufferWords := rfl
  have hW : bufferWords = 1024 * 2 ^ 13 := rfl
  have hmax : slots.val ≤ 32 := slots.le_max
  have hlast := lastPeer_lt slots
  -- less than two rows are not printed
  have hwords : cfg.n < 2 * (pairsOf cfg slots (lastPeer slots) * slots.val) + 2 * slots.val := by
    have hrows : ¬rowsOf cfg.n slots.val (lastPeer slots) < rowsOf cfg.n slots.val (lastPeer slots) := Nat.lt_irrefl _
    have hhalf : rowsOf cfg.n slots.val (lastPeer slots) ≤ 2 * pairsOf cfg slots (lastPeer slots) + 1 := by
      unfold pairsOf
      omega
    have hmul := Nat.mul_le_mul_left slots.val hhalf
    rw [lt_rowsOf_iff hlast] at hrows
    have hring : slots.val * (2 * pairsOf cfg slots (lastPeer slots) + 1) =
        2 * (pairsOf cfg slots (lastPeer slots) * slots.val) + slots.val := by ring
    omega
  obtain ⟨_, hfirst⟩ := parseBitmapWindow_verify disk hcfg hbytes (Nat.zero_le 1) bm
  unfold verifyDumpfileOrRestore
  rw [parseBitmap, hfirst]
  dsimp only
  rw [storeWindow, if_pos ⟨by omega, rfl⟩, if_pos (by omega)]

end

/-! ## Which bitmaps survive -/

/-- The dump of every bitmap is restored on every disk and accepted by the verify pass, whatever the
buffer held before: no word of a slot is lost. -/
def SurvivesDump (slots : PeerSlots) (size hardSect : Nat) : Prop :=
  ∀ disk bm disk0 : Nat → BitVec 32,
    ∃ tokens, printfBm (applyCfg slots size hardSect) disk = .ok tokens ∧
      (∃ disk', verifyDumpfileOrRestore (applyCfg slots size hardSect) false tokens bm disk0 = .ok disk' ∧
        ∀ c < slots.val * (slotBits size / 32), disk' c = disk c) ∧
      verifyDumpfileOrRestore (applyCfg slots size hardSect) true tokens bm disk0 = .ok disk0

variable {size hardSect : Nat}

theorem applyCfg_rounded (slots : PeerSlots) (size : Nat) (hsect : 0 < hardSect)
    (hdvd : hardSect ∣ 4096) : (applyCfg slots size hardSect).Rounded slots where
  maxPeers := rfl
  page := by
    have hmod := bmBytes_mod slots size
    show 512 * bsrCapacityToOnDiskBmSect size slots.val % 2 ^ 32 % 4096 = 0
    omega
  sect_pos := hsect
  sect_dvd := hdvd

theorem slotWords_eq (slots : PeerSlots) (size : Nat) :
    512 * bsrCapacityToOnDiskBmSect size slots.val = align
      (4 * (slots.val * (slotBits size / 32))) 4096 ∧ slotBits size / 32 % 2 = 0 := by
  have hbits : slotBits size % 64 = 0 := align_mod _ _
  refine ⟨?_, by omega⟩
  rw [bsrCapacityToOnDiskBmSect_eq, show slotBits size / 8 = 4 * (slotBits size / 32) by omega,
    Nat.mul_assoc, Nat.mul_comm slots.val]

theorem survivesDump_of_le (hsect : 0 < hardSect) (hdvd : hardSect ∣ 4096)
    (hfit : 512 * bsrCapacityToOnDiskBmSect size slots.val ≤ bufferSize) :
    SurvivesDump slots size hardSect := by
  intro disk bm disk0
  have hcfg := applyCfg_rounded slots size hsect hdvd
  have hbuf : bufferSize = 2 ^ 25 := rfl
  have hsize : bufferSize = 4 * bufferWords := rfl
  obtain ⟨_, _⟩ := slotWords_eq slots size
  have hbytes : (applyCfg slots size hardSect).bmBytes = 512 * bsrCapacityToOnDiskBmSect size slots.val :=
    Nat.mod_eq_of_lt (by omega)
  have hwords := le_align (x := 4 * (slots.val * (slotBits size / 32))) (show 0 < 4096 by decide)
  have hn : slots.val * (slotBits size / 32) ≤ (applyCfg slots size hardSect).n ∧
      (applyCfg slots size hardSect).n ≤ bufferWords := by
    unfold BmCfg.n
    omega
  have hrows : slotBits size / 32 ≤ restoredRows (applyCfg slots size hardSect) slots := by
    have hlast : slots.val - 1 - lastPeer slots = 0 := Nat.sub_self _
    have h1 : slotBits size / 32 ≤ (applyCfg slots size hardSect).n / slots.val := by
      rw [Nat.le_div_iff_mul_le slots.pos, Nat.mul_comm]
      exact hn.1
    have h2 := Nat.div_le_div_right (c := slots.val) hn.2
    unfold restoredRows pairsOf windowRows rowsOf
    rw [hlast, Nat.add_zero, Nat.add_zero]
    omega
  obtain ⟨disk', hrun, hcells, -⟩ := restore_dump hcfg (by omega) disk bm disk0
  refine ⟨_, printfBm_eq hcfg, ⟨disk', hrun, fun c hc => ?_⟩, verify_dump hcfg (by omega) hn.2 disk bm disk0⟩
  have hrow := hcells (c % slots.val) (Nat.mod_lt _ slots.pos) (c / slots.val)
    (Nat.lt_of_lt_of_le (Nat.div_lt_of_lt_mul hc) hrows)
  rwa [Nat.mod_add_div, rowWord, Nat.div_add_mod] at hrow

/-- The bitmaps that survive a dump and a restore are those that fit into the buffer. -/
theorem dump_restore_iff (slots : PeerSlots) (size hardSect : Nat) (hsect : 0 < hardSect)
    (hdvd : hardSect ∣ 4096) :
    SurvivesDump slots size hardSect ↔ 512 * bsrCapacityToOnDiskBmSect size slots.val ≤ bufferSize := by
  refine ⟨fun hall => ?_, survivesDump_of_le hsect hdvd⟩
  by_contra hlarge
  have hcfg := applyCfg_rounded slots size hsect hdvd
  -- the first word behind the buffer belongs to a slot
  have hword : bufferWords < slots.val * (slotBits size / 32) := by
    obtain ⟨_, -⟩ := slotWords_eq slots size
    by_contra hle
    have hbuf : align bufferSize 4096 = bufferSize := align_of_dvd (by decide) (by decide)
    have hmono := align_mono (a := 4096) (show 4 * (slots.val * (slotBits size / 32)) ≤ bufferSize by
      have hsize : bufferSize = 4 * bufferWords := rfl
      omega)
    omega
  obtain ⟨_, hprint, ⟨_, hrun, hsame⟩, -⟩ := hall (fun _ => 1) (fun _ => 0) (fun _ => 0)
  rw [printfBm_eq hcfg] at hprint
  cases hprint
  obtain ⟨_, hrun', -, htail⟩ := restore_dump hcfg (Nat.mod_lt _ (by decide)) (fun _ => 1) (fun _ => 0) (fun _ => 0)
  obtain rfl := Except.ok.inj (hrun.symm.trans hrun')
  exact absurd ((hsame _ hword).symm.trans (htail _ (Nat.le_refl _))) (by decide)

/-- The largest bitmap of one slot that survives: 1 TiB of data. -/
theorem dump_restore_iff_terabyte : SurvivesDump ⟨1, by decide, by decide⟩ (2 ^ 31) 512 :=
  (dump_restore_iff ⟨1, by decide, by decide⟩ (2 ^ 31) 512 (by decide) (by decide)).2 (by decide)

/-- One page more: the verify pass writes behind its buffer, and a restore returns without the words
behind the first window. -/
theorem dump_restore_loses_tail :
    ∃ tokens disk', printfBm (applyCfg ⟨1, by decide, by decide⟩ (2 ^ 31 + 8) 512) (fun _ => 1) = .ok tokens ∧
      verifyDumpfileOrRestore (applyCfg ⟨1, by decide, by decide⟩ (2 ^ 31 + 8) 512) true tokens
        (fun _ => 0) (fun _ => 0) = .error .overrun ∧
      verifyDumpfileOrRestore (applyCfg ⟨1, by decide, by decide⟩ (2 ^ 31 + 8) 512) false tokens
        (fun _ => 0) (fun _ => 0) = .ok disk' ∧
      bufferWords < slotBits (2 ^ 31 + 8) / 32 ∧ disk' bufferWords = 0 := by
  have hcfg : (applyCfg ⟨1, by decide, by decide⟩ (2 ^ 31 + 8) 512).Rounded ⟨1, by decide, by decide⟩ :=
    applyCfg_rounded _ _ (by decide) (by decide)
  obtain ⟨disk', hrun, -, htail⟩ := restore_dump hcfg (Nat.mod_lt _ (by decide)) (fun _ => 1) (fun _ => 0) (fun _ => 0)
  exact ⟨_, disk', printfBm_eq hcfg, verify_dump_overrun hcfg (Nat.mod_lt _ (by decide))
    (by decide) _ _ _, hrun, by decide, htail _ (Nat.le_refl _)⟩

end

end Bsr.MetaData
