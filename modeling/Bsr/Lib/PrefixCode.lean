import Mathlib

/-!
# Level codes

A level code writes a positive number with one of several fixed code word lengths. Each level owns
an interval of consecutive values and a tag that its code words carry in their low bits.

* `levelEncode` picks the first level whose interval holds the value;
* `levelDecode` picks the first level whose tag matches;
* `PrefixFree` is the condition on a table under which the two agree, whatever follows the code
  word;
* `packedVal` and `packedLen` are the concatenation of code words, low bits first.
-/

namespace Bsr.Lib

/-- A level: code words of `total` bits whose low `width` bits are `tag`. -/
structure Level where
  total : Nat
  width : Nat
  tag : Nat
deriving DecidableEq, Repr

/-- Number of values a level can hold. -/
def Level.span (l : Level) : Nat :=
  2 ^ (l.total - l.width)

/-- Length and code word of `x`; `adj` is the first value of the first level. -/
def levelEncode : List Level → Nat → Nat → Option (Nat × Nat)
  | [], _, _ => none
  | l :: ls, adj, x =>
    if x < adj + l.span then some (l.total, (x - adj) * 2 ^ l.width + l.tag)
    else levelEncode ls (adj + l.span) x

/-- Length and value of the code word at the low end of `w`. -/
def levelDecode : List Level → Nat → Nat → Option (Nat × Nat)
  | [], _, _ => none
  | l :: ls, adj, w =>
    if w % 2 ^ l.width = l.tag then some (l.total, w % 2 ^ l.total / 2 ^ l.width + adj)
    else levelDecode ls (adj + l.span) w

/-- No tag is the low end of a later one. -/
structure PrefixFree (ls : List Level) : Prop where
  tag_lt : ∀ l ∈ ls, l.tag < 2 ^ l.width
  width_le : ∀ l ∈ ls, l.width ≤ l.total
  apart : ls.Pairwise (fun l m => l.width ≤ m.width ∧ m.tag % 2 ^ l.width ≠ l.tag)

variable {ls : List Level}

open List

theorem PrefixFree.tail {l : Level} (h : PrefixFree (l :: ls)) : PrefixFree ls where
  tag_lt m hm := h.tag_lt m (mem_cons_of_mem _ hm)
  width_le m hm := h.width_le m (mem_cons_of_mem _ hm)
  apart := (pairwise_cons.mp h.apart).2

theorem add_mul_pow_mod {c t w rest : Nat} (hwt : w ≤ t) :
    (c + 2 ^ t * rest) % 2 ^ w = c % 2 ^ w := by
  obtain ⟨d, rfl⟩ := Nat.exists_eq_add_of_le hwt
  rw [Nat.pow_add, Nat.mul_assoc, Nat.add_mul_mod_self_left]

theorem add_mul_pow_shiftRight {c t rest : Nat} (hc : c < 2 ^ t) : (c + 2 ^ t * rest) >>> t = rest := by
  rw [Nat.shiftRight_eq_div_pow, Nat.add_mul_div_left _ _ (Nat.two_pow_pos _), Nat.div_eq_of_lt hc,
    Nat.zero_add]

theorem levelEncode_level (h : PrefixFree ls) {adj x t c : Nat} (hx : adj ≤ x)
    (henc : levelEncode ls adj x = some (t, c)) :
    ∃ m ∈ ls, t = m.total ∧ c % 2 ^ m.width = m.tag ∧ c < 2 ^ t := by
  induction ls generalizing adj with
  | nil => simp [levelEncode] at henc
  | cons l ls ih =>
    have htag := h.tag_lt l mem_cons_self
    have hwidth := h.width_le l mem_cons_self
    unfold levelEncode at henc
    split at henc
    · rename_i hlt
      obtain ⟨rfl, rfl⟩ := Prod.mk.inj (Option.some.inj henc)
      refine ⟨l, mem_cons_self, rfl, ?_, ?_⟩
      · rw [Nat.mul_add_mod_self_right, Nat.mod_eq_of_lt htag]
      calc (x - adj) * 2 ^ l.width + l.tag
          < (x - adj + 1) * 2 ^ l.width := by rw [Nat.add_mul]; omega
        _ ≤ l.span * 2 ^ l.width := Nat.mul_le_mul_right _ (by omega)
        _ = 2 ^ l.total := by rw [Level.span, ← Nat.pow_add, Nat.sub_add_cancel hwidth]
    · rename_i hge
      obtain ⟨m, hm, hprops⟩ := ih h.tail (by omega) henc
      exact ⟨m, mem_cons_of_mem _ hm, hprops⟩

/-- A code word decodes to its value, whatever bits follow it. -/
theorem levelDecode_levelEncode (h : PrefixFree ls) {adj x t c : Nat}
    (hx : adj ≤ x) (henc : levelEncode ls adj x = some (t, c)) (rest : Nat) :
    levelDecode ls adj (c + 2 ^ t * rest) = some (t, x) := by
  induction ls generalizing adj with
  | nil => simp [levelEncode] at henc
  | cons l ls ih =>
    have htag := h.tag_lt l mem_cons_self
    have hwidth := h.width_le l mem_cons_self
    obtain ⟨m, hm, _, hctag, hc⟩ := levelEncode_level h hx henc
    unfold levelEncode at henc
    unfold levelDecode
    split at henc
    · obtain ⟨rfl, rfl⟩ := Prod.mk.inj (Option.some.inj henc)
      have hlow : ((x - adj) * 2 ^ l.width + l.tag + 2 ^ l.total * rest) % 2 ^ l.width = l.tag := by
        rw [add_mul_pow_mod hwidth, Nat.mul_add_mod_self_right, Nat.mod_eq_of_lt htag]
      rw [if_pos hlow, Nat.add_mul_mod_self_left, Nat.mod_eq_of_lt hc,
        Nat.mul_comm, Nat.mul_add_div (Nat.two_pow_pos _), Nat.div_eq_of_lt htag]
      congr 2
      omega
    · rename_i hge
      -- a later level produced the code word, and its tag does not end in the tag of `l`
      obtain ⟨m, hm, rfl, hctag, hc⟩ := levelEncode_level h.tail (by omega) henc
      obtain ⟨hle, hne⟩ := (pairwise_cons.mp h.apart).1 m hm
      have hmtotal := h.width_le m (mem_cons_of_mem _ hm)
      have hmod : (c + 2 ^ m.total * rest) % 2 ^ l.width = m.tag % 2 ^ l.width := by
        rw [add_mul_pow_mod (hle.trans hmtotal), ← hctag,
          Nat.mod_mod_of_dvd _ (Nat.pow_dvd_pow 2 hle)]
      rw [if_neg (by rw [hmod]; exact hne)]
      exact ih h.tail (by omega) henc

theorem levelDecode_level {adj w t x : Nat} (h : levelDecode ls adj w = some (t, x)) :
    (∃ l ∈ ls, l.total = t) ∧ adj ≤ x := by
  induction ls generalizing adj with
  | nil => cases h
  | cons l ls ih =>
    unfold levelDecode at h
    split at h
    · cases h
      exact ⟨⟨l, mem_cons_self, rfl⟩, Nat.le_add_left ..⟩
    · obtain ⟨⟨m, hm, ht⟩, hle⟩ := ih h
      exact ⟨⟨m, mem_cons_of_mem _ hm, ht⟩, (Nat.le_add_right ..).trans hle⟩

/-- A word that ends in one of the tags decodes. -/
theorem levelDecode_isSome {w : Nat} (adj : Nat)
    (h : ∃ l ∈ ls, w % 2 ^ l.width = l.tag) : (levelDecode ls adj w).isSome := by
  induction ls generalizing adj with
  | nil => simp at h
  | cons l ls ih =>
    unfold levelDecode
    split
    · rfl
    · exact ih _ (by simpa [*] using h)

/-- Every value inside the intervals has a code word. -/
theorem levelEncode_isSome {adj x : Nat} (hadj : adj ≤ x)
    (hx : x < adj + (ls.map Level.span).sum) : (levelEncode ls adj x).isSome := by
  induction ls generalizing adj with
  | nil => exact absurd hx (Nat.not_lt.mpr hadj)
  | cons l ls ih =>
    unfold levelEncode
    split
    · rfl
    · rw [map_cons, sum_cons] at hx
      exact ih (by omega) (by omega)

/-! ## Concatenated code words -/

/-- Number of bits of a list of code words, given as pairs of length and value. -/
def packedLen (ws : List (Nat × Nat)) : Nat :=
  (ws.map Prod.fst).sum

/-- The code words as one number, the first one in the low bits. -/
def packedVal : List (Nat × Nat) → Nat
  | [] => 0
  | w :: ws => w.2 + 2 ^ w.1 * packedVal ws

@[simp] theorem packedLen_nil : packedLen [] = 0 := rfl

@[simp] theorem packedLen_cons (w : Nat × Nat) (ws : List (Nat × Nat)) :
    packedLen (w :: ws) = w.1 + packedLen ws := by
  simp [packedLen]

@[simp] theorem packedLen_append (ws vs : List (Nat × Nat)) :
    packedLen (ws ++ vs) = packedLen ws + packedLen vs := by
  simp [packedLen]

theorem packedVal_append (ws vs : List (Nat × Nat)) :
    packedVal (ws ++ vs) = packedVal ws + 2 ^ packedLen ws * packedVal vs := by
  induction ws with
  | nil => simp [packedVal]
  | cons w ws ih =>
    rw [cons_append, packedVal, packedVal, ih, packedLen_cons]
    ring

theorem packedVal_lt {ws : List (Nat × Nat)} (h : ∀ w ∈ ws, w.2 < 2 ^ w.1) :
    packedVal ws < 2 ^ packedLen ws := by
  induction ws with
  | nil => simp [packedVal]
  | cons w ws ih =>
    have hw := h w mem_cons_self
    have hws := ih (fun v hv => h v (mem_cons_of_mem _ hv))
    rw [packedLen_cons, Nat.pow_add]
    calc w.2 + 2 ^ w.1 * packedVal ws
        < 2 ^ w.1 * (packedVal ws + 1) := by rw [Nat.mul_add]; omega
      _ ≤ 2 ^ w.1 * 2 ^ packedLen ws := Nat.mul_le_mul_left _ hws

end Bsr.Lib
