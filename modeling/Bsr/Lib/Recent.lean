import Mathlib

/-!
# Lists of the most recent values

A `Recent` keeps a fixed number of values, newest first. A value that is there already is not added
again; a new one comes to the front, and the oldest goes.

* `fresh` are the values of a sequence of pushes that were new when their turn came; `push` over a
  list puts just these in front (`foldl_push`);
* `pull` takes the newest value out and puts one in at the end: it undoes a push of a new value
  (`pull_push`);
* `Proper` lists hold distinct values, with blanks behind them; pushes keep them proper
  (`Proper.foldl_push`) if no blank is pushed when there is none.
-/

namespace Bsr.Lib

/-- `n` values, newest first. -/
structure Recent (α : Type*) (n : Nat) where
  entries : List α
  length_entries : entries.length = n
deriving DecidableEq

namespace Recent

variable {α : Type*} {n : Nat}

attribute [simp] length_entries

theorem ext {r s : Recent α n} (h : r.entries = s.entries) : r = s := by
  cases r
  cases s
  simpa using h

variable (r : Recent α n)

/-- The newest value is taken out, and `a` comes in as the oldest. -/
def pull (a : α) : Recent α n :=
  ⟨(r.entries ++ [a]).tail, by simp⟩

theorem entries_pull (a : α) : (r.pull a).entries = (r.entries ++ [a]).tail := rfl

def oldest (d : α) : α :=
  r.entries.getLastD d

variable {l : List α} {a : α}

open List

theorem tail_append_eq_self_iff : (l ++ [a]).tail = l ↔ ∀ b ∈ l, b = a := by
  cases l with
  | nil => simp
  | cons b l =>
    induction l generalizing b with
    | nil => simp [eq_comm]
    | cons c l ih =>
      have hrest := ih c
      simp only [cons_append, tail_cons, cons.injEq, mem_cons, forall_eq_or_imp] at hrest ⊢
      rw [hrest]
      constructor
      · rintro ⟨rfl, rfl, hl⟩
        exact ⟨rfl, rfl, hl⟩
      · rintro ⟨rfl, rfl, hl⟩
        exact ⟨rfl, rfl, hl⟩

variable [DecidableEq α]

/-- A new value comes to the front. -/
def push (r : Recent α n) (a : α) : Recent α n :=
  if a ∈ r.entries then r else ⟨(a :: r.entries).take n, by simp⟩

theorem push_of_mem {r : Recent α n} (h : a ∈ r.entries) : r.push a = r :=
  if_pos h

theorem entries_push {r : Recent α n} (h : a ∉ r.entries) : (r.push a).entries = (a :: r.entries).take n := by
  rw [push, if_neg h]

variable {r : Recent α (n + 1)}

theorem entries_push_eq (h : a ∉ r.entries) : (r.push a).entries = a :: r.entries.dropLast := by
  rw [entries_push h, take_succ_cons, dropLast_eq_take, length_entries, Nat.add_sub_cancel]

theorem pull_push {a d : α} (h : a ∉ r.entries) : (r.push a).pull (r.oldest d) = r := by
  apply ext
  have hne : r.entries ≠ [] := ne_nil_of_length_eq_add_one r.length_entries
  rw [entries_pull, entries_push_eq h, oldest, getLastD_eq_getLast?, getLast?_eq_some_getLast hne]
  exact dropLast_concat_getLast hne

/-! ## Sequences of pushes -/

/-- The values that are new when their turn comes, the last of them first. -/
def fresh (r : Recent α n) : List α → List α
  | [] => []
  | a :: as => if a ∈ r.entries then fresh r as else fresh (r.push a) as ++ [a]

theorem foldl_push (r : Recent α n) (as : List α) :
    (as.foldl push r).entries = (r.fresh as ++ r.entries).take n := by
  induction as generalizing r with
  | nil => simp [fresh, take_of_length_le]
  | cons a as ih =>
    rw [foldl_cons, fresh]
    split_ifs with ha
    · rw [push_of_mem ha, ih]
    rw [ih, entries_push ha, append_assoc, take_append, take_take]
    rw [take_append, Nat.min_eq_left (Nat.sub_le ..)]
    rfl

variable {as : List α}

theorem fresh_eq_nil_iff {r : Recent α n} : r.fresh as = [] ↔ ∀ a ∈ as, a ∈ r.entries := by
  induction as with
  | nil => simp [fresh]
  | cons a as ih =>
    rw [fresh]
    by_cases ha : a ∈ r.entries <;> simp [ha, ih]

theorem fresh_eq_singleton_iff {r : Recent α n} {b : α} :
    r.fresh as = [b] ↔ ∃ before after, as = before ++ b :: after ∧
      (∀ a ∈ before, a ∈ r.entries) ∧ b ∉ r.entries ∧ ∀ a ∈ after, a ∈ (r.push b).entries := by
  induction as with
  | nil => simp [fresh]
  | cons a as ih =>
    rw [fresh]
    split_ifs with ha
    · rw [ih]
      constructor
      · rintro ⟨before, after, rfl, hbefore, hb, hafter⟩
        exact ⟨a :: before, after, rfl, by simpa [ha] using hbefore, hb, hafter⟩
      rintro ⟨before, after, hsplit, hbefore, hb, hafter⟩
      cases before with
      | nil =>
        obtain ⟨rfl, -⟩ := cons.inj hsplit
        exact absurd ha hb
      | cons c before =>
        obtain ⟨rfl, rfl⟩ := cons.inj hsplit
        exact ⟨before, after, rfl, fun x hx => hbefore x (mem_cons_of_mem _ hx), hb, hafter⟩
    · constructor
      · intro h
        obtain ⟨hnil, rfl⟩ : fresh (r.push a) as = [] ∧ a = b := by simpa using append_eq_singleton_iff.1 h
        exact ⟨[], as, rfl, nofun, ha, fresh_eq_nil_iff.1 hnil⟩
      rintro ⟨before, after, hsplit, hbefore, hb, hafter⟩
      cases before with
      | nil =>
        obtain ⟨rfl, rfl⟩ := cons.inj hsplit
        rw [fresh_eq_nil_iff.2 hafter]
        rfl
      | cons c before =>
        obtain ⟨rfl, -⟩ := cons.inj hsplit
        exact absurd (hbefore _ mem_cons_self) ha

/-- A value is not pushed again while it is there. -/
theorem not_mem_fresh {r : Recent α n} {b : α} (h : b ∈ r.entries.take (n - as.length)) :
    b ∉ r.fresh as := by
  induction as generalizing r with
  | nil => simp [fresh]
  | cons a as ih =>
    rw [length_cons] at h
    rw [fresh]
    split_ifs with ha
    · exact ih (take_subset_take_left _ (by omega) h)
    rw [mem_append, mem_singleton, not_or]
    refine ⟨ih ?_, fun hab => ha (hab ▸ mem_of_mem_take h)⟩
    rw [entries_push ha, take_take, Nat.min_eq_left (Nat.sub_le ..)]
    obtain ⟨k, hk⟩ : ∃ k, n - as.length = k + 1 := by
      refine ⟨n - (as.length + 1), ?_⟩
      have hpos : 0 < n - (as.length + 1) := by
        by_contra hzero
        rw [Nat.eq_zero_of_not_pos hzero] at h
        exact absurd h (by simp)
      omega
    rw [hk]
    exact mem_cons_of_mem _ (by rwa [show k = n - (as.length + 1) by omega])

/-! ## Undoing pushes -/

section Undo

variable {r : Recent α (n + 1)} {as : List α}

/-- With fewer pushes than places the newest value of before is still there, and not new. -/
theorem head_not_mem_fresh {b : α} (hlen : as.length < n + 1) (hb : r.entries = b :: l) :
    b ∉ r.fresh as := by
  apply not_mem_fresh
  obtain ⟨k, hk⟩ : ∃ k, n + 1 - as.length = k + 1 := ⟨n - as.length, by omega⟩
  rw [hb, hk]
  exact mem_cons_self

theorem foldl_push_eq_self_iff (hlen : as.length < n + 1) : as.foldl push r = r ↔ ∀ a ∈ as, a ∈ r.entries := by
  rw [← fresh_eq_nil_iff]
  constructor
  · intro h
    have hentries := (foldl_push r as).symm.trans (congrArg entries h)
    obtain ⟨b, l, hb⟩ := exists_cons_of_length_eq_add_one r.length_entries
    cases hfresh : r.fresh as with
    | nil => rfl
    | cons c cs =>
      rw [hfresh, hb] at hentries
      obtain ⟨rfl, -⟩ := cons.inj hentries
      exact absurd (by simp [hfresh]) (head_not_mem_fresh hlen hb)
  · intro h
    apply ext
    rw [foldl_push, h]
    exact take_of_length_le (by simp)

/-- A pull after some pushes gives back the old list in two cases only: nothing was pushed and all
values are alike, or one value was pushed and the one it drove out comes back. -/
theorem pull_foldl_push_eq_self_iff {d : α} (hlen : as.length < n + 1) :
    (as.foldl push r).pull d = r ↔
      (r.fresh as = [] ∧ ∀ b ∈ r.entries, b = d) ∨ ((∃ b, r.fresh as = [b]) ∧ r.oldest d = d) := by
  obtain ⟨b, l, hb⟩ := exists_cons_of_length_eq_add_one r.length_entries
  have hentries := foldl_push r as
  have hiff : (as.foldl push r).pull d = r ↔ (((r.fresh as ++ r.entries).take (n + 1)) ++ [d]).tail = r.entries := by
    rw [← hentries]
    exact ⟨congrArg entries, fun h => ext h⟩
  rw [hiff]
  cases hfresh : r.fresh as with
  | nil =>
    rw [nil_append, take_of_length_le (by simp), tail_append_eq_self_iff]
    simp
  | cons c cs =>
    cases cs with
    | nil =>
      -- all but the oldest are back in their places
      have hne : r.entries ≠ [] := by simp [hb]
      have hlast : r.oldest d = r.entries.getLast hne := by
        rw [oldest, getLastD_eq_getLast?, getLast?_eq_some_getLast hne, Option.getD_some]
      have htake : r.entries.take n = r.entries.dropLast := by
        rw [dropLast_eq_take, length_entries, Nat.add_sub_cancel]
      rw [cons_append, nil_append, take_succ_cons, htake, hlast]
      nth_rewrite 2 [← dropLast_concat_getLast hne]
      simp [eq_comm]
    | cons c' cs =>
      have hmem : b ∉ r.fresh as := head_not_mem_fresh hlen hb
      have hn : n ≠ 0 := by
        rintro rfl
        cases as with
        | nil => simp [fresh] at hfresh
        | cons a as => simp at hlen
      obtain ⟨k, rfl⟩ := Nat.exists_eq_succ_of_ne_zero hn
      have hne : ¬ (c' = b ∧ ((cs ++ b :: l).take k ++ [d]) = l) := by
        rintro ⟨rfl, -⟩
        exact hmem (by simp [hfresh])
      simpa [hb] using hne

end Undo

/-! ## Distinct values and blanks -/

/-- Distinct values, with blanks behind them. -/
def Proper (blank : α) (r : Recent α n) : Prop :=
  ∃ vs, r.entries = vs ++ List.replicate (n - vs.length) blank ∧ vs.Nodup ∧ blank ∉ vs

section Proper

variable {r : Recent α n} {blank a : α}

omit [DecidableEq α] in
theorem Proper.length_le {vs : List α} (h : r.entries = vs ++ replicate (n - vs.length) blank) :
    vs.length ≤ n := by
  have hlen := r.length_entries
  rw [h, length_append] at hlen
  omega

variable (h : r.Proper blank)

include h

theorem Proper.push (ha : a ≠ blank) : (r.push a).Proper blank := by
  by_cases hmem : a ∈ r.entries
  · rwa [push_of_mem hmem]
  obtain ⟨vs, hvs, hnodup, hblank⟩ := h
  have hfresh : a ∉ vs := fun hv => hmem (by simp [hvs, hv])
  refine ⟨(a :: vs).take n, ?_, ?_, ?_⟩
  · have hcount : min (n - (a :: vs).length) (n - vs.length) = n - ((a :: vs).take n).length := by
      rw [length_take, length_cons]
      omega
    rw [entries_push hmem, hvs, ← cons_append, take_append, take_replicate, hcount]
  · exact (nodup_cons.2 ⟨hfresh, hnodup⟩).sublist (take_sublist ..)
  · intro hmem'
    obtain rfl | hv := mem_cons.1 (mem_of_mem_take hmem')
    · exact ha rfl
    · exact hblank hv

omit [DecidableEq α] in
theorem Proper.pull_blank : (r.pull blank).Proper blank := by
  obtain ⟨vs, hvs, hnodup, hblank⟩ := h
  have hle := Proper.length_le hvs
  have happend : r.entries ++ [blank] = vs ++ replicate (n - vs.length + 1) blank := by
    rw [hvs, append_assoc, ← replicate_succ']
  refine ⟨vs.tail, ?_, hnodup.tail, fun hv => hblank (mem_of_mem_tail hv)⟩
  rw [entries_pull, happend]
  cases vs with
  | nil => simp
  | cons v vs =>
    rw [length_cons] at hle ⊢
    rw [show n - (vs.length + 1) + 1 = n - vs.length by omega]
    rfl

omit [DecidableEq α] in
theorem Proper.nodup (hfull : blank ∉ r.entries) : r.entries.Nodup := by
  obtain ⟨vs, hvs, hnodup, -⟩ := h
  have hzero : n - vs.length = 0 := by
    by_contra hpos
    exact hfull (by simp [hvs, hpos])
  rw [hvs, hzero]
  simpa using hnodup

omit [DecidableEq α] in
/-- A value can be given back to a list that is full. -/
theorem Proper.pull_full (hfull : blank ∉ r.entries) (ha : a ≠ blank)
    (hfresh : a ∉ r.entries.tail) : (r.pull a).Proper blank := by
  have hnodup := h.nodup hfull
  have hnodup' : (r.pull a).entries.Nodup := by
    rw [entries_pull]
    cases hvs : r.entries with
    | nil => exact nodup_nil
    | cons v vs =>
      rw [hvs] at hnodup
      rw [hvs] at hfresh
      simpa [nodup_append] using ⟨(nodup_cons.1 hnodup).2, fun b hb h => hfresh (h ▸ hb)⟩
  refine ⟨(r.pull a).entries, by simp, hnodup', fun hmem => ?_⟩
  obtain hmem | hmem := mem_append.1 (mem_of_mem_tail hmem)
  · exact hfull hmem
  · exact ha (mem_singleton.1 hmem).symm

omit [DecidableEq α] in
/-- What a push drives out is a blank unless the list is full. -/
theorem Proper.oldest_eq (hmem : blank ∈ r.entries) : r.oldest blank = blank := by
  obtain ⟨vs, hvs, -, hblank⟩ := h
  obtain ⟨k, hk⟩ : ∃ k, n - vs.length = k + 1 := by
    refine ⟨n - vs.length - 1, ?_⟩
    have hpos : n - vs.length ≠ 0 := by
      intro hzero
      rw [hvs, hzero] at hmem
      exact hblank (by simpa using hmem)
    omega
  rw [oldest, hvs, hk, replicate_succ']
  simp

omit [DecidableEq α] in
/-- If the newest value is a blank, all are. -/
theorem Proper.all_blank (hhead : r.entries = blank :: l) : ∀ b ∈ l, b = blank := by
  obtain ⟨vs, hvs, -, hblank⟩ := h
  cases vs with
  | nil =>
    intro b hb
    have hmem : b ∈ r.entries := by simp [hhead, hb]
    rw [hvs] at hmem
    exact eq_of_mem_replicate (by simpa using hmem)
  | cons v vs =>
    obtain ⟨rfl, -⟩ := cons.inj (hhead.symm.trans hvs)
    exact absurd mem_cons_self hblank

end Proper

/-- The value that a push drives out is a blank, or can be given back. -/
theorem Proper.oldest_fresh {blank a : α} (h : r.Proper blank) (ha : a ≠ blank) (hnew : a ∉ r.entries) :
    r.oldest blank = blank ∨ blank ∉ (r.push a).entries ∧ r.oldest blank ∉ (r.push a).entries.tail := by
  by_cases hmem : blank ∈ r.entries
  · exact .inl (h.oldest_eq hmem)
  right
  have hne : r.entries ≠ [] := ne_nil_of_length_eq_add_one r.length_entries
  have hlast : r.oldest blank = r.entries.getLast hne := by
    rw [oldest, getLastD_eq_getLast?, getLast?_eq_some_getLast hne, Option.getD_some]
  rw [entries_push_eq hnew, hlast]
  refine ⟨fun hblank => ?_, fun hlast => ?_⟩
  · obtain hblank | hblank := mem_cons.1 hblank
    · exact ha hblank.symm
    · exact hmem ((dropLast_sublist _).subset hblank)
  · have hnodup := h.nodup hmem
    rw [← dropLast_concat_getLast hne, nodup_append] at hnodup
    exact hnodup.2.2 _ hlast _ (by simp) rfl

/-- A new value is put in; one is driven out only if the list is full. -/
def Inserts (blank : α) (r r' : Recent α n) : Prop :=
  ∃ a, a ≠ blank ∧ a ∉ r.entries ∧ r' = r.push a ∧ (r.oldest blank ≠ blank → blank ∉ r.entries)

theorem Proper.inserts {r : Recent α n} {blank a : α} (h : r.Proper blank) (ha : a ≠ blank)
    (hnew : a ∉ r.entries) : Inserts blank r (r.push a) :=
  ⟨a, ha, hnew, rfl, fun hold hmem => hold (h.oldest_eq hmem)⟩

/-- A push takes one blank at most. -/
theorem count_le_count_push {a blank : α} (hnew : a ∉ r.entries) :
    r.entries.count blank ≤ (r.push a).entries.count blank + 1 := by
  have hne : r.entries ≠ [] := ne_nil_of_length_eq_add_one r.length_entries
  rw [entries_push_eq hnew]
  have hsplit := dropLast_concat_getLast hne
  have hcount := congrArg (count blank) hsplit
  rw [count_append] at hcount
  have hone : count blank [r.entries.getLast hne] ≤ 1 := count_le_length
  have hcons : r.entries.dropLast.count blank ≤ (a :: r.entries.dropLast).count blank :=
    (sublist_cons_self ..).count_le _
  omega

/-- A sequence of pushes of values that are not blank, or for which there is room, so that a blank
would be found. -/
theorem Proper.foldl_push {blank : α} (h : r.Proper blank)
    (hroom : blank ∉ as ∨ as.length ≤ r.entries.count blank) :
    (as.foldl Recent.push r).Proper blank ∧ Relation.ReflTransGen (Inserts blank) r (as.foldl Recent.push r) := by
  induction as generalizing r with
  | nil => exact ⟨h, .refl⟩
  | cons a as ih =>
    rw [foldl_cons]
    by_cases hmem : a ∈ r.entries
    · rw [push_of_mem hmem]
      refine ih h (hroom.imp (fun hb hmem' => hb (mem_cons_of_mem _ hmem')) fun hlen => ?_)
      rw [length_cons] at hlen
      omega
    have ha : a ≠ blank := by
      rintro rfl
      obtain hb | hlen := hroom
      · exact hb mem_cons_self
      · rw [length_cons, count_eq_zero.2 hmem] at hlen
        omega
    have hrest := ih (h.push ha) (hroom.imp (fun hb hmem' => hb (mem_cons_of_mem _ hmem')) fun hlen => by
      have hcount : r.entries.count blank ≤ (r.push a).entries.count blank + 1 := count_le_count_push hmem
      rw [length_cons] at hlen
      omega)
    exact ⟨hrest.1, .head (h.inserts ha hmem) hrest.2⟩

end Recent
end Bsr.Lib
