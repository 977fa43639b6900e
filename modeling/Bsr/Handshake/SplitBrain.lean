import Bsr.Handshake.Antisymmetry

/-!
# Related and unrelated data

The last rules of `bsr_uuid_compare` tell two nodes that have diverged (`-100`) from two nodes that
never had anything in common (`-1000`).

* `Related` says that both have a UUID in common, with unused slots left out;
* every rule that finds a current UUID finds a common one, since a current UUID that is zero counts
  as just created and is dealt with before;
* rule 100 compares unused slots of the histories as well: with an unused slot on both sides,
  unrelated nodes get `-100`.
-/

namespace Bsr.Handshake

/-! ## UUIDs in common -/

variable (n : Endpoint)

/-- `u` is the current UUID, a bitmap UUID or a history UUID of the node. -/
def Endpoint.Has (u : Uuid) : Prop :=
  withoutPrimary n.currentUuid = u ∨ (∃ i, withoutPrimary (n.peers i).bitmapUuid = u) ∨
    ∃ j, withoutPrimary (n.historyUuids j) = u

/-- The same for what the peer has sent. -/
def Uuids.Has (v : Uuids) (u : Uuid) : Prop :=
  withoutPrimary v.currentUuid = u ∨ (∃ i, withoutPrimary (v.bitmapUuids i) = u) ∨
    ∃ j, withoutPrimary (v.historyUuids j) = u

def Related (v : Uuids) : Prop :=
  ∃ u, u ≠ 0 ∧ n.Has u ∧ v.Has u

/-- Both histories have a slot that is not in use. -/
def BothUnused (v : Uuids) : Prop :=
  (∃ i, withoutPrimary (n.historyUuids i) = 0) ∧ ∃ j, withoutPrimary (v.historyUuids j) = 0

/-- One of the current UUIDs is zero or was just created. -/
def JustCreated (v : Uuids) : Prop :=
  effectiveUuid n.currentUuid = uuidJustCreated ∨ effectiveUuid v.currentUuid = uuidJustCreated

theorem withoutPrimary_ne_zero {u : Uuid} (h : effectiveUuid u ≠ uuidJustCreated) : withoutPrimary u ≠ 0 := by
  intro hzero
  exact h (if_pos hzero)

theorem effectiveUuid_eq {u : Uuid} (h : effectiveUuid u ≠ uuidJustCreated) :
    effectiveUuid u = withoutPrimary u :=
  if_neg (withoutPrimary_ne_zero h)

/-! ## What the rules find -/

section Rules

variable {n : Endpoint} {v : Uuids} {r : Compared}

theorem hg_uuidFixupResyncStart1 (h : uuidFixupResyncStart1 n v = some r) :
    r.hg ≠ -100 ∧ withoutPrimary (v.historyUuids 0) = withoutPrimary n.currentUuid := by
  unfold uuidFixupResyncStart1 at h
  -- the test on the version inside the condition is left alone
  rw [Option.ite_none_right_eq_some] at h
  obtain ⟨hmatch, h⟩ := h
  split_ifs at h <;> cases h
  · exact ⟨by dsimp only; decide, hmatch.1.symm⟩
  · exact ⟨by dsimp only; decide, hmatch.1.symm⟩

theorem hg_uuidFixupResyncStart2 (h : uuidFixupResyncStart2 n v = some r) :
    r.hg ≠ -100 ∧ withoutPrimary (n.historyUuids 0) = withoutPrimary v.currentUuid := by
  unfold uuidFixupResyncStart2 at h
  -- the test on the version inside the condition is left alone
  rw [Option.ite_none_right_eq_some] at h
  obtain ⟨hmatch, h⟩ := h
  split_ifs at h <;> cases h
  · exact ⟨by dsimp only; decide, hmatch.1⟩
  · exact ⟨by dsimp only; decide, hmatch.1⟩

/-- Rules 50, 52 and 60 find the current UUID of the node in what the peer sent. -/
theorem rules50to60_has (h : rules50to60 n v = some r) :
    r.hg ≠ -100 ∧ v.Has (withoutPrimary n.currentUuid) := by
  unfold rules50to60 at h
  by_cases hslot : withoutPrimary n.currentUuid = withoutPrimary (v.bitmapUuids n.nodeId)
  · rw [if_pos hslot] at h
    cases h
    exact ⟨by dsimp only; decide, .inr (.inl ⟨_, hslot.symm⟩)⟩
  rw [if_neg hslot] at h
  split at h
  · rename_i i hfind
    cases h
    have hi : withoutPrimary n.currentUuid = withoutPrimary (v.bitmapUuids i) := by
      simpa using List.find?_some hfind
    exact ⟨by dsimp only; decide, .inr (.inl ⟨i, hi.symm⟩)⟩
  split at h
  · rename_i hfix
    cases h
    split_ifs at hfix with hver
    obtain ⟨hhg, hhist⟩ := hg_uuidFixupResyncStart1 hfix
    exact ⟨hhg, .inr (.inr ⟨0, hhist⟩)⟩
  · split_ifs at h with hhist
    obtain ⟨j, hj⟩ := hhist
    cases h
    exact ⟨by dsimp only; decide, .inr (.inr ⟨j, hj.symm⟩)⟩

/-- Rules 70, 72 and 80 find the current UUID of the peer in what the node has. -/
theorem rules70to80_has (h : rules70to80 n v = some r) :
    r.hg ≠ -100 ∧ n.Has (withoutPrimary v.currentUuid) := by
  unfold rules70to80 at h
  by_cases hslot : withoutPrimary n.bitmapUuid = withoutPrimary v.currentUuid
  · rw [if_pos hslot] at h
    cases h
    exact ⟨by dsimp only; decide, .inr (.inl ⟨_, hslot⟩)⟩
  rw [if_neg hslot] at h
  split at h
  · rename_i i hfind
    cases h
    have hi := List.find?_some hfind
    simp only [Bool.and_eq_true, beq_iff_eq] at hi
    exact ⟨by dsimp only; decide, .inr (.inl ⟨i, hi.2⟩)⟩
  split at h
  · rename_i hfix
    cases h
    split_ifs at hfix with hver
    obtain ⟨hhg, hhist⟩ := hg_uuidFixupResyncStart2 hfix
    exact ⟨hhg, .inr (.inr ⟨0, hhist⟩)⟩
  · split_ifs at h with hhist
    obtain ⟨j, hj⟩ := hhist
    cases h
    exact ⟨by dsimp only; decide, .inr (.inr ⟨j, hj⟩)⟩

theorem related_of_bitmapUuidsMatch (h : bitmapUuidsMatch n v) : Related n v :=
  ⟨_, h.2, .inr (.inl ⟨_, rfl⟩), .inr (.inl ⟨n.nodeId, h.1.symm⟩)⟩

/-- A common value of the histories is a common UUID or stands for unused slots. -/
theorem related_of_historiesMeet (h : historiesMeet n v) : Related n v ∨ BothUnused n v := by
  obtain ⟨i, j, hij⟩ := h
  by_cases hzero : withoutPrimary (n.historyUuids i) = 0
  · exact .inr ⟨⟨i, hzero⟩, j, hij ▸ hzero⟩
  · exact .inl ⟨_, hzero, .inr (.inr ⟨i, rfl⟩), .inr (.inr ⟨j, hij.symm⟩)⟩

/-- Neither the fixup for a lost end of a resync nor rules 38 and 40 report split brain. -/
theorem hg_uuidFixupResyncEnd (h : uuidFixupResyncEnd n v = some r) : r.hg ≠ -100 := by
  unfold uuidFixupResyncEnd at h
  dsimp only at h
  split_ifs at h <;> cases h <;> dsimp only <;> decide

theorem hg_rules38to40 (n : Endpoint) (v : Uuids) : (rules38to40 n v).hg ≠ -100 := by
  unfold rules38to40
  split_ifs <;> dsimp only <;> decide

end Rules

/-! ## The classification -/

section Classification

variable {n : Endpoint} {v : Uuids}

theorem historiesMeet_of_hg_rules90to100 (h : (rules90to100 n v).hg = -100) : historiesMeet n v := by
  rw [rules90to100_hg] at h
  split_ifs at h with _ hmeet
  · exact hmeet
  · exact absurd h (by decide)

theorem hg_rules90to100_of_apart (hbitmap : ¬ bitmapUuidsMatch n v) (hhist : ¬ historiesMeet n v) :
    (rules90to100 n v).hg = -1000 := by
  rw [rules90to100_hg, if_neg hbitmap, if_neg hhist]

/-- With data on both nodes, `-100` comes from rule 100, and what is not `-1000` has found a value
on both sides. -/
theorem uuidCompare_past_created (hcreated : ¬ JustCreated n v) :
    ((uuidCompare n v).hg = -100 → historiesMeet n v) ∧
      ((uuidCompare n v).hg = -1000 ∨ Related n v ∨ historiesMeet n v) := by
  obtain ⟨hself, hpeer⟩ := not_or.mp hcreated
  have hself0 := withoutPrimary_ne_zero hself
  have hpeer0 := withoutPrimary_ne_zero hpeer
  unfold uuidCompare
  rw [if_neg (fun hboth => hself hboth.1), if_neg hself, if_neg hpeer]
  by_cases hsame : effectiveUuid n.currentUuid = effectiveUuid v.currentUuid
  · -- the current UUID itself is common
    rw [if_pos hsame]
    rw [effectiveUuid_eq hself, effectiveUuid_eq hpeer] at hsame
    refine ⟨fun h => ?_, .inr (.inl ⟨_, hself0, .inl rfl, .inl hsame.symm⟩)⟩
    split at h
    · rename_i hend
      split_ifs at hend with hver
      exact absurd h (hg_uuidFixupResyncEnd hend)
    · exact absurd h (hg_rules38to40 n v)
  rw [if_neg hsame]
  cases hown : rules50to60 n v with
  | some r =>
    obtain ⟨hhg, hhas⟩ := rules50to60_has hown
    exact ⟨fun h => absurd h hhg, .inr (.inl ⟨_, hself0, .inl rfl, hhas⟩)⟩
  | none =>
    cases htheirs : rules70to80 n v with
    | some r =>
      obtain ⟨hhg, hhas⟩ := rules70to80_has htheirs
      exact ⟨fun h => absurd h hhg, .inr (.inl ⟨_, hpeer0, hhas, .inl rfl⟩)⟩
    | none =>
      refine ⟨historiesMeet_of_hg_rules90to100, ?_⟩
      by_cases hbitmap : bitmapUuidsMatch n v
      · exact .inr (.inl (related_of_bitmapUuidsMatch hbitmap))
      by_cases hhist : historiesMeet n v
      · exact .inr (.inr hhist)
      · exact .inl (hg_rules90to100_of_apart hbitmap hhist)

/-- The result on a node that was just created says which side was. -/
theorem hg_ne_of_justCreated (hcreated : JustCreated n v) : (uuidCompare n v).hg ≠ -100 := by
  rw [uuidCompare_hg_of_justCreated hcreated]
  split_ifs <;> decide

end Classification

/-- Unless both histories have unused slots, `-100` means that there is a common UUID, and nodes
without one get `-1000` when both have data; a node that was just created becomes the target of one
that was not. -/
theorem split_brain_needs_common_uuid (n : Endpoint) (v : Uuids) :
    ((uuidCompare n v).hg = -100 → BothUnused n v ∨ Related n v) ∧
      (¬ Related n v →
        (¬ JustCreated n v → BothUnused n v ∨ (uuidCompare n v).hg = -1000) ∧
        (JustCreated n v → (uuidCompare n v).hg =
          (if effectiveUuid v.currentUuid = uuidJustCreated then 3 else 0) -
            if effectiveUuid n.currentUuid = uuidJustCreated then 3 else 0)) := by
  refine ⟨fun h => ?_, fun hapart => ⟨fun hcreated => ?_, uuidCompare_hg_of_justCreated⟩⟩
  · by_cases hcreated : JustCreated n v
    · exact absurd h (hg_ne_of_justCreated hcreated)
    · exact (related_of_historiesMeet ((uuidCompare_past_created hcreated).1 h)).symm
  · obtain hhg | hrel | hmeet := (uuidCompare_past_created hcreated).2
    · exact .inr hhg
    · exact absurd hrel hapart
    · exact (related_of_historiesMeet hmeet).elim (fun hrel => absurd hrel hapart) .inl

/-- Two nodes with nothing in common: one that was just created is to be overwritten. -/
theorem unrelated_overwritten : ¬ Related (nodeZero 4 0) (told (nodeOne 0x20 0 0)) ∧
    (uuidCompare (nodeZero 4 0) (told (nodeOne 0x20 0 0))).hg = -3 := by
  refine ⟨?_, by decide⟩
  rintro ⟨u, hu, hnode, hpeer⟩
  have hzero : withoutPrimary 0 = 0 := by decide
  have hc : withoutPrimary 4 = u := by
    obtain hcur | ⟨i, hi⟩ | ⟨j, hj⟩ := hnode
    · exact hcur
    · simp only [nodeZero] at hi
      split_ifs at hi <;> exact absurd (hzero.symm.trans hi).symm hu
    · exact absurd (hzero.symm.trans hj).symm hu
  have hd : withoutPrimary 0x20 = u := by
    obtain hcur | ⟨i, hi⟩ | ⟨j, hj⟩ := hpeer
    · exact hcur
    · have hsent : (told (nodeOne 0x20 0 0)).bitmapUuids i = 0 := by
        by_cases hi : i = 0 <;> simp [told, nodeOne, Endpoint.sentBitmapUuid, Endpoint.tellsDifferent, hi]
      exact absurd (hzero.symm.trans (hsent ▸ hi)).symm hu
    · exact absurd (hzero.symm.trans hj).symm hu
  exact absurd (hc.trans hd.symm) (by decide)

end Bsr.Handshake
