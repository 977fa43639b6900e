import Bsr.Handshake.Compare

/-!
# Two nodes compare their UUIDs

Both nodes run `bsr_uuid_compare` on what the other sent. A rule that looks for the node's own
current UUID in what the peer sent has a mirror that looks for the peer's in what the node has.

* `Place` is where a UUID is found, with `sentPlace` on one side and `ownPlace` on the other;
* `SeenAlike` says that both sides find it in the same place: it fails where an empty slot was sent
  as `-1` or a slot was left out;
* `uuid_compare_mirrored_iff` says when the two results mirror each other.
-/

namespace Bsr.Handshake

open State List

/-! ## Places -/

/-- Where a current UUID is found: in the bitmap slot for its node, in another slot, in the
history. -/
inductive Place where
  | slot | other | history | nowhere
deriving DecidableEq, Repr

instance Place.fintype : Fintype Place :=
  ⟨{.slot, .other, .history, .nowhere}, fun p => by cases p <;> decide⟩

/-- How much the node that has it is ahead. -/
def Place.goodness : Place → Option Int
  | slot => some 2
  | other => some 4
  | history => some 3
  | nowhere => none

/-- The place of the current UUID `u` of node `id` in what its peer sent. -/
def sentPlace (u : Uuid) (id : NodeId) (v : Uuids) : Place :=
  if u = withoutPrimary (v.bitmapUuids id) then .slot
  else if ∃ i, u = withoutPrimary (v.bitmapUuids i) then .other
  else if ∃ j, u = withoutPrimary (v.historyUuids j) then .history
  else .nowhere

/-- The place of the peer's current UUID `u` in what the node has. -/
def ownPlace (u : Uuid) (n : Endpoint) : Place :=
  if withoutPrimary n.bitmapUuid = u then .slot
  else if ∃ i, i ≠ n.peerNodeId ∧ i ≠ n.nodeId ∧ withoutPrimary (n.peers i).bitmapUuid = u then .other
  else if ∃ j, withoutPrimary (n.historyUuids j) = u then .history
  else .nowhere

/-- The UUID is among the bitmap or history UUIDs of the node. -/
def Endpoint.Contains (n : Endpoint) (u : Uuid) : Prop :=
  (∃ i, withoutPrimary (n.peers i).bitmapUuid = withoutPrimary u) ∨
    ∃ j, withoutPrimary (n.historyUuids j) = withoutPrimary u

instance (n : Endpoint) (u : Uuid) : Decidable (n.Contains u) :=
  inferInstanceAs (Decidable (_ ∨ _))

theorem contains_of_ownPlace {n : Endpoint} {u : Uuid}
    (h : ownPlace (withoutPrimary u) n ≠ .nowhere) : n.Contains u := by
  unfold ownPlace at h
  split_ifs at h with hslot hother hhist
  · exact .inl ⟨_, hslot⟩
  · obtain ⟨i, -, -, hi⟩ := hother
    exact .inl ⟨i, hi⟩
  · exact .inr hhist
  · exact absurd rfl h

/-! ## The rules by place -/

variable {n : Endpoint} {v : Uuids}

theorem rules50to60_hg (hver : ¬ n.agreedProVersion < 110) :
    (rules50to60 n v).map (fun r => -r.hg) = (sentPlace (withoutPrimary n.currentUuid) n.nodeId v).goodness := by
  unfold rules50to60 sentPlace
  by_cases hslot : withoutPrimary n.currentUuid = withoutPrimary (v.bitmapUuids n.nodeId)
  · rw [if_pos hslot, if_pos hslot]
    rfl
  rw [if_neg hslot, if_neg hslot]
  cases hfind : (finRange 32).find? fun i => withoutPrimary n.currentUuid == withoutPrimary (v.bitmapUuids i) with
  | some i =>
    have hi := find?_some hfind
    have hother : ∃ i, withoutPrimary n.currentUuid = withoutPrimary (v.bitmapUuids i) := ⟨i, beq_iff_eq.1 hi⟩
    rw [if_pos hother]
    rfl
  | none =>
    have hother : ¬ ∃ i, withoutPrimary n.currentUuid = withoutPrimary (v.bitmapUuids i) := by
      rintro ⟨i, hi⟩
      exact find?_eq_none.1 hfind i (mem_finRange i) (beq_iff_eq.2 hi)
    split_ifs <;> rfl

theorem rules70to80_hg (hver : ¬ n.agreedProVersion < 110) :
    (rules70to80 n v).map Compared.hg = (ownPlace (withoutPrimary v.currentUuid) n).goodness := by
  unfold rules70to80 ownPlace
  by_cases hslot : withoutPrimary n.bitmapUuid = withoutPrimary v.currentUuid
  · rw [if_pos hslot, if_pos hslot]
    rfl
  rw [if_neg hslot, if_neg hslot]
  cases hfind : (finRange 32).find? fun i =>
      i != n.peerNodeId && i != n.nodeId && withoutPrimary (n.peers i).bitmapUuid == withoutPrimary v.currentUuid with
  | some i =>
    have hi := find?_some hfind
    simp only [Bool.and_eq_true, bne_iff_ne, beq_iff_eq] at hi
    have hother : ∃ i, i ≠ n.peerNodeId ∧ i ≠ n.nodeId ∧
        withoutPrimary (n.peers i).bitmapUuid = withoutPrimary v.currentUuid := ⟨i, hi.1.1, hi.1.2, hi.2⟩
    rw [if_pos hother]
    rfl
  | none =>
    have hother : ¬ ∃ i, i ≠ n.peerNodeId ∧ i ≠ n.nodeId ∧
        withoutPrimary (n.peers i).bitmapUuid = withoutPrimary v.currentUuid := by
      rintro ⟨i, hpeer, hself, hi⟩
      refine find?_eq_none.1 hfind i (mem_finRange i) ?_
      simp [hpeer, hself, hi]
    split_ifs <;> rfl

theorem rules90to100_hg : (rules90to100 n v).hg =
      if bitmapUuidsMatch n v then 100 else if historiesMeet n v then -100 else -1000 := by
  unfold rules90to100
  split_ifs <;> rfl

/-- The current UUIDs differ, and both nodes have data. -/
structure Differ (u w : Uuid) : Prop where
  left : effectiveUuid u ≠ uuidJustCreated
  right : effectiveUuid w ≠ uuidJustCreated
  ne : effectiveUuid u ≠ effectiveUuid w

/-- The node's own current UUID in what was sent comes first. -/
def goodnessOf (sent own : Place) (rest : Int) : Int :=
  match sent.goodness with
  | some g => -g
  | none => own.goodness.getD rest

theorem uuidCompare_hg_of_differ (hver : ¬ n.agreedProVersion < 110) (h : Differ n.currentUuid v.currentUuid) :
    (uuidCompare n v).hg = goodnessOf (sentPlace (withoutPrimary n.currentUuid) n.nodeId v)
      (ownPlace (withoutPrimary v.currentUuid) n) (rules90to100 n v).hg := by
  unfold uuidCompare goodnessOf
  rw [if_neg (fun hboth => h.left hboth.1), if_neg h.left, if_neg h.right, if_neg h.ne,
    ← rules50to60_hg hver, ← rules70to80_hg hver]
  cases rules50to60 n v with
  | some r => simp
  | none =>
    cases rules70to80 n v with
    | some r => rfl
    | none => rfl

/-! ## Mirrored results -/

/-- Opposite when they ask for a resync, and the same when they do not relate the data. -/
def Mirrored (h h' : Int) : Prop :=
  (h.natAbs < 100 → h' = -h) ∧ (h = 100 ∨ h = -100 ∨ h = -1000 → h' = h)

instance (h h' : Int) : Decidable (Mirrored h h') :=
  inferInstanceAs (Decidable (_ ∧ _))

/-- A result of rules 90 and 100. -/
def Unrelated (r : Int) : Prop :=
  r = 100 ∨ r = -100 ∨ r = -1000

theorem unrelated_rules90to100 : Unrelated (rules90to100 n v).hg := by
  rw [rules90to100_hg]
  unfold Unrelated
  split_ifs <;> simp

/-- Only where neither UUID is found do rules 90 and 100 decide. -/
theorem goodnessOf_eq_or (p q : Place) (r : Int) :
    (p = .nowhere ∧ q = .nowhere ∧ goodnessOf p q r = r) ∨
      (goodnessOf p q r ≠ 0 ∧ (goodnessOf p q r).natAbs < 100) := by
  cases p <;> cases q <;> simp [goodnessOf, Place.goodness]

/-- `a` and `b` are the places of the two current UUIDs on the node that has them, `a'` and `b'`
those in what was sent. -/
theorem mirrored_goodnessOf_iff {a a' b b' : Place} {r r' : Int} (hr : Unrelated r)
    (hr' : Unrelated r') (hnot : ¬ (a ≠ .nowhere ∧ b ≠ .nowhere)) :
    Mirrored (goodnessOf a' b r) (goodnessOf b' a r') ↔
      a' = a ∧ b' = b ∧ (a = .nowhere → b = .nowhere → r' = r) := by
  revert a a' b b'
  -- four places each, and three results where neither is found
  rcases hr with rfl | rfl | rfl <;> rcases hr' with rfl | rfl | rfl <;> decide +kernel

/-! ## Both nodes -/

/-- The two ends of a connection. -/
structure Connected (a b : Endpoint) : Prop where
  left : a.nodeId = b.peerNodeId
  right : b.nodeId = a.peerNodeId
  distinct : a.nodeId ≠ b.nodeId
  version : a.agreedProVersion = b.agreedProVersion
  resolve : a.resolveConflicts ≠ b.resolveConflicts

/-- The source of a running resync does not hear of the crash of its target. -/
def MissesCrash (a b : Endpoint) : Prop :=
  a.isSyncSource = true ∧ b.isSyncSource = false ∧ b.wasPrimary = true

/-- What one node sent and what it has lead to the same places. -/
structure SeenAlike (a b : Endpoint) : Prop where
  left : sentPlace (withoutPrimary a.currentUuid) a.nodeId (told b) = ownPlace (withoutPrimary a.currentUuid) b
  right : sentPlace (withoutPrimary b.currentUuid) b.nodeId (told a) = ownPlace (withoutPrimary b.currentUuid) a
  bitmaps : ownPlace (withoutPrimary a.currentUuid) b = .nowhere →
    ownPlace (withoutPrimary b.currentUuid) a = .nowhere →
      (bitmapUuidsMatch b (told a) ↔ bitmapUuidsMatch a (told b))

/-- Neither of the two ways for the views to differ. -/
structure ComparedAlike (a b : Endpoint) : Prop where
  crash : effectiveUuid a.currentUuid = effectiveUuid b.currentUuid →
    effectiveUuid a.currentUuid ≠ uuidJustCreated → ¬ (a.reconnect = true ∧ b.reconnect = true) →
      ¬ MissesCrash a b ∧ ¬ MissesCrash b a
  places : Differ a.currentUuid b.currentUuid → SeenAlike a b

variable {a b : Endpoint}

/-- Rules 38 and 40 by the bits they read. -/
def crashGoodness (reconnect source crashed told resolve : Bool) : Int :=
  if reconnect || source then 0
  else if crashed then if told && resolve then -1 else 1
  else if told then -1 else 0

theorem rules38to40_hg :
    (rules38to40 n v).hg = crashGoodness (v.uuidFlags.reconnect && n.reconnect)
      n.isSyncSource n.wasPrimary v.uuidFlags.crashedPrimary n.resolveConflicts := by
  unfold rules38to40 crashGoodness
  simp only [Bool.or_eq_true, Bool.and_eq_true]
  split_ifs <;> first | rfl | (exfalso; tauto)

theorem mirrored_crashGoodness_iff (reconnect sa sb ca cb ra rb : Bool) (hr : ra ≠ rb) :
    Mirrored (crashGoodness reconnect sa ca (cb && !sb) ra) (crashGoodness reconnect sb cb (ca && !sa) rb) ↔
      (reconnect = false → ¬ (sa = true ∧ sb = false ∧ cb = true) ∧ ¬ (sb = true ∧ sa = false ∧ ca = true)) := by
  obtain rfl : rb = !ra := Bool.eq_not_of_ne hr.symm
  cases reconnect <;> cases sa <;> cases sb <;> cases ca <;> revert cb ra <;> decide

theorem rules90to100_hg_eq_iff : (rules90to100 b (told a)).hg = (rules90to100 a (told b)).hg ↔
      (bitmapUuidsMatch b (told a) ↔ bitmapUuidsMatch a (told b)) := by
  have hhist : historiesMeet b (told a) ↔ historiesMeet a (told b) := by
    constructor
    · rintro ⟨i, j, h⟩
      exact ⟨j, i, h.symm⟩
    · rintro ⟨i, j, h⟩
      exact ⟨j, i, h.symm⟩
  rw [rules90to100_hg, rules90to100_hg]
  simp only [hhist]
  split_ifs <;> simp [*]

theorem uuidCompare_hg_of_same (hver : ¬ n.agreedProVersion < 110)
    (hself : effectiveUuid n.currentUuid ≠ uuidJustCreated)
    (hsame : effectiveUuid n.currentUuid = effectiveUuid v.currentUuid) :
    (uuidCompare n v).hg = (rules38to40 n v).hg := by
  unfold uuidCompare
  rw [if_neg (fun hboth => hself hboth.1), if_neg hself, if_neg (hsame ▸ hself), if_pos hsame, if_neg hver]

theorem uuidCompare_hg_of_justCreated
    (h : effectiveUuid n.currentUuid = uuidJustCreated ∨ effectiveUuid v.currentUuid = uuidJustCreated) :
    (uuidCompare n v).hg =
      (if effectiveUuid v.currentUuid = uuidJustCreated then 3 else 0) -
        if effectiveUuid n.currentUuid = uuidJustCreated then 3 else 0 := by
  unfold uuidCompare
  dsimp only
  split_ifs <;> first | rfl | (exfalso; tauto)

theorem mirrored_told_iff (hc : Connected a b) (hver : ¬ a.agreedProVersion < 110)
    (hnot : ¬ (b.Contains a.currentUuid ∧ a.Contains b.currentUuid)) :
    Mirrored (uuidCompare a (told b)).hg (uuidCompare b (told a)).hg ↔ ComparedAlike a b := by
  have hver' : ¬ b.agreedProVersion < 110 := hc.version ▸ hver
  by_cases hnew : effectiveUuid a.currentUuid = uuidJustCreated ∨ effectiveUuid b.currentUuid = uuidJustCreated
  · have hleft := uuidCompare_hg_of_justCreated (v := told b) hnew
    have hright := uuidCompare_hg_of_justCreated (v := told a) hnew.symm
    have hmirrored : Mirrored (uuidCompare a (told b)).hg (uuidCompare b (told a)).hg := by
      rw [hleft, hright, told_currentUuid, told_currentUuid]
      by_cases ha : effectiveUuid a.currentUuid = uuidJustCreated <;>
        by_cases hb : effectiveUuid b.currentUuid = uuidJustCreated <;>
          simp only [ha, hb, if_true] <;> decide
    refine ⟨fun _ => ⟨fun hsame hself => ?_, fun hdiffer => ?_⟩, fun _ => hmirrored⟩
    · exact absurd (hnew.elim id fun h => hsame.trans h) hself
    · exact absurd hnew (not_or.2 ⟨hdiffer.left, hdiffer.right⟩)
  obtain ⟨hself, hpeer⟩ := not_or.1 hnew
  by_cases hsame : effectiveUuid a.currentUuid = effectiveUuid b.currentUuid
  · -- the same current UUID: only the crash of a primary counts
    have hiff := mirrored_crashGoodness_iff (a.reconnect && b.reconnect) a.isSyncSource
      b.isSyncSource a.wasPrimary b.wasPrimary a.resolveConflicts b.resolveConflicts hc.resolve
    rw [uuidCompare_hg_of_same hver hself hsame, uuidCompare_hg_of_same hver' hpeer hsame.symm,
      rules38to40_hg, rules38to40_hg]
    dsimp only [told, sentFlags]
    rw [Bool.and_comm b.reconnect, hiff]
    constructor
    · intro h
      refine ⟨fun _ _ hreconnect => h ?_, fun hdiffer => absurd hsame hdiffer.ne⟩
      by_contra hboth
      exact hreconnect (by simpa [not_or] using hboth)
    · intro h hreconnect
      refine h.crash hsame hself fun hboth => ?_
      rw [hboth.1, hboth.2] at hreconnect
      exact absurd hreconnect (by decide)
  · -- different ones: the places decide
    have hdiffer : Differ a.currentUuid b.currentUuid := ⟨hself, hpeer, hsame⟩
    have hdiffer' : Differ b.currentUuid a.currentUuid := ⟨hpeer, hself, Ne.symm hsame⟩
    rw [uuidCompare_hg_of_differ hver hdiffer, uuidCompare_hg_of_differ hver' hdiffer', told_currentUuid,
      told_currentUuid, mirrored_goodnessOf_iff unrelated_rules90to100 unrelated_rules90to100
        fun h => hnot ⟨contains_of_ownPlace h.1, contains_of_ownPlace h.2⟩, rules90to100_hg_eq_iff]
    exact ⟨fun h => ⟨fun h' => absurd h' hsame, fun _ => ⟨h.1, h.2.1, h.2.2⟩⟩,
      fun h => ⟨(h.places hdiffer).left, (h.places hdiffer).right, (h.places hdiffer).bitmaps⟩⟩

/-- Two nodes that hold each other's UUIDs mirror each other's results if and only if neither is
misled. -/
theorem uuid_compare_mirrored_iff {va vb : Uuids} {sa sb : NodeId → Uuid} (hc : Connected a b)
    (hver : 110 ≤ a.agreedProVersion) (hnot : ¬ (b.Contains a.currentUuid ∧ a.Contains b.currentUuid))
    (hva : receiveUuids110 sa (sendUuids110 b) = some va) (hvb : receiveUuids110 sb (sendUuids110 a) = some vb) :
    Mirrored (uuidCompare a va).hg (uuidCompare b vb).hg ↔ ComparedAlike a b := by
  rw [receiveUuids110_sendUuids110] at hva hvb
  cases hva
  cases hvb
  exact mirrored_told_iff hc (by omega) hnot

/-- Node 0 of a pair. -/
def nodeZero (current bitmap : Uuid) : Endpoint where
  nodeId := 0
  peerNodeId := 1
  currentUuid := current
  peers := fun i => if i = 1 then { bitmapUuid := bitmap, bitmapIndex := some 0 } else {}

/-- Node 1 of a pair; it has heard of the current UUID of node 0. -/
def nodeOne (current bitmap peer : Uuid) : Endpoint where
  nodeId := 1
  peerNodeId := 0
  currentUuid := current
  peers := fun i => if i = 0 then { bitmapUuid := bitmap, bitmapIndex := some 0 } else {}
  peerCurrentUuid := fun i => if i = 0 then some peer else none
  resolveConflicts := true

/-- Node 1 has written since: its bitmap UUID is the current UUID of node 0. -/
theorem uuid_compare_mirrored_ahead : Connected (nodeZero 0x10 0) (nodeOne 0x20 0x10 0x10) ∧
      (uuidCompare (nodeOne 0x20 0x10 0x10) (told (nodeZero 0x10 0))).hg = 2 ∧
        ComparedAlike (nodeZero 0x10 0) (nodeOne 0x20 0x10 0x10) := by
  have hc : Connected (nodeZero 0x10 0) (nodeOne 0x20 0x10 0x10) := ⟨rfl, rfl, by decide, rfl, by decide⟩
  refine ⟨hc, by decide, ?_⟩
  exact (uuid_compare_mirrored_iff hc (by decide) (by decide) (receiveUuids110_sendUuids110 _ fun _ => 0)
    (receiveUuids110_sendUuids110 _ fun _ => 0)).1 (by decide)

/-- A bitmap UUID of `-1`, taken over from a third node, meets the `-1` that is sent for an empty
slot; and the target of a resync that was primary when it crashed takes itself for the source. -/
theorem uuid_compare_misled :
    (∃ a b, Connected a b ∧ ¬ (b.Contains a.currentUuid ∧ a.Contains b.currentUuid) ∧
        (uuidCompare a (told b)).hg = 100 ∧ (uuidCompare b (told a)).hg = -100) ∧
      ∃ a b, Connected a b ∧ ¬ (b.Contains a.currentUuid ∧ a.Contains b.currentUuid) ∧
        (uuidCompare a (told b)).hg = 0 ∧ (uuidCompare b (told a)).hg = 1 := by
  constructor
  · refine ⟨nodeZero 0x10 (-1), nodeOne 0x20 0 0x10, ⟨rfl, rfl, by decide, rfl, by decide⟩, ?_⟩
    decide +kernel
  refine ⟨{ nodeZero 0x10 0 with replState := .syncSource },
    { nodeOne 0x10 0 0x10 with
      replState := .syncTarget
      crashedPrimary := true
      crashedPrimaryWorkPending := true }, ⟨rfl, rfl, by decide, rfl, by decide⟩, ?_⟩
  decide

end Bsr.Handshake
