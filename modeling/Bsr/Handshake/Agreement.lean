import Bsr.Handshake.Antisymmetry
import Bsr.Handshake.Sync

/-!
# Both nodes shake hands

Two nodes run `bsr_sync_handshake` on mirrored views of each other.

* `Meeting` is what both sides have in common, and what `receive_protocol` and `receive_state` check
  before;
* `Opposed` relates the goodness on both sides; the comparison of the UUIDs, the disk states, the
  roles, the policies after a split brain and the flag for discarding data all keep it;
* `Readable` and `IoErrorsAlike` are the places where the views do not mirror each other;
* `sync_handshake_agrees` says that one node becomes the source and the other the target, or
  neither, or the connection is rejected.
-/

namespace Bsr.Handshake

open State Request

/-! ## The two nodes -/

instance : Coe Node Endpoint :=
  ⟨Node.toEndpoint⟩

/-- The disk state of a node as `receive_state` passes it on. -/
def seenDiskState (n : Node) : DiskState :=
  if n.diskState = .negotiating then if n.consistent then .consistent else .inconsistent else n.diskState

/-- `get_ldev_if_state(device, D_NEGOTIATING)`; a node's own disk is never `D_UNKNOWN`. -/
def Node.HasDisk (n : Node) : Prop :=
  DiskState.negotiating.rank ≤ n.diskState.rank ∧ n.diskState ≠ .unknown

/-- What one node makes of the other. -/
def shake (a b : Node) : Option ReplState :=
  (syncHandshake a (told b.toEndpoint) b.role (seenDiskState b)).1

/-- The goodness of the UUIDs. -/
def uuidGoodness (a b : Node) : Int :=
  (uuidCompare a.toEndpoint (told b.toEndpoint)).hg

/-- The goodness after the disk states. -/
def diskGoodness (a b : Node) : Int :=
  diskStatesToGoodness a (seenDiskState b) (uuidGoodness a b) (uuidCompare a.toEndpoint (told b.toEndpoint)).ruleNr

/-- The goodness, and the node, after the roles and the disk states. -/
def stateGoodness (a b : Node) : Int × Node :=
  variousStatesToGoodness a (told b.toEndpoint) (seenDiskState b) b.role (diskGoodness a b)

structure Meeting (a b : Node) : Prop where
  connected : Connected a.toEndpoint b.toEndpoint
  version : 110 ≤ a.agreedProVersion
  peerRole : a.connPeerRole = b.role
  peerRole' : b.connPeerRole = a.role
  role : a.role ≠ .unknown
  role' : b.role ≠ .unknown
  /-- `receive_state` fails when both are primary. -/
  onePrimary : ¬ (a.role = .primary ∧ b.role = .primary)
  disk : a.HasDisk
  disk' : b.HasDisk
  /-- `receive_protocol` compares the policies. -/
  policy0 : a.afterSb0p = convertAfterSb b.afterSb0p
  policy1 : a.afterSb1p = convertAfterSb b.afterSb1p
  always : a.alwaysAsbp = b.alwaysAsbp

theorem convertAfterSb_convertAfterSb (p : AfterSbP) : convertAfterSb (convertAfterSb p) = p := by
  cases p <;> rfl

variable {a b : Node}

theorem Connected.symm {a b : Endpoint} (h : Connected a b) : Connected b a :=
  ⟨h.right, h.left, h.distinct.symm, h.version.symm, h.resolve.symm⟩

theorem Meeting.not_lt (h : Meeting a b) : ¬ a.agreedProVersion < 110 :=
  Nat.not_lt.2 h.version

theorem Meeting.symm (h : Meeting a b) : Meeting b a where
  connected := h.connected.symm
  version := h.connected.version ▸ h.version
  peerRole := h.peerRole'
  peerRole' := h.peerRole
  role := h.role'
  role' := h.role
  onePrimary := fun hboth => h.onePrimary ⟨hboth.2, hboth.1⟩
  disk := h.disk'
  disk' := h.disk
  policy0 := by rw [h.policy0, convertAfterSb_convertAfterSb]
  policy1 := by rw [h.policy1, convertAfterSb_convertAfterSb]
  always := h.always.symm

/-! ## The UUIDs -/

variable {e : Endpoint} {v : Uuids}

/-- What all results of the comparison have in common from protocol 110 on: nothing was changed,
rule 40 is the one for `1` and `-1`, and the numbers are those of the table above
`bsr_uuid_compare`. -/
structure Verdict (e : Endpoint) (v : Uuids) (r : Compared) : Prop where
  node : r.node = e
  peer : r.peer = v
  rule : (r.hg ≠ 0 ∧ r.ruleNr ≠ 40) ↔ 1 < r.hg.natAbs
  range : r.hg.natAbs ≤ 4 ∨ Unrelated r.hg

variable {hg : Int}

theorem verdict_mk {rule : Nat} {id : Option NodeId}
    (h : ((hg ≠ 0 ∧ rule ≠ 40) ↔ 1 < hg.natAbs) ∧ (hg.natAbs ≤ 4 ∨ Unrelated hg)) :
    Verdict e v ⟨hg, rule, id, e, v⟩ :=
  ⟨rfl, rfl, h.1, h.2⟩

instance (r : Int) : Decidable (Unrelated r) :=
  inferInstanceAs (Decidable (_ ∨ _))

theorem verdict_rules38to40 : Verdict e v (rules38to40 e v) := by
  unfold rules38to40
  split_ifs <;> exact verdict_mk (by decide)

theorem verdict_rules50to80 (hver : ¬ e.agreedProVersion < 110) {r : Compared}
    (hr : rules50to60 e v = some r ∨ rules70to80 e v = some r) : Verdict e v r := by
  rcases hr with hr | hr
  all_goals
    simp only [rules50to60, rules70to80] at hr
    split_ifs at hr
    · exact Option.some.inj hr ▸ verdict_mk (by decide)
    all_goals
      split at hr
      · exact Option.some.inj hr ▸ verdict_mk (by decide)
      · first | exact Option.some.inj hr ▸ verdict_mk (by decide) | cases hr

theorem verdict_uuidCompare (hver : ¬ e.agreedProVersion < 110) : Verdict e v (uuidCompare e v) := by
  unfold uuidCompare
  simp only [if_neg hver]
  split_ifs
  iterate 3
    · exact verdict_mk (by decide)
  · exact verdict_rules38to40
  cases h50 : rules50to60 e v with
  | some r => exact verdict_rules50to80 hver (.inl h50)
  | none =>
    cases h70 : rules70to80 e v with
    | some r => exact verdict_rules50to80 hver (.inr h70)
    | none =>
      unfold rules90to100
      split_ifs <;> exact verdict_mk (by decide)

/-! ## Opposed goodness -/

/-- Source on one side and target on the other, no resync, or a split brain. -/
def Opposed (h h' : Int) : Prop :=
  (h' = -h ∧ h.natAbs ≤ 4) ∨ (h' = h ∧ (h = 100 ∨ h = -100))

instance (h h' : Int) : Decidable (Opposed h h') :=
  inferInstanceAs (Decidable (_ ∨ _))

theorem opposed_of_mirrored {h h' : Int} (hm : Mirrored h h')
    (hrange : h.natAbs ≤ 4 ∨ Unrelated h) : Opposed h h' ∨ (h = -1000 ∧ h' = -1000) := by
  unfold Mirrored Unrelated Opposed at *
  omega

/-! ## Disk states -/

/-- The disk is known to be inconsistent. -/
def Node.Inconsistent (n : Node) : Prop :=
  knownDiskState n = .inconsistent

instance (n : Node) : Decidable n.Inconsistent :=
  inferInstanceAs (Decidable (_ = _))

/-- Above all states that a node with a disk can have but `D_INCONSISTENT`. -/
theorem Node.HasDisk.known {n : Node} (hn : n.HasDisk) :
    DiskState.inconsistent.rank < (knownDiskState n).rank ↔ ¬ n.Inconsistent := by
  obtain ⟨_, _⟩ := hn
  unfold Node.Inconsistent knownDiskState diskStateFromMd
  split_ifs with hneg
  all_goals first | decide | (cases hdisk : n.diskState <;> simp_all [DiskState.rank])

theorem Node.HasDisk.seen {n : Node} (hn : n.HasDisk) :
    (DiskState.inconsistent.rank < (seenDiskState n).rank ↔ ¬ n.Inconsistent) ∧
      (seenDiskState n = .inconsistent ↔ n.Inconsistent) ∧ seenDiskState n ≠ .unknown := by
  obtain ⟨_, _⟩ := hn
  unfold Node.Inconsistent knownDiskState diskStateFromMd seenDiskState
  cases n.consistent <;> split_ifs
  all_goals first | decide | (cases hdisk : n.diskState <;> simp_all [DiskState.rank])

theorem diskGoodness_eq (h : Meeting a b) : diskGoodness a b =
      if 1 < (uuidGoodness a b).natAbs then uuidGoodness a b
      else if a.Inconsistent ↔ b.Inconsistent then uuidGoodness a b
      else if a.Inconsistent then -2 else 2 := by
  have hrule := (verdict_uuidCompare (e := a) (v := told b) h.not_lt).rule
  obtain ⟨hseen, hinc, hunknown⟩ := h.disk'.seen
  unfold diskGoodness diskStatesToGoodness
  dsimp only
  rw [if_neg hunknown]
  simp only [uuidGoodness, hrule, h.disk.known, hseen, hinc]
  have hknown : knownDiskState a = .inconsistent ↔ a.Inconsistent := Iff.rfl
  simp only [hknown]
  by_cases ha : a.Inconsistent <;> by_cases hb : b.Inconsistent <;> simp [ha, hb]

theorem opposed_diskGoodness (h : Meeting a b) (hopp : Opposed (uuidGoodness a b) (uuidGoodness b a)) :
    Opposed (diskGoodness a b) (diskGoodness b a) := by
  have habs : (uuidGoodness b a).natAbs = (uuidGoodness a b).natAbs := by
    unfold Opposed at hopp
    omega
  rw [diskGoodness_eq h, diskGoodness_eq h.symm, habs]
  split_ifs
  all_goals first | exact hopp | decide | tauto

/-! ## Where the views may differ -/

/-- As `a` sees it, neither current UUID is known to the other node. -/
structure Apart (a b : Endpoint) : Prop where
  differ : Differ a.currentUuid b.currentUuid
  sent : sentPlace (withoutPrimary a.currentUuid) a.nodeId (told b) = .nowhere
  own : ownPlace (withoutPrimary b.currentUuid) a = .nowhere

/-- The same current UUID, and `a` knows of no crash of a primary that counts. -/
def Level (a b : Endpoint) : Prop :=
  effectiveUuid a.currentUuid = effectiveUuid b.currentUuid ∧
    (effectiveUuid a.currentUuid = uuidJustCreated ∨ (b.reconnect && a.reconnect) = true ∨
      a.isSyncSource = true ∨ (a.wasPrimary = false ∧ (told b).uuidFlags.crashedPrimary = false))

/-- Only the disk states or bits in a bitmap may ask for a resync. -/
structure Quiet (a b : Node) : Prop where
  level : Level a b
  inconsistent : a.Inconsistent ↔ b.Inconsistent
  roles : a.role ≠ .primary ∧ b.role ≠ .primary

/-- What one node tells the other is what it goes by itself. -/
structure Readable (a b : Node) : Prop where
  /-- The bit `UUID_PRIMARY` of a bitmap UUID arrives, where a policy asks for it. -/
  primaryUuid : Apart a b → a.afterSb0p = .discardYoungerPri ∨ a.afterSb0p = .discardOlderPri →
    isPrimaryUuid ((told b.toEndpoint).bitmapUuids a.nodeId) = isPrimaryUuid b.bitmapUuid
  /-- A disk that is being attached is only known to be consistent. -/
  negotiating : Quiet a b → a.bmWeight ≠ 0 ∨ b.bmWeight ≠ 0 → a.diskState = .negotiating →
    b.diskState ≠ .negotiating → a.consistent = true →
      diskStateFromMd a = b.diskState ∨ diskStateFromMd a = .consistent ∨ b.diskState = .consistent
  /-- A primary that gives up its role is not taken for the one whose data is kept. -/
  demoted : Apart a b → a.role = .primary → a.afterSb1p = .callHelper → a.demotes = true →
    ¬ (b.discardMyData = true ∧ a.discardMyData = false)

abbrev SplitBrain (g : Int) : Prop :=
  g = 100 ∨ g = -100

theorem crashGoodness_small (reconnect source crashed told resolve : Bool) :
    (crashGoodness reconnect source crashed told resolve).natAbs < 100 ∧
      (crashGoodness reconnect source crashed told resolve = 0 →
        reconnect = true ∨ source = true ∨ (crashed = false ∧ told = false)) := by
  revert reconnect source crashed told resolve
  decide

/-- What a goodness of zero, or of a split brain, says of the UUIDs. -/
theorem apart_or_small (hver : ¬ a.agreedProVersion < 110) :
    (Apart a b ∧ Unrelated (uuidGoodness a b)) ∨
      ((uuidGoodness a b).natAbs < 100 ∧ (uuidGoodness a b = 0 → Level a b)) := by
  by_cases hnew : effectiveUuid a.currentUuid = uuidJustCreated ∨
      effectiveUuid b.currentUuid = uuidJustCreated
  · have hg : uuidGoodness a b = _ := uuidCompare_hg_of_justCreated (v := told b) hnew
    rw [hg, told_currentUuid]
    by_cases ha : effectiveUuid a.currentUuid = uuidJustCreated <;>
      by_cases hb : effectiveUuid b.currentUuid = uuidJustCreated <;> simp [Level, ha, hb]
    exact absurd hnew (not_or.2 ⟨ha, hb⟩)
  obtain ⟨hself, hpeer⟩ := not_or.1 hnew
  by_cases hsame : effectiveUuid a.currentUuid = effectiveUuid b.currentUuid
  · have hg : uuidGoodness a b = _ := uuidCompare_hg_of_same (v := told b) hver hself hsame
    rw [hg, rules38to40_hg]
    exact .inr ((crashGoodness_small ..).imp_right fun hzero hg => ⟨hsame, .inr (hzero hg)⟩)
  have hg : uuidGoodness a b = _ := uuidCompare_hg_of_differ (v := told b) hver ⟨hself, hpeer, hsame⟩
  rw [hg]
  rcases goodnessOf_eq_or .. with ⟨hsent, hown, hrest⟩ | ⟨hne, hsmall⟩
  · rw [hrest]
    exact .inl ⟨⟨⟨hself, hpeer, hsame⟩, hsent, hown⟩, unrelated_rules90to100⟩
  · exact .inr ⟨hsmall, fun hzero => absurd hzero hne⟩

theorem level_of_zero (hver : ¬ a.agreedProVersion < 110) (hzero : uuidGoodness a b = 0) :
    Level a b := by
  rcases apart_or_small (b := b) hver with ⟨-, hrest⟩ | ⟨-, hlevel⟩
  · unfold Unrelated at hrest
    omega
  · exact hlevel hzero

theorem apart_of_split (hver : ¬ a.agreedProVersion < 110)
    (hsplit : SplitBrain (uuidGoodness a b)) : Apart a b := by
  rcases apart_or_small (b := b) hver with ⟨hapart, -⟩ | ⟨hsmall, -⟩
  · exact hapart
  · omega

/-! ## Roles and disk states -/

theorem diskOrder_neg {x y : DiskState} (hx : x ≠ .unknown) (hy : y ≠ .unknown) :
    diskOrder y x = -diskOrder x y := by
  cases x <;> cases y <;> first | rfl | exact absurd rfl hx | exact absurd rfl hy

theorem diskOrder_eq_zero {x y : DiskState} (h : x = y ∨ x = .consistent ∨ y = .consistent) : diskOrder x y = 0 := by
  unfold diskOrder
  rcases h with rfl | rfl | rfl
  · simp
  · simp
  · simp

theorem diskOrder_negotiating (hneg : a.diskState = .negotiating) (hneg' : b.diskState ≠ .negotiating)
    (hiff : a.Inconsistent ↔ b.Inconsistent) (hknown : a.consistent = true →
      diskStateFromMd a = b.diskState ∨ diskStateFromMd a = .consistent ∨ b.diskState = .consistent) :
    diskOrder (knownDiskState a) (seenDiskState b) = 0 ∧ diskOrder (knownDiskState b) (seenDiskState a) = 0 := by
  have ha : knownDiskState a = diskStateFromMd a := if_pos hneg
  have hb : knownDiskState b = b.diskState := if_neg hneg'
  have hb' : seenDiskState b = b.diskState := if_neg hneg'
  have ha' : seenDiskState a = if a.consistent then .consistent else .inconsistent := if_pos hneg
  cases hcons : a.consistent with
  | true =>
    rw [hcons] at ha'
    rw [ha, hb', ha']
    exact ⟨diskOrder_eq_zero (hknown hcons), diskOrder_eq_zero (.inr (.inr rfl))⟩
  | false =>
    rw [hcons] at ha'
    have hmd : diskStateFromMd a = .inconsistent := by simp [diskStateFromMd, hcons]
    have hinc : b.diskState = .inconsistent := hb ▸ hiff.1 (ha.trans hmd)
    rw [ha, hb, hb', ha', hmd, hinc]
    decide

theorem diskOrder_both_negotiating (hneg' : b.diskState = .negotiating)
    (hiff : a.Inconsistent ↔ b.Inconsistent) : diskOrder (knownDiskState a) (seenDiskState b) = 0 := by
  have hb : knownDiskState b = diskStateFromMd b := if_pos hneg'
  have hb' : seenDiskState b = if b.consistent then .consistent else .inconsistent := if_pos hneg'
  cases hcons : b.consistent with
  | true =>
    rw [hb', hcons]
    exact diskOrder_eq_zero (.inr (.inr rfl))
  | false =>
    have hmd : diskStateFromMd b = .inconsistent := by simp [diskStateFromMd, hcons]
    have hinc : knownDiskState a = .inconsistent := hiff.2 (hb.trans hmd)
    rw [hinc, hb', hcons]
    decide

theorem Meeting.quiet (h : Meeting a b) (hzero : diskGoodness a b = 0) (ha : a.role ≠ .primary)
    (hb : b.role ≠ .primary) : Quiet a b := by
  rw [diskGoodness_eq h] at hzero
  split_ifs at hzero with _ hiff
  · omega
  · exact ⟨level_of_zero h.not_lt hzero, hiff, ha, hb⟩
  · exact absurd hzero (by decide)

theorem variousGoodness_neg (h : Meeting a b) (hr : Readable a b) (hr' : Readable b a)
    (hzero : diskGoodness a b = 0) (hzero' : diskGoodness b a = 0) (hoos : a.bmWeight ≠ 0 ∨ b.bmWeight ≠ 0) :
    variousGoodness b (seenDiskState a) a.role = -variousGoodness a (seenDiskState b) b.role := by
  unfold variousGoodness
  by_cases ha : a.role = .primary
  · have hb : b.role ≠ .primary := fun hb => h.onePrimary ⟨ha, hb⟩
    simp [ha, hb]
  by_cases hb : b.role = .primary
  · simp [ha, hb]
  simp only [ha, hb, or_self]
  have hquiet := h.quiet hzero ha hb
  have hiff := hquiet.inconsistent
  by_cases hneg : a.diskState = .negotiating <;> by_cases hneg' : b.diskState = .negotiating
  · rw [diskOrder_both_negotiating hneg' hiff, diskOrder_both_negotiating hneg hiff.symm]
    rfl
  · obtain ⟨hleft, hright⟩ := diskOrder_negotiating hneg hneg' hiff
      (hr.negotiating hquiet hoos hneg hneg')
    rw [hleft, hright]
    rfl
  · obtain ⟨hleft, hright⟩ := diskOrder_negotiating hneg' hneg hiff.symm
      (hr'.negotiating (h.symm.quiet hzero' hb ha) hoos.symm hneg' hneg)
    rw [hleft, hright]
    rfl
  · unfold knownDiskState seenDiskState
    rw [if_neg hneg, if_neg hneg', if_neg hneg, if_neg hneg']
    exact diskOrder_neg h.disk.2 h.disk'.2

theorem variousGoodness_le (n : Node) (peerDisk : DiskState) (peerRole : Role) :
    (variousGoodness n peerDisk peerRole).natAbs ≤ 4 := by
  unfold variousGoodness diskOrder
  split_ifs <;> decide

theorem stateGoodness_fst : (stateGoodness a b).1 =
      if diskGoodness a b ≠ 0 ∨ (a.bmWeight = 0 ∧ b.bmWeight = 0) then diskGoodness a b
      else variousGoodness a (seenDiskState b) b.role := by
  have hdirty : (told b).dirtyBits = b.bmWeight := rfl
  unfold stateGoodness variousStatesToGoodness
  dsimp only
  rw [hdirty]
  split_ifs with _ hdone
  · rfl
  · rfl
  all_goals exact (not_not.1 (not_or.1 hdone).1).symm

theorem stateGoodness_snd : (stateGoodness a b).2 = a ∨
      (stateGoodness a b).1 = 0 ∧ forgets a (told b) (seenDiskState b) = true ∧
        (stateGoodness a b).2 = forgetBitmap a := by
  unfold stateGoodness variousStatesToGoodness
  dsimp only
  split_ifs with _ _ hforget
  · exact .inl rfl
  · exact .inl rfl
  · exact .inr ⟨rfl, hforget, rfl⟩
  · exact .inl rfl

theorem opposed_stateGoodness (h : Meeting a b) (hr : Readable a b) (hr' : Readable b a)
    (hopp : Opposed (uuidGoodness a b) (uuidGoodness b a)) :
    Opposed (stateGoodness a b).1 (stateGoodness b a).1 := by
  have hdisk := opposed_diskGoodness h hopp
  have hiff : diskGoodness b a = 0 ↔ diskGoodness a b = 0 := by
    unfold Opposed at hdisk
    omega
  rw [stateGoodness_fst, stateGoodness_fst]
  split_ifs with hleft hright hright
  · exact hdisk
  · tauto
  · tauto
  · obtain ⟨hzero, hoos⟩ := not_or.1 hleft
    have hzero := not_not.1 hzero
    rw [variousGoodness_neg h hr hr' hzero (hiff.2 hzero) (not_and_or.1 hoos)]
    exact .inl ⟨rfl, variousGoodness_le ..⟩

/-! ## After a split brain -/

/-- Neither is solved, or the data of one node is kept. -/
def Solved (r r' : Int) : Prop :=
  (r = -100 ∧ r' = -100) ∨ (r = 2 ∧ r' = -2) ∨ (r = -2 ∧ r' = 2)

instance (r r' : Int) : Decidable (Solved r r') :=
  inferInstanceAs (Decidable (_ ∨ _))

theorem Solved.symm {r r' : Int} (h : Solved r r') : Solved r' r := by
  unfold Solved at *
  omega

theorem solved_resolve (r : Bool) : Solved (resolveGoodness r) (resolveGoodness !r) := by
  cases r <;> decide

theorem solved_leastChg (x y : Nat) (r : Bool) : Solved (discardLeastChg x y r) (discardLeastChg y x !r) := by
  unfold discardLeastChg
  split_ifs
  · omega
  · decide
  · decide
  · exact solved_resolve r

theorem solved_zeroChg (p : AfterSbP) (x y : Nat) (r : Bool) :
    Solved (discardZeroChg p x y r) (discardZeroChg p y x !r) := by
  have hleast := solved_leastChg x y r
  unfold discardZeroChg
  split_ifs
  all_goals first | omega | exact solved_resolve r | decide

theorem solved_asbRecover0p (h : Meeting a b) (hr : Readable a b) (hr' : Readable b a)
    (hapart : Apart a b) (hapart' : Apart b a) :
    Solved (asbRecover0p a (told b)) (asbRecover0p b (told a)) := by
  have hpolicy := h.policy0
  have hbit := hr.primaryUuid hapart
  have hbit' := hr'.primaryUuid hapart'
  have hresolve : b.resolveConflicts = !a.resolveConflicts := Bool.eq_not_of_ne h.connected.resolve.symm
  have hzero := fun p => solved_zeroChg p a.bmWeight b.bmWeight a.resolveConflicts
  unfold asbRecover0p
  simp only [hresolve]
  cases hb : b.afterSb0p <;> rw [hb] at hpolicy <;> dsimp only [convertAfterSb] at hpolicy <;> rw [hpolicy]
  case discardYoungerPri | discardOlderPri =>
    rw [hbit (by simp [hpolicy]), hbit' (by simp [hb])]
    cases isPrimaryUuid a.bitmapUuid <;> cases isPrimaryUuid b.bitmapUuid
    all_goals first | exact hzero _ | exact (by decide : Solved 2 (-2)) | exact (by decide : Solved (-2) 2)
  case discardZeroChg => exact hzero _
  case discardLeastChg => exact solved_leastChg ..
  all_goals
    dsimp only
    decide

/-! ## Discarding data -/

/-- The goodness after the flag for discarding data. -/
def discarded (n : Node) (v : Uuids) (hg : Int) : Option Int :=
  (discardMyDataToGoodness n v hg).map Prod.fst

/-- The same for a large goodness, by the bits it depends on. -/
def discardTable (primary peerPrimary mine theirs : Bool) (hg : Int) : Option Int :=
  if hg = -100 then
    if mine && theirs then none else some (if mine then -2 else if theirs then 2 else hg)
  else if primary && !mine && theirs then some 2
  else if peerPrimary && mine && !theirs then some (-2)
  else some hg

theorem discarded_eq (n : Node) (v : Uuids) (hbig : hg ≤ -2 ∨ 2 ≤ hg) :
    discarded n v hg = discardTable (n.role = .primary) (n.connPeerRole = .primary) n.discardMyData
      v.uuidFlags.discardMyData hg := by
  unfold discarded discardMyDataToGoodness discardTable
  by_cases hself : n.role = .primary <;> by_cases hpeer : n.connPeerRole = .primary <;>
    cases n.discardMyData <;> cases v.uuidFlags.discardMyData <;> simp [hself, hpeer, hbig]
  all_goals split_ifs <;> first | rfl | exact ⟨_, rfl⟩

/-- One side rejects, or the sides differ. -/
def Settled : Option Int → Option Int → Prop
  | some h, some k => h = -100 ∨ k = -100 ∨ (2 ≤ h ∧ k ≤ -2) ∨ (h ≤ -2 ∧ 2 ≤ k)
  | _, _ => True

instance Settled.decidable (x y : Option Int) : Decidable (Settled x y) := by
  cases x <;> cases y <;> unfold Settled <;> infer_instance

theorem Settled.symm {x y : Option Int} (h : Settled x y) : Settled y x := by
  cases x <;> cases y
  case some.some => unfold Settled at *; omega
  all_goals trivial

/-- Both sides of the table: the goodness is opposite, or neither side has one. -/
theorem settled_table : ∀ pa pb ma mb : Bool, (pa && pb) = false →
    Settled (discardTable pa pb ma mb (-100)) (discardTable pb pa mb ma (-100)) ∧
      ∀ k ∈ [2, 3, 4, -2, -3, -4],
        Settled (discardTable pa pb ma mb k) (discardTable pb pa mb ma (-k)) := by
  decide

/-- The primary gave up its role, or could not. -/
theorem settled_table_demoted : ∀ ma mb : Bool, ∀ k ∈ [2, 3],
    ((mb && !ma) = false →
      Settled (discardTable false false ma mb (-k)) (discardTable false true mb ma k)) ∧
    Settled (discardTable true false ma mb (-100)) (discardTable false true mb ma k) := by
  decide

theorem Meeting.settled (h : Meeting a b) :
    Settled (discarded a (told b) (-100)) (discarded b (told a) (-100)) ∧
      ∀ k ∈ [2, 3, 4, -2, -3, -4],
        Settled (discarded a (told b) k) (discarded b (told a) (-k)) := by
  have hone : (decide (a.role = .primary) && decide (b.role = .primary)) = false := by
    simpa using h.onePrimary
  obtain ⟨hunsolved, hopposed⟩ := settled_table _ _ a.discardMyData b.discardMyData hone
  refine ⟨?_, fun k hk => ?_⟩
  · rw [discarded_eq _ _ (by decide), discarded_eq _ _ (by decide), h.peerRole, h.peerRole']
    exact hunsolved
  · have hbig : (k ≤ -2 ∨ 2 ≤ k) ∧ (-k ≤ -2 ∨ 2 ≤ -k) := by
      simp at hk
      omega
    rw [discarded_eq _ _ hbig.1, discarded_eq _ _ hbig.2, h.peerRole, h.peerRole']
    exact hopposed k hk

/-! ## The policies -/

/-- A full sync goes in the same direction. -/
structure KeepsSide (f : Int → Int) : Prop where
  unsolved : f (-100) = -100
  source : f 2 ∈ [2, 3]
  target : f (-2) = -f 2

variable {f : Int → Int}

theorem settled_of_solved (hf : KeepsSide f) (h : Meeting a b) {r r' : Int} (hsolved : Solved r r') :
    Settled (discarded a (told b) (f r)) (discarded b (told a) (f r')) := by
  have hsource := hf.source
  rcases hsolved with ⟨rfl, rfl⟩ | ⟨rfl, rfl⟩ | ⟨rfl, rfl⟩
  · rw [hf.unsolved]
    exact h.settled.1
  · rw [hf.target]
    exact h.settled.2 _ (by simp at hsource ⊢; tauto)
  · rw [hf.target]
    exact (h.symm.settled.2 _ (by simp at hsource ⊢; tauto)).symm

theorem settled_recover1p (hf : KeepsSide f) (h : Meeting a b) (hr : Readable a b)
    (hapart : Apart a b)
    (hsolved : Solved (asbRecover0p a (told b)) (asbRecover0p b (told a)))
    (ha : a.role = .primary) : Settled
      (discarded (asbRecover1p a (told b)).2 (told b) (f (asbRecover1p a (told b)).1))
      (discarded (asbRecover1p b (told a)).2 (told a) (f (asbRecover1p b (told a)).1)) := by
  have hpolicy := h.policy1
  have hdemoted := hr.demoted hapart ha
  have hb : b.role = .secondary := by
    have hunknown := h.role'
    have hone := h.onePrimary
    cases hrole : b.role with
    | unknown => exact absurd hrole hunknown
    | primary => exact absurd ⟨ha, hrole⟩ hone
    | secondary => rfl
  unfold asbRecover1p
  generalize asbRecover0p a (told b) = r at hsolved ⊢
  generalize asbRecover0p b (told a) = r' at hsolved ⊢
  cases hb1 : b.afterSb1p <;> rw [hb1] at hpolicy <;> dsimp only [convertAfterSb] at hpolicy <;>
    rw [hpolicy]
  case violently => exact settled_of_solved hf h hsolved
  case discardSecondary =>
    rw [ha, hb]
    exact settled_of_solved hf h (.inr (.inl ⟨rfl, rfl⟩))
  case consensus | callHelper =>
    -- the primary wins or nobody does, unless it gives up its role
    dsimp only
    rw [ha, hb]
    rcases hsolved with ⟨rfl, rfl⟩ | ⟨rfl, rfl⟩ | ⟨rfl, rfl⟩
    · exact settled_of_solved hf h (.inl ⟨rfl, rfl⟩)
    · exact settled_of_solved hf h (.inr (.inl ⟨rfl, rfl⟩))
    first
    | exact settled_of_solved hf h (.inl ⟨rfl, rfl⟩)
    | rw [if_pos ⟨rfl, rfl⟩, if_neg (by decide), demote]
      have htable := settled_table_demoted a.discardMyData b.discardMyData _ hf.source
      have hbig : f 2 = 2 ∨ f 2 = 3 := by simpa using hf.source
      split_ifs with hdem
      · rw [hf.target, discarded_eq _ _ (by omega), discarded_eq _ _ (by dsimp only; omega),
          h.peerRole']
        simpa [h.peerRole, ha, hb] using htable.1 (by simpa using hdemoted hpolicy hdem)
      · rw [hf.unsolved, discarded_eq _ _ (by decide), discarded_eq _ _ (by dsimp only; omega),
          h.peerRole']
        simpa [h.peerRole, ha, hb] using htable.2
  all_goals
    rw [hf.unsolved]
    exact h.settled.1

theorem settled_recover (hf : KeepsSide f) (h : Meeting a b) (hr : Readable a b)
    (hr' : Readable b a) (hapart : Apart a b) (hapart' : Apart b a) :
    let x := asbRecover a (told b) b.role
    let y := asbRecover b (told a) a.role
    Settled (discarded x.2 (told b) (f x.1)) (discarded y.2 (told a) (f y.1)) := by
  have hsolved := solved_asbRecover0p h hr hr' hapart hapart'
  have hone := h.onePrimary
  unfold asbRecover
  split_ifs with ha hb hb
  · exact absurd ⟨ha, hb⟩ hone
  · exact settled_recover1p hf h hr hapart hsolved ha
  · exact (settled_recover1p hf h.symm hr' hapart' hsolved.symm hb).symm
  · exact settled_of_solved hf h hsolved

variable {g : Int}

/-- A split brain is found by the UUIDs alone. -/
theorem uuidGoodness_of_split (h : Meeting a b) (hg : SplitBrain g)
    (hstate : (stateGoodness a b).1 = g) : uuidGoodness a b = g := by
  have hle := variousGoodness_le a (seenDiskState b) b.role
  rw [stateGoodness_fst] at hstate
  split_ifs at hstate
  · rw [diskGoodness_eq h] at hstate
    split_ifs at hstate <;> omega
  · omega

theorem settled_splitBrain (h : Meeting a b) (hr : Readable a b) (hr' : Readable b a)
    (hg : SplitBrain g) (hleft : (stateGoodness a b).1 = g) (hright : (stateGoodness b a).1 = g) :
    let x := splitBrainToGoodness a (told b) b.role g
    let y := splitBrainToGoodness b (told a) a.role g
    Settled (discarded x.2 (told b) x.1) (discarded y.2 (told a) y.1) := by
  have hapart := apart_of_split h.not_lt (uuidGoodness_of_split h hg hleft ▸ hg)
  have hapart' := apart_of_split h.symm.not_lt (uuidGoodness_of_split h.symm hg hright ▸ hg)
  unfold splitBrainToGoodness
  rw [h.always]
  split_ifs
  · refine settled_recover
      (f := fun r => if g = -100 ∧ r.natAbs < 100 then r + (if 0 < r then 1 else -1) else r)
      ?_ h hr hr' hapart hapart'
    rcases hg with rfl | rfl <;> exact ⟨by decide, by decide, by decide⟩
  · obtain rfl : g = -100 := by omega
    exact h.settled.1

/-! ## The results -/

/-- The goodness, and the node, after the policies. -/
def endGoodness (a b : Node) : Int × Node :=
  splitBrainToGoodness (stateGoodness a b).2 (told b.toEndpoint) b.role (stateGoodness a b).1

def conclusion (v : Uuids) (peerRole : Role) : Option (Int × Node) → Option ReplState
  | none => none
  | some (hg, n) =>
    if rejects n v hg || bitmapModFails n v hg then none else some (goodnessToReplState n v peerRole hg).1

theorem shake_eq (h : Meeting a b) : shake a b =
      if uuidGoodness a b ≤ -1000 then none
      else conclusion (told b) b.role
        (discardMyDataToGoodness (endGoodness a b).2 (told b) (endGoodness a b).1) := by
  have hverdict := verdict_uuidCompare (e := a) (v := told b) h.not_lt
  unfold shake syncHandshake
  dsimp only
  rw [hverdict.node, hverdict.peer]
  change (if uuidGoodness a b ≤ -1000 then _ else _ : Option ReplState × Node).1 = _
  split_ifs
  · rfl
  change (match discardMyDataToGoodness (endGoodness a b).2 (told b) (endGoodness a b).1 with
    | none => _
    | some (hg, n) => _ : Option ReplState × Node).1 = _
  cases discardMyDataToGoodness (endGoodness a b).2 (told b) (endGoodness a b).1 with
  | none => rfl
  | some r =>
    unfold conclusion
    dsimp only
    split_ifs <;> rfl

/-- The replication states fit together. -/
def Agree (x y : Option ReplState) : Prop :=
  x = none ∨ y = none ∨ (x = some .wfBitmapS ∧ y = some .wfBitmapT) ∨
    (x = some .wfBitmapT ∧ y = some .wfBitmapS) ∨ (x = some .established ∧ y = some .established)

theorem Agree.source : Agree (some .wfBitmapS) (some .wfBitmapT) :=
  .inr (.inr (.inl ⟨rfl, rfl⟩))

theorem Agree.target : Agree (some .wfBitmapT) (some .wfBitmapS) :=
  .inr (.inr (.inr (.inl ⟨rfl, rfl⟩)))

theorem Agree.neither : Agree (some .established) (some .established) :=
  .inr (.inr (.inr (.inr ⟨rfl, rfl⟩)))

/-- An end that is not a rejection is the replication state of the goodness. -/
theorem agree_of_conclusion {w : Uuids} {p q : Role} {k k' : Int} {n n' : Node}
    (h : Agree (some (goodnessToReplState n v p k).1) (some (goodnessToReplState n' w q k').1)) :
    Agree (conclusion v p (some (k, n))) (conclusion w q (some (k', n'))) := by
  unfold conclusion
  dsimp only
  split_ifs
  · exact .inl rfl
  · exact .inl rfl
  · exact .inr (.inl rfl)
  · exact h

theorem goodnessToReplState_source (v : Uuids) (peerRole : Role) (hhg : 2 ≤ hg) (n : Node) :
    (goodnessToReplState n v peerRole hg).1 = .wfBitmapS := by
  unfold goodnessToReplState
  rw [if_neg (by omega), if_pos (by omega)]

theorem goodnessToReplState_target (v : Uuids) (peerRole : Role) (hhg : hg ≤ -2) (n : Node) :
    (goodnessToReplState n v peerRole hg).1 = .wfBitmapT := by
  unfold goodnessToReplState
  rw [if_neg (by omega), if_neg (by omega), if_pos (by omega)]

theorem conclusion_unsolved {peerRole : Role} (n : Node) : conclusion v peerRole (some (-100, n)) = none := by
  simp [conclusion, rejects]

open Agree

theorem agree_of_settled {w : Uuids} {p q : Role} {x y : Option (Int × Node)}
    (h : Settled (x.map Prod.fst) (y.map Prod.fst)) :
    Agree (conclusion v p x) (conclusion w q y) := by
  rcases x with _ | ⟨k, n⟩
  · exact .inl rfl
  rcases y with _ | ⟨k', n'⟩
  · exact .inr (.inl rfl)
  rcases h with hk | hk | ⟨hk, hk'⟩ | ⟨hk, hk'⟩
  · cases hk
    exact .inl (conclusion_unsolved n)
  · cases hk
    exact .inr (.inl (conclusion_unsolved n'))
  · refine agree_of_conclusion ?_
    rw [goodnessToReplState_source v p hk n, goodnessToReplState_target w q hk' n']
    exact source
  · refine agree_of_conclusion ?_
    rw [goodnessToReplState_target v p hk n, goodnessToReplState_source w q hk' n']
    exact target

/-- The bits that are left where no resync is needed. -/
def bitsKept (a b : Node) : Nat :=
  if forgets a (told b) (seenDiskState b) then (forgetBitmap a).bmWeight else a.bmWeight

/-- Bits for which only an I/O error asks for a resync. -/
def BitsLeft (a b : Node) : Prop :=
  a.bitmapUuid = 0 ∧ bitsKept a b ≠ 0

/-- Out-of-sync of an I/O error at a primary is there on both sides or on neither, and from one of
them. -/
structure IoErrorsAlike (a b : Node) : Prop where
  alike : Quiet a b → a.primaryIoError = true ∨ b.primaryIoError = true →
    (BitsLeft a b ↔ BitsLeft b a)
  one : Quiet a b → BitsLeft a b → ¬ (a.primaryIoError = true ∧ b.primaryIoError = true)

theorem endGoodness_of_ne (h100 : (stateGoodness a b).1 ≠ 100 ∧ (stateGoodness a b).1 ≠ -100) :
    endGoodness a b = stateGoodness a b := by
  unfold endGoodness splitBrainToGoodness
  rw [if_neg (by tauto)]

/-- A small goodness is not touched by the flag for discarding data. -/
theorem discardMyDataToGoodness_small (n : Node) (v : Uuids) (hsmall : hg.natAbs ≤ 1) :
    discardMyDataToGoodness n v hg = some (hg, { n with discardMyData := false }) := by
  unfold discardMyDataToGoodness
  rw [if_neg (by omega), if_neg (by omega)]

/-- After the crash of a primary, follow the one that is left, or else the one that crashed. -/
theorem goodnessToReplState_crash (n : Node) (v : Uuids) (peerRole : Role)
    (hhg : hg = 1 ∨ hg = -1) : (goodnessToReplState n v peerRole hg).1 =
      if n.role = .primary ∨ peerRole = .primary then
        if peerRole = .secondary then .wfBitmapS else if n.role = .secondary then .wfBitmapT else .established
      else if 0 < hg then .wfBitmapS else .wfBitmapT := by
  unfold goodnessToReplState
  simp only [hhg, true_and]
  split_ifs
  all_goals first | rfl | omega

theorem agree_crash (h : Meeting a b) {n n' : Node} (hn : n.role = a.role)
    (hn' : n'.role = b.role) (v w : Uuids) (hg : g = 1 ∨ g = -1) :
    Agree (some (goodnessToReplState n v b.role g).1) (some (goodnessToReplState n' w a.role (-g)).1) := by
  have hone := h.onePrimary
  have hrole := h.role
  have hrole' := h.role'
  rw [goodnessToReplState_crash n v b.role hg, goodnessToReplState_crash n' w a.role (by omega), hn, hn']
  cases ha : a.role <;> cases hb : b.role
  case primary.primary => exact absurd ⟨ha, hb⟩ hone
  case primary.secondary => exact source
  case secondary.primary => exact target
  case secondary.secondary =>
    rcases hg with rfl | rfl
    · exact source
    · exact target
  all_goals first | exact absurd ha hrole | exact absurd hb hrole'

theorem noSyncToReplState_fst (n : Node) (v : Uuids) : (noSyncToReplState n v).1 =
      if n.bitmapUuid = 0 ∧ n.bmWeight ≠ 0 then
        if n.primaryIoError then .wfBitmapS else if v.uuidFlags.primaryIoError then .wfBitmapT else .established
      else .established := by
  unfold noSyncToReplState
  split_ifs <;> first | rfl | tauto

theorem stateGoodness_fields :
    (stateGoodness a b).2.role = a.role ∧ (stateGoodness a b).2.bitmapUuid = a.bitmapUuid ∧
      (stateGoodness a b).2.primaryIoError = a.primaryIoError := by
  rcases @stateGoodness_snd a b with h | ⟨-, -, h⟩ <;> rw [h] <;> exact ⟨rfl, rfl, rfl⟩

/-- Where no resync is needed though there are bits. -/
theorem Meeting.quiet_of_zero (h : Meeting a b) (hzero : (stateGoodness a b).1 = 0)
    (hoos : ¬ (a.bmWeight = 0 ∧ b.bmWeight = 0)) : Quiet a b := by
  rw [stateGoodness_fst] at hzero
  split_ifs at hzero with hdone
  · exact absurd hdone (by simp [hzero, hoos])
  have hdisk : diskGoodness a b = 0 := not_not.1 (not_or.1 hdone).1
  unfold variousGoodness at hzero
  split_ifs at hzero with hprimary
  · omega
  · exact h.quiet hdisk (not_or.1 hprimary).1 (not_or.1 hprimary).2

theorem stateGoodness_bmWeight (hzero : (stateGoodness a b).1 = 0) :
    (stateGoodness a b).2.bmWeight = bitsKept a b := by
  unfold stateGoodness variousStatesToGoodness at *
  unfold bitsKept
  dsimp only at *
  split_ifs at * with hdone hforgets hcons hforgets hforgets
  · simp_all [forgetBitmap]
  · rfl
  · simp_all [forgets, seenDiskState, knownDiskState]
  · rfl
  · rfl
  · rfl

theorem replState_of_zero (hzero : (stateGoodness a b).1 = 0) {m : Node}
    (hm : m = { (stateGoodness a b).2 with discardMyData := false }) :
    (goodnessToReplState m (told b) b.role 0).1 =
      if a.bitmapUuid = 0 ∧ bitsKept a b ≠ 0 then
        if a.primaryIoError then .wfBitmapS
        else if b.primaryIoError then .wfBitmapT else .established
      else .established := by
  obtain ⟨-, hbm, hio⟩ := @stateGoodness_fields a b
  unfold goodnessToReplState
  rw [← hbm, ← hio, ← stateGoodness_bmWeight hzero]
  change (noSyncToReplState m (told b)).1 = _
  rw [noSyncToReplState_fst, hm]
  rfl

theorem agree_zero (h : Meeting a b) (hio : IoErrorsAlike a b) (hzero : (stateGoodness a b).1 = 0)
    (hzero' : (stateGoodness b a).1 = 0) {m m' : Node}
    (hm : m = { (stateGoodness a b).2 with discardMyData := false })
    (hm' : m' = { (stateGoodness b a).2 with discardMyData := false }) :
    Agree (some (goodnessToReplState m (told b) b.role 0).1)
      (some (goodnessToReplState m' (told a) a.role 0).1) := by
  obtain ⟨halike, hone⟩ : (a.primaryIoError = true ∨ b.primaryIoError = true →
      (BitsLeft a b ↔ BitsLeft b a)) ∧
      (BitsLeft a b → ¬ (a.primaryIoError = true ∧ b.primaryIoError = true)) := by
    by_cases hoos : a.bmWeight = 0 ∧ b.bmWeight = 0
    · simp [BitsLeft, bitsKept, forgetBitmap, hoos]
    · have hquiet := h.quiet_of_zero hzero hoos
      exact ⟨hio.alike hquiet, hio.one hquiet⟩
  rw [replState_of_zero hzero hm, replState_of_zero hzero' hm']
  unfold BitsLeft at halike hone
  by_cases hleft : a.bitmapUuid = 0 ∧ bitsKept a b ≠ 0
  · rw [if_pos hleft]
    have hnot := hone hleft
    cases ha : a.primaryIoError <;> cases hb : b.primaryIoError
    · exact .inr (.inr (.inr (.inr ⟨rfl, by simp⟩)))
    · rw [if_pos ((halike (.inr hb)).1 hleft)]
      exact target
    · rw [if_pos ((halike (.inl ha)).1 hleft)]
      exact source
    · exact absurd ⟨ha, hb⟩ hnot
  · rw [if_neg hleft]
    cases ha : a.primaryIoError <;> cases hb : b.primaryIoError
    · exact .inr (.inr (.inr (.inr ⟨rfl, by simp⟩)))
    all_goals
      rw [if_neg fun hright => hleft ((halike (by simp [ha, hb])).2 hright)]
      exact neither

/-- Whatever the goodness on both sides, the ends fit together. -/
theorem agree_of_opposed (h : Meeting a b) (hr : Readable a b) (hr' : Readable b a)
    (hio : IoErrorsAlike a b) (hopp : Opposed (stateGoodness a b).1 (stateGoodness b a).1) : Agree
      (conclusion (told b) b.role
        (discardMyDataToGoodness (endGoodness a b).2 (told b) (endGoodness a b).1))
      (conclusion (told a) a.role
        (discardMyDataToGoodness (endGoodness b a).2 (told a) (endGoodness b a).1)) := by
  rcases hopp with ⟨hneg, _⟩ | ⟨hsame, hsplit⟩
  · have hend : endGoodness a b = stateGoodness a b := endGoodness_of_ne (by omega)
    have hend' : endGoodness b a = stateGoodness b a := endGoodness_of_ne (by omega)
    rw [hend, hend']
    by_cases hsmall : (stateGoodness a b).1.natAbs ≤ 1
    · rw [discardMyDataToGoodness_small _ _ hsmall, discardMyDataToGoodness_small _ _ (by omega)]
      refine agree_of_conclusion ?_
      rw [hneg]
      by_cases hzero : (stateGoodness a b).1 = 0
      · rw [hzero]
        exact agree_zero h hio hzero (by omega) rfl rfl
      have hone : (stateGoodness a b).1 = 1 ∨ (stateGoodness a b).1 = -1 := by omega
      refine agree_crash h ?_ ?_ _ _ hone
      · exact stateGoodness_fields.1
      · exact stateGoodness_fields.1
    · -- a resync that the UUIDs or the states ask for
      have hnode : (stateGoodness a b).2 = a := stateGoodness_snd.resolve_right fun h => hsmall (by rw [h.1]; decide)
      have hnode' : (stateGoodness b a).2 = b :=
        stateGoodness_snd.resolve_right fun h => hsmall (by have := h.1; omega)
      refine agree_of_settled ?_
      rw [hnode, hnode', hneg]
      exact h.settled.2 _ (by simp; omega)
  · have hne : (stateGoodness a b).1 ≠ 0 := by omega
    have hnode : (stateGoodness a b).2 = a := stateGoodness_snd.resolve_right fun h => hne h.1
    have hnode' : (stateGoodness b a).2 = b := stateGoodness_snd.resolve_right fun h => hne (hsame ▸ h.1)
    refine agree_of_settled ?_
    unfold endGoodness
    rw [hnode, hnode', hsame]
    exact settled_splitBrain h hr hr' hsplit rfl hsame

/-- A node with an up-to-date disk. -/
def upToDate (e : Endpoint) (policy : AfterSbP) : Node where
  toEndpoint := e
  role := .secondary
  connPeerRole := .secondary
  diskState := .upToDate
  afterSb0p := policy

/-- Both nodes were written to while they were apart. -/
def splitZero : Endpoint :=
  { nodeZero 0x10 0x30 with bmWeight := 5 }

def splitOne : Endpoint :=
  { nodeOne 0x20 0x30 0x10 with bmWeight := 9 }

end Bsr.Handshake
