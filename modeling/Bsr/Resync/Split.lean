import Mathlib

/-!
# Resync data and replicated writes

A resync target (protocol 113 and later) receives resync data for ranges it has requested and, at
the same time, replicated writes. What a replicated write has written is kept in three places:

* blocks that it covers become in sync in the bitmap;
* sectors of blocks that it covers in part are marked in `marked_rl_list`;
* `s_rl_bb` and `e_rl_bb` span the blocks it has set in sync, so that resync data far from them is
  written without a look at the bitmap.

`listAddMarked` enters a write there, `splitRecvResyncRead` says which sectors resync data is
written to. Bits are those of the peer that is the source of the resync; memory for the list is
there. -/

namespace Bsr.Resync

open List

/-- `struct bsr_marked_replicate`: the marked sectors of block `bb`. -/
structure MarkedReplicate where
  bb : Nat
  rl : Nat → Bool

/-- All eight sectors are marked. -/
def MarkedReplicate.isFull (m : MarkedReplicate) : Bool :=
  (range 8).all m.rl

/-- The fields of the device and the peer device that resync data and replicated writes share. -/
structure Target where
  /-- `bsr_get_vdisk_capacity`. -/
  capacity : Nat
  /-- The bitmap of the peer. -/
  oos : Nat → Bool
  markedRl : List MarkedReplicate
  sRlBb : Nat
  eRlBb : Nat
  sResyncBb : Nat
  eResyncBb : Nat
  bmResyncFo : Nat

/-- `x - 1` in `ULONG_PTR`. -/
def pred64 (x : Nat) : Nat :=
  (x + 2 ^ 64 - 1) % 2 ^ 64

/-- The entry of a block, as `is_marked_rl_bb` finds it. -/
def markedAt (l : List MarkedReplicate) (bb : Nat) : Option MarkedReplicate :=
  l.find? fun m => m.bb = bb

/-! ## The bitmap -/

/-- The last sector of a range, cut at the end of the device. -/
def lastSector (capacity sector n : Nat) : Nat :=
  if sector + n - 1 < capacity then sector + n - 1 else capacity - 1

/-- The blocks that `bsr_set_in_sync` clears start here and end before `wholeEnd`. -/
def wholeStart (sector : Nat) : Nat :=
  (sector + 7) / 8

def wholeEnd (capacity sector n : Nat) : Nat :=
  let esector := lastSector capacity sector n
  if esector < 7 then 0
  else if esector = capacity - 1 then (capacity - 1) / 8 + 1
  else (esector - 7) / 8 + 1

namespace Target

/-- `bsr_set_in_sync`: the bitmap and the number of bits that changed. -/
def setInSync (t : Target) (sector n : Nat) : Target × Nat :=
  let lo := wholeStart sector
  let hi := wholeEnd t.capacity sector n
  ({ t with oos := fun b => if lo ≤ b ∧ b < hi then false else t.oos b },
    (range' lo (hi - lo)).countP t.oos)

/-- `bsr_set_sync` and `bsr_set_all_out_of_sync`, for the peer's slot. -/
def setOutOfSync (t : Target) (sector n : Nat) : Target :=
  { t with oos := fun b =>
      if sector / 8 ≤ b ∧ b ≤ lastSector t.capacity sector n / 8 then true else t.oos b }

end Target

/-! ## Replicated writes -/

/-- Marks sectors in the entry of block `bb`, which is added if there is none. -/
def markBlock (l : List MarkedReplicate) (bb : Nat) (rl : Nat → Bool) : List MarkedReplicate :=
  if (markedAt l bb).isSome then
    l.map fun m => if m.bb = bb then { m with rl := fun i => m.rl i || rl i } else m
  else ⟨bb, rl⟩ :: l

/-- The variables of `list_add_marked` for a write of `n` sectors from `sst` to before `est`. -/
structure AddMarked where
  sBb : Nat
  eBb : Nat
  inWindow : Bool
  markStart : Bool
  markEnd : Bool

variable (t : Target)

def addMarked (sst est : Nat) : AddMarked :=
  let sBb := sst / 8
  -- the last block, not the one after it
  let eBb := if est / 8 * 8 = est then pred64 (est / 8) else est / 8
  let inWindow := decide (t.sResyncBb ≤ eBb ∧ t.eResyncBb ≥ eBb ∨ t.sResyncBb ≤ sBb ∧ t.eResyncBb ≥ sBb)
  { sBb := sBb
    eBb := eBb
    inWindow := inWindow
    markStart := inWindow && decide (sBb * 8 ≠ sst ∨ sBb = eBb) && t.oos sBb
    markEnd := inWindow && decide (sBb ≠ eBb ∧ est / 8 * 8 ≠ est) && t.oos eBb }

/-- The sectors that it marks in the first and in the last block. -/
def startMarks (v : AddMarked) (sst n i : Nat) : Bool :=
  decide (sst - v.sBb * 8 ≤ i ∧ i < sst - v.sBb * 8 + n ∧ i < 8)

def endMarks (v : AddMarked) (est i : Nat) : Bool :=
  decide (i < est - v.eBb * 8)

def addedMarks (v : AddMarked) (sst est n : Nat) : List MarkedReplicate :=
  let l := if v.markStart then markBlock t.markedRl v.sBb (startMarks v sst n) else t.markedRl
  if v.markEnd then markBlock l v.eBb (endMarks v est) else l

/-- `s_marked_rl` and `e_marked_rl`, found or added. -/
def hasEntry (v : AddMarked) (bb : Nat) (mark : Bool) : Bool :=
  v.inWindow && (markedAt t.markedRl bb).isSome || mark

/-- `list_add_marked`; `inSync` is the number of bits the write has set in sync. -/
def listAddMarked (sst est n inSync : Nat) : Target :=
  let v := addMarked t sst est
  let l := addedMarks t v sst est n
  let sBb := if hasEntry t v v.sBb v.markStart then v.sBb + 1 else v.sBb
  let eBb := if hasEntry t v v.eBb v.markEnd then pred64 v.eBb else v.eBb
  if inSync = 0 then { t with markedRl := l }
  else { t with markedRl := l, sRlBb := min t.sRlBb sBb, eRlBb := max t.eRlBb eBb }

/-- The end of `receive_Data`; marks are only set in `L_SYNC_TARGET`. -/
def receiveData (sector n : Nat) (syncTarget : Bool) : Target :=
  let (t, inSync) := t.setInSync sector n
  if syncTarget then listAddMarked t sector (sector + n) n inSync else t

/-! ## Resync data -/

def isOutOfSyncAfterReplication (sBb eNextBb : Nat) : Bool :=
  decide (t.eRlBb ≥ t.sRlBb) &&
    (decide (t.sRlBb ≤ sBb ∧ t.eRlBb ≥ sBb) ||
      decide (t.sRlBb ≤ pred64 eNextBb ∧ t.eRlBb ≥ pred64 eNextBb) ||
      decide (t.sRlBb ≥ sBb ∧ t.eRlBb ≤ pred64 eNextBb))

/-- The first loop of `prepare_split_peer_request` and the entries it leaves: a block with all
sectors marked is set in sync, and blocks in sync need no entry. -/
def pruneMarked (t : Target) : List MarkedReplicate → Target × List MarkedReplicate
  | [] => (t, [])
  | m :: rest =>
    if m.isFull then pruneMarked (t.setInSync (m.bb * 8) 8).1 rest
    else if t.oos m.bb = false then pruneMarked t rest
    else
      let (t', kept) := pruneMarked t rest
      (t', m :: kept)

/-- The variables of the second loop. -/
structure Prepare where
  splitCount : Nat
  eOos : Nat
  findIsb : Bool
  splitRequest : Bool

def prepareBlock (p : Prepare) (ibb : Nat) : Prepare :=
  match markedAt t.markedRl ibb with
  | some m =>
    ⟨p.splitCount + (range 8).countP (fun i => !m.rl i), ibb, true, true⟩
  | none =>
    if t.oos ibb then
      ⟨if p.splitRequest then p.splitCount + 1 else p.splitCount, ibb, p.findIsb, false⟩
    else ⟨p.splitCount, p.eOos, true, true⟩

def prepareSplitPeerRequest (sBb eNextBb : Nat) : Target × Prepare :=
  let (t, kept) := pruneMarked t t.markedRl
  let t := { t with markedRl := kept }
  (t, (range' sBb (eNextBb - sBb)).foldl (prepareBlock t) ⟨0, 0, false, true⟩)

/-- The requests for the sectors of a block that are not marked. -/
def unmarkedSectors (m : MarkedReplicate) : List (Nat × Nat) :=
  ((range 8).filter fun i => !m.rl i).map fun i => (m.bb * 8 + i, 1)

/-- `submit_peer` at block `iBb`: the blocks collected from an offset on, and then what the list
leaves of the block itself. -/
def submitPeer (run : Option Nat) (marked : Option MarkedReplicate) (iBb : Nat) : List (Nat × Nat) :=
  (run.map fun offset => (offset * 8, (iBb - offset) * 8)).toList ++
    marked.elim [] unmarkedSectors

/-- The loop of `split_recv_resync_read` over the blocks from `iBb` on: the requests submitted, as
sector and number of sectors. `run` is the offset of the blocks collected so far, if there are any
(`s_split_request`). -/
def splitLoop (t : Target) (eNextBb eOos : Nat) : Nat → Nat → Option Nat → List (Nat × Nat)
  | 0, _, _ => []
  | fuel + 1, iBb, run =>
    if iBb < eNextBb then
      let marked := markedAt t.markedRl iBb
      if marked.isSome ∨ t.oos iBb = false then
        submitPeer run marked iBb ++
          if eOos = pred64 iBb then [] else splitLoop t eNextBb eOos fuel (iBb + 1) none
      else
        let offset := run.getD iBb
        if iBb + 1 = eNextBb then submitPeer (some offset) none (iBb + 1)
        else splitLoop t eNextBb eOos fuel (iBb + 1) (some offset)
    else []

/-- `split_recv_resync_read` for `n` sectors from `sector`: the requests submitted. -/
def splitRecvResyncRead (sector n : Nat) : Target × List (Nat × Nat) :=
  let sBb := sector / 8
  let eNextBb := if n = 0 then sBb else (sector + n) / 8
  let allOutOfSync (t : Target) := (t.setOutOfSync sector n, [(sector, n)])
  if t.markedRl.isEmpty = false ∨ isOutOfSyncAfterReplication t sBb eNextBb then
    let (t, p) := prepareSplitPeerRequest t sBb eNextBb
    if p.findIsb then
      if p.splitCount = 0 then (t, [])
      else
        let pieces := splitLoop t eNextBb p.eOos (eNextBb - sBb) sBb none
        -- the bits that are set here are set already, so that the loop may read them before
        (pieces.foldl (fun t piece => t.setOutOfSync piece.1 piece.2) t, pieces)
    else allOutOfSync t
  else allOutOfSync t

/-! ## What the bitmap functions do -/

section Bits

variable {t : Target} {sector n b : Nat}

theorem setInSync_oos (t : Target) (sector n b : Nat) : (t.setInSync sector n).1.oos b =
    if wholeStart sector ≤ b ∧ b < wholeEnd t.capacity sector n then false else t.oos b := rfl

theorem whole_inside (hn : 0 < n) (hin : sector + n ≤ t.capacity)
    (h : wholeStart sector ≤ b ∧ b < wholeEnd t.capacity sector n) :
    sector ≤ 8 * b ∧ 8 * b < sector + n := by
  unfold wholeStart wholeEnd lastSector at h
  dsimp only at h
  split_ifs at h <;> omega

theorem whole_covers (hin : sector + n ≤ t.capacity) (hlo : sector ≤ 8 * b)
    (hhi : 8 * b + 8 ≤ sector + n) : wholeStart sector ≤ b ∧ b < wholeEnd t.capacity sector n := by
  unfold wholeStart wholeEnd lastSector
  dsimp only
  split_ifs <;> omega

theorem whole_block {bb : Nat} (hbb : 8 * bb + 8 ≤ t.capacity) :
    wholeStart (bb * 8) ≤ b ∧ b < wholeEnd t.capacity (bb * 8) 8 ↔ b = bb := by
  unfold wholeStart wholeEnd lastSector
  dsimp only
  split_ifs <;> omega

theorem setInSync_count (h : wholeStart sector ≤ b ∧ b < wholeEnd t.capacity sector n)
    (hb : t.oos b = true) : (t.setInSync sector n).2 ≠ 0 := by
  have hpos : 0 < (t.setInSync sector n).2 := by
    apply countP_pos_iff.mpr
    refine ⟨b, mem_range'_1.mpr ?_, hb⟩
    omega
  omega

theorem setOutOfSync_oos (t : Target) (sector n b : Nat) : (t.setOutOfSync sector n).oos b =
    if sector / 8 ≤ b ∧ b ≤ lastSector t.capacity sector n / 8 then true else t.oos b := rfl

end Bits

/-! ## What the list functions do -/

section Lists

variable {l : List MarkedReplicate} {bb b : Nat} {m : MarkedReplicate}

theorem markedAt_bb (h : markedAt l b = some m) : m.bb = b := by
  simpa using find?_some h

theorem markedAt_mem (h : markedAt l b = some m) : m ∈ l :=
  mem_of_find?_eq_some h

theorem markedAt_isSome : (markedAt l b).isSome = true ↔ ∃ m ∈ l, m.bb = b := by
  simp [markedAt]

theorem markedAt_map {f : MarkedReplicate → MarkedReplicate} (hf : ∀ m, (f m).bb = m.bb) (b : Nat) :
    markedAt (l.map f) b = (markedAt l b).map f := by
  unfold markedAt
  rw [find?_map]
  congr 2
  funext m
  simp [hf]

theorem markedAt_markBlock (l : List MarkedReplicate) (bb : Nat) (rl : Nat → Bool) (b : Nat) :
    markedAt (markBlock l bb rl) b =
      if b = bb then some ⟨bb, fun i => (markedAt l bb).any (·.rl i) || rl i⟩ else markedAt l b := by
  unfold markBlock
  split_ifs with hsome hb hb
  · subst hb
    obtain ⟨m, hm⟩ := Option.isSome_iff_exists.mp hsome
    rw [markedAt_map (by intro m; split_ifs <;> rfl), hm]
    simp [markedAt_bb hm]
  · rw [markedAt_map (by intro m; split_ifs <;> rfl)]
    cases hm : markedAt l b with
    | none => rfl
    | some m => simp [markedAt_bb hm, hb]
  · subst hb
    have hnone : markedAt l b = none := by simpa using hsome
    rw [hnone]
    simp [markedAt]
  · simp [markedAt, Ne.symm hb]

theorem markBlock_nodup (rl : Nat → Bool) (h : (l.map (·.bb)).Nodup) :
    ((markBlock l bb rl).map (·.bb)).Nodup := by
  unfold markBlock
  split_ifs with hsome
  · rw [map_map]
    convert h using 2
    funext m
    simp only [Function.comp_apply]
    split_ifs <;> rfl
  · rw [map_cons, nodup_cons]
    refine ⟨fun hmem => hsome ?_, h⟩
    obtain ⟨m, hm, hbb⟩ := mem_map.mp hmem
    exact markedAt_isSome.mpr ⟨m, hm, hbb⟩

/-- Marks are not lost. -/
def Grows (l l' : List MarkedReplicate) : Prop :=
  ∀ b m, markedAt l b = some m → ∃ m', markedAt l' b = some m' ∧ ∀ i, m.rl i = true → m'.rl i = true

theorem Grows.refl (l : List MarkedReplicate) : Grows l l :=
  fun _ m hm => ⟨m, hm, fun _ hi => hi⟩

theorem Grows.trans {l₁ l₂ l₃ : List MarkedReplicate} (h : Grows l₁ l₂) (h' : Grows l₂ l₃) :
    Grows l₁ l₃ := by
  intro b m hm
  obtain ⟨m', hm', hrl⟩ := h b m hm
  obtain ⟨m'', hm'', hrl'⟩ := h' b m' hm'
  exact ⟨m'', hm'', fun i hi => hrl' i (hrl i hi)⟩

theorem markBlock_grows (l : List MarkedReplicate) (bb : Nat) (rl : Nat → Bool) :
    Grows l (markBlock l bb rl) := by
  intro b m hm
  rw [markedAt_markBlock]
  split_ifs with hb
  · subst hb
    exact ⟨_, rfl, fun i hi => by simp [hm, hi]⟩
  · exact ⟨m, hm, fun _ hi => hi⟩

theorem markBlock_marks {rl : Nat → Bool} {i : Nat} (l : List MarkedReplicate) (bb : Nat)
    (h : rl i = true) : ∃ m, markedAt (markBlock l bb rl) bb = some m ∧ m.rl i = true := by
  rw [markedAt_markBlock, if_pos rfl]
  exact ⟨_, rfl, by simp [h]⟩

/-- Marked sectors exist. -/
def Inside (capacity : Nat) (l : List MarkedReplicate) : Prop :=
  ∀ m ∈ l, ∀ i, m.rl i = true → 8 * m.bb + i < capacity

theorem markBlock_inside {capacity : Nat} {rl : Nat → Bool} (h : Inside capacity l)
    (hrl : ∀ i, rl i = true → 8 * bb + i < capacity) : Inside capacity (markBlock l bb rl) := by
  unfold markBlock
  split_ifs with hsome
  · intro m hm i hi
    obtain ⟨m₀, hm₀, rfl⟩ := mem_map.mp hm
    split_ifs at hi ⊢ with hbb
    · rcases Bool.or_eq_true_iff.mp hi with hi | hi
      · exact h m₀ hm₀ i hi
      · exact hbb ▸ hrl i hi
    · exact h m₀ hm₀ i hi
  · intro m hm i hi
    rcases mem_cons.mp hm with rfl | hm
    · exact hrl i hi
    · exact h m hm i hi

theorem Inside.full {capacity : Nat} (h : Inside capacity l) (hm : m ∈ l)
    (hfull : m.isFull = true) : 8 * m.bb + 8 ≤ capacity := by
  have h7 : m.rl 7 = true := all_eq_true.mp hfull 7 (by simp)
  have := h m hm 7 h7
  omega

end Lists

/-! ## What a replicated write leaves -/

section Writes

variable {t : Target} {sst n b x : Nat}

@[simp] theorem addMarked_sBb (t : Target) (sst est : Nat) : (addMarked t sst est).sBb = sst / 8 := rfl

theorem startMarks_iff {t : Target} {sst est n i : Nat} :
    startMarks (addMarked t sst est) sst n i = true ↔ sst % 8 ≤ i ∧ i < sst % 8 + n ∧ i < 8 := by
  have hoffset : sst - sst / 8 * 8 = sst % 8 := by omega
  simp [startMarks, hoffset]

theorem addedMarks_grows (t : Target) (v : AddMarked) (sst est n : Nat) :
    Grows t.markedRl (addedMarks t v sst est n) := by
  unfold addedMarks
  split_ifs
  · exact (markBlock_grows _ _ _).trans (markBlock_grows _ _ _)
  · exact markBlock_grows _ _ _
  · exact markBlock_grows _ _ _
  · exact Grows.refl _

theorem addedMarks_nodup {v : AddMarked} {est : Nat} (h : (t.markedRl.map (·.bb)).Nodup) :
    ((addedMarks t v sst est n).map (·.bb)).Nodup := by
  unfold addedMarks
  split_ifs
  · exact markBlock_nodup _ (markBlock_nodup _ h)
  · exact markBlock_nodup _ h
  · exact markBlock_nodup _ h
  · exact h

/-- A block whose bit the receiver looks at before it writes resync data to it. -/
def Target.Traced (t : Target) (b : Nat) : Prop :=
  t.sRlBb ≤ b ∧ b ≤ t.eRlBb ∨ (markedAt t.markedRl b).isSome = true

/-- What `list_add_marked` leaves unchanged or lets grow. -/
structure Kept (t t' : Target) : Prop where
  capacity : t'.capacity = t.capacity
  oos : t'.oos = t.oos
  sResyncBb : t'.sResyncBb = t.sResyncBb
  eResyncBb : t'.eResyncBb = t.eResyncBb
  bmResyncFo : t'.bmResyncFo = t.bmResyncFo
  sRlBb : t'.sRlBb ≤ t.sRlBb
  eRlBb : t.eRlBb ≤ t'.eRlBb
  markedRl : Grows t.markedRl t'.markedRl

theorem listAddMarked_markedRl (t : Target) (sst est n inSync : Nat) :
    (listAddMarked t sst est n inSync).markedRl = addedMarks t (addMarked t sst est) sst est n := by
  unfold listAddMarked
  split_ifs <;> rfl

theorem listAddMarked_kept (t : Target) (sst est n inSync : Nat) :
    Kept t (listAddMarked t sst est n inSync) := by
  have hgrows : Grows t.markedRl (listAddMarked t sst est n inSync).markedRl := by
    rw [listAddMarked_markedRl]
    exact addedMarks_grows _ _ _ _ _
  unfold listAddMarked at hgrows ⊢
  split_ifs at hgrows ⊢
  · exact ⟨rfl, rfl, rfl, rfl, rfl, Nat.le_refl _, Nat.le_refl _, hgrows⟩
  all_goals exact ⟨rfl, rfl, rfl, rfl, rfl, Nat.min_le_left _ _, Nat.le_max_left _ _, hgrows⟩

variable (hn : 0 < n) (hin : sst + n ≤ t.capacity) (hcap : t.capacity < 2 ^ 64)

include hn hin hcap

theorem addMarked_eBb : (addMarked t sst (sst + n)).eBb = (sst + n - 1) / 8 := by
  simp only [addMarked, pred64]
  split_ifs <;> omega

omit hn hcap in
theorem addedMarks_inside (h : Inside t.capacity t.markedRl) :
    Inside t.capacity (addedMarks t (addMarked t sst (sst + n)) sst (sst + n) n) := by
  have hstart : ∀ i, startMarks (addMarked t sst (sst + n)) sst n i = true →
      8 * (addMarked t sst (sst + n)).sBb + i < t.capacity := by
    intro i hi
    rw [startMarks_iff] at hi
    rw [addMarked_sBb]
    omega
  have hend : ∀ i, endMarks (addMarked t sst (sst + n)) (sst + n) i = true →
      8 * (addMarked t sst (sst + n)).eBb + i < t.capacity := by
    intro i hi
    simp only [endMarks, decide_eq_true_eq] at hi
    omega
  unfold addedMarks
  split_ifs
  · exact markBlock_inside (markBlock_inside h hstart) hend
  · exact markBlock_inside h hstart
  · exact markBlock_inside h hend
  · exact h

/-- A sector of a block that is still out of sync after the write is marked. -/
theorem addedMarks_marked (hwindow : t.sResyncBb ≤ x / 8 ∧ x / 8 ≤ t.eResyncBb) (hlo : sst ≤ x) (hhi : x < sst + n)
    (hpart : ¬ (sst ≤ 8 * (x / 8) ∧ 8 * (x / 8) + 8 ≤ sst + n)) (hoos : t.oos (x / 8) = true) :
    ∃ m, markedAt (addedMarks t (addMarked t sst (sst + n)) sst (sst + n) n) (x / 8) = some m ∧
      m.rl (x % 8) = true := by
  have he := addMarked_eBb hn hin hcap
  set v := addMarked t sst (sst + n)
  have hrow : v.inWindow = true := by
    have hblock : x / 8 = sst / 8 ∨ x / 8 = (sst + n - 1) / 8 := by omega
    simp only [v, addMarked] at he ⊢
    rw [he, decide_eq_true_eq]
    omega
  unfold addedMarks
  by_cases hfirst : x / 8 = sst / 8
  · -- the first block, which the write covers in part
    have hstart : v.markStart = true := by
      have hcond : sst / 8 * 8 ≠ sst ∨ sst / 8 = v.eBb := by omega
      change (v.inWindow && decide _ && t.oos (sst / 8)) = true
      rw [hrow, ← hfirst, hoos, Bool.true_and, Bool.and_true, decide_eq_true_eq, hfirst]
      exact hcond
    rw [hfirst]
    have hsector : startMarks v sst n (x % 8) = true := by
      rw [startMarks_iff]
      omega
    obtain ⟨m, hm, hrl⟩ := markBlock_marks t.markedRl (sst / 8) hsector
    split_ifs with hend
    · obtain ⟨m', hm', hrl'⟩ := markBlock_grows _ _ _ _ _ hm
      exact ⟨m', hm', hrl' _ hrl⟩
    · exact ⟨m, hm, hrl⟩
  · have hlast : x / 8 = v.eBb := by omega
    have hend : v.markEnd = true := by
      have hcond : sst / 8 ≠ v.eBb ∧ (sst + n) / 8 * 8 ≠ sst + n := by omega
      change (v.inWindow && decide _ && t.oos v.eBb) = true
      rw [hrow, ← hlast, hoos, Bool.true_and, Bool.and_true, decide_eq_true_eq]
      exact hcond
    rw [if_pos hend, hlast]
    refine markBlock_marks _ _ ?_
    rw [endMarks, decide_eq_true_eq]
    omega

/-- Blocks of the write that are in sync are traced once a bit has changed. -/
theorem listAddMarked_traced {inSync : Nat} (hsync : inSync ≠ 0) (hlo : sst ≤ 8 * b) (hhi : 8 * b < sst + n)
    (hb : t.oos b = false) : (listAddMarked t sst (sst + n) n inSync).Traced b := by
  have he := addMarked_eBb hn hin hcap
  by_cases hlisted : (markedAt (listAddMarked t sst (sst + n) n inSync).markedRl b).isSome = true
  · exact .inr hlisted
  -- the ends of the write have no entry if they are this block
  have hnone : (markedAt t.markedRl b).isSome = false := by
    by_contra hsome
    rw [Bool.not_eq_false] at hsome
    obtain ⟨m, hm⟩ := Option.isSome_iff_exists.mp hsome
    obtain ⟨_, hm', -⟩ := (listAddMarked_kept t sst (sst + n) n inSync).markedRl b m hm
    exact hlisted (by simp [hm'])
  left
  unfold listAddMarked
  rw [if_neg hsync]
  set v := addMarked t sst (sst + n)
  have hstart : hasEntry t v v.sBb v.markStart = true → sst / 8 ≠ b := by
    rintro hentry rfl
    simp [hasEntry, v, addMarked, hb, hnone] at hentry
  have hend : hasEntry t v v.eBb v.markEnd = true → v.eBb ≠ b := by
    intro hentry heq
    have hmark : v.markEnd = true := by
      simpa [hasEntry, heq, hnone] using hentry
    change (_ && t.oos v.eBb) = true at hmark
    rw [heq, hb, Bool.and_false] at hmark
    exact absurd hmark Bool.false_ne_true
  constructor
  · refine Nat.le_trans (Nat.min_le_right _ _) ?_
    rw [addMarked_sBb] at hstart ⊢
    split_ifs with h
    · have := hstart h
      omega
    · omega
  · refine Nat.le_trans ?_ (Nat.le_max_right _ _)
    split_ifs with h
    · have := hend h
      unfold pred64
      omega
    · omega

end Writes

/-! ## What resync data is written to -/

section Received

variable {t : Target} {l : List MarkedReplicate}

/-- An entry that the first loop of `prepare_split_peer_request` leaves in the list. -/
def stays (t : Target) (m : MarkedReplicate) : Bool :=
  !m.isFull && t.oos m.bb

/-- The bitmap after that loop. -/
def prunedOos (t : Target) (l : List MarkedReplicate) (b : Nat) : Bool :=
  t.oos b && l.all fun m => !(m.isFull && decide (m.bb = b))

@[simp] theorem prunedOos_nil (t : Target) : prunedOos t [] = t.oos := by
  funext b
  simp [prunedOos]

theorem prunedOos_cons_of_not_full {m : MarkedReplicate} (h : ¬ m.isFull = true) (t : Target)
    (l : List MarkedReplicate) : prunedOos t (m :: l) = prunedOos t l := by
  funext b
  simp [prunedOos, h]

theorem pruneMarked_spec (hin : ∀ m ∈ l, m.isFull = true → 8 * m.bb + 8 ≤ t.capacity)
    (hnodup : (l.map (·.bb)).Nodup) :
    pruneMarked t l = ({ t with oos := prunedOos t l }, l.filter (stays t)) := by
  induction l generalizing t with
  | nil => simp [pruneMarked]
  | cons m rest ih =>
    rw [map_cons, nodup_cons] at hnodup
    have hother : ∀ m' ∈ rest, m'.bb ≠ m.bb := fun m' hm' heq =>
      hnodup.1 (heq ▸ mem_map_of_mem hm')
    have hrest : ∀ m' ∈ rest, m'.isFull = true → 8 * m'.bb + 8 ≤ t.capacity := fun m' hm' =>
      hin m' (mem_cons_of_mem _ hm')
    unfold pruneMarked
    split_ifs with hfull hoos
    · -- the block becomes in sync, the bits of the other entries stay
      have hblock : ∀ b, (t.setInSync (m.bb * 8) 8).1.oos b = if b = m.bb then false else t.oos b := by
        intro b
        rw [setInSync_oos, if_congr (whole_block (hin m mem_cons_self hfull)) rfl rfl]
      have hkept : rest.filter (stays (t.setInSync (m.bb * 8) 8).1) = rest.filter (stays t) :=
        filter_congr fun m' hm' => by simp [stays, hblock, hother m' hm']
      have hbits : prunedOos (t.setInSync (m.bb * 8) 8).1 rest = prunedOos t (m :: rest) := by
        funext b
        by_cases hb : b = m.bb
        · simp [prunedOos, hblock, hb, hfull]
        · simp [prunedOos, hblock, hb, Ne.symm hb]
      rw [ih (t := (t.setInSync (m.bb * 8) 8).1) hrest hnodup.2, hkept, hbits]
      simp [stays, hfull, Target.setInSync]
    · rw [ih hrest hnodup.2, prunedOos_cons_of_not_full hfull]
      simp [stays, hoos]
    · rw [ih hrest hnodup.2, prunedOos_cons_of_not_full hfull]
      simp [stays, hoos, hfull]

theorem markedAt_filter {keep : MarkedReplicate → Bool} (h : (l.map (·.bb)).Nodup) (b : Nat) :
    markedAt (l.filter keep) b = (markedAt l b).filter keep := by
  induction l with
  | nil => rfl
  | cons m rest ih =>
    rw [map_cons, nodup_cons] at h
    by_cases hb : m.bb = b
    · -- the other entries are not of this block
      have hrest : markedAt (rest.filter keep) b = none := by
        rw [ih h.2, Option.filter_eq_none_iff]
        intro m' hm'
        exact absurd (mem_map.mpr ⟨m', markedAt_mem hm', (markedAt_bb hm').trans hb.symm⟩) h.1
      cases hkeep : keep m with
      | true => simp [markedAt, hb, hkeep, Option.filter_some]
      | false =>
        rw [filter_cons_of_neg (by simp [hkeep]), hrest]
        simp [markedAt, hb, hkeep, Option.filter_some]
    · cases hkeep : keep m <;> simpa [markedAt, hb, hkeep] using ih h.2

/-- The target after the first loop of `prepare_split_peer_request`. -/
def pruned (t : Target) : Target :=
  { t with oos := prunedOos t t.markedRl, markedRl := t.markedRl.filter (stays t) }

/-- Nothing says that a replicated write has written this sector: its block is out of sync and not
in the list, or the list has its block and not the sector. -/
def Writable (t : Target) (x : Nat) : Prop :=
  match markedAt t.markedRl (x / 8) with
  | some m => m.rl (x % 8) = false
  | none => t.oos (x / 8) = true

/-- A block that is written as a whole. -/
def Target.Free (t : Target) (b : Nat) : Prop :=
  markedAt t.markedRl b = none ∧ t.oos b = true

theorem Target.Free.writable {x : Nat} (h : t.Free (x / 8)) : Writable t x := by
  unfold Writable
  rw [h.1]
  exact h.2

theorem foldl_prepareBlock_findIsb (t : Target) (blocks : List Nat) (p : Prepare) :
    (blocks.foldl (prepareBlock t) p).findIsb = false ↔ p.findIsb = false ∧ ∀ b ∈ blocks, t.Free b := by
  induction blocks generalizing p with
  | nil => simp
  | cons b rest ih =>
    have hb : (prepareBlock t p b).findIsb = false ↔ p.findIsb = false ∧ t.Free b := by
      unfold prepareBlock Target.Free
      cases hm : markedAt t.markedRl b with
      | none => cases ho : t.oos b <;> simp
      | some m => simp
    rw [foldl_cons, ih, hb, forall_mem_cons, and_assoc]

/-- A request inside the range that writes to writable sectors only. -/
structure Piece (t : Target) (sBb eNextBb : Nat) (p : Nat × Nat) : Prop where
  pos : 0 < p.2
  lo : sBb * 8 ≤ p.1
  hi : p.1 + p.2 ≤ eNextBb * 8
  writable : ∀ x, p.1 ≤ x → x < p.1 + p.2 → Writable t x

section Loop

variable {sBb eNextBb iBb : Nat} {run : Option Nat}

theorem mem_unmarkedSectors_piece {m : MarkedReplicate} {p : Nat × Nat} (hlo : sBb ≤ iBb)
    (hhi : iBb < eNextBb) (hm : markedAt t.markedRl iBb = some m) (h : p ∈ unmarkedSectors m) :
    Piece t sBb eNextBb p := by
  simp only [unmarkedSectors, mem_map, mem_filter, mem_range] at h
  obtain ⟨i, ⟨_, hrl⟩, rfl⟩ := h
  have hbb : m.bb = iBb := markedAt_bb hm
  refine ⟨Nat.one_pos, by dsimp only; omega, by dsimp only; omega, fun x hx hx' => ?_⟩
  have hblock : x / 8 = iBb := by omega
  have hsector : x % 8 = i := by omega
  simpa [Writable, hblock, hm, hsector] using hrl

/-- What the loop has collected: blocks up to `iBb` that are written as a whole. -/
def Collected (t : Target) (sBb iBb : Nat) (run : Option Nat) : Prop :=
  ∀ offset ∈ run, sBb ≤ offset ∧ offset < iBb ∧ ∀ b, offset ≤ b → b < iBb → t.Free b

theorem Collected.next (h : Collected t sBb iBb run) (hlo : sBb ≤ iBb) (hfree : t.Free iBb) :
    Collected t sBb (iBb + 1) (some (run.getD iBb)) := by
  rintro offset ⟨⟩
  cases run with
  | none =>
    refine ⟨hlo, Nat.lt_succ_self iBb, fun b hb hbi => ?_⟩
    have hbb : b = iBb := Nat.le_antisymm (Nat.lt_succ_iff.mp hbi) hb
    exact hbb ▸ hfree
  | some offset =>
    obtain ⟨hs, hi, hblocks⟩ := h offset rfl
    refine ⟨hs, Nat.lt_succ_of_lt hi, fun b hb hbi => ?_⟩
    rcases Nat.lt_succ_iff_lt_or_eq.mp hbi with hlt | rfl
    · exact hblocks b hb hlt
    · exact hfree

theorem submitPeer_piece {marked : Option MarkedReplicate} {p : Nat × Nat} (hlo : sBb ≤ iBb)
    (hhi : iBb ≤ eNextBb) (hrun : Collected t sBb iBb run)
    (hmarked : ∀ m ∈ marked, iBb < eNextBb ∧ markedAt t.markedRl iBb = some m)
    (h : p ∈ submitPeer run marked iBb) : Piece t sBb eNextBb p := by
  rcases mem_append.mp h with h | h
  · cases run with
    | none => simp at h
    | some offset =>
      obtain ⟨_, _, hfree⟩ := hrun offset rfl
      obtain rfl : p = (offset * 8, (iBb - offset) * 8) := by simpa using h
      refine ⟨by dsimp only; omega, by dsimp only; omega, by dsimp only; omega, fun x hx hx' => ?_⟩
      exact (hfree (x / 8) (by omega) (by omega)).writable
  · cases marked with
    | none => simp at h
    | some m =>
      obtain ⟨hlt, hm⟩ := hmarked m rfl
      exact mem_unmarkedSectors_piece hlo hlt hm h

theorem free_of_not {b : Nat} (h : ¬ ((markedAt t.markedRl b).isSome = true ∨ t.oos b = false)) :
    t.Free b := by
  rw [not_or] at h
  exact ⟨by simpa using h.1, by simpa using h.2⟩

theorem splitLoop_piece {eOos fuel : Nat} {p : Nat × Nat} (hlo : sBb ≤ iBb)
    (hrun : Collected t sBb iBb run) (h : p ∈ splitLoop t eNextBb eOos fuel iBb run) :
    Piece t sBb eNextBb p := by
  induction fuel generalizing iBb run with
  | zero => simp [splitLoop] at h
  | succ fuel ih =>
    unfold splitLoop at h
    dsimp only at h
    split_ifs at h with hend hstop hbreak hlast
    · rw [append_nil] at h
      exact submitPeer_piece hlo (Nat.le_of_lt hend) hrun (fun m hm => ⟨hend, hm⟩) h
    · rcases mem_append.mp h with h | h
      · exact submitPeer_piece hlo (Nat.le_of_lt hend) hrun (fun m hm => ⟨hend, hm⟩) h
      · exact ih (Nat.le_succ_of_le hlo) (by simp [Collected]) h
    · -- the last block of the range ends what is collected
      exact submitPeer_piece (Nat.le_succ_of_le hlo) (Nat.le_of_eq hlast)
        (hrun.next hlo (free_of_not hstop)) (by simp) h
    · exact ih (Nat.le_succ_of_le hlo) (hrun.next hlo (free_of_not hstop)) h
    · simp at h

end Loop

/-- Bits outside the range stay as they are when requests inside it are submitted. -/
theorem foldl_setOutOfSync {sBb eNextBb : Nat} {pieces : List (Nat × Nat)}
    (h : ∀ p ∈ pieces, 0 < p.2 ∧ sBb * 8 ≤ p.1 ∧ p.1 + p.2 ≤ eNextBb * 8) :
    ∃ oos, pieces.foldl (fun t p => t.setOutOfSync p.1 p.2) t = { t with oos := oos } ∧
      ∀ b, b < sBb ∨ eNextBb ≤ b → oos b = t.oos b := by
  induction pieces generalizing t with
  | nil => exact ⟨t.oos, rfl, fun _ _ => rfl⟩
  | cons p rest ih =>
    obtain ⟨oos, hfold, hout⟩ := ih
      fun q hq => h q (mem_cons_of_mem _ hq)
    refine ⟨oos, hfold, fun b hb => ?_⟩
    obtain ⟨_, _, _⟩ := h p mem_cons_self
    rw [hout b hb, setOutOfSync_oos, if_neg]
    unfold lastSector
    split_ifs <;> omega

theorem prepareSplitPeerRequest_target (sBb eNextBb : Nat)
    (hfull : ∀ m ∈ t.markedRl, m.isFull = true → 8 * m.bb + 8 ≤ t.capacity)
    (hnodup : (t.markedRl.map (·.bb)).Nodup) :
    (prepareSplitPeerRequest t sBb eNextBb).1 = pruned t := by
  unfold prepareSplitPeerRequest
  rw [pruneMarked_spec hfull hnodup]
  rfl

theorem prepareSplitPeerRequest_free {sBb eNextBb b : Nat}
    (h : (prepareSplitPeerRequest t sBb eNextBb).2.findIsb = false) (hlo : sBb ≤ b)
    (hhi : b < eNextBb) : (prepareSplitPeerRequest t sBb eNextBb).1.Free b :=
  ((foldl_prepareBlock_findIsb _ _ _).mp h).2 b (by rw [mem_range'_1]; omega)

/-- No trace of a replicated write is left that would make the receiver look at the bitmap. -/
def Unguarded (t : Target) (sBb eNextBb : Nat) : Prop :=
  t.markedRl = [] ∧ isOutOfSyncAfterReplication t sBb eNextBb = false

/-- What becomes of resync data: bits change in its range only, apart from those of the list, and
below the last whole block it is written to writable sectors, unless the range is unguarded. -/
structure SplitRecv (t : Target) (sector n : Nat) (r : Target × List (Nat × Nat)) : Prop where
  target : ∃ oos, r.1 = { pruned t with oos := oos } ∧
    ∀ b, b < sector / 8 ∨ (sector + n - 1) / 8 < b → oos b = (pruned t).oos b
  inside : ∀ p ∈ r.2, sector / 8 * 8 ≤ p.1 ∧ p.1 + p.2 ≤ sector + n
  writable : ∀ p ∈ r.2, ∀ x, p.1 ≤ x → x < p.1 + p.2 → x < (sector + n) / 8 * 8 →
    Writable (pruned t) x ∨ Unguarded t (sector / 8) ((sector + n) / 8)

theorem pruned_of_nil (h : t.markedRl = []) : pruned t = t := by
  unfold pruned
  rw [h, prunedOos_nil, filter_nil, ← h]

/-- All of the data is written: nothing is known of its sectors, or all are writable. -/
theorem SplitRecv.all {sector n : Nat} (hn : 0 < n)
    (h : (∀ b, sector / 8 ≤ b → b < (sector + n) / 8 → (pruned t).Free b) ∨
      Unguarded t (sector / 8) ((sector + n) / 8)) :
    SplitRecv t sector n ((pruned t).setOutOfSync sector n, [(sector, n)]) where
  target := by
    refine ⟨_, rfl, fun b hb => if_neg ?_⟩
    unfold lastSector
    split_ifs <;> omega
  inside := by
    intro p hp
    obtain rfl : p = (sector, n) := by simpa using hp
    exact ⟨Nat.div_mul_le_self sector 8, Nat.le_refl _⟩
  writable := by
    intro p hp x _ _ _
    obtain rfl : p = (sector, n) := by simpa using hp
    refine h.imp (fun hfree => ?_) id
    exact (hfree (x / 8) (by omega) (by omega)).writable

theorem splitRecvResyncRead_spec {sector n : Nat} (hn : 0 < n)
    (hfull : ∀ m ∈ t.markedRl, m.isFull = true → 8 * m.bb + 8 ≤ t.capacity)
    (hnodup : (t.markedRl.map (·.bb)).Nodup) :
    SplitRecv t sector n (splitRecvResyncRead t sector n) := by
  unfold splitRecvResyncRead
  have htarget := prepareSplitPeerRequest_target (sector / 8) ((sector + n) / 8) hfull hnodup
  dsimp only
  rw [if_neg (Nat.pos_iff_ne_zero.mp hn)]
  split_ifs with hguard hisb hcount
  · rw [htarget]
    exact ⟨⟨_, rfl, fun _ _ => rfl⟩, by simp, by simp⟩
  · rw [htarget]
    have hpiece : ∀ p ∈ splitLoop (pruned t) ((sector + n) / 8)
        (prepareSplitPeerRequest t (sector / 8) ((sector + n) / 8)).2.eOos
        ((sector + n) / 8 - sector / 8) (sector / 8) none,
        Piece (pruned t) (sector / 8) ((sector + n) / 8) p := fun p hp =>
      splitLoop_piece (Nat.le_refl _) (by simp [Collected]) hp
    obtain ⟨oos, hfold, hout⟩ := foldl_setOutOfSync fun p hp =>
      ⟨(hpiece p hp).pos, (hpiece p hp).lo, (hpiece p hp).hi⟩
    exact {
      target := ⟨oos, hfold, fun b hb => hout b (by omega)⟩
      inside := fun p hp => ⟨(hpiece p hp).lo, Nat.le_trans (hpiece p hp).hi (Nat.div_mul_le_self _ 8)⟩
      writable := fun p hp x hx hx' _ => .inl ((hpiece p hp).writable x hx hx') }
  · rw [htarget]
    refine .all hn (.inl fun b hlo hhi => ?_)
    rw [← htarget]
    exact prepareSplitPeerRequest_free (by simpa using hisb) hlo hhi
  · rw [not_or] at hguard
    have hnil : t.markedRl = [] := by simpa using hguard.1
    nth_rewrite 2 [← pruned_of_nil hnil]
    exact .all hn (.inr ⟨hnil, by simpa using hguard.2⟩)

end Received

end Bsr.Resync
