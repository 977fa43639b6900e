import Bsr.Quorum.Transition

/-!
# Loss of quorum

`sanitize_state` looks for a loss of quorum while it goes through the peers, and only where the
contact to the data of a peer is lost.

* `Kept`, `Frame`: what the steps for a peer leave alone.
* `loop_suspQuorum`: when the loop raises `susp_quorum`.
* `quorum_loss_stopped_iff`: when a loss of quorum stops a primary. A soft change is refused. A hard
  change has to meet the check of the loop.
-/

namespace Bsr.Quorum

open List

open Handshake (NodeId)
open Request (DiskState)
open State

/-! ### What a step leaves alone

The steps for peer `i` may change the replication states of all peers and the local disk state, but
no disk state of another peer. -/

/-- Only the peers of `l` have got another disk state, and nothing else `calc_quorum` reads has
changed. -/
structure Kept (l : List NodeId) (d d' : Device) : Prop where
  peerIds : d'.peerIds = d.peerIds
  md : d'.md = d.md
  disk : d'.disk.old = d.disk.old
  old : ∀ j, (d'.peer j).disk.old = (d.peer j).disk.old
  other : ∀ j, j ∉ l → (d'.peer j).disk.new = (d.peer j).disk.new

structure Frame (l : List NodeId) (d d' : Device) : Prop extends Kept l d d' where
  suspQuorum : d'.suspQuorum = d.suspQuorum

variable {l : List NodeId}

theorem Kept.trans {d d' d'' : Device} (h : Kept l d d') (h' : Kept l d' d'') : Kept l d d'' where
  peerIds := h'.peerIds.trans h.peerIds
  md := h'.md.trans h.md
  disk := h'.disk.trans h.disk
  old := fun j => (h'.old j).trans (h.old j)
  other := fun j hj => (h'.other j hj).trans (h.other j hj)

variable {d d' : Device}

theorem Kept.mono {l l' : List NodeId} (h : Kept l d d') (hl : l ⊆ l') : Kept l' d d' :=
  { h with other := fun j hj => h.other j fun hmem => hj (hl hmem) }

namespace Frame

variable {l : List NodeId} {i : NodeId} {d d' d'' : Device}

theorem refl (l : List NodeId) (d : Device) : Frame l d d :=
  ⟨⟨rfl, rfl, rfl, fun _ => rfl, fun _ _ => rfl⟩, rfl⟩

theorem trans (h : Frame l d d') (h' : Frame l d' d'') : Frame l d d'' :=
  ⟨h.toKept.trans h'.toKept, h'.suspQuorum.trans h.suspQuorum⟩

theorem ite {c : Prop} [Decidable c] {x y : Device} (hx : c → Frame l d x)
    (hy : ¬ c → Frame l d y) : Frame l d (if c then x else y) := by
  split_ifs with hc
  · exact hx hc
  · exact hy hc

theorem when {c : Prop} [Decidable c] {x : Device} (hx : Frame l d x) :
    Frame l d (if c then x else d) :=
  ite (fun _ => hx) fun _ => refl l d

theorem foldl {js : List NodeId} {f : Device → NodeId → Device} (hf : ∀ d j, Frame l d (f d j))
    (d : Device) : Frame l d (js.foldl f d) :=
  foldlRecOn js f (refl l d) fun d' h j _ => h.trans (hf d' j)

theorem setDisk (s : DiskState) : Frame l d (d.setDisk s) :=
  ⟨⟨rfl, rfl, rfl, fun _ => rfl, fun _ _ => rfl⟩, rfl⟩

theorem update (j : NodeId) {f : PeerDevice → PeerDevice} (hf : ∀ p, (f p).disk = p.disk) :
    Frame l d (d.update j f) := by
  have hdisk : ∀ k, ((d.update j f).peer k).disk = (d.peer k).disk := by
    intro k
    by_cases hk : k = j
    · subst hk
      simp [Device.update, hf]
    · simp [Device.update, hk]
  exact ⟨⟨rfl, rfl, rfl, fun k => by rw [hdisk k], fun k _ => by rw [hdisk k]⟩, rfl⟩

theorem setRepl (j : NodeId) (r : ReplState) : Frame l d (d.setRepl j r) :=
  update j fun _ => rfl

theorem setSuspOtherC (j : NodeId) (b : Bool) : Frame l d (d.setSuspOtherC j b) :=
  update j fun _ => rfl

theorem setPeerDisk (s : DiskState) : Frame [i] d (d.setPeerDisk i s) where
  peerIds := rfl
  md := rfl
  disk := rfl
  suspQuorum := rfl
  old := fun k => by
    by_cases hk : k = i
    · subst hk
      simp [Device.setPeerDisk, Device.update]
    · simp [Device.setPeerDisk, Device.update, hk]
  other := fun k hk => by
    have hne : k ≠ i := fun h => hk (mem_singleton.2 h)
    simp [Device.setPeerDisk, Device.update, hne]

end Frame

open Frame

theorem frame_raiseOtherC (l : List NodeId) (start : Bool) (d : Device) (j : NodeId) :
    Frame l d (raiseOtherC start d j) := by
  have h := setSuspOtherC (l := l) (d := d) j true
  exact ite (fun _ => h.trans (.setRepl j _)) fun _ => h

theorem frame_clearSources (l : List NodeId) (d : Device) (j : NodeId) :
    Frame l d (clearSources d j) := by
  have h := setSuspOtherC (l := l) (d := d) j false
  exact ite (fun _ => h.trans (.setRepl j _)) fun _ => h

theorem frame_clearOtherC (l : List NodeId) (k : NodeId) (js : List NodeId) (d : Device) :
    Frame l d (clearOtherC k js d).1 := by
  induction js generalizing d with
  | nil => exact .refl l d
  | cons j js ih =>
    have h := setSuspOtherC (l := l) (d := d) j false
    unfold clearOtherC
    dsimp only
    split_ifs
    · exact ih d
    · exact ((h.trans (.setRepl j _)).trans (.setDisk _)).trans (.setSuspOtherC k true)
    · exact (h.trans (.setRepl j _)).trans (.setDisk _)
    · exact (h.trans (.setRepl j _)).trans (.setSuspOtherC k true)
    · exact h.trans (.setRepl j _)
    · exact h.trans (ih _)

theorem frame_setResyncSuspOtherC (l : List NodeId) (d : Device) (k : NodeId) (val start : Bool) :
    Frame l d (setResyncSuspOtherC d k val start) := by
  have hclear := frame_clearOtherC l k (d.others k) d
  refine ite (fun _ => .foldl (frame_raiseOtherC l start) d) fun _ => ?_
  exact ite (fun _ => hclear) fun _ => hclear.trans (.foldl (frame_clearSources l) _)

section

variable (r : Resource) (i : NodeId) (d : Device)

theorem frame_negotiate (l : List NodeId) : Frame l d (negotiate r d) := by
  have happly : ∀ (d : Device) (j : NodeId), Frame l d (applyNegotiation r d j) := by
    intro d j
    unfold applyNegotiation
    dsimp only
    split_ifs
    · exact .refl l d
    · exact .setRepl j _
    · exact (setSuspOtherC j true).trans (.setRepl j _)
    · exact .setRepl j _
  unfold negotiate
  split_ifs
  · split
    · exact .refl l d
    · exact (setDisk _).trans (.foldl happly _)
  · exact .refl l d

theorem frame_beforePeers (l : List NodeId) : Frame l d (beforePeers r d) :=
  ((when (.setDisk _)).trans (.when (.setDisk _))).trans (frame_negotiate r _ l)

theorem frame_settleDisks : Frame [i] d (settleDisks r i d) := by
  have hdrop : ∀ d, Frame [i] d (dropPeer i d) := fun d => by
    refine Frame.when (Frame.trans (.update i ?_) (.when (.setPeerDisk _)))
    exact fun _ => rfl
  have hdep : ∀ d, Frame [i] d (clearDependency r i d) := fun d => .when (.update i fun _ => rfl)
  have hfail : ∀ d, Frame [i] d (abortFailed i d) := fun d => .when (.setRepl i _)
  have hside : ∀ d, Frame [i] d (restrictSide i d) := fun d => .when (.setRepl i _)
  have habort : ∀ d, Frame [i] d (abortUnsyncable i d) := fun d =>
    .when ((setRepl i _).trans (.update i fun _ => rfl))
  have hresume : ∀ d, Frame [i] d (resumeAborted i d) := fun d =>
    .when (.ite (fun _ => (setRepl i _).trans (.update i fun _ => rfl)) fun _ =>
      .when ((setRepl i _).trans (.update i fun _ => rfl)))
  have hvanish : ∀ d, Frame [i] d (vanishConsistent r i d) := fun d =>
    .when ((when (.setDisk _)).trans (.when (.setPeerDisk _)))
  have hdisk : ∀ d, Frame [i] d (clipDisk i d) := fun d =>
    (when (.setDisk _)).trans (.when (.setDisk _))
  have hpeer : ∀ d, Frame [i] d (clipPeerDisk i d) := fun d =>
    (when (.setPeerDisk _)).trans (.when (.setPeerDisk _))
  exact (((((((hdrop d).trans (hdep _)).trans (hfail _)).trans (hside _)).trans
    (habort _)).trans (hresume _)).trans (hvanish _)).trans ((hdisk _).trans (hpeer _))

theorem frame_settleResync : Frame [i] d (settleResync i d) := by
  have hsource : ∀ d, Frame [i] d (pauseSource i d) := fun d => .when (.setSuspOtherC i true)
  have hpause : ∀ d, Frame [i] d (pauseOrResume i d) := fun d =>
    .ite (fun _ => .ite (fun _ => .setRepl i _) fun _ => .when (.setRepl i _)) fun _ =>
      .ite (fun _ => .setRepl i _) fun _ => .when (.setRepl i _)
  have hother : ∀ {c : Prop} [Decidable c] d val start,
      Frame [i] d (if c then setResyncSuspOtherC d i val start else d) := fun d val start =>
    .when (frame_setResyncSuspOtherC [i] d i val start)
  have htell : ∀ d, Frame [i] d (tellOthers i d) := fun d =>
    (((hother d _ _).trans (hother _ _ _)).trans (hother _ _ _)).trans (hother _ _ _)
  have hkeep : ∀ d, Frame [i] d (keepDiskless i d) := fun d => .when (.setPeerDisk _)
  have hup : ∀ d, Frame [i] d (upgradeDisk i d) := fun d => by
    unfold upgradeDisk
    refine trans ?_ (update i fun _ => rfl)
    exact (when (.setDisk _)).trans (.when (.setDisk _))
  exact ((((hsource d).trans (hpause _)).trans (htell _)).trans (hkeep _)).trans (hup _)

end

/-! ### Quorum and the parts of a device it depends on -/

variable {r : Resource}

theorem quorumView_congr {f g : NodeId → DiskState}
    (hids : d'.peerIds = d.peerIds) (hmd : d'.md = d.md) (hfg : ∀ i ∈ d.peerIds, f i = g i) :
    quorumView r d' f = quorumView r d g := by
  have hdisk : (fun i => if i ∈ d.peerIds then some (f i) else none) =
      fun i => if i ∈ d.peerIds then some (g i) else none := by
    funext i
    split_ifs with hi
    · rw [hfg i hi]
    · rfl
  simp only [quorumView, hids, hmd, hdisk]

theorem Kept.hadQuorum (h : Kept l d d') (r : Resource) : hadQuorum r d' = hadQuorum r d := by
  rw [Quorum.hadQuorum, quorumView_congr h.peerIds h.md fun i _ => h.old i, Quorum.hadQuorum]

theorem Kept.getLdev (h : Kept l d d') : d'.getLdev = d.getLdev := by
  rw [Device.getLdev, Device.getLdev, h.disk]

/-- The device of a primary that has its quorum. -/
structure Guarded (r : Resource) (d : Device) : Prop where
  quorum : r.quorum ≠ qouOff
  role : r.role.new = .primary
  ldev : d.getLdev = true
  had : hadQuorum r d = true

theorem Guarded.kept (h : Guarded r d) (hk : Kept l d d') : Guarded r d' :=
  ⟨h.quorum, h.role, hk.getLdev.trans h.ldev, (hk.hadQuorum r).trans h.had⟩

/-! ### The loop over the peers -/

section

def settle (r : Resource) (i : NodeId) (d : Device) : Device :=
  settleResync i (settleDisks r i d)

variable (r : Resource) (i : NodeId) (d : Device)

theorem frame_settle : Frame [i] d (settle r i d) :=
  (frame_settleDisks r i d).trans (frame_settleResync i _)

def visit (r : Resource) (d : Device) (i : NodeId) : Device := checkQuorum r i (settle r i d)

theorem foldl_visitPeer_dev (l : List NodeId) (s : Scan) :
    (l.foldl (visitPeer r) s).dev = l.foldl (visit r) s.dev := by
  induction l generalizing s with
  | nil => rfl
  | cons i l ih => exact ih (visitPeer r s i)

theorem checkQuorum_peer : (checkQuorum r i d).peer = d.peer := by
  unfold checkQuorum
  split_ifs <;> rfl

theorem kept_checkQuorum : Kept [i] d (checkQuorum r i d) := by
  unfold checkQuorum
  split_ifs <;> exact ⟨rfl, rfl, rfl, fun _ => rfl, fun _ _ => rfl⟩

theorem kept_visit : Kept [i] d (visit r d i) :=
  (frame_settle r i d).toKept.trans (kept_checkQuorum r i _)

theorem kept_foldl_visit (l : List NodeId) : Kept l d (l.foldl (visit r) d) :=
  foldlRecOn l _ (Frame.refl l d).toKept fun d' h i hi => h.trans ((kept_visit r i d').mono (by simpa using hi))

end

/-- The check at peer `i`: the contact to its data is lost, and so is the quorum, with the peers of
`later` as they are wanted and the others as they end. -/
def Noticed (r : Resource) (d fin : Device) (i : NodeId) (later : List NodeId) : Prop :=
  lostContactToPeerData ⟨(d.peer i).disk.old, (fin.peer i).disk.new⟩ = true ∧
    calcQuorum r.quorum (quorumView r d fun j =>
      if j ∈ later then (d.peer j).disk.new else (fin.peer j).disk.new) = false

/-- What the check sees are the states `Noticed` is about, with the peers after `i` still as they
were wanted. -/
theorem visit_suspQuorum {d fin : Device} {i : NodeId} (h : Guarded r d) (hi : i ∉ l)
    (hfin : Kept l (visit r d i) fin) :
    (visit r d i).suspQuorum.new = true ↔ d.suspQuorum.new = true ∨ Noticed r d fin i l := by
  have hs : Frame [i] d (settle r i d) := frame_settle r i d
  have hvisit : ∀ j, ((visit r d i).peer j).disk.new = ((settle r i d).peer j).disk.new :=
    fun j => by rw [visit, checkQuorum_peer]
  have hlost : ((settle r i d).peer i).disk = ⟨(d.peer i).disk.old, (fin.peer i).disk.new⟩ := by
    rw [hfin.other i hi, hvisit, ← hs.old i]
  have hview : quorumView r (settle r i d) (fun j => ((settle r i d).peer j).disk.new) =
      quorumView r d fun j => if j ∈ l then (d.peer j).disk.new else (fin.peer j).disk.new := by
    refine quorumView_congr hs.peerIds hs.md fun j _ => ?_
    split_ifs with hj
    · exact hs.other j fun hmem => hi (mem_singleton.1 hmem ▸ hj)
    · rw [hfin.other j hj, hvisit]
  have hcond : (r.quorum ≠ qouOff ∧ r.role.new = .primary ∧ (settle r i d).getLdev = true ∧
      lostContactToPeerData ((settle r i d).peer i).disk = true ∧
      hadQuorum r (settle r i d) = true ∧ haveQuorum r (settle r i d) = false) ↔
      Noticed r d fin i l := by
    rw [hs.toKept.getLdev, hs.toKept.hadQuorum, hlost, haveQuorum, hview, Noticed]
    simp only [h.quorum, h.role, h.ldev, h.had, ne_eq, not_false_eq_true, true_and]
  rw [visit, checkQuorum]
  split_ifs with hc
  · exact ⟨fun _ => .inr (hcond.1 hc), fun _ => rfl⟩
  · rw [hs.suspQuorum]
    exact ⟨.inl, fun h => h.resolve_right fun hn => hc (hcond.2 hn)⟩

/-- `Noticed` depends on the wanted states of the later peers only. -/
theorem noticed_congr {d d' fin fin' : Device} {i : NodeId} {l later : List NodeId}
    (hk : Kept l d d') (hl : ∀ j ∈ later, j ∉ l)
    (hfin : ∀ j, (fin'.peer j).disk.new = (fin.peer j).disk.new) :
    Noticed r d' fin' i later ↔ Noticed r d fin i later := by
  have hview : quorumView r d'
        (fun k => if k ∈ later then (d'.peer k).disk.new else (fin'.peer k).disk.new) =
      quorumView r d fun k => if k ∈ later then (d.peer k).disk.new else (fin.peer k).disk.new := by
    refine quorumView_congr hk.peerIds hk.md fun k _ => ?_
    split_ifs with hmem
    · exact hk.other k (hl k hmem)
    · exact hfin k
  rw [Noticed, Noticed, hview, hk.old i, hfin i]

variable {d : Device}

theorem loop_suspQuorum (h : Guarded r d) (hl : l.Nodup) :
    (l.foldl (visit r) d).suspQuorum.new = true ↔
      d.suspQuorum.new = true ∨
        ∃ before i later, l = before ++ i :: later ∧ Noticed r d (l.foldl (visit r) d) i later := by
  induction l generalizing d with
  | nil => simp
  | cons i l ih =>
    obtain ⟨hi, hl⟩ := nodup_cons.1 hl
    have hk : Kept [i] d (visit r d i) := kept_visit r i d
    have hnoticed : ∀ {before later : List NodeId} {k : NodeId}, l = before ++ k :: later →
        (Noticed r (visit r d i) (l.foldl (visit r) (visit r d i)) k later ↔
          Noticed r d (l.foldl (visit r) (visit r d i)) k later) := by
      intro before later k heq
      refine noticed_congr hk (fun j hj hmem => hi ?_) fun _ => rfl
      rw [← mem_singleton.1 hmem, heq]
      exact mem_append_right _ (mem_cons_of_mem _ hj)
    rw [foldl_cons, ih (h.kept hk) hl, visit_suspQuorum h hi (kept_foldl_visit r _ l), or_assoc]
    refine or_congr_right ⟨?_, ?_⟩
    · rintro (hn | ⟨before, k, later, heq, hn⟩)
      · exact ⟨[], i, l, rfl, hn⟩
      · exact ⟨i :: before, k, later, congrArg (i :: ·) heq, (hnoticed heq).1 hn⟩
    rintro ⟨before, k, later, heq, hn⟩
    rcases cons_eq_append_iff.1 heq with ⟨rfl, h⟩ | ⟨before', rfl, h⟩
    · obtain ⟨rfl, rfl⟩ := cons.inj h
      exact .inl hn
    · exact .inr ⟨before', k, later, h, (hnoticed h).2 hn⟩

/-! ### The device -/

section

variable (r d)

theorem frame_sanitizeDevice_scan :
    Frame [] (d.peerIds.foldl (visit r) (beforePeers r d)) (sanitizeDevice r d) := by
  have hdev : (scanPeers r d).dev = d.peerIds.foldl (visit r) (beforePeers r d) :=
    foldl_visitPeer_dev r _ _
  rw [← hdev]
  exact (when (.setDisk _)).trans (.when (.setDisk _))

theorem kept_sanitizeDevice : Kept d.peerIds d (sanitizeDevice r d) := by
  have h1 := (frame_beforePeers r d []).toKept.mono (nil_subset d.peerIds)
  have h2 := kept_foldl_visit r (beforePeers r d) d.peerIds
  have h3 := (frame_sanitizeDevice_scan r d).toKept.mono (nil_subset d.peerIds)
  exact (h1.trans h2).trans h3

end

/-- When `sanitize_state` suspends the I/O of a primary for a loss of quorum. -/
theorem sanitizeDevice_suspQuorum (h : Guarded r d) : (sanitizeDevice r d).suspQuorum.new = true ↔
      d.suspQuorum.new = true ∨
        ∃ before i later, d.peerIds = before ++ i :: later ∧
          Noticed r d (sanitizeDevice r d) i later := by
  have hb : Frame [] d (beforePeers r d) := frame_beforePeers r d []
  have ha := frame_sanitizeDevice_scan r d
  rw [ha.suspQuorum, loop_suspQuorum (h.kept hb.toKept) d.nodup, hb.suspQuorum]
  have hnoticed : ∀ i later,
      Noticed r (beforePeers r d) (d.peerIds.foldl (visit r) (beforePeers r d)) i later ↔
        Noticed r d (sanitizeDevice r d) i later := fun i later =>
    noticed_congr hb.toKept (fun _ _ => not_mem_nil)
      fun j => (ha.other j not_mem_nil).symm
  simp only [hnoticed]

/-! ### The state change -/

theorem forM_error {ε α : Type} {f : α → Except ε Unit} {l : List α} {a : α} (ha : a ∈ l)
    (hf : ∃ e, f a = .error e) : ∃ e, l.forM f = .error e := by
  induction l with
  | nil => exact absurd ha not_mem_nil
  | cons b l ih =>
    cases hb : f b with
    | error e => exact ⟨e, by simp [hb, bind, Except.bind]⟩
    | ok u =>
      have hne : a ∈ l := by
        rcases mem_cons.1 ha with rfl | h
        · obtain ⟨e, he⟩ := hf
          rw [hb] at he
          cases he
        · exact h
      obtain ⟨e, he⟩ := ih hne
      exact ⟨e, by simpa [hb, bind, Except.bind] using he⟩

theorem bind_error {ε α β : Type} (x : Except ε α) {f : α → Except ε β}
    (hf : ∀ a, ∃ e, f a = .error e) : ∃ e, x >>= f = .error e := by
  cases x with
  | error e => exact ⟨e, rfl⟩
  | ok a => exact hf a

theorem isValidSoftTransition_error (hd : d ∈ r.devices) (h : Guarded r d)
    (hlost : haveQuorum r d = false) : ∃ e, isValidSoftTransition r = .error e := by
  have hquorum : softQuorum r d = .error .noQuorum := by
    simp [softQuorum, refuseIf, h.quorum, h.role, h.ldev, h.had, hlost]
  have hdevice : ∃ e, softDevice r d = .error e := by
    refine bind_error _ fun _ => ⟨.noQuorum, ?_⟩
    rw [hquorum]
    rfl
  exact bind_error _ fun _ => bind_error _ fun _ => forM_error hd hdevice

/-- Without a change the quorum of a device stays as it was. -/
theorem haveQuorum_of_unchanged (hd : d ∈ r.devices)
    (hsame : stateHasChanged r = false) : haveQuorum r d = hadQuorum r d := by
  have hdev : deviceChanged d = false := by
    simp only [stateHasChanged, Bool.or_eq_false_iff] at hsame
    simpa using any_eq_false.1 hsame.2 d hd
  have hpeer : ∀ i ∈ d.peerIds, (d.peer i).disk.new = (d.peer i).disk.old := by
    intro i hi
    simp only [deviceChanged, Bool.or_eq_false_iff] at hdev
    have hp := any_eq_false.1 hdev.2 i hi
    simp only [peerChanged, decide_eq_true_eq, not_or, not_not] at hp
    exact hp.1.symm
  rw [haveQuorum, quorumView_congr rfl rfl hpeer, hadQuorum]

/-- A primary device with a local disk loses its quorum in a state change. Then the change is
refused or `susp_quorum` is set just if the change is a soft one, is refused in any case, has
`susp_quorum` set from the start, or is noticed at one of the peers. -/
theorem quorum_loss_stopped_iff (r : Resource) (k : Nat) (d d' : Device)
    (hd : r.devices[k]? = some d) (hd' : (tryStateChange r).2.devices[k]? = some d')
    (hq : r.quorum ≠ qouOff) (hrole : r.role.new = .primary) (hldev : d.getLdev = true)
    (had : hadQuorum r d = true) (hlost : haveQuorum r d' = false) :
    ((∃ e, (tryStateChange r).1 = .error e) ∨ d'.suspQuorum.new = true) ↔
      (r.hard = false ∨ (∃ e, isValidTransition (tryStateChange r).2 = .error e) ∨
        d.suspQuorum.new = true ∨
        ∃ before i later, d.peerIds = before ++ i :: later ∧ Noticed r d d' i later) := by
  by_cases hsame : stateHasChanged r = false
  · -- nothing has changed, so nothing is sanitized and the quorum cannot be lost
    have hr : (tryStateChange r).2 = clearFlags r := by simp [tryStateChange, hsame]
    rw [hr, clearFlags, getElem?_map, hd] at hd'
    cases hd'
    have hhave : haveQuorum r (clearGotStable d) = haveQuorum r d := rfl
    rw [hhave, haveQuorum_of_unchanged (mem_of_getElem? hd) hsame, had] at hlost
    cases hlost
  · have hch : stateHasChanged r = true := by simpa using hsame
    let r1 : Resource := { clearFlags r with conn := fun i => forgetPeerRole (r.conn i) }
    let r2 : Resource := sanitizeState (clearFlags r)
    have hr : (tryStateChange r).2 = r2 := by simp [tryStateChange, hch, r2]
    have hrv : (tryStateChange r).1 = (do
        isValidTransition r2
        if !r.hard then isValidSoftTransition r2
        return .success) := by
      simp only [tryStateChange, hch]
      rfl
    have hdev : d' = sanitizeDevice r1 (clearGotStable d) := by
      rw [hr] at hd'
      have hmap : r2.devices = (r.devices.map clearGotStable).map (sanitizeDevice r1) := rfl
      rw [hmap, getElem?_map, getElem?_map, hd] at hd'
      exact (Option.some.inj hd').symm
    have hkept : Kept d.peerIds (clearGotStable d) d' := by
      rw [hdev]
      exact kept_sanitizeDevice r1 (clearGotStable d)
    have hmem : d' ∈ r2.devices := mem_of_getElem? (hr ▸ hd')
    have hsusp : d'.suspQuorum.new = true ↔ d.suspQuorum.new = true ∨
        ∃ before i later, d.peerIds = before ++ i :: later ∧ Noticed r d d' i later := by
      rw [hdev]
      exact sanitizeDevice_suspQuorum (r := r1) ⟨hq, hrole, hldev, had⟩
    rw [hrv, hr, hsusp]
    cases hhard : r.hard with
    | false =>
      have hsoft : ∃ e, isValidSoftTransition r2 = .error e :=
        isValidSoftTransition_error hmem (Guarded.kept (d := clearGotStable d) ⟨hq, hrole, hldev, had⟩ hkept) hlost
      obtain ⟨e, he⟩ := hsoft
      simp only [he, true_or, iff_true]
      exact .inl (bind_error _ fun _ => ⟨e, rfl⟩)
    | true =>
      simp only [reduceCtorEq, false_or]
      refine or_congr_left ?_
      cases isValidTransition r2 <;> simp [bind, Except.bind, pure, Except.pure]

/-- Two nodes, both with a bitmap slot for the other one. -/
def twoNodes (peer : PeerDevice) : Device where
  disk := .same .upToDate
  peerIds := [1]
  nodup := nodup_singleton 1
  peer := fun _ => peer
  md := fun i => { bitmapIndex := if i = 1 then some 0 else none }
  mdNodeId := 0

/-- A hard state change of node 0, which is primary and needs the majority. -/
def hardChange (cstate : Pair ConnState) (peer : PeerDevice) : Resource where
  nodeId := 0
  role := .same .primary
  quorum := qouMajority
  connections := [1]
  conn := fun _ => { cstate := cstate }
  devices := [twoNodes peer]
  hard := true

/-- The connection to a peer that is up to date breaks. -/
def linkLost : Resource :=
  hardChange ⟨.connected, .networkFailure⟩ { disk := ⟨.upToDate, .unknown⟩, repl := ⟨.established, .off⟩ }

/-- The lost connection suspends I/O. -/
theorem quorum_loss_stopped_link :
    ∃ d', (tryStateChange linkLost).2.devices[0]? = some d' ∧ haveQuorum linkLost d' = false ∧
      ((∃ e, (tryStateChange linkLost).1 = .error e) ∨ d'.suspQuorum.new = true) := by
  refine ⟨_, rfl, by decide +kernel, ?_⟩
  refine (quorum_loss_stopped_iff linkLost 0 _ _ rfl rfl (by decide) rfl (by decide)
    (by decide +kernel) (by decide +kernel)).2 (.inr (.inr (.inr ⟨[], 1, [], rfl, ?_, ?_⟩)))
  · decide +kernel
  · decide +kernel

/-- An outdated peer comes back without a disk: `receive_state` takes it from `L_OFF` to
`L_ESTABLISHED` with `CS_HARD`. -/
def disklessReturn : Resource :=
  hardChange (.same .connected) { disk := ⟨.outdated, .diskless⟩, repl := ⟨.off, .established⟩ }

/-- The primary has lost its quorum, goes on all the same, and nothing is suspended. -/
theorem quorum_loss_unnoticed : ∃ d d', disklessReturn.devices[0]? = some d ∧
      (tryStateChange disklessReturn).2.devices[0]? = some d' ∧
      disklessReturn.role = .same .primary ∧ d.getLdev = true ∧
      hadQuorum disklessReturn d = true ∧ haveQuorum disklessReturn d' = false ∧
      (tryStateChange disklessReturn).1 = .ok .success ∧ d'.suspQuorum.new = false := by
  refine ⟨_, _, rfl, rfl, rfl, by decide, ?_, ?_, ?_, ?_⟩
  · decide +kernel
  · decide +kernel
  · decide +kernel
  · decide +kernel

end Bsr.Quorum
