import Bsr.Bitmap.Fill

/-!
# Resizing a device on all nodes

`change_cluster_wide_device_size` (`bsr_state.c`) asks the nodes for the largest size they can take
and commits the smallest answer; `bsr_commit_size_change` (`bsr_receiver.c`) then resizes the device
on each node and chooses the side of the resync for the space that is new.

* `Flood` is how the prepare spreads, in any order of its packets; `collect` sums up the replies,
  each node answering after the nodes it has passed the prepare to.
* The initiator does not set `diskful_primary_nodes`: the field keeps what the transaction before
  has left in it and never gets the initiator itself.
* A node that commits passes `nodes_to_reach` on first; what is left of it then has none of its
  peers.

Sets of nodes, 64-bit masks in the code, are finite sets of node ids.
-/

namespace Bsr.Twopc.Resize

open Function Function Prod

variable {V : Type} [Fintype V] [LinearOrder V]

/-! ## The nodes -/

/-- The nodes as the resize finds them. -/
structure Cluster (V : Type) where
  /-- `directly_connected_nodes`. -/
  connected : V → Finset V
  symm : ∀ x y, y ∈ connected x → x ∈ connected y
  irrefl : ∀ x, x ∉ connected x
  /-- The peers with which the device is `L_ESTABLISHED`. -/
  established : V → Finset V
  established_symm : ∀ x y, y ∈ established x → x ∈ established y
  established_subset : ∀ x, established x ⊆ connected x
  /-- The node has a disk, `D_INCONSISTENT` or better. -/
  diskful : V → Bool
  primary : V → Bool
  /-- `bsr_local_max_size`, which is 0 if it gets no memory. -/
  localMax : V → Nat
  capacity : V → Nat
  /-- `md.effective_size`. -/
  effective : V → Nat
  /-- `bsr_bm_resize` gets its memory. -/
  bitmap : V → Bool

/-- A resize as the initiator starts it. -/
structure Request (V : Type) where
  initiator : V
  /-- The size that the user asks for, 0 for none. -/
  userSize : Nat
  /-- `DDSF_NO_RESYNC`. -/
  noResync : Bool
  /-- The initiator changes the layout of its activity log as well (`rs`). -/
  layout : Bool
  /-- `twopc_reply.diskful_primary_nodes` as the transaction before has left it. -/
  stale : Finset V

/-! ## Prepare -/

/-- What `nested_twopc_request` on `x` leaves of `nodes_to_reach`. -/
def nested (c : Cluster V) (x : V) (m : Finset V) : Finset V :=
  m \ insert x (c.connected x ∩ m)

/-- The prepares that have been taken. -/
structure Wave (V : Type) where
  /-- `nodes_to_reach` of the prepare that the node has taken first. -/
  mask : V → Option (Finset V)
  /-- `twopc_parent_nodes`. -/
  parents : V → Finset V
  /-- The nodes, the last one first, with the node they have the prepare from first. -/
  joined : List (V × V)

/-- `y` takes the prepare of `x`, which itself has got `m`. -/
def Wave.take (c : Cluster V) (w : Wave V) (x y : V) (m : Finset V) : Wave V :=
  match w.mask y with
  | none =>
    { mask := update w.mask y (some (nested c x m))
      parents := update w.parents y {x}
      joined := (y, x) :: w.joined }
  | some _ => { w with parents := update w.parents y (insert x (w.parents y)) }

/-- The initiator sends the prepare to all its peers, every other node to those of its peers that
are in `nodes_to_reach`. -/
inductive Flood (c : Cluster V) (i : V) : Wave V → Prop
  | start : Flood c i ⟨update (fun _ => none) i (some Finset.univ), fun _ => ∅, []⟩
  | take {w : Wave V} {x y : V} {m : Finset V} (hw : Flood c i w) (hm : w.mask x = some m)
      (hy : y ∈ c.connected x ∩ m) : Flood c i (w.take c x y m)

variable (w : Wave V)

/-- The nodes of the transaction. -/
def Wave.nodes (i : V) : List V :=
  i :: w.joined.map fst

/-- Every node is new when it joins and has the prepare from one that has joined before. -/
def Tree (i : V) : List (V × V) → Prop
  | [] => True
  | (y, p) :: l => y ∉ i :: l.map fst ∧ p ∈ i :: l.map fst ∧ Tree i l

structure FloodInv (c : Cluster V) (i : V) (w : Wave V) : Prop where
  tree : Tree i w.joined
  reached : ∀ x, w.mask x ≠ none ↔ x ∈ w.nodes i
  away : ∀ x m, w.mask x = some m → i ∈ m → x = i
  root : w.parents i = ∅

variable {c : Cluster V} {w : Wave V}

open Wave Finset

theorem Flood.inv {i : V} (h : Flood c i w) : FloodInv c i w := by
  induction h with
  | start =>
    refine ⟨trivial, fun x => ?_, fun x m hm hi => ?_, rfl⟩
    · by_cases hx : x = i <;> simp [nodes, hx]
    · by_contra hx
      simp [hx] at hm
  | @take w x y m _ hm hy ih =>
    obtain ⟨hconn, hmem⟩ := mem_inter.mp hy
    -- the initiator is in no mask but its own, and it is not its own peer
    have hyi : y ≠ i := by
      intro heq
      subst heq
      obtain rfl := ih.away x m hm hmem
      exact c.irrefl x hconn
    cases hmy : w.mask y with
    | some m' =>
      simp only [Wave.take, hmy]
      exact { ih with root := by simp [update_of_ne hyi.symm, ih.root] }
    | none =>
      have hnew : y ∉ w.nodes i := fun hin => (ih.reached y).mpr hin hmy
      have hold : x ∈ w.nodes i := (ih.reached x).mp (by simp [hm])
      simp only [Wave.take, hmy]
      refine ⟨⟨hnew, hold, ih.tree⟩, fun z => ?_, fun z m' hz hi => ?_, ?_⟩
      · have hreached := ih.reached z
        by_cases hzy : z = y
        · simp [nodes, hzy]
        · simpa [nodes, hzy] using hreached
      · dsimp only at hz
        by_cases hzy : z = y
        · rw [hzy, update_self] at hz
          cases hz
          obtain ⟨him, hix⟩ := mem_sdiff.mp hi
          exact absurd (mem_insert.mpr (.inl (ih.away x m hm him).symm)) hix
        · rw [update_of_ne hzy] at hz
          exact ih.away z m' hz hi
      · simp [update_of_ne hyi.symm, ih.root]

/-! ## The replies -/

/-- The part of `twopc_reply` that a resize uses. -/
structure Reply (V : Type) where
  diskfulPrimaryNodes : Finset V
  maxPossibleSize : Nat

/-- The reply of a node before it hears from others. -/
def ownReply (c : Cluster V) (rq : Request V) (x : V) : Reply V :=
  if x = rq.initiator then ⟨rq.stale, c.localMax x⟩
  else if c.diskful x then ⟨if c.primary x then {x} else ∅, c.localMax x⟩
  else ⟨∅, Bitmap.maxSectorsFlex⟩

/-- `got_twopc_reply`. -/
def gotReply (r r' : Reply V) : Reply V :=
  ⟨r.diskfulPrimaryNodes ∪ r'.diskfulPrimaryNodes, min r.maxPossibleSize r'.maxPossibleSize⟩

/-- The nodes answer, the last one first. -/
def collect : List (V × V) → (V → Reply V) → V → Reply V
  | [], acc => acc
  | (y, p) :: l, acc => collect l (update acc p (gotReply (acc p) (acc y)))

/-- What the initiator ends up with. -/
def Wave.collected (c : Cluster V) (rq : Request V) : Reply V :=
  collect w.joined (ownReply c rq) rq.initiator

omit [Fintype V] in
/-- A property that a sum has exactly if its parts have it holds of the collected reply exactly if
it holds of the reply of every node. -/
theorem collect_iff {P : Reply V → Prop} (hP : ∀ r r', P (gotReply r r') ↔ P r ∧ P r') {i : V}
    {l : List (V × V)} (h : Tree i l) (acc : V → Reply V) :
    P (collect l acc i) ↔ ∀ x ∈ i :: l.map fst, P (acc x) := by
  induction l generalizing acc with
  | nil => simp [collect]
  | cons e l ih =>
    obtain ⟨y, p⟩ := e
    obtain ⟨_, hp, hl⟩ := h
    rw [collect, ih hl, forall_update_iff acc (p := fun x r => x ∈ i :: l.map fst → P r), hP]
    constructor
    · rintro ⟨hpy, hrest⟩ x hx
      rcases eq_or_ne x p with rfl | hxp
      · exact (hpy hp).1
      rcases eq_or_ne x y with rfl | hxy
      · exact (hpy hp).2
      · exact hrest x hxp (by simpa [hxy] using hx)
    · intro hall
      have hold : ∀ x ∈ i :: l.map fst, P (acc x) := fun x hx =>
        hall x (by simp only [List.mem_cons] at hx ⊢; tauto)
      exact ⟨fun _ => ⟨hold p hp, hall y (by simp)⟩, fun x _ => hold x⟩

variable {rq : Request V}

/-- The set that is committed: what was left over, and the other diskful primaries. -/
theorem Flood.mem_primaries (h : Flood c rq.initiator w) (v : V) :
    v ∈ (w.collected c rq).diskfulPrimaryNodes ↔
      v ∈ rq.stale ∨ v ∈ w.nodes rq.initiator ∧ v ≠ rq.initiator ∧ c.diskful v = true ∧ c.primary v = true := by
  have hnot := collect_iff (P := fun r => v ∉ r.diskfulPrimaryNodes) (by simp [gotReply]) h.inv.tree (ownReply c rq)
  rw [← not_iff_not, Wave.collected, hnot]
  constructor
  · rintro hall (hst | ⟨hv, hi, hd, hp⟩)
    · exact hall _ List.mem_cons_self (by simpa [ownReply] using hst)
    · exact hall v hv (by simp [ownReply, hi, hd, hp])
  intro hno x hx hmem
  obtain ⟨hst, hrest⟩ := not_or.mp hno
  by_cases hi : x = rq.initiator
  · exact hst (by simpa [ownReply, hi] using hmem)
  · cases hd : c.diskful x <;> cases hp : c.primary x <;> simp [ownReply, hi, hd, hp] at hmem
    exact hrest ⟨hmem ▸ hx, hmem ▸ hi, hmem ▸ hd, hmem ▸ hp⟩

/-- The size that is collected: no node's maximum is below it. -/
theorem Flood.le_maxPossible (h : Flood c rq.initiator w) (b : Nat) :
    b ≤ (w.collected c rq).maxPossibleSize ↔
      ∀ x ∈ w.nodes rq.initiator, b ≤ (ownReply c rq x).maxPossibleSize :=
  collect_iff (P := fun r => b ≤ r.maxPossibleSize) (by simp [gotReply]) h.inv.tree _

/-! ## Commit -/

def minNotZero (a b : Nat) : Nat :=
  if a = 0 then b else if b = 0 then a else min a b

/-- The size that is committed. -/
def Wave.newSize (c : Cluster V) (rq : Request V) : Nat :=
  minNotZero (w.collected c rq).maxPossibleSize rq.userSize

inductive DevSize where
  | error
  | unchanged
  | shrunk
  | grew
  | grewFromZero
  deriving DecidableEq

/-- `bsr_determine_dev_size` with `DDSF_2PC`: its result and the capacity of the device. The
metadata buffer is taken to be available. -/
def determineDevSize (c : Cluster V) (rs : Bool) (userSize size : Nat) (x : V) : DevSize × Nat :=
  if size < c.effective x ∧ (rs = true ∧ userSize = 0 ∨ size < userSize) then (.error, c.capacity x)
  else if c.capacity x ≠ size ∧ c.bitmap x = false then (.error, c.capacity x)
  else if c.effective x < size then (if c.effective x = 0 then .grewFromZero else .grew, size)
  else (if size < c.effective x then .shrunk else .unchanged, size)

/-- `bsr_commit_size_change` up to the choice of the sides. -/
def Wave.commit (c : Cluster V) (rq : Request V) (x : V) : DevSize × Nat :=
  if c.diskful x then
    determineDevSize c (rq.layout && decide (x = rq.initiator)) rq.userSize (w.newSize c rq) x
  else (.unchanged, w.newSize c rq)

inductive Side where
  | source
  | target
  deriving DecidableEq

/-- The loop of `bsr_commit_size_change` on `x` for the peer `y`. -/
def resyncSide (c : Cluster V) (parents primaries reach : Finset V) (x y : V) : Option Side :=
  if primaries.Nonempty then
    if x ∈ primaries then
      if c.primary y then some (if y < x then .target else .source) else some .source
    else if c.primary y then some .target
    else none
  else if y ∈ parents then some .target
  else if y ∈ reach then some .source
  else none

/-- The nodes that a node is to reach, as `bsr_commit_size_change` gets them; `m` are those in the
commits. -/
def reachable (c : Cluster V) (i : V) (m : V → Finset V) (x : V) : Finset V :=
  if x = i then c.connected x else nested c x (m x)

/-- The resync that `x` starts with `y`. -/
def Wave.starts (c : Cluster V) (rq : Request V) (m : V → Finset V) (x y : V) : Option Side :=
  if (w.commit c rq x).1 = .grew ∧ rq.noResync = false ∧ y ∈ c.established x ∧ c.diskful y = true then
    resyncSide c (w.parents x) (w.collected c rq).diskfulPrimaryNodes (reachable c rq.initiator m x) x y
  else none

/-! ## Agreement -/

/-- An established pair of diskful nodes that have grown. -/
structure Wave.Pair (w : Wave V) (c : Cluster V) (rq : Request V) (x y : V) : Prop where
  left : x ∈ w.nodes rq.initiator
  right : y ∈ w.nodes rq.initiator
  established : y ∈ c.established x
  diskful : c.diskful x = true ∧ c.diskful y = true
  grew : (w.commit c rq x).1 = .grew ∧ (w.commit c rq y).1 = .grew

omit [Fintype V] in
theorem Wave.Pair.symm {x y : V} (h : w.Pair c rq x y) : w.Pair c rq y x :=
  ⟨h.right, h.left, c.established_symm x y h.established, h.diskful.symm, h.grew.symm⟩

/-- No resync, or one with a source and a target that is not a primary below a secondary. -/
def Matches (c : Cluster V) (x y : V) (s t : Option Side) : Prop :=
  (s = none ∧ t = none ∨ s = some .source ∧ t = some .target ∨ s = some .target ∧ t = some .source) ∧
    (c.primary x = true → c.primary y = false → s ≠ some .target) ∧
    (c.primary y = true → c.primary x = false → t ≠ some .target)

/-- The nodes agree on the outcome of the resize. -/
structure Wave.Agrees (w : Wave V) (c : Cluster V) (rq : Request V) (m : V → Finset V) : Prop where
  same : ∀ x ∈ w.nodes rq.initiator, (w.commit c rq x).2 = w.newSize c rq
  user : rq.userSize ≠ 0 → w.newSize c rq ≤ rq.userSize
  fits : ∀ x ∈ w.nodes rq.initiator, c.diskful x = true → w.newSize c rq ≤ c.localMax x
  sides : ∀ x y, w.Pair c rq x y → Matches c x y (w.starts c rq m x y) (w.starts c rq m y x)

/-- The set of primaries says of both nodes what they are, or it misses or adds only one that has
the larger id and faces a primary that it names. -/
def Told (c : Cluster V) (primaries : Finset V) (x y : V) : Prop :=
  (x ∈ primaries ↔ c.primary x = true) ∧ (y ∈ primaries ↔ c.primary y = true) ∨
  x < y ∧ x ∈ primaries ∧ c.primary x = true ∧ (y ∈ primaries ↔ c.primary y = false) ∨
  y < x ∧ y ∈ primaries ∧ c.primary y = true ∧ (x ∈ primaries ↔ c.primary x = false)

omit [Fintype V] in
theorem matches_told {primaries : Finset V} (hne : primaries.Nonempty) {x y : V} (hxy : x ≠ y)
    (p q r s : Finset V) :
    Matches c x y (resyncSide c p primaries q x y) (resyncSide c r primaries s y x) ↔ Told c primaries x y := by
  rcases lt_or_gt_of_ne hxy with hlt | hlt <;>
    by_cases hx : x ∈ primaries <;> by_cases hy : y ∈ primaries <;>
    cases hpx : c.primary x <;> cases hpy : c.primary y <;>
    simp [Matches, resyncSide, Told, hne, hx, hy, hpx, hpy, hlt, hlt.not_gt]

omit [Fintype V] [LinearOrder V] in
theorem determineDevSize_size_iff (c : Cluster V) (rs : Bool) (userSize size : Nat) (x : V) :
    (determineDevSize c rs userSize size x).2 = size ↔ c.capacity x = size ∨
      ¬(size < c.effective x ∧ (rs = true ∧ userSize = 0 ∨ size < userSize)) ∧ c.bitmap x = true := by
  unfold determineDevSize
  by_cases hshrink : size < c.effective x ∧ (rs = true ∧ userSize = 0 ∨ size < userSize)
  · rw [if_pos hshrink]
    tauto
  rw [if_neg hshrink]
  by_cases hcap : c.capacity x = size
  · simp only [hcap, ne_eq, not_true_eq_false, false_and, if_false, true_or, iff_true]
    split <;> rfl
  cases hbm : c.bitmap x
  · simp [hcap]
  simp only [ne_eq, hcap, not_false_eq_true, Bool.true_eq_false, and_false, if_false, hshrink,
    and_self, or_true, iff_true]
  split <;> rfl

section Committed

variable {c : Cluster V} {rq : Request V} {w : Wave V} {m : V → Finset V} {x y : V}

/-- With a maximum of 0 among the replies `min_not_zero` takes the size of the user. -/
theorem Flood.fits_iff (h : Flood c rq.initiator w) (hdisk : c.diskful rq.initiator = true) :
    (∀ x ∈ w.nodes rq.initiator, c.diskful x = true → w.newSize c rq ≤ c.localMax x) ↔
      rq.userSize = 0 ∨ ∀ x ∈ w.nodes rq.initiator, c.diskful x = true → 0 < c.localMax x := by
  have hown : ∀ x, c.diskful x = true → (ownReply c rq x).maxPossibleSize = c.localMax x := by
    intro x hx
    by_cases hi : x = rq.initiator <;> simp [ownReply, hi, hx]
  have hle : ∀ x ∈ w.nodes rq.initiator, c.diskful x = true → (w.collected c rq).maxPossibleSize ≤ c.localMax x :=
    fun x hx hd => hown x hd ▸ (h.le_maxPossible _).mp le_rfl x hx
  constructor
  · intro hfits
    by_contra hno
    push Not at hno
    obtain ⟨_, x, hx, hd, hzero⟩ := hno
    have hmax : (w.collected c rq).maxPossibleSize = 0 := by have := hle x hx hd; omega
    have hnew : w.newSize c rq ≤ 0 := (hfits x hx hd).trans hzero
    rw [newSize, hmax, minNotZero, if_pos rfl] at hnew
    omega
  · intro hroom x hx hd
    have hmax := hle x hx hd
    have hpos : rq.userSize = 0 ∨ 1 ≤ (w.collected c rq).maxPossibleSize := by
      refine hroom.imp_right fun hall => (h.le_maxPossible 1).mpr fun z hz => ?_
      by_cases hdz : c.diskful z = true
      · exact hown z hdz ▸ hall z hz hdz
      · have hzi : z ≠ rq.initiator := fun heq => hdz (heq ▸ hdisk)
        simp [ownReply, hzi, hdz, Bitmap.maxSectorsFlex]
    unfold newSize minNotZero
    split_ifs <;> omega

omit [Fintype V] in
theorem Wave.Pair.starts_eq (hp : w.Pair c rq x y) (hre : rq.noResync = false) : w.starts c rq m x y =
      resyncSide c (w.parents x) (w.collected c rq).diskfulPrimaryNodes (reachable c rq.initiator m x) x y :=
  if_pos ⟨hp.grew.1, hre, hp.established, hp.diskful.2⟩

/-- Without a set of primaries the prepares decide. The initiator is the source of its peers;
another node is the target of its parents and the source of nobody. -/
theorem Flood.matches_empty (h : Flood c rq.initiator w)
    (hall : ∀ y ∈ c.connected rq.initiator, rq.initiator ∈ w.parents y)
    (hempty : ¬(w.collected c rq).diskfulPrimaryNodes.Nonempty) (hp : w.Pair c rq x y)
    (hre : rq.noResync = false) : Matches c x y (w.starts c rq m x y) (w.starts c rq m y x) ↔
      (x ≠ rq.initiator → y ≠ rq.initiator → y ∉ w.parents x ∧ x ∉ w.parents y) := by
  have hsecondary : ∀ {x y}, w.Pair c rq x y → x ≠ rq.initiator → c.primary x = false := by
    intro x y hp hi
    by_contra hx
    exact hempty ⟨x, (h.mem_primaries x).mpr (.inr ⟨hp.left, hi, hp.diskful.1, by simpa using hx⟩)⟩
  have hroot : ∀ {y}, w.Pair c rq rq.initiator y →
      w.starts c rq m rq.initiator y = some .source ∧ w.starts c rq m y rq.initiator = some .target := by
    intro y hp
    have hconn := c.established_subset _ hp.established
    rw [hp.starts_eq hre, hp.symm.starts_eq hre]
    simp [resyncSide, hempty, h.inv.root, reachable, hconn, hall y hconn]
  have hother : ∀ {x y}, w.Pair c rq x y → x ≠ rq.initiator →
      w.starts c rq m x y = if y ∈ w.parents x then some .target else none := by
    intro x y hp hi
    have hconn := c.established_subset _ hp.established
    have hpassed : y ∉ nested c x (m x) := by
      simp only [nested, mem_sdiff, mem_insert, mem_inter, hconn]
      tauto
    rw [hp.starts_eq hre]
    simp [resyncSide, hempty, reachable, hi, hpassed]
  have hne : x ≠ y := fun heq => c.irrefl x (c.established_subset x (heq ▸ hp.established))
  by_cases hx : x = rq.initiator
  · subst hx
    simp [Matches, hroot hp, hsecondary hp.symm hne.symm]
  by_cases hy : y = rq.initiator
  · subst hy
    simp [Matches, hroot hp.symm, hsecondary hp hne]
  · by_cases hxy : y ∈ w.parents x <;> by_cases hyx : x ∈ w.parents y <;>
      simp [Matches, hother hp hx, hother hp.symm hy, hxy, hyx, hx, hy]

/-- When the nodes agree: no disk refuses the size; no maximum is 0 if the user gives a size; and
the set of primaries is right for every pair, or, if it is empty, no pair without the initiator has
passed the prepare on. -/
structure Wave.Sound (w : Wave V) (c : Cluster V) (rq : Request V) : Prop where
  taken : ∀ x ∈ w.nodes rq.initiator, c.diskful x = true → c.capacity x = w.newSize c rq ∨
    ¬(w.newSize c rq < c.effective x ∧
      ((rq.layout && decide (x = rq.initiator)) = true ∧ rq.userSize = 0 ∨ w.newSize c rq < rq.userSize)) ∧
    c.bitmap x = true
  room : rq.userSize = 0 ∨ ∀ x ∈ w.nodes rq.initiator, c.diskful x = true → 0 < c.localMax x
  told : rq.noResync = false → (w.collected c rq).diskfulPrimaryNodes.Nonempty →
    ∀ x y, w.Pair c rq x y → Told c (w.collected c rq).diskfulPrimaryNodes x y
  direct : rq.noResync = false → ¬(w.collected c rq).diskfulPrimaryNodes.Nonempty →
    ∀ x y, w.Pair c rq x y → x ≠ rq.initiator → y ≠ rq.initiator → y ∉ w.parents x ∧ x ∉ w.parents y

end Committed

/-- A committed resize: every peer of the initiator has taken its prepare, and the nodes agree
exactly if the resize is sound. -/
theorem resize_agrees_iff (c : Cluster V) (rq : Request V) (w : Wave V) (m : V → Finset V)
    (h : Flood c rq.initiator w) (hall : ∀ y ∈ c.connected rq.initiator, rq.initiator ∈ w.parents y)
    (hdisk : c.diskful rq.initiator = true) : w.Agrees c rq m ↔ w.Sound c rq := by
  have hne : ∀ {x y}, w.Pair c rq x y → x ≠ y := fun {x y} hp heq =>
    c.irrefl x (c.established_subset x (heq ▸ hp.established))
  have hsame : ∀ x, (w.commit c rq x).2 = w.newSize c rq ↔ (c.diskful x = true →
      (determineDevSize c (rq.layout && decide (x = rq.initiator)) rq.userSize (w.newSize c rq) x).2 =
        w.newSize c rq) := by
    intro x
    cases hx : c.diskful x <;> simp [commit, hx]
  constructor
  · intro hagree
    refine ⟨fun x hx hd => (determineDevSize_size_iff ..).mp ((hsame x).mp (hagree.same x hx) hd),
      (h.fits_iff hdisk).mp hagree.fits, fun hre hprim x y hp => ?_, fun hre hempty x y hp => ?_⟩
    · have hside := hagree.sides x y hp
      rw [hp.starts_eq hre, hp.symm.starts_eq hre] at hside
      exact (matches_told hprim (hne hp) ..).mp hside
    · exact (h.matches_empty hall hempty hp hre).mp (hagree.sides x y hp)
  · intro hsound
    refine ⟨fun x hx => (hsame x).mpr fun hd => (determineDevSize_size_iff ..).mpr
      (hsound.taken x hx hd), ?_, (h.fits_iff hdisk).mpr hsound.room, fun x y hp => ?_⟩
    · intro _
      unfold newSize minNotZero
      split_ifs <;> omega
    cases hre : rq.noResync with
    | true => simp [Matches, starts, hre]
    | false =>
      by_cases hprim : (w.collected c rq).diskfulPrimaryNodes.Nonempty
      · rw [hp.starts_eq hre, hp.symm.starts_eq hre]
        exact (matches_told hprim (hne hp) ..).mpr (hsound.told hre hprim x y hp)
      · exact (h.matches_empty hall hprim hp hre).mpr (hsound.direct hre hprim x y hp)

/-- `n` secondaries of 100 sectors that can have 200. -/
def secondaries (n : Nat) (connected : Fin n → Finset (Fin n)) (symm : ∀ x y, y ∈ connected x → x ∈ connected y)
    (irrefl : ∀ x, x ∉ connected x) : Cluster (Fin n) :=
  ⟨connected, symm, irrefl, connected, symm, fun _ => subset_rfl, fun _ => true,
    fun _ => false, fun _ => 200, fun _ => 100, fun _ => 100, fun _ => true⟩

/-- Two connected nodes. -/
theorem resize_agrees_two : ∃ (c : Cluster (Fin 2)) (rq : Request (Fin 2)) (w : Wave (Fin 2)),
    Flood c rq.initiator w ∧ w.newSize c rq = 200 ∧ (w.Agrees c rq fun _ => ∅) := by
  let c := secondaries 2 (fun x => {x + 1}) (by decide) (by decide)
  let rq : Request (Fin 2) := ⟨0, 0, false, false, ∅⟩
  have h : Flood c 0 (.take c _ 0 1 univ) := .take .start rfl (by decide)
  refine ⟨c, rq, _, h, by decide, (resize_agrees_iff c rq _ _ h (by decide) rfl).mpr ⟨?_, ?_, ?_, ?_⟩⟩
  · decide
  · exact .inl rfl
  · intro _ hprim
    exact absurd hprim (by decide)
  · intro _ _ x y hp _ _
    have hxy : x = y := by omega
    exact absurd (c.established_subset x hp.established) (hxy ▸ c.irrefl x)

/-- Three nodes in a row, the first one resizes: the last node becomes a target of the one in the
middle, which starts no resync with it. -/
theorem resize_disagrees_row : ∃ (c : Cluster (Fin 3)) (rq : Request (Fin 3)) (w : Wave (Fin 3)),
    Flood c rq.initiator w ∧ (∀ y ∈ c.connected rq.initiator, rq.initiator ∈ w.parents y) ∧
    (∀ x, c.diskful x = true ∧ c.primary x = false) ∧ w.newSize c rq = 200 ∧
    (w.starts c rq (fun x => if x = 1 then {2} else ∅) 1 2 = none ∧
      w.starts c rq (fun x => if x = 1 then {2} else ∅) 2 1 = some .target) ∧
    ¬w.Agrees c rq fun x => if x = 1 then {2} else ∅ := by
  let c := secondaries 3 (fun x => if x = 1 then {0, 2} else {1}) (by decide) (by decide)
  let rq : Request (Fin 3) := ⟨0, 0, false, false, ∅⟩
  have h₁ : Flood c 0 (.take c _ 0 1 univ) := .take .start rfl (by decide)
  have h₂ : Flood c 0 (.take c _ 1 2 {2}) := .take h₁ (by decide) (by decide)
  refine ⟨c, rq, _, h₂, by decide, by decide, by decide, by decide, fun hagree => ?_⟩
  have hside := (hagree.sides 1 2 ⟨by decide, by decide, by decide, by decide, by decide⟩).1
  exact absurd hside (by decide)

end Bsr.Twopc.Resize
