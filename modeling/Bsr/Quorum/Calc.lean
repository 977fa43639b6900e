import Bsr.Handshake.Uuids
import Bsr.Request.Model

/-!
# Quorum

`calc_quorum` of `bsr_state.c`: a node counts the nodes it is configured with, itself included, and
compares the votes with a threshold.

* `tally` is the loop over the node ids.
* `calcQuorum` is the function.
* `quorum_exclusive`: two groups of nodes which do not see each other do not have the quorum at the
  same time, as far as nodes are concerned which are not outdated.
* `calc_quorum_mono`: more votes do not cost the quorum.
-/

namespace Bsr.Quorum

open Finset

open Handshake (NodeId)
open Request (DiskState)

def qouOff : Int := 0
def qouMajority : Int := 1024
def qouAll : Int := 1025

/-- What `calc_quorum` reads of a device: `bitmap_index` of a peer (`none` for -1) and its flag
`MDF_NODE_EXISTS` in the meta data, and the disk state of the peer device, if there is one. -/
structure QuorumView where
  myNodeId : NodeId
  bitmapIndex : NodeId → Option Nat
  nodeExists : NodeId → Bool
  peerDisk : NodeId → Option DiskState

namespace QuorumView

def configured (v : QuorumView) (i : NodeId) : Bool :=
  (v.bitmapIndex i).isSome || v.nodeExists i

def sees (v : QuorumView) (i : NodeId) : DiskState :=
  (v.peerDisk i).getD .unknown

end QuorumView

structure Tally where
  votes : Nat := 0
  outdated : Nat := 0
  unknown : Nat := 0
deriving DecidableEq, Repr

def countNode (v : QuorumView) (t : Tally) (i : NodeId) : Tally :=
  if i = v.myNodeId then { t with votes := t.votes + 1 }
  else if !v.configured i then t
  else if v.sees i = .outdated then { t with outdated := t.outdated + 1 }
  else if v.sees i = .unknown ∨ (v.sees i).rank ≤ DiskState.failed.rank then
    { t with unknown := t.unknown + 1 }
  else { t with votes := t.votes + 1 }

def tally (v : QuorumView) : Tally :=
  (List.finRange 32).foldl (countNode v) {}

/-- `voters`: absent nodes count only if there is one nothing is known of. -/
def Tally.voters (t : Tally) : Nat :=
  if t.unknown ≠ 0 then t.outdated + t.unknown + t.votes else t.votes

def quorumAt (quorum : Int) (voters : Nat) : Int :=
  if quorum = qouMajority then (voters / 2 + 1 : Nat)
  else if quorum = qouAll then voters
  else quorum

def calcQuorum (quorum : Int) (v : QuorumView) : Bool :=
  decide (quorumAt quorum (tally v).voters ≤ (tally v).votes)

/-! ### What the loop counts -/

/-- Node `i` has a vote in the count of `v`. -/
def Votes (v : QuorumView) (i : NodeId) : Prop :=
  i = v.myNodeId ∨ v.configured i = true ∧ v.sees i ≠ .outdated ∧ v.sees i ≠ .unknown ∧
    DiskState.failed.rank < (v.sees i).rank

/-- Node `i` is absent, and nothing is known of its disk. -/
def Lost (v : QuorumView) (i : NodeId) : Prop :=
  i ≠ v.myNodeId ∧ v.configured i = true ∧ v.sees i ≠ .outdated ∧
    (v.sees i = .unknown ∨ (v.sees i).rank ≤ DiskState.failed.rank)

/-- Node `i` is one of those the count is about. -/
def Counted (v : QuorumView) (i : NodeId) : Prop :=
  i = v.myNodeId ∨ v.configured i = true

instance (v : QuorumView) : DecidablePred (Votes v) := fun i => by unfold Votes; infer_instance
instance (v : QuorumView) : DecidablePred (Lost v) := fun i => by unfold Lost; infer_instance
instance (v : QuorumView) : DecidablePred (Counted v) := fun i => by
  unfold Counted; infer_instance

section

variable (v : QuorumView)

include v

theorem countNode_votes (t : Tally) (i : NodeId) :
    (countNode v t i).votes = t.votes + if Votes v i then 1 else 0 := by
  unfold countNode Votes
  split_ifs <;> simp_all
  omega

theorem countNode_unknown (t : Tally) (i : NodeId) :
    (countNode v t i).unknown = t.unknown + if Lost v i then 1 else 0 := by
  unfold countNode Lost
  split_ifs <;> simp_all

theorem countNode_total (t : Tally) (i : NodeId) :
    (countNode v t i).outdated + (countNode v t i).unknown + (countNode v t i).votes =
      t.outdated + t.unknown + t.votes + if Counted v i then 1 else 0 := by
  unfold countNode Counted
  split_ifs <;> simp_all <;> omega

/-- A number which grows by one at the nodes of `p` ends as the number of those nodes. -/
theorem foldl_countNode {p : NodeId → Prop} [DecidablePred p] (f : Tally → Nat)
    (hf : ∀ t i, f (countNode v t i) = f t + if p i then 1 else 0) (h0 : f {} = 0) :
    f (tally v) = (univ.filter p).card := by
  have hfold : ∀ (l : List NodeId) (t : Tally),
      f (l.foldl (countNode v) t) = f t + l.countP (fun i => decide (p i)) := by
    intro l
    induction l with
    | nil => simp
    | cons i l ih =>
      intro t
      rw [List.foldl_cons, ih, hf, List.countP_cons]
      simp only [decide_eq_true_eq]
      omega
  rw [tally, hfold, h0, card_def, Fin.univ_def]
  simp [List.countP_eq_length_filter]

theorem tally_votes : (tally v).votes = (univ.filter (Votes v)).card :=
  foldl_countNode v Tally.votes (countNode_votes v) rfl

theorem tally_unknown : (tally v).unknown = (univ.filter (Lost v)).card :=
  foldl_countNode v Tally.unknown (countNode_unknown v) rfl

theorem tally_total : (tally v).outdated + (tally v).unknown + (tally v).votes =
      (univ.filter (Counted v)).card :=
  foldl_countNode v (fun t => t.outdated + t.unknown + t.votes) (countNode_total v) rfl

end

/-- One node nothing is known of is enough for every configured node to be a voter. -/
theorem voters_of_lost {v : QuorumView} {i : NodeId} (hi : Lost v i) :
    (tally v).voters = (univ.filter (Counted v)).card := by
  have hpos : (tally v).unknown ≠ 0 := by
    rw [tally_unknown]
    exact card_ne_zero_of_mem (mem_filter.2 ⟨mem_univ i, hi⟩)
  rw [Tally.voters, if_pos hpos, tally_total]

/-! ### Two groups -/

/-- Nodes which are configured alike, in two groups that do not see each other. A node is taken for
outdated only if it is. -/
structure Split (A B : Finset NodeId) (outdated : NodeId → Prop) (view : NodeId → QuorumView) :
    Prop where
  disjoint : Disjoint A B
  self : ∀ n ∈ A ∪ B, (view n).myNodeId = n
  configured : ∀ n ∈ A ∪ B, ∀ i, i ≠ n → ((view n).configured i = true ↔ i ∈ A ∪ B)
  apart : ∀ a ∈ A, ∀ b ∈ B,
    ((view a).sees b = .unknown ∨ (view a).sees b = .outdated) ∧
      ((view b).sees a = .unknown ∨ (view b).sees a = .outdated)
  honest : ∀ n ∈ A ∪ B, ∀ i ∈ A ∪ B, i ≠ n → (view n).sees i = .outdated → outdated i

section Groups

variable {A B : Finset NodeId} {outdated : NodeId → Prop} {view : NodeId → QuorumView}

variable (h : Split A B outdated view)

include h

theorem Split.symm : Split B A outdated view where
  disjoint := h.disjoint.symm
  self := by
    rw [union_comm]
    exact h.self
  configured := by
    rw [union_comm]
    exact h.configured
  apart := fun b hb a ha => (h.apart a ha b hb).symm
  honest := by
    rw [union_comm]
    exact h.honest

theorem Split.counted {n : NodeId} (hn : n ∈ A ∪ B) :
    univ.filter (Counted (view n)) = A ∪ B := by
  ext i
  rw [mem_filter, Counted, h.self n hn]
  by_cases hi : i = n
  · subst hi
    simp [mem_union.1 hn]
  · simp only [mem_univ, true_and, hi, false_or]
    exact h.configured n hn i hi

theorem Split.votes_le {a : NodeId} (ha : a ∈ A) : (tally (view a)).votes ≤ A.card := by
  rw [tally_votes]
  refine card_le_card fun i hi => ?_
  have hself : (view a).myNodeId = a := h.self a (mem_union_left _ ha)
  rcases (mem_filter.1 hi).2 with heq | ⟨hconf, hout, hunk, -⟩
  · rwa [heq, hself]
  by_cases hia : i = a
  · rwa [hia]
  rcases mem_union.1 ((h.configured a (mem_union_left _ ha) i hia).1 hconf) with
    hA | hB
  · exact hA
  · exact absurd (h.apart a ha i hB).1 (by simp [hout, hunk])

/-- A node of `A` takes a node of `B` that is not outdated for lost, so that all nodes are
voters. -/
theorem Split.voters {a b : NodeId} (ha : a ∈ A) (hb : b ∈ B)
    (hfresh : ¬ outdated b) : (tally (view a)).voters = A.card + B.card := by
  have hM : a ∈ A ∪ B := mem_union_left _ ha
  have hMb : b ∈ A ∪ B := mem_union_right _ hb
  have hne : b ≠ a := fun heq => disjoint_left.1 h.disjoint ha (heq ▸ hb)
  have hout : (view a).sees b ≠ .outdated := fun hs => hfresh (h.honest a hM b hMb hne hs)
  have hlost : Lost (view a) b := by
    refine ⟨?_, (h.configured a hM b hne).2 hMb, hout, .inl ?_⟩
    · rwa [h.self a hM]
    · exact (h.apart a ha b hb).1.resolve_right hout
  rw [voters_of_lost hlost, h.counted hM, card_union_of_disjoint h.disjoint]

end Groups

/-- The votes of two groups do not both reach the threshold. -/
theorem quorumAt_exclusive {quorum : Int} {x y m n : Nat} (hx : x ≤ m) (hy : y ≤ n) (hn : 0 < n)
    (hq : quorum = qouMajority ∨ quorum = qouAll ∨ ((m + n : Nat) : Int) < 2 * quorum) :
    ¬ (quorumAt quorum (m + n) ≤ x ∧ quorumAt quorum (m + n) ≤ y) := by
  unfold quorumAt
  omega

/-- With the quorum set to the majority, to all or to a number above half of the nodes,
`calc_quorum` is not true in both groups on nodes which are not outdated. -/
theorem quorum_exclusive (A B : Finset NodeId) (outdated : NodeId → Prop)
    (view : NodeId → QuorumView) (quorum : Int) (h : Split A B outdated view)
    (hq : quorum = qouMajority ∨ quorum = qouAll ∨ (((A ∪ B).card : Nat) : Int) < 2 * quorum)
    (a b : NodeId) (ha : a ∈ A) (hb : b ∈ B) (hfa : ¬ outdated a) (hfb : ¬ outdated b) :
    ¬ (calcQuorum quorum (view a) = true ∧ calcQuorum quorum (view b) = true) := by
  have hva : (tally (view a)).voters = A.card + B.card := h.voters ha hb hfb
  have hvb : (tally (view b)).voters = A.card + B.card := by
    rw [h.symm.voters hb ha hfa, Nat.add_comm]
  rw [card_union_of_disjoint h.disjoint] at hq
  simp only [calcQuorum, decide_eq_true_eq, hva, hvb]
  exact quorumAt_exclusive (h.votes_le ha) (h.symm.votes_le hb)
    (card_pos.2 ⟨b, hb⟩) hq

/-- Three nodes, of which the third is cut off from the first two. -/
def cutOff (n : NodeId) : QuorumView where
  myNodeId := n
  bitmapIndex := fun i => if i < 3 then some i.val else none
  nodeExists := fun _ => false
  peerDisk := fun i => if (i < 2 ↔ n < 2) then some .upToDate else some .unknown

/-- The two connected nodes have quorum, the third has not. -/
theorem quorum_exclusive_three : calcQuorum qouMajority (cutOff 0) = true ∧
      ¬ (calcQuorum qouMajority (cutOff 0) = true ∧ calcQuorum qouMajority (cutOff 2) = true) := by
  refine ⟨by decide +kernel, quorum_exclusive {0, 1} {2} (fun _ => False) cutOff qouMajority
    ⟨by decide, fun _ _ => rfl, ?_, ?_, ?_⟩ (.inl rfl) 0 2 (by decide) (by decide)
    not_false not_false⟩
  · decide +kernel
  · decide +kernel
  · decide +kernel

/-! ### More votes -/

/-- A node that comes up, one that is known to be outdated instead of lost and one that is taken
from the configuration do not cost the quorum, whatever it is set to. -/
theorem calc_quorum_mono (quorum : Int) (v v' : QuorumView) (hcounted : ∀ i, Counted v' i → Counted v i)
    (hvotes : ∀ i, Votes v i → Votes v' i) (hlost : ∀ i, Lost v' i → Lost v i)
    (h : calcQuorum quorum v = true) : calcQuorum quorum v' = true := by
  have hmore : (tally v).votes ≤ (tally v').votes := by
    rw [tally_votes, tally_votes]
    exact card_le_card (monotone_filter_right _ fun i _ => hvotes i)
  have hself : 0 < (tally v').votes := by
    rw [tally_votes]
    exact card_pos.2 ⟨v'.myNodeId, mem_filter.2 ⟨mem_univ _, .inl rfl⟩⟩
  have hvoters : (tally v').voters ≤ (tally v).voters ∨ (tally v').voters = (tally v').votes := by
    by_cases hsome : ∃ i, Lost v' i
    · obtain ⟨i, hi⟩ := hsome
      rw [voters_of_lost hi, voters_of_lost (hlost i hi)]
      exact .inl (card_le_card (monotone_filter_right _ fun i _ => hcounted i))
    · refine .inr (if_neg (not_not.2 ?_))
      rw [tally_unknown, card_eq_zero, filter_eq_empty_iff]
      exact fun i _ hi => hsome ⟨i, hi⟩
  simp only [calcQuorum, decide_eq_true_eq] at h ⊢
  unfold quorumAt at h ⊢
  split_ifs at h ⊢ <;> omega

/-- The third node comes back, and quorum stays. -/
theorem calc_quorum_mono_three :
    calcQuorum qouMajority { cutOff 0 with peerDisk := fun _ => some .upToDate } = true :=
  calc_quorum_mono _ (cutOff 0) _ (by decide +kernel) (by decide +kernel) (by decide +kernel) (by decide +kernel)

end Bsr.Quorum
