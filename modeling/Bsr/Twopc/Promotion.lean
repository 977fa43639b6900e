import Bsr.Twopc.Decision

/-!
# When a promotion is committed

`change_role` makes a node primary by a cluster-wide change. After all have agreed, the coordinator
adds itself to the collected primary nodes and looks at them twice: `primary_nodes_allowed` wants
`two_primaries` for every peer that is primary, `check_primaries_distances` wants all primaries to
be neighbours, or to share a server.

* `checkReplies` keeps both results in one variable, so that only the second counts;
* `committing_iff`: the promotion goes through exactly when the votes and the second check agree;
* `Overruled` are the replies where the first check would have said no.
-/

namespace Bsr.Twopc

open State

/-- The context of `change_role` with `R_PRIMARY`. -/
def promoting (nodeId : Nat) (dontRetry : Bool) : Context where
  nodeId := nodeId
  role := some .primary
  dontRetry := dontRetry

/-- The replies with the new primary in them. -/
def collected (nodeId : Nat) (s : Coord) : Reply :=
  { s.reply with
    primaryNodes := s.reply.primaryNodes ||| nodeMask nodeId
    weakNodes := s.reply.weakNodes ||| ~~~(directlyConnectedNodes s.conns ||| nodeMask nodeId) }

/-- The change is on its way to the other nodes, or is made here. -/
def Coord.Committing (s : Coord) : Prop :=
  (∃ todo after, s.pc = .phase2 true todo after) ∨
    (∃ rv, rv.isSuccess = true ∧ s.pc = .localChange rv) ∨ s.pc = .hardChange

/-- The votes are read and the decision is taken. -/
def readAndConclude (ctx : Context) (haveLocalDisk : Bool) (s : Coord) : Coord :=
  let s' := readVotes ctx haveLocalDisk s
  match s'.pc with
  | .result rv => conclude ctx rv s'
  | _ => s'

section Decision

variable {nodeId : Nat} {dontRetry haveLocalDisk : Bool} {s : Coord}

/-- The result of the checks for a promotion: the second one alone. -/
theorem checkReplies_promoting : (checkReplies (promoting nodeId dontRetry) haveLocalDisk s).1 =
      checkPrimariesDistances nodeId haveLocalDisk (collected nodeId s) s.conns := rfl

/-- A promotion is committed exactly if its result is a success. -/
theorem committing_conclude_iff {rv : StateRv} :
    (conclude (promoting nodeId dontRetry) rv s).Committing ↔ rv.isSuccess = true := by
  have hdisc : (promoting nodeId dontRetry).disconnecting = false := rfl
  unfold conclude
  rw [hdisc, Bool.false_and, if_neg Bool.false_ne_true]
  by_cases hretry : (isRetry rv && !(promoting nodeId dontRetry).dontRetry) = true
  · -- a retry aborts what was prepared, or returns
    have hfail : rv.isSuccess = false := by
      cases rv <;> simp [isRetry] at hretry <;> rfl
    rw [if_pos hretry, hfail]
    cases hpeers : s.havePeers <;> simp [Coord.Committing]
  · rw [if_neg hretry]
    split_ifs <;> simp [Coord.Committing]

/-- The promotion is committed exactly if all agree and the second check does. -/
theorem committing_iff : (readAndConclude (promoting nodeId dontRetry) haveLocalDisk s).Committing ↔
      getClusterWideReply s.abortLocal false s.conns = .cwSuccess ∧
        (checkPrimariesDistances nodeId haveLocalDisk (collected nodeId s) s.conns).isSuccess = true := by
  have hdisc : (promoting nodeId dontRetry).disconnecting = false := rfl
  unfold readAndConclude readVotes
  rw [committing_conclude_iff, hdisc]
  split_ifs with hvotes
  · rw [checkReplies_promoting]
    simp [hvotes]
  · exact ⟨fun h => absurd (isSuccess_getClusterWideReply h) hvotes, fun h => absurd h.1 hvotes⟩

theorem isSuccess_primaryNodesAllowed_iff {reply : Reply} {cs : List Conn} :
    (primaryNodesAllowed reply cs).isSuccess = true ↔
      ¬ ∃ c ∈ cs, hasNode reply.primaryNodes c.peerNodeId = true ∧ c.twoPrimaries = false := by
  unfold primaryNodesAllowed
  split_ifs with hany
  · rw [List.any_eq_true] at hany
    simpa [StateRv.isSuccess] using hany
  · rw [List.any_eq_true] at hany
    simpa [StateRv.isSuccess] using hany

end Decision

/-- All agree and the primaries are near enough, but one of them is a peer that must not be primary
as well. -/
def Overruled (nodeId : Nat) (haveLocalDisk : Bool) (s : Coord) : Prop :=
  getClusterWideReply s.abortLocal false s.conns = .cwSuccess ∧
    (checkPrimariesDistances nodeId haveLocalDisk (collected nodeId s) s.conns).isSuccess = true ∧
      ∃ c ∈ s.conns, hasNode (collected nodeId s).primaryNodes c.peerNodeId = true ∧ c.twoPrimaries = false

/-- A promotion is committed only after both checks, except for the replies that are overruled. -/
theorem promotion_needs_both_checks (nodeId : Nat) (dontRetry haveLocalDisk : Bool) (s : Coord) :
    ((readAndConclude (promoting nodeId dontRetry) haveLocalDisk s).Committing →
        (primaryNodesAllowed (collected nodeId s) s.conns).isSuccess = true ∧
          (checkPrimariesDistances nodeId haveLocalDisk (collected nodeId s) s.conns).isSuccess =
      true) ↔ ¬ Overruled nodeId haveLocalDisk s := by
  rw [committing_iff, isSuccess_primaryNodesAllowed_iff]
  constructor
  · rintro h ⟨hvotes, hnear, hpeer⟩
    exact (h ⟨hvotes, hnear⟩).1 hpeer
  · rintro h ⟨hvotes, hnear⟩
    exact ⟨fun hpeer => h ⟨hvotes, hnear, hpeer⟩, hnear⟩

/-- Nodes 0 and 1 are diskless and share the server 2, which allows two primaries; the connection
between them is configured without, and is not established. -/
def hypervisor : Coord where
  conns := [⟨1, 110, .connecting, .unknown, false, false, false, false, false⟩,
    ⟨2, 110, .connected, .secondary, true, false, false, false, false⟩]

theorem hypervisor_start (ctx : Context) : CoordReachable ctx hypervisor :=
  .start ⟨rfl, rfl, rfl, rfl, rfl, rfl, by decide, by decide⟩

/-- Node 1 is primary, and the server reports it: node 0 becomes primary although
`primary_nodes_allowed` says no. -/
theorem promotion_overrules_first_check : ∃ s, CoordReachable (promoting 0 false) s ∧
    s.pc = .votes ∧ (primaryNodesAllowed (collected 0 s) s.conns) = .twoPrimaries ∧
      (readAndConclude (promoting 0 false) false s).pc = .phase2 true [1, 2] (.localChange .success) := by
  obtain ⟨s, hrun, hrest⟩ : ∃ s, runCoord (promoting 0 false) hypervisor
      [.begin none .success false, .request true, .request true, .request true,
        .vote 2 .yes 6 2 (~~~6), .ready] = some s ∧ s.pc = .votes ∧
      (primaryNodesAllowed (collected 0 s) s.conns) = .twoPrimaries ∧
        (readAndConclude (promoting 0 false) false s).pc = .phase2 true [1, 2] (.localChange .success) :=
    ⟨_, rfl, by decide⟩
  exact ⟨s, reachable_runCoord (hypervisor_start _) hrun, hrest⟩

end Bsr.Twopc
