import Bsr.Twopc.Coordinator

/-!
# One decision for every node

The invariant of `change_cluster_wide_state`, over all interleavings with votes, losses and
timeouts.

* `Agreed` says what the votes were when the change was committed;
* `AtPc` says what has been sent, for every place where the function can stand;
* `coordinator_decides` is what holds in every reachable state.
-/

namespace Bsr.Twopc

open State Lib Bool

variable {ctx : Context} {s s' : Coord}

/-! ## Masks -/

variable {id : Nat}

open List

theorem mem_of_hasNode_directlyConnected {cs : List Conn}
    (h : hasNode (directlyConnectedNodes cs) id = true) : id ∈ cs.map Conn.peerNodeId := by
  induction cs with
  | nil =>
    rw [hasNode_iff, directlyConnectedNodes] at h
    simp at h
  | cons c cs ih =>
    rw [directlyConnectedNodes] at h
    split_ifs at h with hlost
    · exact mem_cons_of_mem _ (ih h)
    rcases hasNode_or.1 h with hnode | hrest
    · rw [hasNode_nodeMask hnode]
      exact mem_cons_self
    · exact mem_cons_of_mem _ (ih hrest)

/-! ## What other threads do to a connection -/

/-- Votes are added, and nothing is taken back. -/
structure Grows (c c' : Conn) : Prop where
  id : c'.peerNodeId = c.peerNodeId
  prepared : c'.prepared = c.prepared
  yes : c.yes = true → c'.yes = true
  no : c.no = true → c'.no = true
  retry : c.retry = true → c'.retry = true

theorem Grows.refl (c : Conn) : Grows c c :=
  ⟨rfl, rfl, fun h => h, fun h => h, fun h => h⟩

theorem Grows.addVote (v : Vote) (c : Conn) : Grows c (c.addVote v) := by
  cases v
  · exact ⟨rfl, rfl, fun _ => rfl, fun h => h, fun h => h⟩
  · exact ⟨rfl, rfl, fun h => h, fun _ => rfl, fun h => h⟩
  · exact ⟨rfl, rfl, fun h => h, fun h => h, fun _ => rfl⟩

theorem Grows.down (cstate : ConnState) (c : Conn) : Grows c (c.down cstate) :=
  ⟨rfl, rfl, fun h => h, fun h => by simp [Conn.down, h], fun h => h⟩

/-- The other threads leave the function and what it has sent alone. -/
structure Around (s s' : Coord) : Prop where
  conns : ∃ f : Conn → Conn, (∀ c, Grows c (f c)) ∧ s'.conns = s.conns.map f
  pc : s'.pc = s.pc
  reach : s'.reachImmediately = s.reachImmediately
  havePeers : s'.havePeers = s.havePeers
  sent : s'.sent = s.sent
  votes : s'.votes = s.votes
  wokenLocal : s'.wokenLocal = s.wokenLocal
  voteRv : s'.voteRv = s.voteRv

theorem Grows.mod {f : Conn → Conn} (hf : ∀ c, Grows c (f c)) (id : Nat) (c : Conn) :
    Grows c (if c.peerNodeId = id then f c else c) := by
  split_ifs
  · exact hf c
  · exact .refl c

section

variable (h : Around s s')

include h

theorem Around.ids : s'.ids = s.ids := by
  obtain ⟨f, hf, hconns⟩ := h.conns
  rw [Coord.ids, hconns, List.map_map]
  exact map_congr_left fun c _ => (hf c).id

/-! ## The invariant -/

/-- The packets of the second phase. -/
def isDecision (p : Nat × Cmd) : Bool :=
  p.2 == .commit || p.2 == .abort

def Coord.decisions (s : Coord) : List (Nat × Cmd) :=
  s.sent.filter isDecision

/-- What a commit needs of the votes: nobody who was asked refuses or wants a retry, and all agree,
unless the wait was ended by `TWOPC_ABORT_LOCAL` or by the loss of a connection that a disconnect
ignores. -/
def Agreed (ctx : Context) (wokenLocal : Bool) (cs : List Conn) : Prop :=
  ∀ c ∈ cs, c.prepared = true → c.retry = false ∧ c.refuses ctx.disconnecting = false ∧
    (c.yes = true ∨ wokenLocal = true ∨
      ctx.disconnecting = true ∧ ∃ c' ∈ cs, c'.prepared = true ∧ c'.no = true ∧ c'.cstate.isLost = true)

def Decided (ctx : Context) (s : Coord) : Prop :=
  ∃ cs, s.votes = some cs ∧ Agreed ctx s.wokenLocal cs

/-- Why the wait ended. -/
def Woken (s : Coord) : Prop :=
  s.wokenLocal = true ∨ (∃ c ∈ s.conns, c.prepared = true ∧ (c.no = true ∨ c.retry = true)) ∨
    ∀ c ∈ s.conns, c.prepared = true → c.yes = true

/-- The second phase has reached the nodes `ids`. -/
def Told (s : Coord) (success : Bool) (ids : List Nat) : Prop :=
  s.decisions = (ids.filter (hasNode s.reachImmediately)).map fun id => (id, phase2Cmd success)

/-- All nodes were told, after `success` was decided. -/
def Completed (ctx : Context) (s : Coord) : Prop :=
  ∃ success, (success = true → Decided ctx s) ∧ Told s success s.ids

/-- A disconnect that does not wait for the others. -/
def GaveUp (ctx : Context) (s : Coord) : Prop :=
  ctx.disconnecting = true ∧ (s.voteRv = some .timeout ∨ s.voteRv = some .concurrentStChg) ∧ s.decisions = []

/-- What holds where the function stands. -/
def AtPc (ctx : Context) (s : Coord) : Pc → Prop
  | .start => s.decisions = [] ∧ s.havePeers = false
  | .prepare _ | .wait => s.decisions = []
  | .votes => s.decisions = [] ∧ Woken s
  | .result rv => s.decisions = [] ∧ (rv.isSuccess = true → s.havePeers = true → Decided ctx s) ∧
      (isRetry rv = true → s.voteRv = some rv)
  | .phase2 success todo after => s.havePeers = true ∧ (success = true → Decided ctx s) ∧
      (∃ told, s.ids = told ++ todo ∧ Told s success told) ∧
      ∀ rv, after = .localChange rv → ctx.changeLocalStateLast = true
  | .localChange rv => (s.havePeers = true ∧ ctx.changeLocalStateLast = true → Completed ctx s) ∧
      (¬(s.havePeers = true ∧ ctx.changeLocalStateLast = true) →
        s.decisions = [] ∧ (rv.isSuccess = true → s.havePeers = true → Decided ctx s))
  | .hardChange => GaveUp ctx s
  | .done _ => (s.havePeers = true → GaveUp ctx s ∨ Completed ctx s) ∧
      (¬s.havePeers = true → s.decisions = [])

structure Inv (ctx : Context) (s : Coord) : Prop where
  nodup : s.ids.Nodup
  reach : ∀ id, hasNode s.reachImmediately id = true → id ∈ s.ids
  asked : s.havePeers = true ↔ ∃ id, (id, .prepare) ∈ s.sent
  at_pc : AtPc ctx s s.pc

omit h in
theorem Coord.Start.inv (h : s.Start) : Inv ctx s where
  nodup := h.nodup
  reach := fun id hid => by
    rw [h.reach, hasNode_iff] at hid
    simp at hid
  asked := by simp [h.havePeers, h.sent]
  at_pc := by
    rw [h.pc]
    refine ⟨?_, h.havePeers⟩
    rw [Coord.decisions, h.sent]
    rfl

/-! ### Steps of other threads -/

theorem Around.decisions : s'.decisions = s.decisions := by
  rw [Coord.decisions, Coord.decisions, h.sent]

theorem Around.woken (hwoken : Woken s) : Woken s' := by
  obtain ⟨f, hf, hconns⟩ := h.conns
  rw [Woken, h.wokenLocal, hconns]
  rcases hwoken with hlocal | ⟨c, hc, hprep, hvote⟩ | hyes
  · exact .inl hlocal
  · exact .inr (.inl ⟨f c, mem_map_of_mem hc, (hf c).prepared.trans hprep,
      hvote.imp (hf c).no (hf c).retry⟩)
  · refine .inr (.inr fun c' hc' hprep => ?_)
    obtain ⟨c, hc, rfl⟩ := mem_map.1 hc'
    exact (hf c).yes (hyes c hc ((hf c).prepared.symm.trans hprep))

theorem Around.decided : Decided ctx s' ↔ Decided ctx s := by
  rw [Decided, Decided, h.votes, h.wokenLocal]

theorem Around.told (success : Bool) (ids : List Nat) : Told s' success ids ↔ Told s success ids := by
  rw [Told, Told, h.decisions, h.reach]

theorem Around.completed : Completed ctx s' ↔ Completed ctx s := by
  simp only [Completed, h.decided, h.told, h.ids]

theorem Around.gaveUp : GaveUp ctx s' ↔ GaveUp ctx s := by
  rw [GaveUp, GaveUp, h.voteRv, h.decisions]

theorem Around.atPc {pc : Pc} (hpc : AtPc ctx s pc) : AtPc ctx s' pc := by
  cases pc with
  | start => exact ⟨h.decisions.trans hpc.1, h.havePeers.trans hpc.2⟩
  | prepare todo | wait => exact h.decisions.trans hpc
  | votes => exact ⟨h.decisions.trans hpc.1, h.woken hpc.2⟩
  | result rv =>
    simp only [AtPc, h.decisions, h.havePeers, h.decided, h.voteRv]
    exact hpc
  | phase2 success todo after =>
    simp only [AtPc, h.havePeers, h.decided, h.ids, h.told]
    exact hpc
  | localChange rv =>
    simp only [AtPc, h.havePeers, h.completed, h.decisions, h.decided]
    exact hpc
  | hardChange => exact h.gaveUp.2 hpc
  | done rv =>
    simp only [AtPc, h.havePeers, h.gaveUp, h.completed, h.decisions]
    exact hpc

theorem Around.inv (hinv : Inv ctx s) : Inv ctx s' where
  nodup := by
    rw [h.ids]
    exact hinv.nodup
  reach := by
    rw [h.reach, h.ids]
    exact hinv.reach
  asked := by
    rw [h.havePeers, h.sent]
    exact hinv.asked
  at_pc := by
    rw [h.pc]
    exact h.atPc hinv.at_pc

end

/-! ### Steps of the function -/

theorem Inv.done (h : Inv ctx s) (hpc : s.pc = .start) (rv : StateRv) : Inv ctx { s with pc := .done rv } := by
  have hat := h.at_pc
  rw [hpc] at hat
  exact ⟨h.nodup, h.reach, h.asked, fun hpeers => absurd hpeers (by simp [hat.2]), fun _ => hat.1⟩

theorem Inv.beginRequest (h : Inv ctx s) (hpc : s.pc = .start) {reach : BitVec 64}
    (hreach : ∀ id, hasNode reach id = true → id ∈ s.ids) : Inv ctx (beginRequest ctx reach s) := by
  have hat := h.at_pc
  rw [hpc] at hat
  exact ⟨h.nodup, hreach, h.asked, hat.1⟩

theorem Inv.begin (h : Inv ctx s) (hpc : s.pc = .start) (early : Option StateRv) (oldRv : StateRv)
    (busy : Bool) : Inv ctx (begin ctx early oldRv busy s) := by
  have hdirect : ∀ id, hasNode (directlyConnectedNodes s.conns) id = true → id ∈ s.ids :=
    fun id => mem_of_hasNode_directlyConnected
  unfold Twopc.begin
  cases early with
  | some rv => exact h.done hpc rv
  | none =>
    dsimp only
    split_ifs
    · exact h.done hpc _
    · exact h.done hpc _
    · exact h.done hpc _
    · split
      · exact h.beginRequest hpc hdirect
      rename_i t _
      split
      · exact h.done hpc _
      rename_i c hfind
      split_ifs
      · refine h.beginRequest hpc fun id hid => ?_
        rcases hasNode_or.1 hid with hid | hid
        · exact hdirect id hid
        -- the target has a connection
        have hid := hasNode_nodeMask hid
        have hnode : c.peerNodeId = t := by simpa using find?_some hfind
        rw [hid, ← hnode]
        exact mem_map_of_mem (mem_of_find?_eq_some hfind)
      · exact h.done hpc _

theorem ids_modConn {f : Conn → Conn} (hf : ∀ c, (f c).peerNodeId = c.peerNodeId) (id : Nat) :
    (s.modConn id f).ids = s.ids := by
  rw [Coord.ids, Coord.modConn, List.map_map]
  refine map_congr_left fun c _ => ?_
  show (if c.peerNodeId = id then f c else c).peerNodeId = _
  split_ifs
  · exact hf c
  · rfl

theorem connSendTwopc_id (reach : BitVec 64) (sendOk : Bool) (c : Conn) :
    (connSendTwopc reach sendOk c).peerNodeId = c.peerNodeId := by
  unfold connSendTwopc
  split_ifs <;> rfl

theorem Inv.sendPrepare (h : Inv ctx s) (sendOk : Bool) {todo : List Nat}
    (hpc : s.pc = .prepare (id :: todo)) : Inv ctx (sendPrepare sendOk id todo s) := by
  have hat := h.at_pc
  rw [hpc] at hat
  have hids : (Twopc.sendPrepare sendOk id todo s).ids = s.ids := ids_modConn (connSendTwopc_id _ _) id
  refine ⟨hids ▸ h.nodup, fun n hn => hids ▸ h.reach n hn, ?_, ?_⟩
  · have hasked := h.asked
    unfold Twopc.sendPrepare
    dsimp only
    split_ifs with hsent
    · simp [hsent]
    · simp [hsent, hasked]
  · show (Twopc.sendPrepare sendOk id todo s).decisions = []
    have hnil : s.sent.filter isDecision = [] := hat
    unfold Twopc.sendPrepare Coord.decisions
    dsimp only
    split_ifs
    · rw [filter_append, hnil]
      rfl
    · exact hnil

theorem Woken.agreed (h : Woken s)
    (hrv : getClusterWideReply s.abortLocal ctx.disconnecting s.conns = .cwSuccess) :
    Agreed ctx s.wokenLocal s.conns := by
  have hall := (getClusterWideReply_eq_cwSuccess_iff.1 hrv).2
  intro c hc hprep
  refine ⟨(hall c hc hprep).1, (hall c hc hprep).2, ?_⟩
  rcases h with hlocal | ⟨c', hc', hprep', hvote⟩ | hyes
  · exact .inr (.inl hlocal)
  · -- a refusal ended the wait, and was ignored
    obtain ⟨hretry, hrefuses⟩ := hall c' hc' hprep'
    have hno : c'.no = true := hvote.resolve_right (by simp [hretry])
    rw [Conn.refuses, hno] at hrefuses
    have hlost : ctx.disconnecting = true ∧ c'.cstate.isLost = true := by simpa using hrefuses
    exact .inr (.inr ⟨hlost.1, c', hc', hprep', hno, hlost.2⟩)
  · exact .inl (hyes c hc hprep)

theorem isRetry_primaryNodesAllowed (reply : Reply) (cs : List Conn) :
    isRetry (primaryNodesAllowed reply cs) = false := by
  unfold primaryNodesAllowed
  split_ifs <;> rfl

theorem isRetry_checkPrimariesDistances (nodeId : Nat) (disk : Bool) (reply : Reply)
    (cs : List Conn) : isRetry (checkPrimariesDistances nodeId disk reply cs) = false := by
  unfold checkPrimariesDistances
  dsimp only
  split_ifs <;> rfl

theorem isRetry_checkReplies (ctx : Context) (disk : Bool) (s : Coord) :
    isRetry (checkReplies ctx disk s).1 = false := by
  unfold checkReplies
  cases ctx.targetNodeId with
  | none | some t =>
    dsimp only
    split_ifs
    all_goals first | exact isRetry_checkPrimariesDistances .. | exact isRetry_primaryNodesAllowed .. | rfl

theorem Inv.readVotes (h : Inv ctx s) (hpc : s.pc = .votes) (disk : Bool) : Inv ctx (readVotes ctx disk s) := by
  have hat := h.at_pc
  rw [hpc] at hat
  refine ⟨h.nodup, h.reach, h.asked, ?_⟩
  by_cases hrv : getClusterWideReply s.abortLocal ctx.disconnecting s.conns = .cwSuccess
  · refine ⟨hat.1, fun _ _ => ⟨s.conns, rfl, hat.2.agreed hrv⟩, fun hretry => ?_⟩
    rw [if_pos hrv, isRetry_checkReplies] at hretry
    exact absurd hretry (by decide)
  refine ⟨hat.1, fun hsuccess _ => ?_, fun _ => ?_⟩
  · rw [if_neg hrv] at hsuccess
    exact absurd (isSuccess_getClusterWideReply hsuccess) hrv
  · show some _ = some _
    rw [if_neg hrv]

theorem Inv.conclude (h : Inv ctx s) {rv : StateRv} (hpc : s.pc = .result rv) : Inv ctx (conclude ctx rv s) := by
  obtain ⟨hnone, hdecided, hretry⟩ : AtPc ctx s (.result rv) := hpc ▸ h.at_pc
  have htold : ∀ success, ∃ told, s.ids = told ++ s.ids ∧ Told s success told := fun success => ⟨[], rfl, hnone⟩
  unfold Twopc.conclude
  split_ifs with hgive hagain hpeers hlast
  · obtain ⟨hdisc, hrv⟩ := and_eq_true_iff.1 hgive
    have hvote := hretry hrv
    rw [isRetry, or_eq_true, beq_iff_eq, beq_iff_eq] at hrv
    refine ⟨h.nodup, h.reach, h.asked, hdisc, ?_, hnone⟩
    rcases hrv with rfl | rfl
    · exact .inl hvote
    · exact .inr hvote
  · exact ⟨h.nodup, h.reach, h.asked, hpeers, nofun, htold false, nofun⟩
  · exact ⟨h.nodup, h.reach, h.asked, fun hp => absurd hp hpeers, fun _ => hnone⟩
  · obtain ⟨hpeers, hlast⟩ := and_eq_true_iff.1 hlast
    exact ⟨h.nodup, h.reach, h.asked, hpeers, fun hs => hdecided hs hpeers, htold _, fun _ _ => hlast⟩
  · exact ⟨h.nodup, h.reach, h.asked, fun hboth => absurd (and_eq_true_iff.2 hboth) hlast,
      fun _ => ⟨hnone, hdecided⟩⟩

theorem Inv.localChange (h : Inv ctx s) {rv : StateRv} (hpc : s.pc = .localChange rv)
    (endRv : StateRv) : Inv ctx (localChange ctx endRv rv s) := by
  obtain ⟨hlate, hearly⟩ : AtPc ctx s (.localChange rv) := hpc ▸ h.at_pc
  refine ⟨h.nodup, h.reach, h.asked, ?_⟩
  unfold Twopc.localChange
  dsimp only
  split_ifs with hfirst hrv hrv
  · -- the others are told the result of the local change
    obtain ⟨hpeers, hlast⟩ := and_eq_true_iff.1 hfirst
    obtain ⟨hnone, hdecided⟩ := hearly fun hboth => by simp [hboth.2] at hlast
    exact ⟨hpeers, fun _ => hdecided hrv hpeers, ⟨[], rfl, hnone⟩, nofun⟩
  · obtain ⟨hpeers, hlast⟩ := and_eq_true_iff.1 hfirst
    obtain ⟨hnone, -⟩ := hearly fun hboth => by simp [hboth.2] at hlast
    exact ⟨hpeers, fun hs => absurd hs hrv, ⟨[], rfl, hnone⟩, nofun⟩
  all_goals
    refine ⟨fun hpeers => .inr (hlate ⟨hpeers, ?_⟩), fun hpeers => (hearly fun hboth => hpeers hboth.1).1⟩
    simpa [show s.havePeers = true from hpeers] using hfirst

variable {success : Bool}

theorem Inv.sendPhase2 (h : Inv ctx s) {todo : List Nat} {after : After}
    (hpc : s.pc = .phase2 success (id :: todo) after) : Inv ctx (sendPhase2 success id todo after s) := by
  obtain ⟨hpeers, hdecided, ⟨told, hids, htold⟩, hlast⟩ : AtPc ctx s (.phase2 success (id :: todo) after) :=
    hpc ▸ h.at_pc
  refine ⟨h.nodup, h.reach, ?_, hpeers, hdecided, ⟨told ++ [id], ?_, ?_⟩, hlast⟩
  · unfold Twopc.sendPhase2
    split_ifs
    · cases success <;> simp [h.asked, phase2Cmd]
    · exact h.asked
  · rw [append_assoc]
    exact hids
  · unfold Told Coord.decisions Twopc.sendPhase2
    have hfilter : s.sent.filter isDecision = _ := htold
    split_ifs with hnode
    · rw [filter_append, hfilter, filter_append, map_append]
      cases success <;> simp [hnode, isDecision, phase2Cmd]
    · rw [hfilter, filter_append]
      simp [hnode]

theorem Inv.endPhase2 (h : Inv ctx s) {after : After} (hpc : s.pc = .phase2 success [] after) :
    Inv ctx { s with pc := after.pc } := by
  obtain ⟨hpeers, hdecided, ⟨_, hids, htold⟩, hlast⟩ : AtPc ctx s (.phase2 success [] after) := hpc ▸ h.at_pc
  rw [append_nil] at hids
  have hcompleted : Completed ctx s := ⟨success, hdecided, hids ▸ htold⟩
  refine ⟨h.nodup, h.reach, h.asked, ?_⟩
  cases after with
  | ret rv => exact ⟨fun _ => .inr hcompleted, fun hno => absurd hpeers hno⟩
  | localChange rv => exact ⟨fun _ => hcompleted, fun hno => absurd ⟨hpeers, hlast rv rfl⟩ hno⟩

theorem Inv.step {ev : CoordEvent} (h : Inv ctx s) (hstep : step ctx s ev = some s') : Inv ctx s' := by
  unfold Twopc.step at hstep
  split at hstep
  case h_1 early oldRv workerBusy =>
    split_ifs at hstep with hpc
    cases hstep
    exact h.begin hpc early oldRv workerBusy
  case h_2 sendOk =>
    split at hstep
    · rename_i hpc
      cases hstep
      have hnone : AtPc ctx s (.prepare []) := hpc ▸ h.at_pc
      refine ⟨h.nodup, h.reach, h.asked, ?_⟩
      split_ifs with hpeers
      · exact hnone
      · exact ⟨hnone, fun _ hp => absurd hp hpeers, nofun⟩
    · rename_i hpc
      cases hstep
      exact h.sendPrepare sendOk hpc
    · cases hstep
  case h_3 =>
    split_ifs at hstep with hready
    cases hstep
    have hnone : AtPc ctx s .wait := hready.1 ▸ h.at_pc
    refine ⟨h.nodup, h.reach, h.asked, hnone, ?_⟩
    have hwake := hready.2
    unfold clusterWideReplyReady at hwake
    split_ifs at hwake with hlocal
    · exact .inl hlocal
    · exact (replyReady_eq_true_iff.1 hwake).elim (fun hrefused => .inr (.inl hrefused))
        fun hall => .inr (.inr hall.2)
  case h_4 =>
    split_ifs at hstep with hpc
    cases hstep
    have hnone : AtPc ctx s .wait := hpc ▸ h.at_pc
    exact ⟨h.nodup, h.reach, h.asked, hnone, nofun, fun _ => rfl⟩
  case h_5 haveLocalDisk =>
    split_ifs at hstep with hpc
    cases hstep
    exact h.readVotes hpc haveLocalDisk
  case h_6 =>
    split at hstep
    · rename_i hpc
      cases hstep
      exact h.conclude hpc
    · cases hstep
  case h_7 =>
    split at hstep
    · rename_i hpc
      cases hstep
      exact h.endPhase2 hpc
    · rename_i hpc
      cases hstep
      exact h.sendPhase2 hpc
    · cases hstep
  case h_8 endRv =>
    split at hstep
    · rename_i hpc
      cases hstep
      exact h.localChange hpc endRv
    · rename_i hpc
      cases hstep
      have hgave : AtPc ctx s .hardChange := hpc ▸ h.at_pc
      exact ⟨h.nodup, h.reach, h.asked, fun _ => .inl hgave, fun _ => hgave.2.2⟩
    · cases hstep
  case h_9 id v reachable primary weak =>
    cases hstep
    exact Around.inv ⟨⟨_, Grows.mod (Grows.addVote v) id, rfl⟩, rfl, rfl, rfl, rfl, rfl, rfl, rfl⟩ h
  case h_10 id cstate =>
    split_ifs at hstep
    cases hstep
    exact Around.inv ⟨⟨_, Grows.mod (Grows.down cstate) id, rfl⟩, rfl, rfl, rfl, rfl, rfl, rfl, rfl⟩ h
  case h_11 id cstate peerRole =>
    cases hstep
    have hf : ∀ c : Conn, Grows c { c with cstate := cstate, peerRole := peerRole } := fun c =>
      ⟨rfl, rfl, fun h => h, fun h => h, fun h => h⟩
    exact Around.inv ⟨⟨_, Grows.mod hf id, rfl⟩, rfl, rfl, rfl, rfl, rfl, rfl, rfl⟩ h
  case h_12 b | h_13 r =>
    cases hstep
    exact Around.inv ⟨⟨id, Grows.refl, (map_id s.conns).symm⟩, rfl, rfl, rfl, rfl, rfl, rfl, rfl⟩ h

theorem CoordReachable.inv (h : CoordReachable ctx s) : Inv ctx s :=
  Reachable.invariant (fun _ hs => hs.inv) (fun _ _ _ hinv hstep => hinv.step hstep) h

/-! ## Decisions -/

theorem mem_decisions {p : Nat × Cmd} (hp : isDecision p = true) : p ∈ s.decisions ↔ p ∈ s.sent := by
  rw [Coord.decisions, List.mem_filter, and_iff_left hp]

theorem Told.success_of_commit {ids : List Nat} (h : Told s success ids)
    (hid : (id, .commit) ∈ s.sent) : success = true := by
  have hmem := (mem_decisions (s := s) rfl).2 hid
  rw [h, mem_map] at hmem
  obtain ⟨n, -, heq⟩ := hmem
  cases success with
  | false => simp [phase2Cmd] at heq
  | true => rfl

theorem not_commit_of_none (h : s.decisions = []) : (id, .commit) ∉ s.sent := fun hid => by
  have hmem := (mem_decisions (s := s) rfl).2 hid
  rw [h] at hmem
  exact absurd hmem not_mem_nil

theorem Completed.decided_of_commit (h : Completed ctx s) (hid : (id, .commit) ∈ s.sent) :
    Decided ctx s := by
  obtain ⟨_, hdecided, htold⟩ := h
  exact hdecided (htold.success_of_commit hid)

theorem Inv.decided_of_commit (h : Inv ctx s) (hid : (id, .commit) ∈ s.sent) : Decided ctx s := by
  have hat := h.at_pc
  cases hpc : s.pc <;> rw [hpc] at hat
  case start | votes | result => exact absurd hid (not_commit_of_none hat.1)
  case prepare | wait => exact absurd hid (not_commit_of_none hat)
  case phase2 success todo after =>
    obtain ⟨-, hdecided, ⟨_, -, htold⟩, -⟩ := hat
    exact hdecided (htold.success_of_commit hid)
  case localChange rv =>
    by_cases hboth : s.havePeers = true ∧ ctx.changeLocalStateLast = true
    · exact (hat.1 hboth).decided_of_commit hid
    · exact absurd hid (not_commit_of_none (hat.2 hboth).1)
  case hardChange => exact absurd hid (not_commit_of_none hat.2.2)
  case done rv =>
    by_cases hpeers : s.havePeers = true
    · rcases hat.1 hpeers with hgave | hcompleted
      · exact absurd hid (not_commit_of_none hgave.2.2)
      · exact hcompleted.decided_of_commit hid
    · exact absurd hid (not_commit_of_none (hat.2 hpeers))

/-- Every node was told once, and nobody the opposite. -/
theorem Told.count (h : Told s success s.ids) (hnodup : s.ids.Nodup)
    (hid : id ∈ s.ids) (hnode : hasNode s.reachImmediately id = true) :
    s.sent.count (id, phase2Cmd success) = 1 ∧ s.sent.count (id, phase2Cmd !success) = 0 := by
  have hinj : Function.Injective fun n : Nat => (n, phase2Cmd success) := fun a b hab => congrArg Prod.fst hab
  have hcount : ∀ p, isDecision p = true → s.sent.count p = s.decisions.count p := fun p hp =>
    (count_filter hp).symm
  rw [hcount _ (by cases success <;> rfl), hcount _ (by cases success <;> rfl), h]
  constructor
  · rw [count_map_of_injective _ _ hinj]
    exact count_eq_one_of_mem (hnodup.filter _) (mem_filter.2 ⟨hid, hnode⟩)
  refine count_eq_zero.2 fun hmem => ?_
  obtain ⟨n, -, heq⟩ := mem_map.1 hmem
  cases success <;> simp [phase2Cmd] at heq

/-- In every run of a cluster-wide change: a commit is sent only after the votes agreed, and when
the function returns after it asked somebody, every node in reach was told the same decision once;
only a disconnect may give up on the others without a word. -/
theorem coordinator_decides (ctx : Context) (s : Coord) (hs : CoordReachable ctx s) :
    ((∃ id, (id, .commit) ∈ s.sent) → Decided ctx s) ∧
      ∀ rv, s.pc = .done rv → (∃ id, (id, .prepare) ∈ s.sent) → GaveUp ctx s ∨
        ∃ success, ∀ id, hasNode s.reachImmediately id = true →
          s.sent.count (id, phase2Cmd success) = 1 ∧ s.sent.count (id, phase2Cmd !success) = 0 := by
  have hinv := hs.inv
  refine ⟨fun ⟨id, hid⟩ => hinv.decided_of_commit hid, fun rv hpc hasked => ?_⟩
  obtain ⟨hpeers, -⟩ : AtPc ctx s (.done rv) := hpc ▸ hinv.at_pc
  refine (hpeers (hinv.asked.2 hasked)).imp_right fun ⟨success, _, htold⟩ => ⟨success, fun id hnode => ?_⟩
  exact htold.count hinv.nodup (hinv.reach id hnode) hnode

/-! ### Runs -/

/-- The state after a list of events, if all of them can happen. -/
def runCoord (ctx : Context) : Coord → List CoordEvent → Option Coord
  | s, [] => some s
  | s, e :: es =>
    match step ctx s e with
    | none => none
    | some s => runCoord ctx s es

theorem reachable_runCoord {es : List CoordEvent} (hs : CoordReachable ctx s)
    (hrun : runCoord ctx s es = some s') : CoordReachable ctx s' := by
  induction es generalizing s with
  | nil => exact Option.some.inj hrun ▸ hs
  | cons e es ih =>
    rw [runCoord] at hrun
    split at hrun
    · cases hrun
    · rename_i hstep
      exact ih (.next e hs hstep) hrun

/-- Two peers of node 0. -/
def twoPeers : Coord where
  conns := [⟨1, 110, .connected, .secondary, false, false, false, false, false⟩,
    ⟨2, 110, .connected, .secondary, false, false, false, false, false⟩]

theorem twoPeers_start (ctx : Context) : CoordReachable ctx twoPeers :=
  .start ⟨rfl, rfl, rfl, rfl, rfl, rfl, by decide, by decide⟩

/-- Both are asked. -/
def askBoth : List CoordEvent :=
  [.begin none .success false, .request true, .request true, .request true]

/-- Both agree to the promotion. -/
theorem coordinator_decides_promotion : ∃ s, CoordReachable { nodeId := 0, role := some .primary } s ∧
    (2, .commit) ∈ s.sent ∧ Decided { nodeId := 0, role := some .primary } s := by
  obtain ⟨s, hrun, hsent⟩ : ∃ s, runCoord { nodeId := 0, role := some .primary } twoPeers (askBoth ++
      [.vote 2 .yes 0 0 0, .vote 1 .yes 0 0 0, .ready, .readVotes true, .conclude, .phase2, .phase2, .phase2,
        .localChange .success]) = some s ∧ (2, .commit) ∈ s.sent := ⟨_, rfl, by decide⟩
  have hs := reachable_runCoord (twoPeers_start _) hrun
  exact ⟨s, hs, hsent, (coordinator_decides _ s hs).1 ⟨2, hsent⟩⟩

/-- The change disconnects from node 1. -/
def leaveOne : Context where
  nodeId := 0
  targetNodeId := some 1
  conn := some (.conn .disconnecting)

/-- A disconnect is committed although a peer that was lost has not agreed; and when the votes do
not come in time, it tells the others nothing. -/
theorem disconnect_skips_votes : (∃ s, CoordReachable leaveOne s ∧ (1, .commit) ∈ s.sent ∧
      ∃ c ∈ s.conns, c.prepared = true ∧ c.yes = false ∧ c.no = true) ∧
    ∃ s rv, CoordReachable leaveOne s ∧ s.pc = .done rv ∧ (1, .prepare) ∈ s.sent ∧
      hasNode s.reachImmediately 1 = true ∧ (1, .commit) ∉ s.sent ∧ (1, .abort) ∉ s.sent := by
  constructor
  · obtain ⟨s, hrun, hsent⟩ : ∃ s, runCoord leaveOne twoPeers (askBoth ++
        [.vote 1 .yes 0 0 0, .down 2 .networkFailure, .ready, .readVotes true, .conclude,
          .phase2]) = some s ∧ (1, .commit) ∈ s.sent ∧
        ∃ c ∈ s.conns, c.prepared = true ∧ c.yes = false ∧ c.no = true := ⟨_, rfl, by decide⟩
    exact ⟨s, reachable_runCoord (twoPeers_start _) hrun, hsent⟩
  · obtain ⟨s, hrun, hpc, hsent⟩ : ∃ s, runCoord leaveOne twoPeers (askBoth ++
        [.timeOut, .conclude, .localChange .success]) = some s ∧ s.pc = .done .success ∧
        (1, .prepare) ∈ s.sent ∧ hasNode s.reachImmediately 1 = true ∧ (1, .commit) ∉ s.sent ∧
        (1, .abort) ∉ s.sent := ⟨_, rfl, by decide⟩
    exact ⟨s, .success, reachable_runCoord (twoPeers_start _) hrun, hpc, hsent⟩

end Bsr.Twopc
