import Bsr.Twopc.Participant

/-!
# What a participant commits

The invariant of a participant over all orders of packets, timer and work items.

* `Live` says that a transaction was prepared and not aborted since;
* `Holding` says that the transaction at hand is live until it is carried out, and that it is
  watched: the abort timer is pending, the abort is queued, or the handler of its prepare has yet to
  start the timer;
* `participant_sound` is what holds along every run of safe steps.
-/

namespace Bsr.Twopc

open State Lib

/-! ## The log -/

/-- The transaction was prepared, and not aborted since. -/
def Live (log : List Entry) (i t : Nat) : Prop :=
  ∃ pre post, log = pre ++ .prepared i t :: post ∧ .aborted i t ∉ post

/-- Only live transactions were committed. -/
def LogOk (log : List Entry) : Prop :=
  ∀ pre post i t, log = pre ++ .committed i t :: post → Live pre i t

open List

theorem live_prepared (log : List Entry) (i t : Nat) : Live (log ++ [.prepared i t]) i t :=
  ⟨log, [], rfl, not_mem_nil⟩

theorem LogOk.append {log : List Entry} (h : LogOk log) {e : Entry}
    (he : ∀ i t, e = .committed i t → Live log i t) : LogOk (log ++ [e]) := by
  intro pre post i t heq
  rcases eq_nil_or_concat post with rfl | ⟨post, _, rfl⟩
  · obtain ⟨rfl, hlast⟩ := append_inj' heq rfl
    exact he i t (singleton_inj.1 hlast)
  · rw [concat_eq_append, ← cons_append, ← append_assoc] at heq
    exact h pre post i t (append_inj' heq rfl).1

/-! ## The invariant -/

variable {s s' : Participant} {h : Handler}

/-- A handler of another node's transaction. -/
structure Handler.Foreign (h : Handler) (nodeId : Nat) : Prop where
  initiator : h.reply.initiatorNodeId = some h.p.initiatorNodeId
  tid : h.reply.tid = h.p.tid
  other : h.p.initiatorNodeId ≠ nodeId

/-- A prepare that waits for its turn. -/
def Handler.Deferred (h : Handler) (nodeId : Nat) : Prop :=
  h.Foreign nodeId ∧ h.p.cmd.isPrepare = true

structure Base (s : Participant) : Prop where
  log : LogOk s.log
  waiting : ∀ h ∈ s.waiting, h.Deferred s.nodeId
  queue : ∀ q ∈ s.queue, q.toHandler.Deferred s.nodeId
  started : ∀ q ∈ s.started, q.toHandler.Deferred s.nodeId

/-- The transaction at hand will be given up in time. -/
def Watched (s : Participant) : Prop :=
  s.timer = true ∨ s.work = some .abortNestedTwopcWork ∨
    ∃ h ∈ s.inFlight, h.p.cmd.isPrepare = true ∧ s.reply.initiatorNodeId =
      some h.p.initiatorNodeId ∧ s.reply.tid = h.p.tid

/-- The transaction at hand, unless it is this node's own. -/
def Holding (s : Participant) : Prop :=
  ∃ i, s.reply.initiatorNodeId = some i ∧
    (i ≠ s.nodeId → (s.executed = false → Live s.log i s.reply.tid) ∧ Watched s)

structure PartInv (s : Participant) : Prop extends Base s where
  holding : s.remoteStateChange = true → Holding s

theorem Participant.Start.partInv (hs : s.Start) : PartInv s where
  log := fun pre post i t heq => by
    rw [hs.log] at heq
    exact absurd heq (by simp)
  waiting := by simp [hs.waiting]
  queue := by simp [hs.queue]
  started := by simp [hs.started]
  holding := fun hremote => absurd hremote (by simp [hs.remoteStateChange])

theorem Base.partInv (hbase : Base s) (hremote : s.remoteStateChange = false) : PartInv s :=
  ⟨hbase, fun h => absurd h (by simp [hremote])⟩

/-! ### Helpers that leave the transaction alone -/

/-- The transaction, the handlers and the log are the same; the watch goes on. -/
structure Keeps (s s' : Participant) : Prop where
  nodeId : s'.nodeId = s.nodeId
  remote : s'.remoteStateChange = s.remoteStateChange
  reply : s'.reply = s.reply
  executed : s'.executed = s.executed
  log : s'.log = s.log
  inFlight : s'.inFlight = s.inFlight
  waiting : s'.waiting = s.waiting
  timer : s.timer = true → s'.timer = true
  work : s.work = some .abortNestedTwopcWork → s'.work = some .abortNestedTwopcWork
  queued : (∀ q ∈ s.queue ++ s.started, q.toHandler.Deferred s.nodeId) →
    ∀ q ∈ s'.queue ++ s'.started, q.toHandler.Deferred s.nodeId

theorem Keeps.refl (s : Participant) : Keeps s s :=
  ⟨rfl, rfl, rfl, rfl, rfl, rfl, rfl, fun h => h, fun h => h, fun h => h⟩

theorem Keeps.trans {s'' : Participant} (h : Keeps s s') (h' : Keeps s' s'') : Keeps s s'' where
  nodeId := h'.nodeId.trans h.nodeId
  remote := h'.remote.trans h.remote
  reply := h'.reply.trans h.reply
  executed := h'.executed.trans h.executed
  log := h'.log.trans h.log
  inFlight := h'.inFlight.trans h.inFlight
  waiting := h'.waiting.trans h.waiting
  timer := fun ht => h'.timer (h.timer ht)
  work := fun hw => h'.work (h.work hw)
  queued := fun hq => by
    have hmid := h.queued hq
    rw [← h.nodeId] at hmid ⊢
    exact h'.queued hmid

theorem Base.queued (hbase : Base s) : ∀ q ∈ s.queue ++ s.started, q.toHandler.Deferred s.nodeId := by
  intro q hq
  rcases mem_append.1 hq with hq | hq
  · exact hbase.queue q hq
  · exact hbase.started q hq

theorem Keeps.base (h : Keeps s s') (hbase : Base s) : Base s' where
  log := h.log ▸ hbase.log
  waiting := by
    rw [h.waiting, h.nodeId]
    exact hbase.waiting
  queue := fun q hq => h.nodeId ▸ h.queued hbase.queued q (mem_append_left _ hq)
  started := fun q hq => h.nodeId ▸ h.queued hbase.queued q (mem_append_right _ hq)

theorem Keeps.watched (h : Keeps s s') (hw : Watched s) : Watched s' := by
  rcases hw with ht | hw | hf
  · exact .inl (h.timer ht)
  · exact .inr (.inl (h.work hw))
  · refine .inr (.inr ?_)
    rw [h.inFlight, h.reply]
    exact hf

theorem Keeps.partInv (h : Keeps s s') (hinv : PartInv s) : PartInv s' := by
  refine ⟨h.base hinv.toBase, fun hremote => ?_⟩
  obtain ⟨i, hi, hheld⟩ := hinv.holding (h.remote ▸ hremote)
  refine ⟨i, by rw [h.reply, hi], fun hne => ?_⟩
  rw [h.nodeId] at hne
  rw [h.executed, h.log, h.reply]
  exact ⟨(hheld hne).1, h.watched (hheld hne).2⟩

section

variable (s)

open Keeps

theorem keeps_sendReply (peer : Nat) (v : Vote) (reply : Reply) :
    Keeps s (s.sendReply peer v reply) :=
  { refl s with }

open Participant

theorem keeps_queueQueuedTwopc : Keeps s s.queueQueuedTwopc := by
  unfold queueQueuedTwopc
  split
  · exact .refl s
  rename_i q queue hq
  refine { refl s with queued := fun hall r hr => hall r ?_ }
  rw [hq]
  simp only [mem_append, mem_cons] at hr ⊢
  tauto

theorem keeps_modConn (peer : Nat) (f : Conn → Conn) : Keeps s (s.modConn peer f) :=
  { refl s with }

theorem keeps_addParent (peer : Nat) : Keeps s (s.addParent peer) := by
  unfold addParent
  split_ifs
  · exact .refl s
  · exact { refl s with }

theorem keeps_queueNested : Keeps s s.queueNested := by
  unfold queueNested
  split_ifs with hready
  · refine { refl s with work := fun hw => ?_ }
    rw [hw] at hready
    simp at hready
  · exact .refl s

theorem keeps_voted : Keeps s s.voted := by
  unfold voted
  split_ifs
  · exact .refl s
  · exact keeps_queueNested s

theorem keeps_twopcEndNested (v : Vote) : Keeps s (s.twopcEndNested v false) := by
  unfold twopcEndNested
  simp only [Bool.false_eq_true, if_false]
  split_ifs
  · exact .refl s
  · exact { refl s with }

theorem keeps_nestedTwopcRequest (cmd : Cmd) (asked : List Nat) :
    Keeps s (s.nestedTwopcRequest cmd asked) := by
  have hflags : ∀ cs, Keeps s { s with conns := cs } := fun cs =>
    { refl s with }
  unfold nestedTwopcRequest
  split_ifs
  · exact (hflags _).trans (keeps_twopcEndNested _ _)
  · exact hflags _

theorem keeps_matchPrepared (h : Handler) : Keeps s (matchPrepared s h) := by
  unfold matchPrepared
  split
  · exact keeps_sendReply ..
  · exact ((keeps_addParent s h.peer).trans (keeps_modConn ..)).trans (keeps_queueNested _)

theorem keeps_abortQueued (tid : Nat) : Keeps s (abortQueued s tid) := by
  unfold abortQueued
  split_ifs
  · refine { refl s with queued := fun hall q hq => ?_ }
    rcases mem_append.1 hq with hq | hq
    · exact hall q (mem_append_left _ hq)
    obtain ⟨r, hr, rfl⟩ := mem_map.1 hq
    have hdef := hall r (mem_append_right _ hr)
    split_ifs
    · exact ⟨{ hdef.1 with }, hdef.2⟩
    · exact hdef
  · refine { refl s with queued := fun hall q hq => hall q ?_ }
    rcases mem_append.1 hq with hq | hq
    · exact mem_append_left _ (mem_of_mem_eraseP hq)
    · exact mem_append_right _ hq

theorem keeps_ignoreCommit (h : Handler) : Keeps s (ignoreCommit s h) := by
  unfold ignoreCommit
  split_ifs
  · exact { refl s with }
  · exact .refl s

end

theorem keeps_queueTwopc (hdef : h.Deferred s.nodeId) (allocOk : Bool) : Keeps s (queueTwopc s h allocOk) := by
  unfold queueTwopc
  split_ifs
  · exact .refl s
  · refine { Keeps.refl s with queued := fun hall q hq => ?_ }
    simp only [mem_append, mem_singleton] at hq
    rcases hq with (hq | rfl) | hq
    · exact hall q (mem_append_left _ hq)
    · exact hdef
    · exact hall q (mem_append_right _ hq)
  · exact keeps_sendReply ..

theorem keeps_nestedTwopcWork (hw : s.work = some .nestedTwopcWork) : Keeps s (nestedTwopcWork s) := by
  unfold nestedTwopcWork Participant.twopcEndNested
  dsimp only [if_true]
  split_ifs
  all_goals exact { Keeps.refl s with work := fun h => by simp [hw] at h }

/-! ### The end of a transaction -/

theorem Base.logAbort (hbase : Base s) : Base s.logAbort := by
  unfold Participant.logAbort
  split
  · exact hbase
  · exact { hbase with log := hbase.log.append nofun }

theorem Base.clear (hbase : Base s) :
    Base s.clearRemoteStateChange ∧ s.clearRemoteStateChange.remoteStateChange = false := by
  have hkeeps := keeps_queueQueuedTwopc { s with
    remoteStateChange := false
    reply := { s.reply with initiatorNodeId := none, tid := 0 }
    parents := [] }
  exact ⟨hkeeps.base { hbase with }, hkeeps.remote⟩

/-- The transaction at hand is dropped together with its timer. -/
theorem Base.drop (hbase : Base s) (timer : Bool) :
    PartInv { s.logAbort with timer := timer }.clearRemoteStateChange := by
  have hlog := hbase.logAbort
  obtain ⟨hclear, hremote⟩ := Base.clear (s := { s.logAbort with timer := timer })
    { hlog with }
  exact hclear.partInv hremote

theorem PartInv.dropUpdated (hinv : PartInv s) (reply : Reply) : PartInv (dropUpdated s reply) := by
  unfold Twopc.dropUpdated
  split_ifs
  · exact hinv.toBase.drop false
  · exact hinv

theorem PartInv.abortNestedTwopcWork (hinv : PartInv s) : PartInv (abortNestedTwopcWork s) := by
  refine (keeps_queueQueuedTwopc _).partInv ?_
  split_ifs with hsome
  · have hlog := hinv.toBase.logAbort
    exact Base.partInv { hlog with } rfl
  -- without an initiator there is no transaction
  refine Base.partInv { hinv with } ?_
  by_contra hremote
  obtain ⟨i, hi, -⟩ := hinv.holding (by simpa using hremote)
  exact hsome (by simp [hi])

/-! ### The sections of the handler -/

theorem initiator_eq_of_not_lt {a b : Option Nat} (hab : initiatorLt a b = false)
    (hba : initiatorLt b a = false) : a = b := by
  cases a <;> cases b <;> simp_all [initiatorLt]
  omega

theorem setReply_initiator (s : Participant) (h : Handler) :
    (setReply s h).reply.initiatorNodeId = h.reply.initiatorNodeId ∧ (setReply s h).reply.tid = h.reply.tid := by
  unfold setReply
  dsimp only
  split_ifs <;> exact ⟨rfl, rfl⟩

/-- An accepted prepare is live, and its handler will start the timer. -/
theorem PartInv.accept (hinv : PartInv s) (hdef : h.Deferred s.nodeId) : PartInv (accept s h) := by
  unfold Twopc.accept
  by_cases haborted : h.reply.isAborted = true
  · rw [if_pos haborted]
    exact hinv
  rw [if_neg haborted]
  refine ⟨{ hinv with log := hinv.log.append nofun }, fun _ => ?_⟩
  obtain ⟨hinit, htid⟩ := setReply_initiator { s with
    startingQueuedTwopc := none
    remoteStateChange := true
    twopcType := if h.p.cmd = .prepare then .stateChange else .resize
    prepareReplyCmd := none
    executed := false
    log := s.log ++ [.prepared h.p.initiatorNodeId h.p.tid] } h
  rw [hdef.1.initiator] at hinit
  rw [hdef.1.tid] at htid
  refine ⟨h.p.initiatorNodeId, hinit, fun _ => ⟨fun _ => ?_, .inr (.inr ?_)⟩⟩
  · rw [htid]
    exact live_prepared _ _ _
  · exact ⟨_, mem_cons_self, hdef.2, hinit, htid⟩

/-- What is carried out is the transaction at hand, or an abort of one that is not. -/
theorem PartInv.execute (hinv : PartInv s) (hfor : h.Foreign s.nodeId)
    (hat : s.remoteStateChange = true → s.reply.initiatorNodeId = h.reply.initiatorNodeId ∧
      s.reply.tid = h.reply.tid)
    (hcommit : h.p.cmd = .commit → s.remoteStateChange = true) : PartInv (execute s h) := by
  unfold Twopc.execute
  by_cases hexec : s.executed = true
  · rw [if_pos hexec]
    exact hinv
  rw [if_neg hexec]
  -- the transaction at hand is that of the packet
  have hheld : s.remoteStateChange = true → Live s.log h.p.initiatorNodeId h.p.tid ∧ Watched s := by
    intro hremote
    obtain ⟨i, hi, hlive⟩ := hinv.holding hremote
    obtain ⟨hinit, htid⟩ := hat hremote
    have hii : i = h.p.initiatorNodeId := by
      rw [hi, hfor.initiator] at hinit
      exact Option.some.inj hinit
    subst hii
    obtain ⟨hlive, hwatch⟩ := hlive hfor.other
    rw [htid, hfor.tid] at hlive
    exact ⟨hlive (by simpa using hexec), hwatch⟩
  have hlog : LogOk (s.log ++ [if h.p.cmd = .commit then Entry.committed h.p.initiatorNodeId h.p.tid
      else .aborted h.p.initiatorNodeId h.p.tid]) := by
    refine hinv.log.append fun i t heq => ?_
    split_ifs at heq with hcmd
    obtain ⟨rfl, rfl⟩ := Entry.committed.inj heq
    exact (hheld (hcommit hcmd)).1
  refine ⟨{ hinv with log := hlog }, fun hremote => ?_⟩
  obtain ⟨hinit, htid⟩ := setReply_initiator { s with
    executed := true
    log := s.log ++ [if h.p.cmd = .commit then Entry.committed h.p.initiatorNodeId h.p.tid
      else .aborted h.p.initiatorNodeId h.p.tid] } h
  refine ⟨h.p.initiatorNodeId, hinit.trans hfor.initiator, fun _ => ⟨nofun, ?_⟩⟩
  rcases (hheld hremote).2 with htimer | hwork | ⟨f, hf, hprep, hfi, hft⟩
  · exact .inl htimer
  · exact .inr (.inl hwork)
  · obtain ⟨hsi, hst⟩ := hat hremote
    refine .inr (.inr ⟨f, mem_cons_of_mem _ hf, hprep, ?_, ?_⟩)
    · rw [hinit, ← hsi]
      exact hfi
    · rw [htid, ← hst]
      exact hft

theorem dropUpdated_eq_self {reply : Reply} (h : isUpdate s reply = false) : dropUpdated s reply = s := by
  rw [dropUpdated, h]
  rfl

/-- A match is the transaction at hand, or the disconnect at hand gave way. -/
theorem check_match (hcsc : checkConcurrentTransactions s h = .isMatch) : isUpdate s h.reply = true ∨
    s.remoteStateChange = true ∧ s.reply.initiatorNodeId = h.reply.initiatorNodeId ∧ s.reply.tid = h.reply.tid := by
  unfold checkConcurrentTransactions at hcsc
  dsimp only at hcsc
  split_ifs at hcsc with hremote hlow hself hhigh hup htid
  · exact .inl hup
  · exact .inr ⟨by simpa using hremote, initiator_eq_of_not_lt (by simpa using hhigh)
      (by simpa using hlow), by simpa using Eq.symm (not_not.1 htid)⟩

theorem remote_dropUpdated {reply : Reply} (h : isUpdate s reply = true) :
    (dropUpdated s reply).remoteStateChange = false := by
  rw [dropUpdated, if_pos h]
  exact (keeps_queueQueuedTwopc _).remote

/-- `process_twopc` keeps the invariant; a commit does not meet a disconnect that gives way. -/
theorem PartInv.enter (hinv : PartInv s) (hfor : h.Foreign s.nodeId) (allocOk : Bool)
    (hsafe : h.p.cmd = .commit → isUpdate s h.reply = false) : PartInv (enter s allocOk h) := by
  have hdrop := hinv.dropUpdated h.reply
  have hnode : (Twopc.dropUpdated s h.reply).nodeId = s.nodeId := by
    unfold Twopc.dropUpdated
    split_ifs
    · rw [Participant.clearRemoteStateChange, (keeps_queueQueuedTwopc _).nodeId]
      show s.logAbort.nodeId = _
      unfold Participant.logAbort
      split <;> rfl
    · rfl
  have hfor' : h.Foreign (Twopc.dropUpdated s h.reply).nodeId := hnode ▸ hfor
  unfold Twopc.enter
  dsimp only
  split_ifs with hclear hcommit hmatch hlocal habort hreject hignore
  · exact (keeps_ignoreCommit _ _).partInv hdrop
  · exact hdrop.accept ⟨hfor', by simpa using hcommit⟩
  · by_cases hup : isUpdate s h.reply = true
    · refine hdrop.execute hfor' (fun hremote => ?_) fun hcmd => ?_
      · exact absurd hremote (by simp [remote_dropUpdated hup])
      · exact absurd hup (by simp [hsafe hcmd])
    · obtain ⟨hremote, heq⟩ := (check_match hmatch.1).resolve_left hup
      rw [dropUpdated_eq_self (by simpa using hup)]
      exact hinv.execute hfor (fun _ => heq) fun _ => hremote
  · refine ⟨{ hdrop with waiting := fun f hf => ?_ }, hdrop.holding⟩
    rcases List.mem_append.1 hf with hf | hf
    · exact hdrop.waiting f hf
    · rw [List.mem_singleton.1 hf]
      exact ⟨hfor', hlocal.2⟩
  · exact (keeps_abortQueued _ _).partInv hdrop
  · exact (keeps_sendReply ..).partInv hdrop
  · exact hdrop
  · split
    · exact (keeps_queueTwopc ⟨hfor', by simpa using hignore⟩ allocOk).partInv hdrop
    · exact (keeps_sendReply ..).partInv hdrop
    · exact (keeps_matchPrepared _ _).partInv hdrop
    · exact hdrop

theorem PartInv.resume (hinv : PartInv s) (hmem : h ∈ s.waiting) : PartInv (resume s h) := by
  have hdef := hinv.waiting h hmem
  have hinv' : PartInv { s with abortLocal := false, waiting := s.waiting.erase h } :=
    ⟨{ hinv with waiting := fun f hf => hinv.waiting f (mem_of_mem_erase hf) }, hinv.holding⟩
  unfold Twopc.resume
  dsimp only
  split
  · exact hinv'.accept hdef
  · exact (keeps_matchPrepared _ _).partInv hinv'
  · exact (keeps_sendReply ..).partInv hinv'

theorem Watched.erase (hw : Watched s) (hh : Handler)
    (hdone : hh.p.cmd.isPrepare = true → s.reply.initiatorNodeId = some hh.p.initiatorNodeId →
      s.reply.tid ≠ hh.p.tid) : Watched { s with inFlight := s.inFlight.erase hh } := by
  rcases hw with ht | hw | ⟨f, hf, hprep, hi, ht⟩
  · exact .inl ht
  · exact .inr (.inl hw)
  · have hne : f ≠ hh := by
      rintro rfl
      exact hdone hprep hi ht
    exact .inr (.inr ⟨f, (mem_erase_of_ne hne).2 hf, hprep, hi, ht⟩)

/-- With the timer pending it does not matter which handlers are left. -/
theorem PartInv.startTimer (hinv : PartInv s) (inFlight : List Handler) (parents : List Nat) (cmd : Option Vote) :
    PartInv { s with inFlight := inFlight, parents := parents, prepareReplyCmd := cmd, timer := true } := by
  refine ⟨{ hinv with }, fun hremote => ?_⟩
  obtain ⟨i, hi, hheld⟩ := hinv.holding hremote
  exact ⟨i, hi, fun hne => ⟨(hheld hne).1, .inl rfl⟩⟩

theorem addParent_eq (s : Participant) (peer : Nat) :
    ∃ parents, s.addParent peer = { s with parents := parents } := by
  unfold Participant.addParent
  split_ifs
  · exact ⟨s.parents, rfl⟩
  · exact ⟨_, rfl⟩

/-- The end of a handler; a prepare does not find two primaries. -/
theorem PartInv.finish (hinv : PartInv s) (rv : StateRv) (asked : List Nat)
    (hsafe : h.p.cmd.isPrepare = true → rv ≠ .twoPrimaries) : PartInv (finish s h rv asked) := by
  obtain ⟨parents, hparents⟩ := addParent_eq { s with inFlight := s.inFlight.erase h } h.peer
  have harmed := hinv.startTimer (s.inFlight.erase h) parents
  unfold Twopc.finish
  dsimp only
  rw [hparents]
  split_ifs with htwo hprep hok hretry
  · -- a commit or an abort does not end the watch
    refine ⟨{ hinv with }, fun hremote => ?_⟩
    obtain ⟨i, hi, hheld⟩ := hinv.holding hremote
    refine ⟨i, hi, fun hne => ⟨(hheld hne).1, (hheld hne).2.erase h fun hprep => ?_⟩⟩
    exact absurd htwo (hsafe hprep)
  · exact (keeps_nestedTwopcRequest ..).partInv (harmed s.prepareReplyCmd)
  · exact (keeps_sendReply ..).partInv (harmed s.prepareReplyCmd)
  · exact (keeps_sendReply ..).partInv (harmed (some .no))
  · have hbase : Base { s with inFlight := s.inFlight.erase h, timer := false } :=
      { hinv with }
    obtain ⟨hclear, hremote⟩ := ((keeps_nestedTwopcRequest _ h.p.cmd asked).base hbase).clear
    exact hclear.partInv hremote

/-! ## Runs -/

/-- The steps that keep the promise: no commit meets a disconnect that gives way to it, and no
prepare finds two primaries. -/
def PartEvent.Safe (s : Participant) : PartEvent → Prop
  | .receive _ p _ _ => p.cmd = .commit →
      isUpdate s { initiatorNodeId := some p.initiatorNodeId, tid := p.tid } = false
  | .finish h rv _ => h.p.cmd.isPrepare = true → rv ≠ .twoPrimaries
  | _ => True

theorem PartInv.gatherSame (hinv : PartInv s) {q : Queued} {started : List Queued}
    (hstarted : s.started = q :: started) : PartInv (gatherSame s q started) := by
  refine ⟨⟨hinv.log, hinv.waiting, fun r hr => hinv.queue r (mem_filter.1 hr).1, fun r hr => ?_⟩, hinv.holding⟩
  rcases mem_append.1 hr with hr | hr
  · exact hinv.queue r (mem_filter.1 hr).1
  · exact hinv.started r (by simp [hstarted, hr])

theorem PartInv.forgetStarting (hinv : PartInv s) (q : Queued) : PartInv (forgetStarting s q) := by
  unfold Twopc.forgetStarting
  split_ifs
  · exact ⟨{ hinv with }, hinv.holding⟩
  · exact hinv

theorem PartInv.queuedWork {tooLate allocOk : Bool} (hinv : PartInv s)
    (hstep : queuedTwopcWork s tooLate allocOk = some s') : PartInv s' := by
  unfold queuedTwopcWork at hstep
  split at hstep
  · cases hstep
  rename_i q started hstarted
  cases hstep
  have hdef : q.toHandler.Deferred s.nodeId := hinv.started q (by simp [hstarted])
  have hgathered := hinv.gatherSame hstarted
  refine PartInv.forgetStarting ?_ q
  split_ifs
  · exact (keeps_sendReply ..).partInv hgathered
  refine hgathered.enter hdef.1 allocOk fun hcmd => ?_
  -- only prepares are queued
  have hprep := hdef.2
  rw [hcmd] at hprep
  exact absurd hprep (by decide)

theorem PartInv.step {ev : PartEvent} (hinv : PartInv s) (hsafe : ev.Safe s)
    (hstep : partStep s ev = some s') : PartInv s' := by
  unfold partStep at hstep
  split at hstep
  case h_1 peer p reachable allocOk =>
    split_ifs at hstep with hself
    cases hstep
    exact hinv.enter ⟨rfl, rfl, hself⟩ allocOk hsafe
  case h_2 h =>
    split_ifs at hstep with hmem
    cases hstep
    exact hinv.resume hmem
  case h_3 h rv asked =>
    split_ifs at hstep
    cases hstep
    exact hinv.finish rv asked hsafe
  case h_4 =>
    split_ifs at hstep with htimer
    cases hstep
    unfold twopcTimerFn
    split_ifs
    · refine ⟨{ hinv with }, fun hremote => ?_⟩
      obtain ⟨i, hi, hheld⟩ := hinv.holding hremote
      exact ⟨i, hi, fun hne => ⟨(hheld hne).1, .inr (.inl rfl)⟩⟩
    · exact hinv
  case h_5 =>
    split at hstep
    · cases hstep
    · rename_i hwork
      cases hstep
      exact (keeps_nestedTwopcWork hwork).partInv hinv
    · cases hstep
      exact hinv.abortNestedTwopcWork
  case h_6 =>
    cases hstep
    exact (keeps_queueQueuedTwopc s).partInv hinv
  case h_7 tooLate allocOk => exact hinv.queuedWork hstep
  case h_8 peer v =>
    cases hstep
    exact ((keeps_modConn ..).trans (keeps_voted _)).partInv hinv
  case h_9 peer cstate =>
    split_ifs at hstep
    cases hstep
    exact ((keeps_modConn ..).trans (keeps_voted _)).partInv hinv
  case h_10 peer =>
    cases hstep
    split_ifs
    · exact hinv.toBase.drop false
    · exact hinv
  case h_11 tid =>
    split_ifs at hstep
    cases hstep
    exact ⟨{ hinv with },
      fun _ => ⟨s.nodeId, rfl, fun hne => absurd rfl hne⟩⟩
  case h_12 =>
    split_ifs at hstep
    cases hstep
    obtain ⟨hclear, hremote⟩ := hinv.toBase.clear
    exact hclear.partInv hremote
  case h_13 =>
    cases hstep
    obtain ⟨hclear, hremote⟩ := hinv.toBase.logAbort.clear
    unfold Participant.twopcEndNested
    dsimp only [if_true]
    split_ifs
    all_goals exact Base.partInv { hclear with } hremote
  case h_14 r =>
    cases hstep
    exact ⟨{ hinv with }, hinv.holding⟩
  case h_15 peer cstate =>
    cases hstep
    exact (keeps_modConn ..).partInv hinv

def PartReachable : Participant → Prop :=
  Reachable Participant.Start fun s e s' => e.Safe s ∧ partStep s e = some s'

theorem PartReachable.partInv (hs : PartReachable s) : PartInv s :=
  Reachable.invariant (fun _ hs => hs.partInv) (fun _ _ _ hinv hstep => hinv.step hstep.1 hstep.2) hs

/-- Along every run of safe steps: what was committed had been prepared and not aborted since, and a
prepared transaction of another node is watched. -/
theorem participant_sound (s : Participant) (hs : PartReachable s) :
    (∀ pre post i t, s.log = pre ++ .committed i t :: post → Live pre i t) ∧
      (s.remoteStateChange = true → s.reply.initiatorNodeId ≠ some s.nodeId → Watched s) := by
  have hinv := hs.partInv
  refine ⟨hinv.log, fun hremote hother => ?_⟩
  obtain ⟨i, hi, hheld⟩ := hinv.holding hremote
  exact (hheld fun hself => hother (hself ▸ hi)).2

/-- The steps of the events, one after the other, if they can all be taken. -/
def runPart : Participant → List PartEvent → Option Participant
  | s, [] => some s
  | s, e :: es =>
    match partStep s e with
    | none => none
    | some s => runPart s es

/-- The first two connections of node 0. -/
def threeNodes : Participant where
  nodeId := 0
  conns := [{ peerNodeId := 1 }, { peerNodeId := 2 }]

theorem threeNodes_start : threeNodes.Start :=
  ⟨rfl, rfl, rfl, rfl, rfl, rfl, rfl⟩

/-- A packet of node 2 about its promotion. -/
def promoteTwo (cmd : Cmd) : Packet where
  cmd := cmd
  initiatorNodeId := 2
  tid := 7
  peer := some .primary

/-- A packet of node 1 about its leaving node 3. -/
def leaveThree (cmd : Cmd) : Packet where
  cmd := cmd
  initiatorNodeId := 1
  tid := 5
  targetNodeId := some 3
  conn := some (.conn .disconnecting)

/-- What `setReply` makes of the promotion. -/
def promotion (cmd : Cmd) : Handler where
  peer := 2
  p := promoteTwo cmd
  reply := {
    initiatorNodeId := some 2
    tid := 7
    reachableNodes := 7
    primaryNodes := 1
    weakNodes := ~~~7 }

/-- What `setReply` makes of the disconnect. -/
def leaving (cmd : Cmd) : Handler where
  peer := 1
  p := leaveThree cmd
  reply := {
    initiatorNodeId := some 1
    tid := 5
    targetNodeId := some 3
    reachableNodes := 5
    isDisconnect := true }

/-- Node 0 prepares the promotion. -/
def prepareTwo (rv : StateRv) : List PartEvent :=
  [.receive 2 (promoteTwo .prepare) 6 true, .finish (promotion .prepare) rv []]

/-- Node 0 prepares the promotion of node 2 and commits it. -/
theorem participant_sound_promotion :
    ∃ s pre, PartReachable s ∧ s.remoteStateChange = true ∧ s.log = pre ++
      [.committed 2 7] ∧ Live pre 2 7 ∧ Watched s := by
  have hprep : PartReachable ((runPart threeNodes (prepareTwo .success)).getD threeNodes) :=
    .next (.finish (promotion .prepare) .success [])
      (.next (.receive 2 (promoteTwo .prepare) 6 true) (.start threeNodes_start)
        ⟨fun h => absurd h (by decide), rfl⟩)
      ⟨fun _ => by decide, rfl⟩
  have hcommit : PartReachable ((runPart threeNodes (prepareTwo .success ++
      [.receive 2 (promoteTwo .commit) 6 true])).getD threeNodes) :=
    .next (.receive 2 (promoteTwo .commit) 6 true) hprep ⟨fun _ => by decide, rfl⟩
  have hsound := participant_sound _ hcommit
  exact ⟨_, [.prepared 2 7], hcommit, by decide, by decide, hsound.1 _ [] 2 7 (by decide),
    hsound.2 (by decide) (by decide)⟩

/-- A commit that comes after the transaction was given up is applied, because a disconnect is at
hand; and a prepare that finds two primaries is never given up. -/
theorem late_commit_applied :
    (∃ s, runPart threeNodes (prepareTwo .success ++ [.timer, .work, .receive 1 (leaveThree .prepare) 6 true,
        .finish (leaving .prepare) .success [], .receive 2 (promoteTwo .commit) 6 true]) = some s ∧
      s.log = [.prepared 2 7, .aborted 2 7, .prepared 1 5, .aborted 1 5, .committed 2 7]) ∧
      ∃ s, runPart threeNodes (prepareTwo .twoPrimaries) = some s ∧ s.remoteStateChange = true ∧
        s.reply.initiatorNodeId = some 2 ∧ s.timer = false ∧ s.work = none ∧ s.inFlight = [] := by
  exact ⟨⟨_, rfl, by decide⟩, _, rfl, by decide⟩

end Bsr.Twopc
