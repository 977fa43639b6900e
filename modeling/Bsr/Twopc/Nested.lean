import Bsr.Twopc.Model

/-!
# Answering the parents

A node that has passed a prepare on records the connections it got it from, the parents. When its
own votes are in, `twopc_end_nested` (`bsr_state.c`) sends one reply to each of them.

* The parents are moved from the resource to a list on the stack and, under the lock, copied into an
  array that has to be allocated; the replies are sent from the array.
* `twopcEndNested_answers_iff` says when all of them are answered: without the array nobody is.
-/

namespace Bsr.Twopc

/-- What `twopc_end_nested` reads and writes of a resource and of its connections. -/
structure Nested where
  reply : Reply := {}
  prepareReplyCmd : Option Vote := none
  /-- `resource->twopc_parents`; a connection has one `twopc_parent_list`, so it is there once. -/
  parents : List Nat := []
  nodup : parents.Nodup
  /-- `twopc_work.cb` is set. -/
  work : Bool := false
  kref : Nat → Int
  /-- The connection's `twopc_parent_list` is on a list. -/
  linked : Nat → Bool
  disconnectExpected : Nat → Bool := fun _ => false
  sent : List (Nat × Vote × Reply) := []
  woken : Bool := false

namespace Nested

/-- The loop that counts the parents. An entry that is its own successor ends it. -/
def countParents : List Nat → Except Nat Nat
  | [] => .ok 0
  | c :: rest =>
    if rest.head? = some c then .error c
    else
      match countParents rest with
      | .error d => .error d
      | .ok n => .ok (n + 1)

def answer (cmd : Vote) (reply : Reply) (s : Nested) (c : Nat) : Nested :=
  { s with
    disconnectExpected := fun d => if reply.isDisconnect && d == c then true else s.disconnectExpected d
    sent := s.sent ++ [(c, cmd, reply)]
    linked := fun d => if d = c then false else s.linked d
    kref := fun d => if d = c then s.kref d - 1 else s.kref d }

/-- `twopc_end_nested`; `alloc` says whether the array can be allocated. -/
def twopcEndNested (s : Nested) (cmd : Vote) (asWork alloc : Bool) : Nested :=
  let s' := { s with work := if asWork then false else s.work }
  if s.reply.tid = 0 then s'
  else
    let s' := { s' with prepareReplyCmd := some cmd, parents := [], nodup := List.nodup_nil }
    match countParents s.parents with
    | .error c => { s' with linked := fun d => if d = c then false else s.linked d }
    | .ok 0 => s'
    | .ok _ =>
      if alloc then { s.parents.foldl (answer cmd s.reply) s' with woken := true }
      else s'

/-- Every parent has got one reply and has lost one reference, nobody else is touched, and no parent
is recorded or linked any more. -/
structure Answers (s s' : Nested) (cmd : Vote) : Prop where
  sent : ∃ new, s'.sent = s.sent ++ new ∧
    ∀ c, new.filter (fun m => m.1 == c) = if c ∈ s.parents then [(c, cmd, s.reply)] else []
  kref : ∀ c, s'.kref c = if c ∈ s.parents then s.kref c - 1 else s.kref c
  unlinked : ∀ c ∈ s.parents, s'.linked c = false
  parents : s'.parents = []

open List

theorem countParents_eq {l : List Nat} (h : l.Nodup) : countParents l = .ok l.length := by
  induction l with
  | nil => rfl
  | cons c rest ih =>
    obtain ⟨hc, hrest⟩ := nodup_cons.mp h
    have hnext : rest.head? ≠ some c := fun heq => hc (mem_of_mem_head? heq)
    rw [countParents, if_neg hnext, ih hrest]
    rfl

theorem foldl_answer {cmd : Vote} {reply : Reply} {l : List Nat} (h : l.Nodup) (s : Nested) :
    (l.foldl (answer cmd reply) s).sent = s.sent ++ l.map (fun c => (c, cmd, reply)) ∧
    (∀ c, (l.foldl (answer cmd reply) s).kref c = if c ∈ l then s.kref c - 1 else s.kref c) ∧
    (∀ c, (l.foldl (answer cmd reply) s).linked c = if c ∈ l then false else s.linked c) ∧
    (l.foldl (answer cmd reply) s).parents = s.parents := by
  induction l generalizing s with
  | nil => simp
  | cons c rest ih =>
    obtain ⟨hc, hrest⟩ := nodup_cons.mp h
    obtain ⟨hsent, hkref, hlinked, hparents⟩ := ih hrest (answer cmd reply s c)
    rw [foldl_cons]
    refine ⟨?_, fun d => ?_, fun d => ?_, hparents⟩
    · rw [hsent]
      simp [answer]
    · rw [hkref]
      by_cases hd : d = c
      · subst hd
        simp [answer, hc]
      · simp [answer, hd]
    · rw [hlinked]
      by_cases hd : d = c
      · subst hd
        simp [answer]
      · simp [answer, hd]

theorem filter_replies {cmd : Vote} {reply : Reply} {l : List Nat} (h : l.Nodup) (c : Nat) :
    (l.map fun d => (d, cmd, reply)).filter (fun m => m.1 == c) =
      if c ∈ l then [(c, cmd, reply)] else [] := by
  have hcount : l.filter (· == c) = replicate (l.count c) c := filter_beq c
  rw [filter_map, show ((fun m : Nat × Vote × Reply => m.1 == c) ∘ fun d => (d, cmd, reply)) =
    (· == c) from rfl, hcount]
  split_ifs with hc
  · rw [count_eq_one_of_mem h hc]
    rfl
  · rw [count_eq_zero.mpr hc]
    rfl

/-- With a transaction and an array all parents are answered. -/
theorem twopcEndNested_answers (s : Nested) (cmd : Vote) (asWork : Bool) (htid : s.reply.tid ≠ 0) :
    Answers s (s.twopcEndNested cmd asWork true) cmd := by
  obtain ⟨hsent, hkref, hlinked, hparents⟩ := @foldl_answer cmd s.reply s.parents s.nodup
    { s with
      work := if asWork then false else s.work
      prepareReplyCmd := some cmd
      parents := []
      nodup := nodup_nil }
  unfold twopcEndNested
  rw [if_neg htid, countParents_eq s.nodup]
  cases hlen : s.parents.length with
  | zero =>
    have hnil := eq_nil_of_length_eq_zero hlen
    exact ⟨⟨[], by simp, by simp [hnil]⟩, by simp [hnil], by simp [hnil], rfl⟩
  | succ n =>
    refine ⟨⟨_, hsent, filter_replies s.nodup⟩, hkref, fun c hc => ?_, hparents⟩
    exact (hlinked c).trans (if_pos hc)

/-- All parents are answered exactly if there are none, or if there is a transaction and the array
can be allocated. -/
theorem twopcEndNested_answers_iff (s : Nested) (cmd : Vote) (asWork alloc : Bool) :
    Answers s (s.twopcEndNested cmd asWork alloc) cmd ↔
      s.parents = [] ∨ s.reply.tid ≠ 0 ∧ alloc = true := by
  constructor
  · intro h
    by_contra hnot
    obtain ⟨hne, hfail⟩ := not_or.mp hnot
    -- then nothing is sent
    have hsilent : (s.twopcEndNested cmd asWork alloc).sent = s.sent := by
      unfold twopcEndNested
      dsimp only
      by_cases htid : s.reply.tid = 0
      · rw [if_pos htid]
      rw [if_neg htid, countParents_eq s.nodup]
      cases s.parents.length with
      | zero => rfl
      | succ n =>
        rw [if_neg fun halloc => hfail ⟨htid, halloc⟩]
        rfl
    obtain ⟨new, hnew, hreplies⟩ := h.sent
    rw [hsilent] at hnew
    have hnil : new = [] := self_eq_append_right.mp hnew
    obtain ⟨c, hc⟩ := exists_mem_of_ne_nil _ hne
    have hreply := hreplies c
    rw [hnil, if_pos hc] at hreply
    cases hreply
  · rintro (hnil | ⟨htid, rfl⟩)
    · have hsame : ∀ s', s'.sent = s.sent → s'.kref = s.kref → s'.parents = [] → Answers s s' cmd := by
        intro s' hsent hkref hparents
        exact ⟨⟨[], by simp [hsent], by simp [hnil]⟩, by simp [hnil, hkref], by simp [hnil], hparents⟩
      unfold twopcEndNested
      by_cases htid : s.reply.tid = 0
      · rw [if_pos htid]
        exact hsame _ rfl rfl hnil
      · rw [if_neg htid, show countParents s.parents = .ok 0 by rw [hnil]; rfl]
        exact hsame _ rfl rfl rfl
    · exact s.twopcEndNested_answers cmd asWork htid

/-- The array cannot be allocated: the parent gets no reply and keeps its reference. -/
theorem twopcEndNested_silent : ∃ s : Nested, s.reply.tid ≠ 0 ∧ s.parents = [1] ∧
    (s.twopcEndNested .yes true false).sent = [] ∧ (s.twopcEndNested .yes true false).kref 1 =
    s.kref 1 ∧ ¬Answers s (s.twopcEndNested .yes true false) .yes := by
  let s : Nested :=
    { reply := { tid := 7 }, parents := [1], nodup := nodup_singleton 1, kref := fun _ => 2,
      linked := fun c => c == 1 }
  refine ⟨s, by decide, rfl, rfl, rfl, fun h => ?_⟩
  have hkref : (2 : Int) = 1 := h.kref 1
  exact absurd hkref (by decide)

end Nested

end Bsr.Twopc
