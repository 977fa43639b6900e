import Bsr.PeerAck.System

/-!
# The system as one secondary sees it

`Sys.node s x` is the part of the system that concerns the connection to node `x`: its link, what
its sender sees of the transfer log, the acks that are underway to it and the requests that wait for
the next ack.

* `Node.Inv` says that the writes sent to the node are, one after the other, those that the acks
  underway stand for, those that wait for an ack, and those still on the transfer log;
* there is one lemma for each way in which a step can change what a node sees.
-/

namespace Bsr.PeerAck

open Lib Replicate

/-- A write on the transfer log, with the flags of one node. -/
structure View where
  write : Write
  sent : Bool
  handled : Bool
  done : Bool
deriving DecidableEq

/-- The sender has come to the write. -/
def View.handle (sent : Bool) (v : View) : View :=
  { v with handled := true, sent := v.sent || sent }

def Live.view (x : Nat) (l : Live) : View :=
  ⟨l.req.write, decide (x ∈ l.req.sent), decide (x ∈ l.handled), decide (x ∈ l.done)⟩

structure Node where
  link : Link
  views : List View
  /-- The acks underway, oldest first. -/
  chain : List Ack
  group : List Request
  count : Int
  received : List Write
  applied : List Applied

/-- The system as node `x` sees it. -/
def Sys.node (s : Sys) (x : Nat) : Node where
  link := s.links x
  views := s.live.map (Live.view x)
  chain := s.acks x ++ s.queued x
  group := s.group
  count := s.resourceDagtag
  received := s.received x
  applied := s.applied x

/-- The requests among `reqs` that were sent to the node. -/
def sentTo (x : Nat) (reqs : List Request) : List Request :=
  reqs.filter fun req => decide (x ∈ req.sent)

open List

@[simp] theorem sentTo_append (x : Nat) (reqs reqs' : List Request) :
    sentTo x (reqs ++ reqs') = sentTo x reqs ++ sentTo x reqs' :=
  filter_append ..

/-- The last request that an ack stands for names it; the nodes of its mask have all of them. -/
structure Ack.Good (x : Nat) (a : Ack) : Prop where
  last : ∃ reqs p, a.covers = reqs ++ [p] ∧ p.dagtag = a.dagtag ∧ x ∈ p.sent
  mask : ∀ req ∈ a.covers, ∀ y ∈ a.mask, y ∈ req.ok

namespace Node

variable (n : Node)

/-- The writes that the node has and whose ack is not yet there, oldest first. -/
def waiting : List Write :=
  n.link.receiver.peerRequests.map PeerRequest.write

/-- The destroyed requests that were sent to the node and that no ack it has applied stands for. -/
def destroyed (x : Nat) (n : Node) : List Request :=
  sentTo x (n.chain.flatMap Ack.covers ++ n.group)

/-- The writes of the transfer log that were sent to the node. -/
def liveSent : List Write :=
  (n.views.filter View.sent).map View.write

def tl : List Write :=
  n.views.map View.write

/-- All writes that have reached the node or are on their way. -/
def arrived : List Write :=
  n.received ++ n.link.inFlight

structure Inv (x : Nat) (n : Node) : Prop where
  agrees : n.link.Agrees
  refused : n.link.refused = false
  requests : ∀ pr ∈ n.link.receiver.peerRequests, pr = pr.write.request
  split : n.waiting ++ n.link.inFlight = (n.destroyed x).map Request.write ++ n.liveSent
  /-- What is in flight belongs to a write that is not done. -/
  flying : ∀ w ∈ n.link.inFlight, ∃ v ∈ n.views, v.write = w ∧ v.done = false
  older : ∀ req ∈ n.destroyed x, ∀ w ∈ n.tl, req.dagtag < w.dagtag
  tlSorted : (n.tl.map Write.dagtag).Pairwise (· < ·)
  tlBounded : ∀ w ∈ n.tl, w.dagtag ≤ n.count
  sorted : (n.arrived.map Write.dagtag).Pairwise (· < ·)
  bounded : ∀ w ∈ n.arrived, w.dagtag ≤ n.count
  /-- A write that the sender has not come to is newer than all that were sent. -/
  fresh : ∀ w ∈ n.arrived, ∀ v ∈ n.views, v.handled = false → w.dagtag < v.write.dagtag
  /-- The sender takes the writes in order. -/
  ordered : n.views.Pairwise fun a b => b.handled = true → a.handled = true
  handled : ∀ v ∈ n.views, v.sent = true ∨ v.done = true → v.handled = true
  good : ∀ a ∈ n.chain, a.Good x
  log : n.received = n.applied.flatMap Applied.writes ++ n.waiting

variable {x : Nat} {n : Node}

/-! ### The transfer log -/

theorem Inv.destroyed_le (h : n.Inv x) {req : Request} (hreq : req ∈ n.destroyed x) : req.dagtag ≤ n.count := by
  have hmem : req.write ∈ n.waiting ++ n.link.inFlight := by
    rw [h.split]
    exact mem_append_left _ (mem_map_of_mem hreq)
  refine h.bounded req.write ?_
  obtain hw | hw := mem_append.1 hmem
  · exact mem_append_left _ (h.log ▸ mem_append_right _ hw)
  · exact mem_append_right _ hw

def addWrite (sector sectors : Nat) : Node :=
  { n with
    count := n.count + sectors
    views := n.views ++ [⟨⟨n.count + sectors, sector, sectors⟩, false, false, false⟩] }

theorem Inv.addWrite (h : n.Inv x) (sector : Nat) {sectors : Nat} (hpos : 0 < sectors) :
    (n.addWrite sector sectors).Inv x := by
  have hlive : (n.addWrite sector sectors).liveSent = n.liveSent := by simp [liveSent, Node.addWrite]
  have htl : (n.addWrite sector sectors).tl = n.tl ++ [⟨n.count + sectors, sector, sectors⟩] := by
    simp [tl, Node.addWrite]
  have hcount : (n.addWrite sector sectors).count = n.count + sectors := rfl
  refine ⟨h.agrees, h.refused, h.requests, hlive ▸ h.split, ?_, ?_, ?_, ?_, h.sorted, ?_, ?_, ?_, ?_, h.good, h.log⟩
  · intro w hw
    obtain ⟨v, hv, hfacts⟩ := h.flying w hw
    exact ⟨v, mem_append_left _ hv, hfacts⟩
  · intro req hreq w hw
    rw [htl] at hw
    obtain hw | hw := mem_append.1 hw
    · exact h.older req hreq w hw
    obtain rfl := mem_singleton.1 hw
    have hle := h.destroyed_le hreq
    dsimp only
    omega
  · rw [htl, map_append, pairwise_append]
    refine ⟨h.tlSorted, by simp, fun d hd e he => ?_⟩
    obtain ⟨w, hw, rfl⟩ := mem_map.1 hd
    have hle := h.tlBounded w hw
    obtain rfl : e = n.count + sectors := by simpa using he
    omega
  · intro w hw
    rw [htl] at hw
    obtain hw | hw := mem_append.1 hw
    · have hle := h.tlBounded w hw
      omega
    · obtain rfl := mem_singleton.1 hw
      exact Int.le_refl _
  · intro w hw
    have hle := h.bounded w hw
    omega
  · intro w hw v hv hno
    obtain hv | hv := mem_append.1 hv
    · exact h.fresh w hw v hv hno
    obtain rfl := mem_singleton.1 hv
    have hle := h.bounded w hw
    dsimp only
    omega
  · exact pairwise_append.2 ⟨h.ordered, by simp, fun a _ b hb => by simp [mem_singleton.1 hb]⟩
  · intro v hv hflag
    obtain hv | hv := mem_append.1 hv
    · exact h.handled v hv hflag
    · obtain rfl := mem_singleton.1 hv
      simp at hflag

/-- Behind the first unhandled write there are only unhandled ones. -/
theorem Inv.unhandled (h : n.Inv x) {pre post : List View} {v : View} (hviews : n.views = pre ++ v :: post)
    (hv : v.handled = false) : ∀ u ∈ v :: post, u.handled = false ∧ u.sent = false ∧ u.done = false := by
  have hordered := h.ordered
  rw [hviews, pairwise_append] at hordered
  have hnot : ∀ u ∈ v :: post, u.handled = false := by
    intro u hu
    obtain rfl | hu := mem_cons.1 hu
    · exact hv
    have himp := (pairwise_cons.1 hordered.2.1).1 u hu
    rw [hv] at himp
    simpa using himp
  intro u hu
  have hmem : u ∈ n.views := hviews ▸ mem_append_right _ hu
  have hflags := h.handled u hmem
  simpa [hnot u hu] using hflags

section Handle

variable {pre post : List View} {v : View} (h : n.Inv x) (hviews : n.views = pre ++ v :: post)
  (hpre : ∀ u ∈ pre, u.handled = true) (hv : v.handled = false)

/-- The node after its sender has come to a write. -/
def handleAt (pre post : List View) (v : View) (sent : Bool) : Node :=
  { n with views := pre ++ v.handle sent :: post }

include hviews

variable (sent : Bool)

theorem tl_handleAt : (n.handleAt pre post v sent).tl = n.tl := by
  simp [tl, handleAt, hviews, View.handle]

theorem unhandled_handleAt {sent : Bool} {u : View}
    (hu : u ∈ (n.handleAt pre post v sent).views) (hno : u.handled = false) : u ∈ n.views ∧ u ∈ pre ++ post := by
  rw [hviews]
  obtain hu | hu := mem_append.1 hu
  · exact ⟨mem_append_left _ hu, mem_append_left _ hu⟩
  obtain rfl | hu := mem_cons.1 hu
  · exact absurd hno (by simp [View.handle])
  · exact ⟨mem_append_right _ (mem_cons_of_mem _ hu), mem_append_right _ hu⟩

include h

theorem handled_handleAt :
    ∀ u ∈ (n.handleAt pre post v sent).views, u.sent = true ∨ u.done = true → u.handled = true := by
  intro u hu hflag
  obtain hu | hu := mem_append.1 hu
  · exact h.handled u (hviews ▸ mem_append_left _ hu) hflag
  obtain rfl | hu := mem_cons.1 hu
  · rfl
  · exact h.handled u (hviews ▸ mem_append_right _ (mem_cons_of_mem _ hu)) hflag

/-- What was in flight still belongs to a write that is not done. -/
theorem flying_handleAt :
    ∀ w ∈ n.link.inFlight, ∃ u ∈ (n.handleAt pre post v sent).views, u.write = w ∧ u.done = false := by
  intro w hw
  obtain ⟨u, hu, hfacts⟩ := h.flying w hw
  rw [hviews] at hu
  obtain hu | hu := mem_append.1 hu
  · exact ⟨u, mem_append_left _ hu, hfacts⟩
  obtain rfl | hu := mem_cons.1 hu
  · exact ⟨u.handle sent, mem_append_right _ mem_cons_self, hfacts⟩
  · exact ⟨u, mem_append_right _ (mem_cons_of_mem _ hu), hfacts⟩

include hpre

theorem ordered_handleAt :
    (n.handleAt pre post v sent).views.Pairwise fun a b => b.handled = true → a.handled = true := by
  have hordered := h.ordered
  rw [hviews, pairwise_append, pairwise_cons] at hordered
  refine pairwise_append.2 ⟨hordered.1, pairwise_cons.2 ⟨fun _ _ _ => rfl, hordered.2.1.2⟩, ?_⟩
  exact fun a ha _ _ _ => hpre a ha

theorem Inv.skip : (n.handleAt pre post v false).Inv x := by
  have hlive : (n.handleAt pre post v false).liveSent = n.liveSent := by
    simp only [liveSent, handleAt, hviews, View.handle, filter_append, filter_cons]
    cases v.sent <;> simp
  have htl := tl_handleAt hviews false
  refine ⟨h.agrees, h.refused, h.requests, hlive ▸ h.split, flying_handleAt h hviews false, htl ▸ h.older,
    htl ▸ h.tlSorted, htl ▸ h.tlBounded, h.sorted, h.bounded, ?_, ordered_handleAt h hviews hpre false,
    handled_handleAt h hviews false, h.good, h.log⟩
  exact fun w hw u hu hno => h.fresh w hw u (unhandled_handleAt hviews hu hno).1 hno

/-- The node after a write was sent to it. -/
def sendAt (pre post : List View) (v : View) : Node :=
  { n.handleAt pre post v true with link := n.link.send n.count v.write }

include hv in
theorem Inv.send (hguess : n.link.MissesGuess n.count v.write) : (n.sendAt pre post v).Inv x := by
  have hun := h.unhandled hviews hv
  have hnew : ∀ w ∈ n.arrived, w.dagtag < v.write.dagtag := fun w hw =>
    h.fresh w hw v (hviews ▸ mem_append_right _ mem_cons_self) hv
  have hvmem : v.write ∈ n.tl := mem_map_of_mem (hviews ▸ mem_append_right _ mem_cons_self)
  have hlive : (n.sendAt pre post v).liveSent = n.liveSent ++ [v.write] := by
    have hpost : post.filter View.sent = [] :=
      filter_eq_nil_iff.2 fun u hu => by simp [(hun u (mem_cons_of_mem _ hu)).2.1]
    simp [liveSent, sendAt, handleAt, hviews, View.handle, hpost, (hun v mem_cons_self).2.1]
  have harrived : (n.sendAt pre post v).arrived = n.arrived ++ [v.write] := by
    simp [arrived, sendAt, handleAt]
  have htl : (n.sendAt pre post v).tl = n.tl := tl_handleAt hviews true
  refine ⟨h.agrees.send hguess, h.refused, h.requests, ?_, ?_, htl ▸ h.older, htl ▸ h.tlSorted,
    htl ▸ h.tlBounded, ?_, ?_,
    ?_, ordered_handleAt h hviews hpre true, handled_handleAt h hviews true, h.good, h.log⟩
  · rw [hlive, ← append_assoc]
    have hflight : (n.sendAt pre post v).link.inFlight = n.link.inFlight ++ [v.write] := Link.inFlight_send ..
    rw [hflight, ← append_assoc]
    exact congrArg (· ++ [v.write]) h.split
  · intro w hw
    rw [show (n.sendAt pre post v).link.inFlight = n.link.inFlight ++ [v.write] from Link.inFlight_send ..] at hw
    obtain hw | hw := mem_append.1 hw
    · exact flying_handleAt h hviews true w hw
    · obtain rfl := mem_singleton.1 hw
      exact ⟨v.handle true, mem_append_right _ mem_cons_self, rfl, (hun v mem_cons_self).2.2⟩
  · rw [harrived, map_append, pairwise_append]
    refine ⟨h.sorted, by simp, fun d hd e he => ?_⟩
    obtain ⟨w, hw, rfl⟩ := mem_map.1 hd
    obtain rfl : e = v.write.dagtag := by simpa using he
    exact hnew w hw
  · intro w hw
    rw [harrived] at hw
    obtain hw | hw := mem_append.1 hw
    · exact h.bounded w hw
    · exact mem_singleton.1 hw ▸ h.tlBounded _ hvmem
  · intro w hw u hu hno
    obtain ⟨hmem, hother⟩ := unhandled_handleAt hviews hu hno
    rw [harrived] at hw
    obtain hw | hw := mem_append.1 hw
    · exact h.fresh w hw u hmem hno
    obtain rfl := mem_singleton.1 hw
    -- the write that was sent is older than those behind it
    have hpost : u ∈ post := (mem_append.1 hother).resolve_left fun hu => by simp [hpre u hu] at hno
    have hsorted := h.tlSorted
    rw [tl, hviews] at hsorted
    simp only [map_append, map_cons, pairwise_append, pairwise_cons] at hsorted
    exact hsorted.2.1.1 _ (mem_map_of_mem (mem_map_of_mem hpost))

end Handle

/-! ### Packets -/

/-- The node after it has taken a packet of the data stream. -/
def take (hasDisk : Bool) : Node :=
  { n with link := n.link.recv hasDisk, received := n.received ++ n.link.arriving.toList }

open Write

theorem Inv.take (h : n.Inv x) {hasDisk : Bool} (hguard : n.link.arriving ≠ none → hasDisk = true) :
    (n.take hasDisk).Inv x := by
  have hrefused : hasDisk = true → n.link.arriving ≠ none → n.link.refused = false := fun _ _ => h.refused
  have hrequests : (n.take hasDisk).link.receiver.peerRequests =
      n.link.receiver.peerRequests ++ n.link.arriving.toList.map request := by
    rw [show (n.take hasDisk).link = n.link.recv hasDisk from rfl, Link.peerRequests_recv h.agrees hrefused]
    cases harr : n.link.arriving with
    | none => simp
    | some w => simp [hguard (by simp [harr])]
  have hwaiting : (n.take hasDisk).waiting = n.waiting ++ n.link.arriving.toList := by
    rw [waiting, hrequests, map_append, map_map]
    congr 1
    exact map_id _
  have hflight : n.link.inFlight = n.link.arriving.toList ++ (n.take hasDisk).link.inFlight :=
    Link.inFlight_recv hasDisk n.link
  have harrived : (n.take hasDisk).arrived = n.arrived := by
    rw [arrived, arrived, hflight, ← append_assoc]
    rfl
  refine ⟨h.agrees.recv hrefused, ?_, ?_, ?_, ?_, h.older, h.tlSorted, h.tlBounded,
    harrived ▸ h.sorted, harrived ▸ h.bounded, harrived ▸ h.fresh, h.ordered, h.handled, h.good, ?_⟩
  · exact Link.refused_recv h.refused hguard
  · intro pr hpr
    rw [hrequests] at hpr
    obtain hpr | hpr := mem_append.1 hpr
    · exact h.requests pr hpr
    · obtain ⟨w, -, rfl⟩ := mem_map.1 hpr
      rfl
  · rw [hwaiting, append_assoc, ← hflight]
    exact h.split
  · intro w hw
    exact h.flying w (hflight ▸ mem_append_right _ hw)
  · rw [hwaiting, ← append_assoc]
    exact congrArg (· ++ n.link.arriving.toList) h.log

/-- The node after the connection is done with a write. -/
def finish (d : Int) : Node :=
  { n with views := n.views.map fun v => if v.write.dagtag = d then { v with done := true } else v }

theorem Inv.finish (h : n.Inv x) {d : Int}
    (hlegal : ∀ v ∈ n.views, v.write.dagtag = d → v.handled = true ∧ v.write ∉ n.link.inFlight) :
    (n.finish d).Inv x := by
  -- only `done` changes
  have hsame : ∀ v : View, (if v.write.dagtag = d then { v with done := true } else v).write =
      v.write ∧ (if v.write.dagtag = d then { v with done := true } else v).sent = v.sent ∧
      (if v.write.dagtag = d then { v with done := true } else v).handled = v.handled := by
    intro v
    split_ifs <;> exact ⟨rfl, rfl, rfl⟩
  have htl : (n.finish d).tl = n.tl := by simp [tl, Node.finish, hsame]
  have hlive : (n.finish d).liveSent = n.liveSent := by
    simp [liveSent, Node.finish, filter_map, Function.comp_def, hsame]
  refine ⟨h.agrees, h.refused, h.requests, hlive ▸ h.split, ?_, htl ▸ h.older, htl ▸ h.tlSorted,
    htl ▸ h.tlBounded, h.sorted, h.bounded, ?_, ?_, ?_, h.good, h.log⟩
  · intro w hw
    obtain ⟨v, hv, hvw, hdone⟩ := h.flying w hw
    refine ⟨v, mem_map.2 ⟨v, hv, if_neg fun hd => ?_⟩, hvw, hdone⟩
    exact (hlegal v hv hd).2 (hvw ▸ hw)
  · intro w hw u hu hno
    obtain ⟨v, hv, rfl⟩ := mem_map.1 hu
    rw [(hsame v).2.2] at hno
    rw [(hsame v).1]
    exact h.fresh w hw v hv hno
  · refine pairwise_map.2 (h.ordered.imp fun hab => ?_)
    rw [(hsame _).2.2, (hsame _).2.2]
    exact hab
  · intro u hu hflag
    obtain ⟨v, hv, rfl⟩ := mem_map.1 hu
    rw [(hsame v).2.2]
    by_cases hd : v.write.dagtag = d
    · exact (hlegal v hv hd).1
    · rw [if_neg hd] at hflag
      exact h.handled v hv hflag

/-! ### Acks -/

variable {chain : List Ack}

/-- The requests are divided up in another way among the acks underway and those that wait. -/
theorem Inv.regroup (h : n.Inv x) {group : List Request}
    (hsame : sentTo x (chain.flatMap Ack.covers ++ group) = n.destroyed x)
    (hgood : ∀ a ∈ chain, a.Good x) : ({ n with chain := chain, group := group } : Node).Inv x :=
  { h with
    split := by
      rw [show ({ n with chain := chain, group := group } : Node).destroyed x = n.destroyed x from hsame]
      exact h.split
    older := by
      rw [show ({ n with chain := chain, group := group } : Node).destroyed x = n.destroyed x from hsame]
      exact h.older
    good := hgood }

open Request

theorem Inv.retire (h : n.Inv x) {v : View} {vs : List View} (hviews : n.views = v :: vs)
    (hdone : v.done = true) {group reqs : List Request}
    (hjoin : sentTo x (chain.flatMap Ack.covers ++ group) = n.destroyed x ++ reqs)
    (hreqs : reqs.map write = if v.sent then [v.write] else []) (hgood : ∀ a ∈ chain, a.Good x) :
    ({ n with views := vs, chain := chain, group := group } : Node).Inv x := by
  have hdestroyed : ({ n with views := vs, chain := chain, group := group } : Node).destroyed x =
    n.destroyed x ++ reqs := hjoin
  have hsub : vs.Sublist n.views := hviews ▸ sublist_cons_self v vs
  have htl : (({ n with views := vs, chain := chain, group := group } : Node).tl).Sublist n.tl := hsub.map _
  have hsorted := h.tlSorted
  rw [tl, hviews] at hsorted
  simp only [map_cons, pairwise_cons] at hsorted
  refine ⟨h.agrees, h.refused, h.requests, ?_, ?_, ?_, h.tlSorted.sublist (htl.map _),
    fun w hw => h.tlBounded w (htl.subset hw), h.sorted, h.bounded,
    fun w hw u hu => h.fresh w hw u (hsub.subset hu), h.ordered.sublist hsub,
    fun u hu => h.handled u (hsub.subset hu), hgood, h.log⟩
  · rw [hdestroyed, map_append, hreqs, append_assoc]
    have hlive : n.liveSent = (if v.sent then [v.write] else []) ++ (vs.filter View.sent).map View.write := by
      rw [liveSent, hviews]
      cases hsent : v.sent <;> simp [hsent]
    exact h.split.trans (congrArg _ hlive)
  · intro w hw
    obtain ⟨u, hu, hfacts⟩ := h.flying w hw
    rw [hviews] at hu
    obtain rfl | hu := mem_cons.1 hu
    · exact absurd (hdone.symm.trans hfacts.2) (by decide)
    · exact ⟨u, hu, hfacts⟩
  · intro req hreq w hw
    rw [hdestroyed] at hreq
    obtain hreq | hreq := mem_append.1 hreq
    · exact h.older req hreq w (htl.subset hw)
    have hmem : req.write ∈ reqs.map write := mem_map_of_mem hreq
    rw [hreqs] at hmem
    have heq : req.write = v.write := by
      cases hsent : v.sent <;> simp [hsent] at hmem
      exact hmem
    have hlt := hsorted.1 w.dagtag (mem_map_of_mem hw)
    rw [← heq] at hlt
    exact hlt

theorem Inv.destroyed_prefix (h : n.Inv x) : ∃ rest, n.waiting = (n.destroyed x).map write ++ rest := by
  obtain ⟨more, hD, hF⟩ | ⟨rest, hW, -⟩ := append_eq_append_iff.1 h.split
  · -- a write in flight is still on the transfer log
    cases more with
    | nil => exact ⟨[], by simpa using hD.symm⟩
    | cons w more =>
      have hflight : w ∈ n.link.inFlight := hF ▸ mem_append_left _ mem_cons_self
      have hdestroyed : w ∈ (n.destroyed x).map write := hD ▸ mem_append_right _ mem_cons_self
      obtain ⟨v, hv, hvw, -⟩ := h.flying w hflight
      obtain ⟨req, hreq, rfl⟩ := mem_map.1 hdestroyed
      have hlt := h.older req hreq v.write (mem_map_of_mem hv)
      rw [hvw] at hlt
      exact absurd hlt (Int.lt_irrefl _)
  · exact ⟨rest, hW⟩

/-- The node after it has applied an ack to requests of its list. -/
def applyAck (a : Ack) (chain : List Ack) (c : List PeerRequest × Receiver) : Node :=
  { n with
    link := { n.link with receiver := c.2 }
    chain := chain
    applied := n.applied ++ [⟨a.mask, c.1.map PeerRequest.write⟩] }

/-- The oldest ack underway finds its request, and covers just the writes it stands for. -/
theorem Inv.applyAck (h : n.Inv x) {a : Ack} (hchain : n.chain = a :: chain) :
    ∃ c, gotPeerAck n.link.receiver a.dagtag = some c ∧
      c.1.map PeerRequest.write = (sentTo x a.covers).map write ∧ (n.applyAck a chain c).Inv x := by
  obtain ⟨⟨reqs, p, hcovers, hdagtag, hsent⟩, -⟩ := h.good a (hchain ▸ mem_cons_self)
  have hlast : sentTo x a.covers = sentTo x reqs ++ [p] := by
    simp [hcovers, sentTo, hsent]
  have hdestroyed : n.destroyed x = sentTo x reqs ++ p :: sentTo x (chain.flatMap Ack.covers ++ n.group) := by
    rw [destroyed, hchain, flatMap_cons, append_assoc, sentTo_append, hlast, append_assoc]
    rfl
  obtain ⟨rest, hwaiting⟩ := h.destroyed_prefix
  rw [hdestroyed, map_append, map_cons, append_assoc, cons_append] at hwaiting
  -- the requests on the list are those of the writes, so the search meets `p` first
  have hrequests : n.link.receiver.peerRequests = n.waiting.map request := by
    rw [waiting, map_map]
    refine (map_id _).symm.trans (map_congr_left fun pr hpr => ?_)
    exact h.requests pr hpr
  have hnew : ∀ pr ∈ ((sentTo x reqs).map write).map request, decide (a.dagtag = pr.dagtag) = false := by
    intro pr hpr
    obtain ⟨w, hw, rfl⟩ := mem_map.1 hpr
    have hsorted := h.sorted
    rw [arrived, h.log, hwaiting] at hsorted
    simp only [map_append, append_assoc, pairwise_append] at hsorted
    have hlt := hsorted.2.1.2.2 w.dagtag (mem_map_of_mem hw) _ mem_cons_self
    refine decide_eq_false fun heq => ?_
    simp only [request, write] at heq hlt
    omega
  obtain ⟨c, hfound, hc, hc'⟩ : ∃ c, gotPeerAck n.link.receiver a.dagtag = some c ∧
      c.1 = ((sentTo x reqs).map write).map request ++ [p.write.request] ∧
      c.2 = { n.link.receiver with
        peerRequests := (((sentTo x (chain.flatMap Ack.covers ++ n.group)).map write) ++ rest).map
          request } := by
    refine ⟨(_, _), ?_, rfl, rfl⟩
    rw [gotPeerAck, hrequests, hwaiting, map_append, map_cons,
      cutAfter_append hnew (by simp [request, write, hdagtag])]
    rfl
  have hcut : c.1.map PeerRequest.write = (sentTo x a.covers).map write := by
    simp [hc, hlast, request]
  refine ⟨c, hfound, hcut, ?_⟩
  -- the list is shorter by what the ack covers
  have hleft : (n.applyAck a chain c).waiting =
      (sentTo x (chain.flatMap Ack.covers ++ n.group)).map write ++ rest := by
    simp [waiting, Node.applyAck, hc', request, Function.comp_def]
  have hboth : n.waiting = (sentTo x a.covers).map write ++ (n.applyAck a chain c).waiting := by
    rw [hleft, hwaiting, hlast]
    simp
  have hold : n.destroyed x = sentTo x a.covers ++ (n.applyAck a chain c).destroyed x := by
    rw [hdestroyed, hlast, append_assoc]
    rfl
  have hcount : c.2.lastDagtagSector = n.link.receiver.lastDagtagSector := by rw [hc']
  refine { h with
    agrees := { h.agrees with counted := fun hr => hcount.trans (h.agrees.counted hr) }
    requests := ?_, split := ?_, older := ?_, good := ?_, log := ?_ }
  · intro pr hpr
    simp only [Node.applyAck, hc'] at hpr
    obtain ⟨w, -, rfl⟩ := mem_map.1 hpr
    rfl
  · have hsplit := h.split
    rw [hboth, hold, map_append, append_assoc, append_assoc] at hsplit
    exact append_cancel_left hsplit
  · exact fun req hreq => h.older req (hold ▸ mem_append_right _ hreq)
  · exact fun b hb => h.good b (hchain ▸ mem_cons_of_mem _ hb)
  · have happlied : (n.applyAck a chain c).applied.flatMap Applied.writes =
        n.applied.flatMap Applied.writes ++ (sentTo x a.covers).map write := by
      simp [Node.applyAck, ← hcut]
    rw [happlied, append_assoc, ← hboth]
    exact h.log

end Node

end Bsr.PeerAck
