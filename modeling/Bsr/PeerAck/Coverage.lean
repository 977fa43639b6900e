import Bsr.PeerAck.Node

/-!
# What peer acks cover

An ack that a secondary applies covers the requests that the primary has put together under it, and
of these the ones that were sent to this secondary.

* `Stands` says that `peer_ack_req` stands for the requests destroyed since the last ack was queued:
  they have the same acknowledgements, and whoever got one of them got `peer_ack_req` as well. The
  second part is not checked by `bsr_req_destroy`; it is what `Event.KeepsTargets` demands;
* `Inv.mirrored` ties `peer_ack_list` to the acks of each connection;
* `Inv.retire` is the one place where requests are put together under an ack.
-/

namespace Bsr.PeerAck

open Function List

open Lib Replicate

/-! ## The list of acks -/

variable {x : Nat}

section List

variable {r : Resource} {p : Request}

theorem mem_ackTargets (hup : ∀ c ∈ r.conns, 110 ≤ c.agreedProVersion ∧ c.connected = true) :
    x ∈ ackTargets r p ↔ x ∈ r.conns.map Conn.peerNodeId ∧ x ∈ p.sent := by
  simp only [ackTargets, mem_map, mem_filter, Bool.and_eq_true, decide_eq_true_eq]
  constructor
  · rintro ⟨c, ⟨hc, -, hsent⟩, rfl⟩
    exact ⟨⟨c, hc, rfl⟩, hsent⟩
  · rintro ⟨⟨c, hc, rfl⟩, hsent⟩
    exact ⟨c, ⟨hc, hup c hc, hsent⟩, rfl⟩

theorem mem_peerAckMask {y : Nat} : y ∈ peerAckMask r p ↔ y ∈ r.conns.map Conn.peerNodeId ∧ y ∈ p.ok := by
  simp [peerAckMask]

/-- The entries of the list for one connection. -/
def entriesFor (x : Nat) (reqs : List Request) : List Request :=
  reqs.filter fun req => decide (x ∈ req.peerAck)

/-- What of an entry is sent. -/
def packetOf (r : Resource) (req : Request) : Int × Finset Nat :=
  (req.dagtag, peerAckMask r req)

theorem entriesFor_ackEntry (x : Nat) :
    (entriesFor x (ackEntry r p)).map (packetOf r) = if x ∈ ackTargets r p then [packetOf r p] else [] := by
  unfold ackEntry
  by_cases hnone : ackTargets r p = []
  · simp [hnone, entriesFor]
  · rw [if_neg hnone]
    by_cases hx : x ∈ ackTargets r p <;> simp [entriesFor, hx, packetOf, peerAckMask]

theorem entriesFor_clearPeerAck_self (x : Nat) (reqs : List Request) :
    entriesFor x (clearPeerAck x reqs) = (entriesFor x reqs).tail := by
  induction reqs with
  | nil => rfl
  | cons req reqs ih =>
    rw [clearPeerAck]
    split_ifs with hx
    · dsimp only
      split_ifs <;> simp [entriesFor, hx]
    · simpa [entriesFor, hx] using ih

theorem entriesFor_clearPeerAck_of_ne {x y : Nat} (hne : y ≠ x) (reqs : List Request) :
    (entriesFor y (clearPeerAck x reqs)).map (packetOf r) = (entriesFor y reqs).map (packetOf r) := by
  induction reqs with
  | nil => rfl
  | cons req reqs ih =>
    rw [clearPeerAck]
    split_ifs with hx
    · have hkeep : y ∈ req.peerAck.erase x ↔ y ∈ req.peerAck := by simp [hne]
      by_cases hempty : req.peerAck.erase x = ∅
      · -- nobody else waits for this ack
        have hy : y ∉ req.peerAck := fun hy => by simp [hempty] at hkeep; exact hkeep hy
        rw [if_pos hempty]
        simp [entriesFor, hy]
      · rw [if_neg hempty]
        by_cases hy : y ∈ req.peerAck <;> simp [entriesFor, hne, hy, packetOf, peerAckMask]
    · by_cases hy : y ∈ req.peerAck <;> simpa [entriesFor, hy] using ih

end List

/-! ## The invariant -/

/-- A request stands for the others of its group. -/
structure Stands (nodes : List Nat) (p : Request) (group : List Request) : Prop where
  last : ∃ reqs, group = reqs ++ [p]
  ok : ∀ req ∈ group, ∀ y ∈ nodes, y ∈ req.ok ↔ y ∈ p.ok
  sent : ∀ req ∈ group, ∀ x ∈ nodes, x ∈ req.sent → x ∈ p.sent

structure Inv (s : Sys) : Prop where
  up : ∀ c ∈ s.res.conns, 110 ≤ c.agreedProVersion ∧ c.connected = true
  small : ∀ x ∈ s.nodes, x ≤ s.res.maxNodeId
  idle : s.res.peerAckReq = none → s.group = []
  stands : ∀ p, s.res.peerAckReq = some p → Stands s.nodes p s.group
  mirrored : ∀ x ∈ s.nodes, (entriesFor x s.res.peerAckList).map (packetOf s.res) =
    (s.queued x).map fun a => (a.dagtag, a.mask)
  grouped : ∀ req ∈ s.group, req ∈ s.history
  covered : ∀ x ∈ s.nodes, ∀ a ∈ s.acks x ++ s.queued x, ∀ req ∈ a.covers, req ∈ s.history
  cleared : ∀ x ∈ s.nodes, ∀ a ∈ s.applied x, ∀ y ∈ a.mask, ∀ w ∈ a.writes,
    ∃ req ∈ s.history, req.write = w ∧ y ∈ req.ok
  node : ∀ x ∈ s.nodes, (s.node x).Inv x
  found : s.lost = false

open Node

theorem Start.inv {s : Sys} (h : Start s) : Inv s where
  up := h.up
  small := h.small
  idle _ := h.group
  stands p hp := by simp [h.req] at hp
  mirrored x _ := by simp [h.list, h.queued, entriesFor]
  grouped := by simp [h.group]
  covered x _ := by simp [h.acks, h.queued]
  cleared x _ := by simp [h.applied]
  node x hx := by
    obtain ⟨hseen, hstream, hlist, hcount, hrefused⟩ := h.fresh x hx
    have hflight : (s.links x).inFlight = [] := by simp [Link.inFlight, hstream, Link.dataOf]
    refine ⟨⟨fun _ => hstream, fun hs => ?_, ?_, fun _ => hcount.symm⟩, hrefused, ?_, ?_, ?_, ?_,
      ?_, ?_, ?_, ?_, ?_, ?_, ?_, ?_, ?_⟩
    · exact absurd (hs.symm.trans hseen) (by decide)
    · simp [Sys.node, hstream, Follows]
    all_goals simp [Sys.node, waiting, destroyed, liveSent, tl, arrived, hlist, hflight, h.live,
      h.acks, h.queued, h.group, h.received, h.applied, sentTo]
  found := h.lost

section Steps

variable {s : Sys}

/-! ### One connection -/

@[simp] theorem Live.view_write (x : Nat) (l : Live) : (l.view x).write = l.req.write := rfl

open Live

theorem Live.view_handle_self (x : Nat) (sent : Bool) (l : Live) :
    (l.handle x sent).view x = (l.view x).handle sent := by
  cases sent <;> simp [view, handle, View.handle, Request.write]

theorem Live.view_handle_of_ne {x y : Nat} (hne : y ≠ x) (sent : Bool) (l : Live) :
    (l.handle x sent).view y = l.view y := by
  cases sent <;> simp [view, handle, Request.write, hne]

@[simp] theorem Live.view_netOk (x y : Nat) (l : Live) : (l.netOk x).view y = l.view y := by
  unfold netOk
  split_ifs <;> rfl

/-- The first write that the sender has not come to, and what comes before and behind it. -/
theorem handleFirst_eq {ls : List Live} {l : Live} (h : nextFor x ls = some l) :
    ∃ pre post, ls = pre ++ l :: post ∧ (∀ u ∈ pre, x ∈ u.handled) ∧ x ∉ l.handled ∧
      ∀ sent, handleFirst x sent ls = pre ++ l.handle x sent :: post := by
  induction ls with
  | nil => cases h
  | cons u ls ih =>
    by_cases hu : x ∈ u.handled
    · have hrest : nextFor x ls = some l := by simpa [nextFor, hu] using h
      obtain ⟨pre, post, rfl, hpre, hl, heq⟩ := ih hrest
      refine ⟨u :: pre, post, rfl, ?_, hl, fun sent => ?_⟩
      · intro v hv
        obtain rfl | hv := mem_cons.1 hv
        · exact hu
        · exact hpre v hv
      · rw [handleFirst, if_pos hu, heq]
        rfl
    · obtain rfl : u = l := by simpa [nextFor, hu] using h
      exact ⟨[], ls, rfl, nofun, hu, fun sent => by rw [handleFirst, if_neg hu]; rfl⟩

theorem handleFirst_none {ls : List Live} (h : nextFor x ls = none) (sent : Bool) :
    handleFirst x sent ls = ls := by
  induction ls with
  | nil => rfl
  | cons u ls ih =>
    simp only [nextFor, find?_eq_none, mem_cons, decide_eq_true_eq, not_not, forall_eq_or_imp] at h
    rw [handleFirst, if_pos h.1, ih (by simpa [nextFor] using h.2)]

theorem views_handle_of_ne {x y : Nat} (hne : y ≠ x) (sent : Bool) (ls : List Live) :
    (handleFirst x sent ls).map (view y) = ls.map (view y) := by
  induction ls with
  | nil => rfl
  | cons u ls ih =>
    rw [handleFirst]
    split_ifs
    · simp [ih]
    · simp [view_handle_of_ne hne]

variable (h : Inv s)

include h

open Event

theorem Inv.write (sector : Nat) {sectors : Nat} (hpos : 0 < sectors) :
    Inv ((write sector sectors).exec s) := by
  refine { h with node := fun x hx => ?_ }
  have hnode : ((Event.write sector sectors).exec s).node x = (s.node x).addWrite sector sectors := by
    simp [exec, Sys.node, addWrite, view, Request.write]
  rw [hnode]
  exact (h.node x hx).addWrite sector hpos

omit h in
theorem views_split {l : Live} (hnext : nextFor x s.live = some l) :
    ∃ pre post, (s.node x).views = pre ++ l.view x :: post ∧ (∀ u ∈ pre, u.handled = true) ∧
      (l.view x).handled = false ∧
        ∀ sent, (handleFirst x sent s.live).map (view x) = pre ++ (l.view x).handle sent :: post := by
  obtain ⟨pre, post, hlive, hpre, hl, hfirst⟩ := handleFirst_eq hnext
  refine ⟨pre.map (view x), post.map (view x), ?_, ?_, by simp [view, hl], fun sent => ?_⟩
  · simp [Sys.node, hlive]
  · intro u hu
    obtain ⟨v, hv, rfl⟩ := mem_map.1 hu
    simp [view, hpre v hv]
  · simp [hfirst sent, view_handle_self]

theorem Inv.sendData (hguard : (sendData x).Guarded s) : Inv ((sendData x).exec s) := by
  dsimp only [exec]
  split
  · exact h
  rename_i l hnext
  obtain ⟨_, _, hviews, hpre, hl, hhandle⟩ := views_split hnext
  refine { h with node := fun y hy => ?_ }
  by_cases hyx : y = x
  · subst hyx
    have hnode := (h.node y hy).send hviews hpre hl (hguard l hnext)
    simpa [Sys.node, Node.sendAt, Node.handleAt, hhandle true] using hnode
  · simpa [Sys.node, hyx, views_handle_of_ne hyx] using h.node y hy

theorem Inv.skip (x : Nat) : Inv ((skip x).exec s) := by
  refine { h with node := fun y hy => ?_ }
  have hn := h.node y hy
  by_cases hyx : y = x
  · subst hyx
    cases hnext : nextFor y s.live with
    | none => simpa [exec, handleFirst_none hnext] using hn
    | some l =>
      obtain ⟨_, _, hviews, hpre, _, hhandle⟩ := views_split hnext
      have hnode := hn.skip hviews hpre
      simpa [Event.exec, Sys.node, Node.handleAt, hhandle false] using hnode
  · simpa [Event.exec, Sys.node, views_handle_of_ne hyx] using hn

theorem Inv.recv {hasDisk : Bool} (hguard : (recv x hasDisk).Guarded s) :
    Inv ((recv x hasDisk).exec s) := by
  refine { h with node := fun y hy => ?_ }
  have hn := h.node y hy
  by_cases hyx : y = x
  · subst hyx
    simpa [Event.exec, Sys.node, Node.take] using hn.take hguard
  · simpa [Event.exec, Sys.node, hyx] using hn

theorem Inv.netOk (x : Nat) (d : Int) : Inv ((netOk x d).exec s) := by
  refine { h with node := fun y hy => ?_ }
  have hn := h.node y hy
  have hviews : (onWrite d (Live.netOk x) s.live).map (Live.view y) = s.live.map (Live.view y) := by
    rw [onWrite, map_map]
    refine map_congr_left fun l _ => ?_
    dsimp only [Function.comp]
    split_ifs <;> simp
  simpa [Event.exec, Sys.node, hviews] using hn

theorem Inv.netDone {d : Int} (hlegal : (netDone x d).Legal s) :
    Inv ((netDone x d).exec s) := by
  refine { h with node := fun y hy => ?_ }
  have hn := h.node y hy
  by_cases hyx : y = x
  · subst hyx
    have hviews : (onWrite d (netDone y) s.live).map (view y) =
        (s.live.map (view y)).map fun v => if v.write.dagtag = d then { v with done := true } else v := by
      rw [onWrite, map_map, map_map]
      refine map_congr_left fun l _ => ?_
      by_cases hd : l.req.dagtag = d <;> simp [Live.view, Live.netDone, Request.write, hd]
    have hnode := hn.finish fun v hv hd => by
      obtain ⟨l, hl, rfl⟩ := mem_map.1 hv
      obtain ⟨hhandled, hflight⟩ := hlegal.2 l hl hd
      exact ⟨by simpa [view] using hhandled, hflight⟩
    simpa [Event.exec, Sys.node, Node.finish, hviews] using hnode
  · have hviews : (onWrite d (Live.netDone x) s.live).map (Live.view y) = s.live.map (Live.view y) := by
      rw [onWrite, map_map]
      refine map_congr_left fun l _ => ?_
      by_cases hd : l.req.dagtag = d <;> simp [Live.view, Live.netDone, hd, hyx]
    simpa [Event.exec, Sys.node, hviews] using hn

/-! ### Queueing an ack -/

/-- What `bsr_queue_peer_ack` gives to a connection: the group, or nothing of it was sent there. -/
theorem Inv.enqueue {p : Request} (hp : s.res.peerAckReq = some p) (hx : x ∈ s.nodes) :
    sentTo x ((s.acks x ++ s.enqueue p x).flatMap Ack.covers) =
        sentTo x ((s.acks x ++ s.queued x).flatMap Ack.covers ++ s.group) ∧
      (∀ a ∈ s.acks x ++ s.enqueue p x, a.Good x) ∧
      (∀ a ∈ s.acks x ++ s.enqueue p x, ∀ req ∈ a.covers, req ∈ s.history) := by
  have hstands := h.stands p hp
  have htarget : x ∈ ackTargets s.res p ↔ x ∈ p.sent := by
    rw [mem_ackTargets h.up]
    exact and_iff_right hx
  by_cases hsent : x ∈ p.sent
  · have hqueue : s.enqueue p x = s.queued x ++ [⟨p.dagtag, peerAckMask s.res p, s.group⟩] :=
      if_pos (htarget.2 hsent)
    rw [hqueue, ← append_assoc]
    refine ⟨by simp, fun a ha => ?_, fun a ha => ?_⟩
    · obtain ha | ha := mem_append.1 ha
      · exact (h.node x hx).good a ha
      obtain rfl := mem_singleton.1 ha
      obtain ⟨reqs, hgroup⟩ := hstands.last
      refine ⟨⟨reqs, p, hgroup, rfl, hsent⟩, fun req hreq y hy => ?_⟩
      obtain ⟨hnode, hok⟩ := mem_peerAckMask.1 hy
      exact (hstands.ok req hreq y hnode).2 hok
    · obtain ha | ha := mem_append.1 ha
      · exact h.covered x hx a ha
      · obtain rfl := mem_singleton.1 ha
        exact h.grouped
  · have hqueue : s.enqueue p x = s.queued x := if_neg (mt htarget.1 hsent)
    have hnone : sentTo x s.group = [] :=
      filter_eq_nil_iff.2 fun req hreq => by
        simpa using fun hmem => hsent (hstands.sent req hreq x hx hmem)
    rw [hqueue]
    exact ⟨by simp [hnone], (h.node x hx).good, h.covered x hx⟩

theorem Inv.mirrored_enqueue {p : Request} (hx : x ∈ s.nodes) :
    (entriesFor x (s.res.peerAckList ++ ackEntry s.res p)).map (packetOf s.res) =
      (s.enqueue p x).map fun a => (a.dagtag, a.mask) := by
  have happend : entriesFor x (s.res.peerAckList ++ ackEntry s.res p) =
      entriesFor x s.res.peerAckList ++ entriesFor x (ackEntry s.res p) := filter_append ..
  rw [happend, map_append, h.mirrored x hx, entriesFor_ackEntry]
  unfold Sys.enqueue
  split_ifs <;> simp [packetOf]

theorem Inv.flush : Inv (Event.flush.exec s) := by
  dsimp only [exec]
  split
  · exact h
  rename_i p hp
  rw [flushPeerAcks_eq hp]
  refine ⟨h.up, h.small, fun _ => rfl, nofun, fun x hx => h.mirrored_enqueue hx, nofun,
    fun x hx => (h.enqueue hp hx).2.2, h.cleared, fun x hx => ?_, h.found⟩
  obtain ⟨hsame, hgood, -⟩ := h.enqueue hp hx
  refine (h.node x hx).regroup ?_ hgood
  rw [append_nil]
  exact hsame

/-! ### Destroying a request -/

omit h in
theorem Stands.single (nodes : List Nat) (req : Request) : Stands nodes req [req] where
  last := ⟨[], rfl⟩
  ok r hr y _ := by rw [mem_singleton.1 hr]
  sent r hr x _ hsent := mem_singleton.1 hr ▸ hsent

omit h in
/-- A request with the same acknowledgements takes over the group. -/
theorem Stands.take_over {nodes : List Nat} {p req : Request} {group : List Request} (h : Stands nodes p group)
    (hok : ∀ y ∈ nodes, y ∈ req.ok ↔ y ∈ p.ok) (hsent : ∀ x ∈ nodes, x ∈ p.sent → x ∈ req.sent) :
    Stands nodes req (group ++ [req]) where
  last := ⟨group, rfl⟩
  ok r hr y hy := by
    obtain hr | hr := mem_append.1 hr
    · rw [h.ok r hr y hy, hok y hy]
    · rw [mem_singleton.1 hr]
  sent r hr x hx hmem := by
    obtain hr | hr := mem_append.1 hr
    · exact hsent x hx (h.sent r hr x hx hmem)
    · exact mem_singleton.1 hr ▸ hmem

variable {lastRef : Bool}

/-- A destroyed request joins those that wait for an ack, after the older ones were let out or not;
`hnode` is what becomes of the transfer log. -/
theorem Inv.retire {req : Request} (hkeep : Event.KeepsTargets s req lastRef) {live : List Live}
    (hnode : ∀ x ∈ s.nodes, ∀ chain group,
      sentTo x (chain.flatMap Ack.covers ++ group) = (s.node x).destroyed x ++ sentTo x [req] →
      (∀ a ∈ chain, a.Good x) →
        ({ s.node x with views := live.map (view x), chain := chain, group := group } : Node).Inv x) :
    Inv { s.retire req lastRef with live := live } := by
  have hold : ∀ r ∈ s.history, r ∈ s.history ++ [req] := fun r hr => mem_append_left _ hr
  have hcleared : ∀ x ∈ s.nodes, ∀ a ∈ s.applied x, ∀ y ∈ a.mask, ∀ w ∈ a.writes,
      ∃ r ∈ s.history ++ [req], r.write = w ∧ y ∈ r.ok := by
    intro x hx a ha y hy w hw
    obtain ⟨r, hr, hfacts⟩ := h.cleared x hx a ha y hy w hw
    exact ⟨r, hold r hr, hfacts⟩
  have hone : ∀ r ∈ [req], r ∈ s.history ++ [req] := fun r hr => mem_append_right _ hr
  cases hp : s.res.peerAckReq with
  | none =>
    -- nothing waits
    have hgroup := h.idle hp
    have hout : outgoing s.res req lastRef = [] := by simp [outgoing, hp]
    simp only [Sys.retire, hp, reqDestroy_eq, hout, append_nil]
    refine ⟨h.up, h.small, by simp, fun q hq => ?_, h.mirrored, hone, fun x hx a ha r hr =>
      hold r (h.covered x hx a ha r hr), hcleared, fun x hx => ?_, h.found⟩
    · cases hq
      exact Stands.single _ _
    · exact hnode x hx _ _ (by simp [Node.destroyed, Sys.node, hgroup]) (h.node x hx).good
  | some p =>
    cases hqueue : mustQueue s.res req p lastRef with
    | true =>
      have hout : outgoing s.res req lastRef = ackEntry s.res p := by simp [outgoing, hp, hqueue]
      simp only [Sys.retire, hp, reqDestroy_eq, hout, hqueue]
      refine ⟨h.up, h.small, by simp, fun q hq => ?_, fun x hx => h.mirrored_enqueue hx, hone,
        fun x hx a ha r hr => hold r ((h.enqueue hp hx).2.2 a ha r hr), hcleared, fun x hx => ?_, h.found⟩
      · cases hq
        exact Stands.single _ _
      obtain ⟨hsame, hgood, -⟩ := h.enqueue hp hx
      refine hnode x hx _ _ ?_ hgood
      rw [sentTo_append]
      exact congrArg (· ++ sentTo x [req]) hsame
    | false =>
      have hout : outgoing s.res req lastRef = [] := by simp [outgoing, hp, hqueue]
      have hdiffers : peerAckDiffers s.res req p = false := by
        simp only [mustQueue, Bool.or_eq_false_iff] at hqueue
        exact hqueue.1.1
      simp only [Sys.retire, hp, reqDestroy_eq, hout, hqueue, append_nil]
      refine ⟨h.up, h.small, by simp, fun q hq => ?_, h.mirrored, ?_,
        fun x hx a ha r hr => hold r (h.covered x hx a ha r hr), hcleared, fun x hx => ?_, h.found⟩
      · cases hq
        refine (h.stands p hp).take_over (fun y hy => ?_) (hkeep p hp hqueue)
        exact not_peerAckDiffers_iff.1 hdiffers y (h.small y hy)
      · exact forall_mem_append.2 ⟨fun r hr => hold r (h.grouped r hr), hone⟩
      · refine hnode x hx _ _ ?_ (h.node x hx).good
        simp [destroyed, Sys.node]

theorem Inv.destroy (hlegal : (destroy lastRef).Legal s)
    (hguard : (destroy lastRef).Guarded s) : Inv ((destroy lastRef).exec s) := by
  dsimp only [exec]
  split
  · exact h
  rename_i l ls hlive
  refine h.retire (hguard l (by simp [hlive])) fun x hx chain group hjoin hgood => ?_
  have hviews : (s.node x).views = l.view x :: ls.map (Live.view x) := by simp [Sys.node, hlive]
  have hdone : (l.view x).done = true := by simpa [view] using hlegal l (by simp [hlive]) x hx
  refine (h.node x hx).retire hviews hdone hjoin ?_ hgood
  by_cases hsent : x ∈ l.req.sent <;> simp [sentTo, view, hsent]

theorem Inv.destroyPostponed {sector sectors : Nat}
    (hguard : (destroyPostponed sector sectors lastRef).Guarded s) :
    Inv ((Event.destroyPostponed sector sectors lastRef).exec s) := by
  have hexec : (Event.destroyPostponed sector sectors lastRef).exec s =
      { s.retire (postponed sector sectors) lastRef with live := s.live } := by
    unfold Event.exec Sys.retire
    cases s.res.peerAckReq with
    | none => rfl
    | some p =>
      dsimp only
      split_ifs <;> rfl
  rw [hexec]
  refine h.retire hguard fun x hx chain group hjoin hgood => ?_
  have hnone : sentTo x [postponed sector sectors] = [] := by simp [sentTo, postponed]
  rw [hnone, append_nil] at hjoin
  exact (h.node x hx).regroup hjoin hgood

/-! ### Sending and applying an ack -/

theorem Inv.sendAck (hx : x ∈ s.nodes) : Inv ((sendAck x).exec s) := by
  dsimp only [exec]
  split
  · exact h
  rename_i req res hproc
  obtain ⟨_, hfind, ⟨⟩⟩ := Option.map_eq_some_iff.1 hproc
  -- the entry that is found is the oldest ack of the connection
  have hentries : entriesFor x s.res.peerAckList = req :: (entriesFor x s.res.peerAckList).tail := by
    have hhead : (entriesFor x s.res.peerAckList).head? = some req := by
      rw [entriesFor, head?_filter]
      exact hfind
    obtain ⟨_, hrest⟩ := head?_eq_some_iff.1 hhead
    rw [hrest]
    rfl
  have hmirror := h.mirrored x hx
  rw [hentries] at hmirror
  obtain ⟨a, as, hqueued, hpacket, htail⟩ := map_eq_cons_iff.1 hmirror.symm
  have hack : (⟨req.dagtag, peerAckMask s.res req, a.covers⟩ : Ack) = a := by
    obtain ⟨hd, hm⟩ := Prod.mk.inj hpacket
    rw [← hd, ← hm]
  have hchain : ∀ y, update s.acks x (s.acks x ++ [a]) y ++ update s.queued x as y =
      s.acks y ++ s.queued y := by
    intro y
    by_cases hy : y = x
    · subst hy
      simp [hqueued]
    · simp [hy]
  simp only [hqueued, head?_cons, Option.map_some, Option.getD_some, tail_cons, hack]
  refine ⟨h.up, h.small, h.idle, h.stands, fun y hy => ?_, h.grouped, fun y hy => ?_, h.cleared,
    fun y hy => ?_, h.found⟩
  · by_cases hyx : y = x
    · subst hyx
      dsimp only
      rw [entriesFor_clearPeerAck_self, update_self]
      exact htail.symm
    · dsimp only
      rw [update_of_ne hyx]
      exact (entriesFor_clearPeerAck_of_ne hyx _).trans (h.mirrored y hy)
  · dsimp only
    rw [hchain y]
    exact h.covered y hy
  · have hnode := h.node y hy
    simpa [Sys.node, hchain y] using hnode

theorem Inv.recvAck (hx : x ∈ s.nodes) : Inv ((recvAck x).exec s) := by
  dsimp only [exec]
  split
  · exact h
  rename_i a as hacks
  have hchain : (s.node x).chain = a :: (as ++ s.queued x) := by simp [Sys.node, hacks]
  obtain ⟨c, hfound, hcut, hnode⟩ := (h.node x hx).applyAck hchain
  have hgot : gotPeerAck (s.links x).receiver a.dagtag = some c := hfound
  simp only [hgot]
  have hsub : ∀ y, ∀ b ∈ update s.acks x as y ++ s.queued y, b ∈ s.acks y ++ s.queued y := by
    intro y b hb
    by_cases hy : y = x
    · subst hy
      rw [update_self] at hb
      rw [hacks]
      exact mem_cons_of_mem _ hb
    · rwa [update_of_ne hy] at hb
  refine ⟨h.up, h.small, h.idle, h.stands, h.mirrored, h.grouped,
    fun y hy b hb => h.covered y hy b (hsub y b hb), fun y hy b hb => ?_, fun y hy => ?_, h.found⟩
  · by_cases hyx : y = x
    · subst hyx
      dsimp only at hb
      rw [update_self] at hb
      obtain hb | hb := mem_append.1 hb
      · exact h.cleared y hy b hb
      -- the writes of the new ack are those of the requests it stands for
      obtain rfl := mem_singleton.1 hb
      intro z hz w hw
      rw [hcut] at hw
      obtain ⟨req, hreq, rfl⟩ := mem_map.1 hw
      have hmem : req ∈ a.covers := (mem_filter.1 hreq).1
      have ha : a ∈ s.acks y ++ s.queued y := by simp [hacks]
      exact ⟨req, h.covered y hy a ha req hmem, rfl, ((h.node y hy).good a ha).mask req hmem z hz⟩
    · dsimp only at hb
      rw [update_of_ne hyx] at hb
      exact h.cleared y hy b hb
  · by_cases hyx : y = x
    · subst hyx
      simpa [Sys.node, Node.applyAck] using hnode
    · have hother := h.node y hy
      simpa [Sys.node, hyx] using hother

/-! ### Whole runs -/

theorem Inv.step {s' : Sys} {e : Event} (hguard : e.Guarded s) (hstep : e.Step s s') : Inv s' := by
  obtain ⟨hlegal, rfl⟩ := hstep
  cases e with
  | write sector sectors => exact h.write sector hlegal
  | sendData x => exact h.sendData hguard
  | skip x => exact h.skip x
  | recv x hasDisk => exact h.recv hguard
  | netOk x d => exact h.netOk x d
  | netDone x d => exact h.netDone hlegal
  | destroy lastRef => exact h.destroy hlegal hguard
  | destroyPostponed sector sectors lastRef => exact h.destroyPostponed hguard
  | flush => exact h.flush
  | sendAck x => exact h.sendAck hlegal
  | recvAck x => exact h.recvAck hlegal

theorem Inv.quiet (hx : x ∈ s.nodes) (hquiet : Quiet s x) :
    (s.links x).receiver.peerRequests = [] := by
  have hentries : entriesFor x s.res.peerAckList = [] :=
    filter_eq_nil_iff.2 fun req hreq => by simpa using hquiet.list req hreq
  have hqueued : s.queued x = [] := by
    have hmirror := h.mirrored x hx
    rw [hentries] at hmirror
    exact map_eq_nil_iff.1 hmirror.symm
  have hsplit := (h.node x hx).split
  have hnone : (s.node x).destroyed x = [] := by
    simp [destroyed, Sys.node, hquiet.acks, hqueued, h.idle hquiet.req, sentTo]
  have hlive : (s.node x).liveSent = [] := by simp [Node.liveSent, Sys.node, hquiet.live]
  rw [hnone, hlive] at hsplit
  exact map_eq_nil_iff.1 (append_eq_nil_iff.1 hsplit).1

theorem Inv.sound : Sound s where
  cleared := h.cleared
  covered x hx := by
    refine ⟨?_, (h.node x hx).log⟩
    have hsorted := (h.node x hx).sorted
    rw [Node.arrived, map_append, pairwise_append] at hsorted
    have hnodup : ((s.received x).map Write.dagtag).Nodup := hsorted.1.imp fun hlt heq => by omega
    exact List.Nodup.of_map _ hnodup
  complete x hx := h.quiet hx
  found := h.found

end Steps

/-- In a run of guarded steps a secondary clears a bit only for a node that has acknowledged all
writes its ack covers, and every write it has received is covered by just one ack. -/
theorem peer_acks_sound {s : Sys}
    (h : Reachable Start (fun s e s' => Event.Guarded s e ∧ Event.Step s e s') s) : Sound s := by
  have hinv : Inv s := h.invariant (fun _ => Start.inv) fun _ _ _ hinv hstep => hinv.step hstep.1 hstep.2
  exact hinv.sound

/-! ## Runs -/

instance (s : Sys) (e : Event) : Decidable (e.Legal s) := by
  cases e <;> unfold Event.Legal <;> infer_instance

instance (s : Sys) (req : Request) (lastRef : Bool) : Decidable (Event.KeepsTargets s req lastRef) :=
  inferInstanceAs (Decidable (∀ p ∈ s.res.peerAckReq, mustQueue s.res req p lastRef = false →
    ∀ x ∈ s.nodes, x ∈ p.sent → x ∈ req.sent))

instance (resourceDagtag : Int) (l : Link) (w : Write) : Decidable (l.MissesGuess resourceDagtag w) :=
  inferInstanceAs (Decidable (_ → _))

instance (s : Sys) (e : Event) : Decidable (e.Guarded s) := by
  cases e with
  | sendData x =>
    exact inferInstanceAs
      (Decidable (∀ l ∈ nextFor x s.live, (s.links x).MissesGuess s.resourceDagtag l.req.write))
  | _ => unfold Event.Guarded; infer_instance

/-- Nodes 1 and 2 are connected to the primary. -/
def twoSecondaries : Sys where
  res := { conns := [{ peerNodeId := 1 }, { peerNodeId := 2 }], maxNodeId := 2, peerAckWindow := 4096 }
  links _ := { receiver := { lastDagtagSector := 0 }, expected := 0 }

theorem twoSecondaries_start : Start twoSecondaries where
  up := by decide
  small := by decide
  req := rfl
  list := rfl
  live := rfl
  fresh := by decide
  acks _ := rfl
  queued _ := rfl
  group := rfl
  received _ := rfl
  applied _ := rfl
  lost := rfl

/-- A write is sent to both nodes, the second packet of each connection is the data. -/
def replicate (sector sectors : Nat) : List Event :=
  [.write sector sectors, .sendData 1, .sendData 2, .recv 1 true, .recv 1 true, .recv 2 true, .recv 2 true]

/-- A write that both nodes acknowledge, and its ack at node 1. -/
def acknowledged : List Event :=
  replicate 0 8 ++ [.netOk 1 8, .netOk 2 8, .netDone 1 8, .netDone 2 8, .destroy false, .flush, .sendAck 1, .recvAck 1]

/-- The bit of node 2 is cleared for the write. -/
theorem peer_acks_sound_one :
    (acknowledged.foldl Event.exec twoSecondaries).applied 1 = [⟨{1, 2}, [⟨8, 0, 8⟩]⟩] ∧
      Sound (acknowledged.foldl Event.exec twoSecondaries) := by
  have hrun : Along Event.exec (fun s e => e.Guarded s ∧ e.Legal s) twoSecondaries acknowledged := by decide
  refine ⟨by decide, peer_acks_sound ?_⟩
  exact Reachable.along (fun s e h => ⟨h.1, h.2, rfl⟩) (.start twoSecondaries_start) hrun

/-- The first write fails on both nodes, and the second is sent to nobody. With equal
acknowledgements they are put together, and as the second was not sent, no ack goes out for the
first. The third write is acknowledged by both nodes; its ack is applied to the first as well. -/
def unsentSuccessor : List Event :=
  replicate 0 8 ++ [.netDone 1 8, .netDone 2 8] ++
    [.write 8 8, .skip 1, .skip 2, .netDone 1 16, .netDone 2 16, .destroy false, .destroy false] ++
      replicate 16 8 ++ [.netOk 1 24, .netOk 2 24, .netDone 1 24, .netDone 2 24] ++
        [.destroy false, .flush, .sendAck 1, .recvAck 1]

/-- Node 1 applies the ack of both nodes to a write that node 2 failed to do. -/
theorem ack_covers_failed_write : ∃ s, Reachable Start (fun s e s' => Event.Step s e s') s ∧
    1 ∈ s.nodes ∧ s.applied 1 = [⟨{1, 2}, [⟨8, 0, 8⟩, ⟨24, 16, 8⟩]⟩] ∧
      ∀ req ∈ s.history, req.write = ⟨8, 0, 8⟩ → 2 ∉ req.ok := by
  refine ⟨unsentSuccessor.foldl Event.exec twoSecondaries, ?_, by decide, by decide, by decide⟩
  exact Reachable.along (fun s e hlegal => ⟨hlegal, rfl⟩) (.start twoSecondaries_start) (by decide)

end Bsr.PeerAck
