import Bsr.Replicate.Dagtag

/-!
# Both ends agree on the dagtags

Runs of one connection: writes are submitted, then sent with their data or only as out of sync, then
stored or refused; peer acks name writes that were sent.

* `delivered` are the writes that have arrived and are not yet covered by an ack, with whether they
  were stored;
* `stored` are all requests that the receiver has made, `lost` says that an ack did not find its
own. -/

namespace Bsr.Replicate

open Lib Prod

namespace Agreement

/-- One connection, with what has happened on it. -/
structure Sys where
  /-- `resource->dagtag_sector`. -/
  resourceDagtag : Int
  /-- The writes that the sender of this connection has not come to yet. -/
  todo : List Write := []
  link : Link
  delivered : List (Write × Bool) := []
  stored : List PeerRequest := []
  lost : Bool := false
deriving DecidableEq

inductive Event where
  | write (sector sectors : Nat)
  /-- The next write is sent with its data. -/
  | sendData
  /-- The next write is only reported as out of sync. -/
  | skip
  | recv (hasDisk : Bool)
  /-- An ack for the write at a position of `delivered`. -/
  | peerAck (i : Nat)

namespace Event

def exec (s : Sys) : Event → Sys
  | write sector sectors =>
    { s with
      resourceDagtag := s.resourceDagtag + sectors
      todo := s.todo ++ [⟨s.resourceDagtag + sectors, sector, sectors⟩] }
  | sendData =>
    match s.todo with
    | [] => s
    | w :: ws => { s with todo := ws, link := s.link.send s.resourceDagtag w }
  | skip => { s with todo := s.todo.tail }
  | recv hasDisk =>
    let requests := (s.link.recv hasDisk).receiver.peerRequests
    { s with
      link := s.link.recv hasDisk
      delivered := s.delivered ++ s.link.arriving.toList.map fun w => (w, hasDisk)
      stored := s.stored ++ requests.drop s.link.receiver.peerRequests.length }
  | peerAck i =>
    match s.delivered[i]? with
    | none => s
    | some w =>
      let s := { s with delivered := s.delivered.drop (i + 1) }
      match gotPeerAck s.link.receiver w.1.dagtag with
      | none => { s with lost := true }
      | some c => { s with link := { s.link with receiver := c.2 } }

def Legal : Event → Prop
  | write _ sectors => 0 < sectors
  | _ => True

/-- The first write sent on the connection misses the guess, no write is stored after one was
refused without a `P_DAGTAG` in between, and an ack is for a write that was stored. -/
def Guarded (s : Sys) : Event → Prop
  | sendData => ∀ w ∈ s.todo.head?, s.link.MissesGuess s.resourceDagtag w
  | recv hasDisk => hasDisk = true → s.link.arriving ≠ none → s.link.refused = false
  | peerAck i => ∀ w ∈ s.delivered[i]?, w.2 = true
  | _ => True

def Step (s : Sys) (e : Event) (s' : Sys) : Prop :=
  e.Legal ∧ s' = e.exec s

end Event

/-- A connection that was just made; the receiver may still have a count from before. -/
structure Start (s : Sys) : Prop where
  todo : s.todo = []
  sender : s.link.sender.seenAnyWriteYet = false
  stream : s.link.stream = []
  peerRequests : s.link.receiver.peerRequests = []
  expected : s.link.expected = s.link.receiver.lastDagtagSector
  delivered : s.delivered = []
  stored : s.stored = []
  lost : s.lost = false

/-- The writes on their way, oldest first. -/
def Sys.underway (s : Sys) : List Write :=
  s.delivered.map fst ++ s.link.inFlight ++ s.todo

structure Inv (s : Sys) : Prop where
  agrees : s.link.Agrees
  pending : s.link.receiver.peerRequests = ((s.delivered.filter snd).map fst).map Write.request
  sorted : (s.underway.map Write.dagtag).Pairwise (· < ·)
  bounded : ∀ w ∈ s.underway, w.dagtag ≤ s.resourceDagtag
  stored : ∀ pr ∈ s.stored, pr.dagtag = pr.write.dagtag
  found : s.lost = false

section Steps

variable {s : Sys}

theorem Start.inv (h : Start s) : Inv s where
  agrees :=
    { fresh := fun _ => h.stream
      known := fun hseen => by simp [h.sender] at hseen
      follows := by simp [h.stream, Follows]
      counted := fun _ => h.expected.symm }
  pending := by simp [h.peerRequests, h.delivered]
  sorted := by simp [Sys.underway, h.delivered, Link.inFlight, h.stream, h.todo, Link.dataOf]
  bounded := by simp [Sys.underway, h.delivered, Link.inFlight, h.stream, h.todo, Link.dataOf]
  stored := by simp [h.stored]
  found := h.lost

open List Event

theorem Inv.write (h : Inv s) (sector : Nat) {sectors : Nat} (hpos : 0 < sectors) :
    Inv ((write sector sectors).exec s) := by
  have hunder : ((Event.write sector sectors).exec s).underway =
      s.underway ++ [⟨s.resourceDagtag + sectors, sector, sectors⟩] := by
    simp [exec, Sys.underway]
  refine { h with sorted := ?_, bounded := ?_ }
  · rw [hunder, map_append, pairwise_append]
    refine ⟨h.sorted, by simp, fun d hd e he => ?_⟩
    obtain ⟨w, hw, rfl⟩ := mem_map.1 hd
    have hle := h.bounded w hw
    obtain rfl : e = s.resourceDagtag + sectors := by simpa using he
    omega
  · intro w hw
    rw [hunder, mem_append] at hw
    obtain hw | hw := hw
    · have hle := h.bounded w hw
      simp only [exec]
      omega
    · obtain rfl := mem_singleton.1 hw
      exact Int.le_refl _

theorem Inv.sendData (h : Inv s) (hguard : sendData.Guarded s) : Inv (sendData.exec s) := by
  dsimp only [exec]
  split
  · exact h
  rename_i w ws htodo
  have hunder : { s with todo := ws, link := s.link.send s.resourceDagtag w }.underway = s.underway := by
    simp [Sys.underway, htodo]
  exact { h with
    agrees := h.agrees.send (hguard w (by simp [htodo]))
    sorted := hunder ▸ h.sorted
    bounded := hunder ▸ h.bounded }

theorem Inv.skip (h : Inv s) : Inv (skip.exec s) := by
  have hsub : ((Event.skip.exec s).underway).Sublist s.underway :=
    List.Sublist.append_left (tail_sublist _) _
  exact { h with
    sorted := h.sorted.sublist (hsub.map _)
    bounded := fun w hw => h.bounded w (hsub.subset hw) }

theorem Inv.recv (h : Inv s) {hasDisk : Bool} (hguard : (recv hasDisk).Guarded s) :
    Inv ((recv hasDisk).exec s) := by
  have hrequests := Link.peerRequests_recv h.agrees hguard
  have hunder : ((Event.recv hasDisk).exec s).underway = s.underway := by
    rw [Sys.underway, Sys.underway, Link.inFlight_recv hasDisk s.link]
    cases harr : s.link.arriving <;> simp [exec, harr]
  have hsorted := h.sorted
  have hbounded := h.bounded
  rw [← hunder] at hsorted hbounded
  refine ⟨h.agrees.recv hguard, ?_, hsorted, hbounded, ?_, h.found⟩
  · dsimp only [exec]
    rw [hrequests, h.pending]
    cases s.link.arriving <;> cases hasDisk <;> simp
  intro pr hpr
  dsimp only [exec] at hpr
  rw [hrequests, drop_left] at hpr
  obtain hold | hnew := mem_append.1 hpr
  · exact h.stored pr hold
  cases hasDisk with
  | false => simp at hnew
  | true =>
    obtain ⟨w, -, rfl⟩ := mem_map.1 hnew
    rfl

open Write

/-- The request of an ack is found behind those of the older writes. -/
theorem gotPeerAck_pending {r : Receiver} {pre post : List (Write × Bool)} {w : Write}
    (hpending : r.peerRequests = (((pre ++ (w, true) :: post).filter snd).map fst).map request)
    (hnew : ∀ v ∈ pre, v.1.dagtag < w.dagtag) :
    gotPeerAck r w.dagtag = some (((pre.filter snd).map fst).map request ++ [w.request],
      { r with peerRequests := ((post.filter snd).map fst).map request }) := by
  have hsplit : r.peerRequests = ((pre.filter snd).map fst).map request ++
      w.request :: ((post.filter snd).map fst).map request := by
    rw [hpending]
    simp
  have hother : ∀ pr ∈ ((pre.filter snd).map fst).map request,
      decide (w.dagtag = pr.dagtag) = false := by
    intro pr hpr
    obtain ⟨v, hv, rfl⟩ := mem_map.1 hpr
    obtain ⟨u, hu, rfl⟩ := mem_map.1 hv
    have hlt := hnew u (mem_filter.1 hu).1
    refine decide_eq_false fun heq => ?_
    simp only [request] at heq
    omega
  rw [gotPeerAck, hsplit, cutAfter_append hother (by simp [request])]
  rfl

theorem Inv.peerAck (h : Inv s) {i : Nat} (hguard : (peerAck i).Guarded s) :
    Inv ((peerAck i).exec s) := by
  dsimp only [exec]
  split
  · exact h
  rename_i v hi
  obtain ⟨w, stored⟩ := v
  obtain rfl : stored = true := hguard _ hi
  -- the delivered writes before and behind the one that is acknowledged
  obtain ⟨_, hget⟩ := List.getElem?_eq_some_iff.1 hi
  have hsplit : s.delivered = s.delivered.take i ++ (w, true) :: s.delivered.drop (i + 1) := by
    rw [← hget, getElem_cons_drop, take_append_drop]
  have hnew : ∀ v ∈ s.delivered.take i, v.1.dagtag < w.dagtag := by
    have hsorted := h.sorted
    rw [Sys.underway, hsplit] at hsorted
    simp only [map_append, append_assoc, pairwise_append] at hsorted
    intro v hv
    exact hsorted.2.2 _ (mem_map_of_mem (mem_map_of_mem hv)) _ mem_cons_self
  have hfound := gotPeerAck_pending (hsplit ▸ h.pending) hnew
  simp only [hfound]
  have hsub : { s with delivered := s.delivered.drop (i + 1) }.underway.Sublist s.underway :=
    (((drop_sublist _ _).map _).append_right _).append_right _
  exact { h with
    agrees := { h.agrees with }
    pending := rfl
    sorted := h.sorted.sublist (hsub.map dagtag)
    bounded := fun w hw => h.bounded w (hsub.subset hw) }

theorem Inv.step {s' : Sys} {e : Event} (h : Inv s) (hguard : e.Guarded s) (hstep : e.Step s s') : Inv s' := by
  obtain ⟨hlegal, rfl⟩ := hstep
  cases e with
  | write sector sectors => exact h.write sector hlegal
  | sendData => exact h.sendData hguard
  | skip => exact h.skip
  | recv hasDisk => exact h.recv hguard
  | peerAck i => exact h.peerAck hguard

end Steps

/-- In a run of guarded steps the receiver gives every write it stores the dagtag of the sender, and
every peer ack finds its request. -/
theorem dagtags_agree {s : Sys}
    (h : Reachable Start (fun s e s' => Event.Guarded s e ∧ Event.Step s e s') s) :
    (∀ pr ∈ s.stored, pr.dagtag = pr.write.dagtag) ∧ s.lost = false := by
  have hinv : Inv s := h.invariant (fun _ => Start.inv) fun _ _ _ hinv hstep => hinv.step hstep.1 hstep.2
  exact ⟨hinv.stored, hinv.found⟩

/-- A connection that was made when so many sectors had been written. -/
def madeAt (resourceDagtag : Int) : Sys where
  resourceDagtag := resourceDagtag
  link := { receiver := { lastDagtagSector := 0 }, expected := 0 }

theorem madeAt_start (resourceDagtag : Int) : Start (madeAt resourceDagtag) :=
  ⟨rfl, rfl, rfl, rfl, rfl, rfl, rfl, rfl⟩

def run (s : Sys) (es : List Event) : Sys :=
  es.foldl (fun s e => e.exec s) s

theorem reachable_run {s : Sys} {es : List Event} (hs : Reachable Start (fun s e s' => Event.Step s e s') s)
    (hlegal : ∀ e ∈ es, e.Legal) : Reachable Start (fun s e s' => Event.Step s e s') (run s es) := by
  induction es generalizing s with
  | nil => exact hs
  | cons e es ih =>
    exact ih (.next e hs ⟨hlegal e List.mem_cons_self, rfl⟩) fun f hf => hlegal f (List.mem_cons_of_mem _ hf)

/-- One write is sent, stored and acknowledged. -/
theorem dagtags_agree_one :
    (run (madeAt 100) [.write 0 8, .sendData, .recv true, .recv true, .peerAck 0]).stored =
        [⟨⟨108, 0, 8⟩, 108⟩] ∧
      (run (madeAt 100) [.write 0 8, .sendData, .recv true, .recv true, .peerAck 0]).lost = false := by
  refine ⟨by decide, (dagtags_agree (.next (.peerAck 0) (.next (.recv true) (.next (.recv true) (.next .sendData
    (.next (.write 0 8) (.start (madeAt_start 100)) ⟨trivial, by simp [Event.Legal], rfl⟩) ⟨?_,
      trivial, rfl⟩) ⟨?_, trivial, rfl⟩) ⟨?_, trivial, rfl⟩) ⟨?_, trivial, rfl⟩)).2⟩
  · intro w hw _
    obtain rfl : (⟨108, 0, 8⟩ : Write) = w := by simpa [Event.exec, madeAt] using hw
    decide
  · exact fun _ _ => by decide
  · exact fun _ _ => by decide
  · intro v hv
    cases hv
    rfl

/-- A write is refused, and the next one is stored with the dagtag of the refused one, so that its
ack is not found. And when 2048 sectors follow a first write of one sector before it is sent, the
guess meets it: without a `P_DAGTAG` the receiver counts on from zero. -/
theorem dagtags_drift :
    (∃ s, Reachable Start (fun s e s' => Event.Step s e s') s ∧ s.stored = [⟨⟨16, 8, 8⟩, 8⟩] ∧ s.lost = true) ∧
      ∃ s, Reachable Start (fun s e s' => Event.Step s e s') s ∧ s.stored = [⟨⟨101, 0, 1⟩, 1⟩] ∧ s.lost = true := by
  refine ⟨⟨run (madeAt 0) [.write 0 8, .sendData, .recv true, .recv false, .write 8 8,
    .sendData, .recv true, .peerAck 1], reachable_run (.start (madeAt_start 0)) ?_, by decide⟩,
    ⟨run (madeAt 100) [.write 0 1, .write 8 2048, .sendData, .recv true, .peerAck 0],
      reachable_run (.start (madeAt_start 100)) ?_, by decide⟩⟩
  all_goals simp [Event.Legal]

end Agreement
end Bsr.Replicate
