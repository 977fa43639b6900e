import Bsr.Lib.Reach
import Bsr.MetaData.Regions
import Bsr.Auth.Session

/-!
# Reflected responses

Any number of sessions of one node run at once, and the network is the attacker's: it delivers any
packet at any time, with challenges of its choice and with responses that someone has computed. An
HMAC under a secret the attacker does not know is computed by this node (`own`) or by another holder
of the secret (`others`).

* `Authentic`: the response of every authenticated session was computed by another holder;
* `Reflects`: one connection of the node computes what another one accepts;
* `auth_resists_reflection_iff`: all runs are authentic if and only if no two connections reflect.
-/

namespace Bsr.Auth

open Lib

/-- Where `conn_connect` is with a connection: nothing sent, or waiting for the features, the
challenge or the response of the peer with its own challenge `my`, or past `bsr_do_auth` with return
value 1. -/
inductive Session where
  | closed
  | features
  | challenge (agreed : Int) (my : List Nat)
  | response (agreed : Int) (my : List Nat)
  | authenticated (agreed : Int) (my : List Nat)
deriving DecidableEq, Repr

/-- The sessions of the node, the challenges it has drawn and the HMACs computed so far. -/
structure World (n : Nat) where
  session : Fin n → Session
  used : List (List Nat)
  own : List (HmacKey × List Nat)
  others : List (HmacKey × List Nat)

/-- What can happen; `recvFeatures` also draws the challenge of the session. -/
inductive Event (n : Nat) where
  | connect (i : Fin n)
  | recvFeatures (i : Fin n) (p : Packet) (my : List Nat)
  | recvChallenge (i : Fin n) (p : Packet)
  | recvResponse (i : Fin n) (p : Packet)
  | drop (i : Fin n)
  | compute (key : HmacKey) (message : List Nat)

variable {n : Nat}

def World.put (w : World n) (i : Fin n) (s : Session) : World n :=
  { w with session := Function.update w.session i s }

variable (node : Node n)

/-- One event; a packet that the session does not wait for stays unread. -/
def exec (w : World n) : Event n → World n
  | .connect i => w.put i .features
  | .recvFeatures i p my =>
    match w.session i with
    | .features =>
      match node.bsrDoFeatures i p with
      | .error _ => w.put i .closed
      | .ok agreed => { w.put i (.challenge agreed my) with used := my :: w.used }
    | _ => w
  | .recvChallenge i p =>
    match w.session i with
    | .challenge agreed my =>
      match node.answerChallenge i agreed my p with
      | .error _ => w.put i .closed
      | .ok m => { w.put i (.response agreed my) with own := ((node.connection i).key, m) :: w.own }
    | _ => w
  | .recvResponse i p =>
    match w.session i with
    | .response agreed my =>
      if node.checkResponse i agreed my p = 1 then w.put i (.authenticated agreed my)
      else w.put i .closed
    | _ => w
  | .drop i => w.put i .closed
  | .compute key m => { w with others := (key, m) :: w.others }

/-- A challenge drawn at random has not been drawn or answered before. -/
def World.Fresh (w : World n) (my : List Nat) : Prop :=
  my.length = challengeLen ∧ my ∉ w.used ∧
    ∀ x, x ∈ w.own ∨ x ∈ w.others → x.2.take challengeLen ≠ my

/-- Challenges are fresh, and the attacker, who knows the secrets `known`, has the HMAC it sends
from somewhere. -/
def Legal (known : Set (List Nat)) (w : World n) : Event n → Prop
  | .recvFeatures _ _ my => w.Fresh my
  | .recvResponse _ (.authResponse _ (.hmac key m)) =>
    key.sharedSecret ∈ known ∨ (key, m) ∈ w.own ∨ (key, m) ∈ w.others
  | _ => True

def Start (w : World n) : Prop :=
  w = ⟨fun _ => .closed, [], [], []⟩

def Reached (known : Set (List Nat)) : World n → Prop :=
  Reachable Start fun w ev w' => Legal known w ev ∧ exec node w ev = w'

/-- The message whose HMAC connection `i` accepts. -/
def Node.rightMessage (i : Fin n) (agreed : Int) (my : List Nat) : List Nat :=
  digestInput agreed my (node.connection i).peerNodeId

/-- Another holder of the secret has computed the response that each authenticated session has
accepted. -/
def Authentic (known : Set (List Nat)) (w : World n) : Prop :=
  ∀ i agreed my, w.session i = .authenticated agreed my →
    (node.connection i).key.sharedSecret ∉ known →
    ((node.connection i).key, node.rightMessage i agreed my) ∈ w.others

/-- Connection `j` computes what connection `i` accepts: they share the key, and both can be taken
to a protocol without node ids, or the id of this node in the resource of `j` is the peer's in that
of `i`. -/
def Reflects (i j : Fin n) : Prop :=
  i ≠ j ∧ (node.connection i).key = (node.connection j).key ∧
    (¬ node.Multiple i ∧ ¬ node.Multiple j ∨ node.ownId j = (node.connection i).peerNodeId)

instance (node : Node n) (i j : Fin n) : Decidable (Reflects node i j) :=
  inferInstanceAs (Decidable (i ≠ j ∧ (node.connection i).key = (node.connection j).key ∧
    (¬ node.Multiple i ∧ ¬ node.Multiple j ∨ node.ownId j = (node.connection i).peerNodeId)))

/-! ## One event -/

section Steps

variable {node : Node n} {w : World n} {i : Fin n} {p : Packet} {agreed : Int} {my m : List Nat}

@[simp]
theorem put_session_self (w : World n) (i : Fin n) (s : Session) : (w.put i s).session i = s := by
  simp [World.put]

theorem put_session_of_ne (w : World n) (s : Session) {i j : Fin n} (h : j ≠ i) :
    (w.put i s).session j = w.session j := by
  simp [World.put, h]

theorem exec_recvFeatures (hs : w.session i = .features)
    (hp : node.bsrDoFeatures i p = .ok agreed) : exec node w (.recvFeatures i p my) =
      { w.put i (.challenge agreed my) with used := my :: w.used } := by
  simp [exec, hs, hp]

theorem exec_recvChallenge (hs : w.session i = .challenge agreed my)
    (hp : node.answerChallenge i agreed my p = .ok m) : exec node w (.recvChallenge i p) =
      { w.put i (.response agreed my) with own := ((node.connection i).key, m) :: w.own } := by
  simp [exec, hs, hp]

theorem exec_recvResponse (hs : w.session i = .response agreed my)
    (hp : node.checkResponse i agreed my p = 1) :
    exec node w (.recvResponse i p) = w.put i (.authenticated agreed my) := by
  simp [exec, hs, hp]

/-- What an event can do. -/
inductive Effect (node : Node n) (w : World n) : Event n → World n → Prop
  | none (ev : Event n) : Effect node w ev w
  | reset (ev : Event n) (i : Fin n) (s : Session) (hs : s = .closed ∨ s = .features) :
      Effect node w ev (w.put i s)
  | draw {i : Fin n} {p : Packet} {agreed : Int} (my : List Nat)
      (hp : node.bsrDoFeatures i p = .ok agreed) :
      Effect node w (.recvFeatures i p my)
        { w.put i (.challenge agreed my) with used := my :: w.used }
  | answer {i : Fin n} {p : Packet} {agreed : Int} {my m : List Nat}
      (hs : w.session i = .challenge agreed my) (hp : node.answerChallenge i agreed my p = .ok m) :
      Effect node w (.recvChallenge i p)
        { w.put i (.response agreed my) with own := ((node.connection i).key, m) :: w.own }
  | accept {i : Fin n} {p : Packet} {agreed : Int} {my : List Nat}
      (hs : w.session i = .response agreed my) (hp : node.checkResponse i agreed my p = 1) :
      Effect node w (.recvResponse i p) (w.put i (.authenticated agreed my))
  | compute (key : HmacKey) (m : List Nat) :
      Effect node w (.compute key m) { w with others := (key, m) :: w.others }

theorem exec_effect (node : Node n) (w : World n) (ev : Event n) : Effect node w ev (exec node w ev) := by
  cases ev with
  | connect i => exact .reset _ i _ (.inr rfl)
  | recvFeatures i p my =>
    dsimp only [exec]
    split
    · split
      · exact .reset _ i _ (.inl rfl)
      · rename_i hp
        exact .draw my hp
    · exact .none _
  | recvChallenge i p =>
    dsimp only [exec]
    split
    · rename_i agreed my hs
      split
      · exact .reset _ i _ (.inl rfl)
      · rename_i hp
        exact .answer hs hp
    · exact .none _
  | recvResponse i p =>
    dsimp only [exec]
    split
    · rename_i agreed my hs
      split_ifs with hp
      · exact .accept hs hp
      · exact .reset _ i _ (.inl rfl)
    · exact .none _
  | drop i => exact .reset _ i _ (.inl rfl)
  | compute key m => exact .compute key m

end Steps

/-! ## Runs without reflecting connections -/

/-- The session has drawn `my` and has not finished. -/
def Session.Waits (s : Session) (agreed : Int) (my : List Nat) : Prop :=
  s = .challenge agreed my ∨ s = .response agreed my

/-- What a session that waits can rely on: as long as no connection reflects, this node has not
computed the response it waits for. -/
structure Guarded (node : Node n) (known : Set (List Nat)) (own : List (HmacKey × List Nat))
    (i : Fin n) (agreed : Int) (my : List Nat) : Prop where
  length : my.length = challengeLen
  single : agreed < 110 → ¬ node.Multiple i
  unanswered : (node.connection i).key.sharedSecret ∉ known →
    ((node.connection i).key, node.rightMessage i agreed my) ∉ own

structure Inv (node : Node n) (known : Set (List Nat)) (w : World n) : Prop where
  guarded : ∀ i agreed my, (w.session i).Waits agreed my → Guarded node known w.own i agreed my
  authentic : Authentic node known w

section Invariant

variable {node : Node n} {known : Set (List Nat)} {w w' : World n} {i : Fin n} {agreed : Int} {p : Packet}

section

variable (h : Inv node known w)

include h

theorem Inv.update (hsame : ∀ k, k ≠ i → w'.session k = w.session k)
    (hown : w'.own = w.own) (hothers : w'.others = w.others)
    (hwaits : ∀ agreed my, (w'.session i).Waits agreed my → Guarded node known w.own i agreed my)
    (hdone : ∀ agreed my, w'.session i = .authenticated agreed my →
      (node.connection i).key.sharedSecret ∉ known →
      ((node.connection i).key, node.rightMessage i agreed my) ∈ w.others) : Inv node known w' := by
  constructor
  · intro k agreed my hk
    rw [hown]
    by_cases hki : k = i
    · subst hki
      exact hwaits agreed my hk
    · rw [hsame k hki] at hk
      exact h.guarded k agreed my hk
  · intro k agreed my hk
    rw [hothers]
    by_cases hki : k = i
    · subst hki
      exact hdone agreed my hk
    · rw [hsame k hki] at hk
      exact h.authentic k agreed my hk

theorem Inv.reset {s : Session} (hs : s = .closed ∨ s = .features) : Inv node known (w.put i s) := by
  apply h.update (fun k hk => put_session_of_ne w s hk) rfl rfl
  · intro agreed my hwaits
    rw [put_session_self] at hwaits
    rcases hs with rfl | rfl <;> rcases hwaits with hw | hw <;> cases hw
  · intro agreed my hdone
    rw [put_session_self] at hdone
    rcases hs with rfl | rfl <;> cases hdone

theorem Inv.draw {my : List Nat} (hp : node.bsrDoFeatures i p = .ok agreed) (hfresh : w.Fresh my) :
    Inv node known { w.put i (.challenge agreed my) with used := my :: w.used } := by
  refine h.update (i := i) ?_ rfl rfl ?_ ?_
  · intro k hk
    exact put_session_of_ne w _ hk
  · intro agreed' my' hwaits
    obtain ⟨rfl, rfl⟩ : agreed = agreed' ∧ my = my' := by
      simpa [Session.Waits] using hwaits
    refine ⟨hfresh.1, bsrDoFeatures_ok hp, fun _ hown => ?_⟩
    exact hfresh.2.2 _ (.inl hown) (take_digestInput agreed _ hfresh.1)
  · simp

/-- The response that connection `j` computes is not the one that a waiting connection accepts. -/
theorem Inv.answer {j : Fin n} {my m : List Nat}
    (hnone : ∀ i j, Reflects node i j → (node.connection i).key.sharedSecret ∈ known)
    (hs : w.session j = .challenge agreed my) (hp : node.answerChallenge j agreed my p = .ok m) :
    Inv node known
      { w.put j (.response agreed my) with own := ((node.connection j).key, m) :: w.own } := by
  obtain ⟨d, hd, hne, rfl⟩ := answerChallenge_ok hp
  have hj := h.guarded j agreed my (.inl hs)
  constructor
  · intro k agreed' my' hwaits
    have hk : Guarded node known w.own k agreed' my' := by
      by_cases hk : k = j
      · subst hk
        obtain ⟨rfl, rfl⟩ : agreed = agreed' ∧ my = my' := by
          simpa [Session.Waits] using hwaits
        exact hj
      · simp only [put_session_of_ne w _ hk] at hwaits
        exact h.guarded k agreed' my' hwaits
    refine ⟨hk.length, hk.single, fun hsecret hown => ?_⟩
    rcases List.mem_cons.mp hown with heq | hown
    · obtain ⟨hkey, hmessage⟩ := Prod.mk.inj heq
      have hkid := node.peerNodeId_lt k
      have hjid : node.ownId j < 32 := node.nodeId_lt _
      obtain ⟨rfl, hids⟩ := digestInput_inj (hk.length.trans hd.symm) (by omega) (by omega) hmessage
      by_cases hkj : k = j
      · -- a session does not answer its own challenge
        subst hkj
        obtain ⟨-, rfl⟩ : agreed = agreed' ∧ my = my' := by
          simpa [Session.Waits] using hwaits
        exact hne rfl
      · apply hsecret
        apply hnone k j
        refine ⟨hkj, hkey, ?_⟩
        rcases hids with ⟨hold, hold'⟩ | hid
        · exact .inl ⟨hk.single hold, hj.single hold'⟩
        · exact .inr hid.symm
    · exact hk.unanswered hsecret hown
  · intro k agreed' my' hk hsecret
    by_cases hkj : k = j
    · subst hkj
      simp at hk
    · simp only [put_session_of_ne w _ hkj] at hk
      exact h.authentic k agreed' my' hk hsecret

theorem Inv.accept {my : List Nat}
    (hlegal : Legal known w (.recvResponse i p)) (hs : w.session i = .response agreed my)
    (hp : node.checkResponse i agreed my p = 1) : Inv node known (w.put i (.authenticated agreed my)) := by
  obtain ⟨_, rfl⟩ := checkResponse_one hp
  have hi := h.guarded i agreed my (.inr hs)
  apply h.update (fun k hk => put_session_of_ne w _ hk) rfl rfl
  · intro agreed' my' hwaits
    simp [Session.Waits] at hwaits
  intro agreed' my' hdone hsecret
  obtain ⟨rfl, rfl⟩ : agreed = agreed' ∧ my = my' := by
    simpa using hdone
  rcases hlegal with hknown | hown | hothers
  · exact absurd hknown hsecret
  · exact absurd hown (hi.unanswered hsecret)
  · exact hothers

theorem Inv.step (hnone : ∀ i j, Reflects node i j → (node.connection i).key.sharedSecret ∈ known) {ev : Event n}
    (hlegal : Legal known w ev) (heffect : Effect node w ev w') : Inv node known w' := by
  cases heffect with
  | none => exact h
  | reset _ i s hs => exact h.reset hs
  | draw my hp => exact h.draw hp hlegal
  | answer hs hp => exact h.answer hnone hs hp
  | accept hs hp => exact h.accept hlegal hs hp
  | compute key m =>
    constructor
    · exact h.guarded
    · intro k agreed my hk hsecret
      exact List.mem_cons_of_mem _ (h.authentic k agreed my hk hsecret)

end

theorem Reached.inv (hnone : ∀ i j, Reflects node i j → (node.connection i).key.sharedSecret ∈ known)
    (hw : Reached node known w) : Inv node known w := by
  apply Reachable.invariant _ _ hw
  · rintro w rfl
    constructor
    · intro i agreed my hwaits
      rcases hwaits with hs | hs <;> cases hs
    · intro i agreed my hs
      cases hs
  · rintro w ev _ hinv ⟨hlegal, rfl⟩
    exact hinv.step hnone hlegal (exec_effect node w ev)

end Invariant

/-! ## The attack -/

section Attack

variable {node : Node n} {known : Set (List Nat)} {i j : Fin n}

/-- The features packet that takes connection `i` to protocol `version`. -/
def Node.featuresFor (node : Node n) (i : Fin n) (version : Nat) : Packet :=
  .connectionFeatures 72 ⟨proVersionMin, version, (node.connection i).peerNodeId, node.ownId i⟩

open ConnectionFeatures

theorem bsrDoFeatures_featuresFor {version : Nat} (hlow : proVersionMin ≤ version)
    (hhigh : version ≤ proVersionMax) (hsingle : version < 110 → ¬ node.Multiple i) :
    node.bsrDoFeatures i (node.featuresFor i version) = .ok version := by
  unfold proVersionMin at hlow
  unfold proVersionMax at hhigh
  have hhighest : highest
      ⟨proVersionMin, version, (node.connection i).peerNodeId, node.ownId i⟩ = version :=
    if_neg (by dsimp only; omega)
  have hagreed : agreedProVersion
      ⟨proVersionMin, version, (node.connection i).peerNodeId, node.ownId i⟩ = version := by
    rw [agreedProVersion, proVersionMax, MetaData.toS32_of_mem (by omega)]
    omega
  simp only [Node.featuresFor, Node.bsrDoFeatures, hhighest, hagreed]
  rw [if_neg (by simp), if_neg (by simp [proVersionMin, proVersionMax]; omega), if_neg,
    if_neg (by simp), if_neg (by simp)]
  rintro ⟨_, hmultiple⟩
  exact hsingle (by omega) hmultiple

theorem Reached.next {w w' : World n} (hw : Reached node known w) (ev : Event n)
    (hlegal : Legal known w ev) (hexec : exec node w ev = w') : Reached node known w' :=
  Reachable.next ev hw ⟨hlegal, hexec⟩

/-- The challenge drawn by the session under attack, and the one the attacker makes another session
of the node draw. -/
def sampleChallenge (byte : Nat) : List Nat :=
  List.replicate challengeLen byte

theorem sampleChallenge_ne : sampleChallenge 0 ≠ sampleChallenge 1 := by
  decide

/-- The attacker takes both sessions to protocol `version`, gives the challenge of `i` to `j` and
the answer of `j` to `i`. -/
theorem attack_reached (version : Nat) (hij : i ≠ j)
    (hkey : (node.connection i).key = (node.connection j).key)
    (hi : node.bsrDoFeatures i (node.featuresFor i version) = .ok version)
    (hj : node.bsrDoFeatures j (node.featuresFor j version) = .ok version)
    (hmessage : digestInput version (sampleChallenge 0) (node.ownId j) =
      node.rightMessage i version (sampleChallenge 0)) :
    ∃ w agreed my, Reached node known w ∧ w.session i = .authenticated agreed my ∧ w.others = [] := by
  have hlen : ∀ byte, (sampleChallenge byte).length = challengeLen := fun byte =>
    List.length_replicate
  have h₀ : Reached node known _ := Reachable.start rfl
  have h₁ := h₀.next (.connect i) trivial rfl
  have h₂ := h₁.next (.connect j) trivial rfl
  have h₃ := h₂.next (.recvFeatures i (node.featuresFor i version) (sampleChallenge 0))
    ⟨hlen 0, nofun, nofun⟩ (exec_recvFeatures (by simp [exec, put_session_of_ne _ _ hij]) hi)
  have h₄ := h₃.next (.recvFeatures j (node.featuresFor j version) (sampleChallenge 1))
    ⟨hlen 1, by simpa [exec, World.put] using sampleChallenge_ne.symm, nofun⟩
    (exec_recvFeatures (by simp [exec, put_session_of_ne _ _ hij.symm]) hj)
  have hanswer : ∀ (k : Fin n) (my d : Nat), sampleChallenge my ≠ sampleChallenge d →
      node.answerChallenge k version (sampleChallenge my) (.authChallenge (sampleChallenge d)) =
        .ok (digestInput version (sampleChallenge d) (node.ownId k)) := by
    intro k my d hne
    simp [Node.answerChallenge, hlen, hne]
  have h₅ := h₄.next (.recvChallenge j (.authChallenge (sampleChallenge 0))) trivial
    (exec_recvChallenge (by simp) (hanswer j 1 0 sampleChallenge_ne.symm))
  have h₆ := h₅.next (.recvChallenge i (.authChallenge (sampleChallenge 1))) trivial
    (exec_recvChallenge (by simp [put_session_of_ne _ _ hij]) (hanswer i 0 1 sampleChallenge_ne))
  have hright : node.checkResponse i version (sampleChallenge 0)
      (.authResponse (node.connection i).respSize
        (.hmac (node.connection i).key (node.rightMessage i version (sampleChallenge 0)))) = 1 := by
    simp [Node.checkResponse, Node.rightMessage]
  have h₇ := h₆.next (.recvResponse i (.authResponse (node.connection i).respSize
      (.hmac (node.connection i).key (node.rightMessage i version (sampleChallenge 0)))))
    (.inr (.inl (by simp [hmessage, hkey]))) (exec_recvResponse (by simp) hright)
  exact ⟨_, _, _, h₇, put_session_self _ i _, rfl⟩

theorem Reflects.attack (h : Reflects node i j) (known : Set (List Nat)) :
    ∃ w agreed my, Reached node known w ∧ w.session i = .authenticated agreed my ∧ w.others = [] := by
  obtain ⟨hij, hkey, ⟨hi, hj⟩ | hid⟩ := h
  · refine attack_reached 109 hij hkey ?_ ?_ ?_
    · exact bsrDoFeatures_featuresFor (by decide) (by decide) fun _ => hi
    · exact bsrDoFeatures_featuresFor (by decide) (by decide) fun _ => hj
    · simp [digestInput, Node.rightMessage]
  · refine attack_reached 116 hij hkey ?_ ?_ ?_
    · exact bsrDoFeatures_featuresFor (by decide) (by decide) fun h => absurd h (by decide)
    · exact bsrDoFeatures_featuresFor (by decide) (by decide) fun h => absurd h (by decide)
    · rw [Node.rightMessage, hid]

/-- The response that `i` accepts in the attack was computed by this node alone. -/
theorem Reflects.not_authentic (h : Reflects node i j)
    (hsecret : (node.connection i).key.sharedSecret ∉ known) :
    ∃ w, Reached node known w ∧ ¬ Authentic node known w := by
  obtain ⟨w, agreed, my, hw, hdone, hothers⟩ := h.attack known
  refine ⟨w, hw, fun hauthentic => ?_⟩
  have hmem := hauthentic i agreed my hdone hsecret
  rw [hothers] at hmem
  cases hmem

end Attack

/-- `bsr_do_auth` returns 1 only for responses that another holder of the secret has computed, in
all runs with any number of sessions, if and only if no two connections of the node with a common
key, whose secret the attacker does not know, reflect. -/
theorem auth_resists_reflection_iff (node : Node n) (known : Set (List Nat)) :
    (∀ w, Reached node known w → Authentic node known w) ↔
      ∀ i j, Reflects node i j → (node.connection i).key.sharedSecret ∈ known := by
  constructor
  · intro hall i j hreflects
    by_contra hsecret
    obtain ⟨w, hw, hnot⟩ := hreflects.not_authentic hsecret
    exact hnot (hall w hw)
  · intro hnone w hw
    exact (hw.inv hnone).authentic

-- two connections of one resource do not reflect
example : ∀ i j, ¬ Reflects (n := 2)
    ⟨fun _ => 0, fun i => ⟨0, i.val + 1, ⟨1, [7]⟩, 20⟩, fun _ => by decide, by decide⟩ i j := by
  decide

/-- Node 0 with two resources, each with one connection to node 1, and one secret for both. -/
def twoResources : Node 2 where
  nodeId := fun _ => 0
  connection := fun i => ⟨i.val, 1, ⟨1, [7]⟩, 20⟩
  nodeId_lt := by
    intro resource
    decide
  peerNodeId_lt := by
    intro i
    simp

/-- With protocol 109 the connection of one resource answers for the other. -/
theorem downgraded_response_reflected :
    ∃ w, Reached twoResources ∅ w ∧ ¬ Authentic twoResources ∅ w := by
  have hreflects : Reflects twoResources 0 1 := by decide
  exact hreflects.not_authentic (Set.notMem_empty _)

end Bsr.Auth
