import Bsr.MetaData.Offsets

/-!
# Authentication of a peer

`bsr_do_features` agrees on a protocol version, then `bsr_do_auth` runs a challenge and response in
both directions over a shared secret.

* a `Digest` is symbolic: the HMAC of a key and a message, or bytes that are no HMAC of anything;
* `digestInput` is the message a response covers: the challenge and, from protocol 110 on, the node
  id of the one who answers;
* `bsr_do_auth` is cut where it waits for a packet: `answerChallenge` is what it does with the
  peer's challenge, `checkResponse` what it does with the peer's response. A timeout, a network
  error or a failed allocation ends it in between.
-/

namespace Bsr.Auth

open MetaData List

def proVersionMin : Nat := 86

def proVersionMax : Nat := 116

def challengeLen : Nat := 64

/-- The algorithm of `cram_hmac_tfm` and the key it is set to. -/
structure HmacKey where
  cramHmacAlg : Nat
  sharedSecret : List Nat
deriving DecidableEq, Repr

/-- A digest of an ideal HMAC. -/
inductive Digest where
  | hmac (key : HmacKey) (message : List Nat)
  | noise (bytes : List Nat)
deriving DecidableEq, Repr

/-- `struct p_connection_features`, after `be32_to_cpu`. -/
structure ConnectionFeatures where
  protocolMin : Nat
  protocolMax : Nat
  senderNodeId : Nat
  receiverNodeId : Nat
deriving DecidableEq, Repr

namespace ConnectionFeatures

/-- A peer that names no maximum speaks one version. -/
def highest (p : ConnectionFeatures) : Nat :=
  if p.protocolMax = 0 then p.protocolMin else p.protocolMax

/-- `min_t(int, PRO_VERSION_MAX, p->protocol_max)`: a maximum beyond the range of `int` is
negative. -/
def agreedProVersion (p : ConnectionFeatures) : Int :=
  min (proVersionMax : Int) (toS32 p.highest)

end ConnectionFeatures

/-- A received packet, with the size its header gives. -/
inductive Packet where
  | connectionFeatures (size : Nat) (p : ConnectionFeatures)
  | authChallenge (d : List Nat)
  | authResponse (size : Nat) (response : Digest)
  | other
deriving DecidableEq, Repr

/-- The fields of `struct bsr_connection` that authentication reads; `respSize` is the digest size
of `cram_hmac_tfm`. -/
structure Connection where
  resource : Nat
  peerNodeId : Nat
  key : HmacKey
  respSize : Nat
deriving DecidableEq, Repr

/-- The connections of one node, over all its resources. Node ids are below `BSR_NODE_ID_MAX`. -/
structure Node (n : Nat) where
  nodeId : Nat → Nat
  connection : Fin n → Connection
  nodeId_lt : ∀ resource, nodeId resource < 32
  peerNodeId_lt : ∀ i, (connection i).peerNodeId < 32

namespace Node

variable {n : Nat} (node : Node n) (i : Fin n)

/-- `connection->resource->res_opts.node_id`. -/
def ownId : Nat := node.nodeId (node.connection i).resource

/-- `multiple` of `bsr_do_features`: the resource has another connection. -/
def Multiple : Prop :=
  ∃ j, j ≠ i ∧ (node.connection j).resource = (node.connection i).resource

instance : Decidable (node.Multiple i) :=
  inferInstanceAs (Decidable (∃ j, j ≠ i ∧ (node.connection j).resource = (node.connection i).resource))

/-- `bsr_do_features` from the received packet on: the agreed protocol version, or the value
returned on failure. -/
def bsrDoFeatures : Packet → Except Int Int
  | .connectionFeatures size p =>
    if size ≠ 72 then .error (-1)
    else if proVersionMax < p.protocolMin ∨ proVersionMin > p.highest then .error (-1)
    else if p.agreedProVersion < 110 ∧ node.Multiple i then .error (-1)
    else if p.agreedProVersion ≥ 110 ∧ p.senderNodeId ≠ (node.connection i).peerNodeId then .error 0
    else if p.agreedProVersion ≥ 110 ∧ p.receiverNodeId ≠ node.ownId i then .error 0
    else .ok p.agreedProVersion
  | _ => .error (-1)

end Node

/-- `cpu_to_be32`, as bytes. -/
def be32 (x : Nat) : List Nat :=
  [x / 2 ^ 24 % 256, x / 2 ^ 16 % 256, x / 2 ^ 8 % 256, x % 256]

/-- The first `dig_size` bytes of a `struct auth_challenge`. -/
def digestInput (agreed : Int) (d : List Nat) (id : Nat) : List Nat :=
  if agreed ≥ 110 then d ++ be32 id else d

namespace Node

variable {n : Nat} (node : Node n) (i : Fin n)

/-- `bsr_do_auth` at the packet after its own challenge: the message whose HMAC it sends, or the
value returned. -/
def answerChallenge (agreed : Int) (my : List Nat) : Packet → Except Int (List Nat)
  | .authChallenge d =>
    if d.length ≠ challengeLen then .error (-1)
    -- "Peer presented the same challenge!"
    else if my = d then .error (-1)
    else .ok (digestInput agreed d (node.ownId i))
  | _ => .error 0

/-- `bsr_do_auth` at the packet after its response: the value returned. -/
def checkResponse (agreed : Int) (my : List Nat) : Packet → Int
  | .authResponse size response =>
    if size ≠ (node.connection i).respSize then 0
    else if response = .hmac (node.connection i).key
        (digestInput agreed my (node.connection i).peerNodeId) then 1
    else -1
  | _ => 0

end Node

/-! ## What the functions do -/

section Lemmas

variable {n : Nat} {node : Node n} {i : Fin n} {agreed : Int} {my : List Nat} {p : Packet}

/-- Protocols before 110 are for resources with one connection. -/
theorem bsrDoFeatures_ok (h : node.bsrDoFeatures i p = .ok agreed) :
    agreed < 110 → ¬ node.Multiple i := by
  cases p with
  | connectionFeatures size p =>
    simp only [Node.bsrDoFeatures] at h
    split_ifs at h with _ _ hmult
    rw [← Except.ok.inj h]
    intro hlt hmultiple
    exact hmult ⟨hlt, hmultiple⟩
  | authChallenge d | authResponse size response | other => cases h

theorem answerChallenge_ok {m : List Nat} (h : node.answerChallenge i agreed my p = .ok m) :
    ∃ d, d.length = challengeLen ∧ d ≠ my ∧ m = digestInput agreed d (node.ownId i) := by
  cases p with
  | connectionFeatures size p | authResponse size response | other => cases h
  | authChallenge d =>
    simp only [Node.answerChallenge] at h
    split_ifs at h with hlen hsame
    cases h
    exact ⟨d, not_not.mp hlen, Ne.symm hsame, rfl⟩

theorem checkResponse_one (h : node.checkResponse i agreed my p = 1) :
    ∃ size, p = .authResponse size (.hmac (node.connection i).key
      (digestInput agreed my (node.connection i).peerNodeId)) := by
  cases p with
  | connectionFeatures size p | authChallenge d | other => cases h
  | authResponse size response =>
    simp only [Node.checkResponse] at h
    split_ifs at h with hsize hright
    · cases h
    · exact ⟨size, by rw [hright]⟩

theorem be32_inj {x y : Nat} (hx : x < 2 ^ 32) (hy : y < 2 ^ 32) (h : be32 x = be32 y) : x = y := by
  simp only [be32, cons.injEq] at h
  omega

theorem length_digestInput (agreed : Int) (d : List Nat) (id : Nat) :
    (digestInput agreed d id).length = d.length + if agreed ≥ 110 then 4 else 0 := by
  unfold digestInput
  split_ifs <;> simp [be32]

/-- Two responses cover the same bytes only for one challenge, both with or both without a node
id. -/
theorem digestInput_inj {a b : Int} {d e : List Nat} {x y : Nat} (hlen : d.length = e.length)
    (hx : x < 2 ^ 32) (hy : y < 2 ^ 32) (h : digestInput a d x = digestInput b e y) :
    d = e ∧ (a < 110 ∧ b < 110 ∨ x = y) := by
  have hlength := congrArg length h
  rw [length_digestInput, length_digestInput] at hlength
  unfold digestInput at h
  split_ifs at h hlength with ha hb hb
  · obtain ⟨hd, hid⟩ := append_inj h hlen
    exact ⟨hd, .inr (be32_inj hx hy hid)⟩
  · omega
  · omega
  · exact ⟨h, .inl ⟨by omega, by omega⟩⟩

theorem take_digestInput (agreed : Int) {d : List Nat} (id : Nat) (hlen : d.length = challengeLen) :
    (digestInput agreed d id).take challengeLen = d := by
  unfold digestInput
  split_ifs
  · rw [← hlen, take_left]
  · rw [← hlen, take_length]

end Lemmas

end Bsr.Auth
