import Bsr.SendBuf.Model

/-!
# Sync parameters from the peer

`receive_SyncParam` takes the packet into the receive buffer of the connection, where the bytes of
earlier packets stay behind its end. The length of the packet has an upper bound only; which fields
are read depends on the protocol version.

* `received` is the buffer with the packet, `readParams` takes the fields from it, `SyncEnv.adopt`
  uses them;
* `needed` is how far the buffer is read, and `sync_param_iff` says that the packet must be that
long. -/

namespace Bsr.Receiver

open List

open SendBuf (be32)

/-- The buffer after `bsr_recv_all`. For an empty packet even the pointer to it is left unset. -/
def received (old : Nat → UInt8) (packet : List UInt8) (i : Nat) : UInt8 :=
  packet.getD i (old i)

/-- The string at `start`; byte `n` of it has been set to NUL. -/
def cString (buf : Nat → UInt8) (start n : Nat) : List UInt8 :=
  ((range n).map fun i => buf (start + i)).takeWhile (· != 0)

/-- `struct peer_device_conf`, as far as packets change it. -/
structure PeerDeviceConf where
  cPlanAhead : Nat := 0
  cDelayTarget : Nat := 0
  cFillTarget : Nat := 0
  cMaxRate : Nat := 0
  ovReqNum : Nat := 0
  ovReqInterval : Nat := 0
deriving DecidableEq

/-- The name of an algorithm in `struct net_conf`, and its length with the NUL. -/
structure AlgName where
  name : List UInt8 := []
  len : Nat := 1
deriving DecidableEq

structure SyncConfig where
  verifyAlg : AlgName := {}
  csumsAlg : AlgName := {}
  conf : PeerDeviceConf := {}
  /-- The size of `rs_plan_s`. -/
  plan : Option Nat := none
deriving DecidableEq

/-- What a call finds apart from the packet. -/
structure SyncEnv where
  config : SyncConfig := {}
  /-- `get_ldev`. -/
  hasDisk : Bool := true
  /-- `repl_state[NOW]` is `L_OFF`. -/
  off : Bool := false
  interrupted : Bool := false
  confAlloc : Bool := true
  netConfAlloc : Bool := true
  cryptoAlloc : List UInt8 → Bool := fun _ => true
  fifoAlloc : Nat → Bool := fun _ => true
  hz : Nat := 1000

inductive SyncReject where
  | tooLong
  | interrupted
  | noMemory
  | reconnect
  | disconnect

def expMaxSz (apv : Nat) : Nat :=
  if apv ≤ 87 then 4 else if apv = 88 then 68 else if apv ≤ 94 then 132 else if apv ≤ 113 then 148 else 156

/-- The fields that are read: the two names and the settings of the peer device. -/
def readParams (config : SyncConfig) (apv size : Nat) (buf : Nat → UInt8) :
    List UInt8 × List UInt8 × PeerDeviceConf :=
  let conf := if 94 < apv then
    { config.conf with
      cPlanAhead := be32 buf 132, cDelayTarget := be32 buf 136, cFillTarget := be32 buf 140, cMaxRate := be32 buf 144 }
    else config.conf
  (cString buf 4 (if apv = 88 then size - 4 else 63),
    -- up to 88 there is no `csums_alg`, and the setting is not compared
    if 89 ≤ apv then cString buf 68 63 else config.csumsAlg.name,
    if 114 ≤ apv then { conf with ovReqNum := be32 buf 148, ovReqInterval := be32 buf 152 } else conf)

/-- A name from the packet: the new entry, if `bsr_crypto_alloc_digest_safe` gives a transform for
it, which it does not for the empty name; `none` to disconnect. -/
def SyncEnv.newAlg (env : SyncEnv) (old : AlgName) (alg : List UInt8) : Option (Option AlgName) :=
  if old.name = alg then some none
  else if env.off then none
  else if alg = [] then some none
  else if env.cryptoAlloc alg then some (some ⟨alg.take 63, alg.length + 1⟩)
  else none

def SyncEnv.adopt (env : SyncEnv) (apv : Nat) (p : List UInt8 × List UInt8 × PeerDeviceConf) :
    Except SyncReject SyncConfig :=
  match env.newAlg env.config.verifyAlg p.1, env.newAlg env.config.csumsAlg p.2.1 with
  | some verify, some csums =>
    -- `SLEEP_TIME` is `HZ/10`
    let fifoSize := p.2.2.cPlanAhead * 10 * (env.hz / 10) % 2 ^ 32 / env.hz
    let newPlan := 94 < apv ∧ env.hasDisk ∧ env.config.plan ≠ some fifoSize
    if newPlan ∧ !env.fifoAlloc fifoSize ∨ (verify.isSome || csums.isSome) ∧ !env.netConfAlloc then .error .disconnect
    else .ok
      { verifyAlg := verify.getD env.config.verifyAlg, csumsAlg := csums.getD env.config.csumsAlg
        conf := if env.hasDisk then p.2.2 else env.config.conf
        plan := if newPlan then some fifoSize else env.config.plan }
  | _, _ => .error .disconnect

/-- A packet of `size` bytes at the front of `buf`. -/
def receiveSyncParam (env : SyncEnv) (apv size : Nat) (buf : Nat → UInt8) : Except SyncReject SyncConfig :=
  let dataSize := (size + (2 ^ 32 - 4)) % 2 ^ 32
  if expMaxSz apv < size then .error .tooLong
  else if env.interrupted then .error .interrupted
  else if env.hasDisk ∧ !env.confAlloc then .error .noMemory
  else if apv < 88 then .ok env.config
  else if apv = 88 ∧ (64 < dataSize ∨ dataSize = 0) then .error .reconnect
  else env.adopt apv (readParams env.config apv size buf)

/-- The outcome is a function of the packet: the same configuration, or no new one. -/
def DependsOnPacket (apv size : Nat) : Prop :=
  ∀ (env : SyncEnv) (packet : List UInt8), packet.length = size → ∀ old old',
    (receiveSyncParam env apv size (received old packet)).toOption =
      (receiveSyncParam env apv size (received old' packet)).toOption

/-- How far the buffer is read. -/
def needed (apv size : Nat) : Nat :=
  if apv ≤ 87 then 0 else if apv = 88 then size else if apv ≤ 94 then 131 else if apv ≤ 113 then 148 else 156

section

variable {buf buf' : Nat → UInt8} {apv size : Nat}

theorem cString_congr {start n : Nat} (h : ∀ i < start + n, buf i = buf' i) :
    cString buf start n = cString buf' start n := by
  unfold cString
  rw [map_congr_left fun i hi => h (start + i) (Nat.add_lt_add_left (mem_range.1 hi) start)]

theorem be32_congr {i : Nat} (h : ∀ j < i + 4, buf j = buf' j) : be32 buf i = be32 buf' i := by
  unfold be32 SendBuf.be16
  rw [h i (by omega), h (i + 1) (by omega), h (i + 2) (by omega), h (i + 2 + 1) (by omega)]

theorem readParams_congr (config : SyncConfig) (h4 : apv = 88 → 4 ≤ size) (h88 : 88 ≤ apv)
    (h : ∀ i < needed apv size, buf i = buf' i) :
    readParams config apv size buf = readParams config apv size buf' := by
  have hbelow : ∀ {n}, n ≤ needed apv size → ∀ i < n, buf i = buf' i := fun hn i hi =>
    h i (Nat.lt_of_lt_of_le hi hn)
  have hverify := @cString_congr buf buf' 4 (if apv = 88 then size - 4 else 63)
    (hbelow (by unfold needed; grind))
  have hcsums : 89 ≤ apv → cString buf 68 63 = cString buf' 68 63 := fun h89 =>
    cString_congr (hbelow (by unfold needed; grind))
  have hplan : 94 < apv → ∀ i ≤ 144, be32 buf i = be32 buf' i := fun h94 i hi =>
    be32_congr (hbelow (by unfold needed; grind))
  have hov : 114 ≤ apv → ∀ i ≤ 152, be32 buf i = be32 buf' i := fun h114 i hi =>
    be32_congr (hbelow (by unfold needed; grind))
  unfold readParams
  grind

end

open SyncEnv

/-- With every resource at hand, names and settings are taken as they come. -/
theorem adopt_inj {apv : Nat} {p q : List UInt8 × List UInt8 × PeerDeviceConf}
    (h : (adopt {} apv p).toOption = (adopt {} apv q).toOption) :
    p.2.1.take 63 = q.2.1.take 63 ∧ p.2.2 = q.2.2 := by
  have halg : ∀ alg, ∃ new, newAlg {} {} alg = some new ∧ (new.getD {}).name = alg.take 63 := by
    intro alg
    unfold newAlg
    by_cases hempty : alg = []
    · exact ⟨none, by simp [hempty], by simp [hempty]⟩
    · exact ⟨some ⟨alg.take 63, alg.length + 1⟩, by simp [hempty], rfl⟩
  have htaken : ∀ p, ∃ c, adopt {} apv p = .ok c ∧ c.csumsAlg.name = p.2.1.take 63 ∧ c.conf = p.2.2 := by
    intro p
    obtain ⟨_, hverify, -⟩ := halg p.1
    obtain ⟨_, hcsums, hname⟩ := halg p.2.1
    simp [adopt, hverify, hcsums, hname]
  obtain ⟨c, hc, hname, hconf⟩ := htaken p
  obtain ⟨c', hc', hname', hconf'⟩ := htaken q
  rw [hc, hc'] at h
  obtain rfl : c = c' := Option.some.inj h
  exact ⟨hname.symm.trans hname', hconf.symm.trans hconf'⟩

theorem readParams_last {apv size : Nat} (h89 : 89 ≤ apv) :
    let buf i := if i + 1 = needed apv size then 0 else 1
    (readParams {} apv size fun _ => 1).2.1.take 63 = (readParams {} apv size buf).2.1.take 63 →
      (readParams {} apv size fun _ => 1).2.2 ≠ (readParams {} apv size buf).2.2 := by
  intro buf hcsums hconf
  have h87 : ¬ apv ≤ 87 := by omega
  have h88 : ¬ apv = 88 := by omega
  unfold buf needed readParams at hcsums hconf
  simp only [if_neg h87, if_neg h88, if_pos h89] at hcsums hconf
  by_cases h94 : apv ≤ 94
  · simp only [if_pos h94] at hcsums
    exact absurd hcsums (by decide)
  simp only [if_neg h94, if_pos (Nat.lt_of_not_le h94)] at hconf
  by_cases h113 : apv ≤ 113
  · simp only [if_pos h113, if_neg (show ¬ 114 ≤ apv by omega)] at hconf
    exact absurd hconf (by decide)
  · simp only [if_neg h113, if_pos (show 114 ≤ apv by omega)] at hconf
    exact absurd hconf (by decide)

/-- The packet decides if it is as long as what is read. -/
theorem sync_param_iff (apv size : Nat) : DependsOnPacket apv size ↔ needed apv size ≤ size := by
  constructor
  · intro h
    by_contra hlt
    have h89 : 89 ≤ apv ∧ needed apv size ≤ expMaxSz apv := by
      unfold needed expMaxSz at *
      grind
    have hfront : ∀ old : Nat → UInt8, (∀ i < size, old i = 1) → received old (replicate size 1) = old := by
      intro old _
      unfold received
      grind
    have hrun : ∀ buf, receiveSyncParam {} apv size buf = adopt {} apv (readParams {} apv size buf) := by
      intro buf
      unfold receiveSyncParam
      grind
    have hsame := h {} (replicate size 1) length_replicate (fun _ => 1)
      fun i => if i + 1 = needed apv size then 0 else 1
    rw [hfront _ fun _ _ => rfl, hfront _ fun i hi => if_neg (by omega), hrun, hrun] at hsame
    obtain ⟨hcsums, hconf⟩ := adopt_inj hsame
    exact readParams_last h89.1 hcsums hconf
  · intro _ env packet _ old old'
    have hbuf : ∀ i < needed apv size, received old packet i = received old' packet i := by
      intro i hi
      have hin : i < packet.length := by omega
      simp [received, hin]
    unfold receiveSyncParam
    dsimp only
    split_ifs with hmax hint hmem h88 hdata
    · rfl
    · rfl
    · rfl
    · rfl
    · rfl
    · rw [readParams_congr env.config ?_ (by omega) hbuf]
      rintro rfl
      omega

/-- A packet with a rate only: the name of the algorithm is what an earlier packet has left
there. -/
theorem sync_param_stale :
    (receiveSyncParam {} 89 4 (received (fun _ => 0) [0, 0, 0, 0])).toOption = some {} ∧
      (receiveSyncParam {} 89 4 (received (fun _ => 97) [0, 0, 0, 0])).toOption.map
        (·.verifyAlg.name) = some (replicate 63 97) := by
  decide

end Bsr.Receiver
