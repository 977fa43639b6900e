import Mathlib

/-!
# The states of a node, as `bsr.h` enumerates them

Roles, connection and replication states, and the results of state changes. Where the code compares
the numbers, `rank` and `val` give them.
-/

namespace Bsr.State

/-- `enum bsr_role`. -/
inductive Role where
  | unknown | primary | secondary
deriving DecidableEq, Repr

/-- `enum bsr_conn_state`. -/
inductive ConnState where
  | standalone | disconnecting | unconnected
  | timeout | brokenPipe | networkFailure | protocolError | tearDown
  | connecting | connected
deriving DecidableEq, Repr

namespace ConnState

/-- The order of the enumeration. -/
def rank : ConnState → Nat
  | standalone => 0
  | disconnecting => 1
  | unconnected => 2
  | timeout => 3
  | brokenPipe => 4
  | networkFailure => 5
  | protocolError => 6
  | tearDown => 7
  | connecting => 8
  | connected => 9

/-- `C_TIMEOUT <= cstate && cstate <= C_TEAR_DOWN`: the connection was lost. -/
def isLost (c : ConnState) : Bool :=
  decide (timeout.rank ≤ c.rank ∧ c.rank ≤ tearDown.rank)

end ConnState

/-- `enum bsr_repl_state`. -/
inductive ReplState where
  | off | established | startingSyncS | startingSyncT | wfBitmapS | wfBitmapT | wfSyncUuid
  | syncSource | syncTarget | verifyS | verifyT | pausedSyncS | pausedSyncT | ahead | behind
deriving DecidableEq, Repr

/-- The field `conn` of `union bsr_state` holds one of both. -/
inductive ConnField where
  | conn (c : ConnState)
  | repl (r : ReplState)
deriving DecidableEq, Repr

/-- `enum bsr_state_rv`. -/
inductive StateRv where
  | cwNoNeed | cwSuccess | nothingToDo | success | unknownError
  | twoPrimaries | noUpToDateDisk | noLocalDisk | noRemoteDisk | connectedOutdates | primaryNop
  | resyncRunning | alreadyStandalone | cwFailedByPeer | isDiskless | deviceInUse | noNetConfig
  | noVerifyAlg | needConnection | lowerThanOutdated | notSupported | inTransientState
  | concurrentStChg | oVolPeerPri | interrupted | primaryReader | timeout | weaklyConnected
  | noQuorum | targetDiskTooSmall | connectedDiskless | lowerThanOutdatedPeer
  | barrierAckPendingTimeout | afterLastError | resyncReplyDataPendingTimeout
deriving DecidableEq, Repr

namespace StateRv

/-- `rv >= SS_SUCCESS`: the only results that are positive. -/
def isSuccess : StateRv → Bool
  | cwNoNeed | cwSuccess | nothingToDo | success => true
  | _ => false

end StateRv

end Bsr.State
