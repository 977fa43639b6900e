import Bsr.Bitmap.Runs
import Bsr.Interval.Runs
import Bsr.ActLog.Wrap
import Bsr.Lru.Create
import Bsr.Request.Success
import Bsr.Request.Destroyed
import Bsr.Submitter.Runs
import Bsr.MetaData.PageIo
import Bsr.MetaData.Recovery
import Bsr.MetaData.Restore
import Bsr.Twopc.Prepared
import Bsr.Handshake.Agreement
import Bsr.SendBuf.DoSend
import Bsr.SendBuf.Runs
import Bsr.Log.IdxRing
import Bsr.Suspend.ApBio
import Bsr.Bitmap.Slots
import Bsr.Quorum.Loss
import Bsr.ActLog.Failures
import Bsr.Receiver.Digest
import Bsr.Receiver.SyncParam
import Bsr.Receiver.Framing
import Bsr.Resync.OutOfSync
import Bsr.Resync.AbortBit
import Bsr.Resync.Plan
import Bsr.Auth.Reflection
import Bsr.Resync.Undo
import Bsr.Handshake.Packet
import Bsr.Handshake.SplitBrain
import Bsr.PeerAck.Window
import Bsr.Twopc.Promotion
import Bsr.Replicate.Agreement
import Bsr.PeerAck.Coverage
import Bsr.Datagen.History
import Bsr.Replicate.Reconcile
import Bsr.Submitter.Nonblock
import Bsr.ActLog.Commit
import Bsr.Receiver.Unwind
import Bsr.Resync.Complete
import Bsr.Resync.Counter
import Bsr.Resync.Duplicates
import Bsr.Twopc.Nested
import Bsr.Twopc.Resize
import Bsr.Exchange.Robust
