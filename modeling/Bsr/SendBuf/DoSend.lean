import Bsr.SendBuf.Model

/-!
# Sending the buffer

`do_send` (`bsr_send_buf.c`, the Linux one) takes blocks of bytes out of the ring and gives them to
the socket, which may take a part of them, none, or fail.

* `Sender` is a call of `do_send`, `Sender.send` is its inner loop up to the next call of the
  socket;
* `do_send_delivers_iff` says when what was taken out of the ring reaches the socket or an error is
  reported: where the socket never takes zero bytes.
-/

namespace Bsr.SendBuf

open List Option

/-- A call of `do_send`. -/
structure Sender where
  bab : Option RingBuffer
  /-- The `tx_sz` bytes of `static_big_buf` from `offset` on. -/
  buf : List UInt8 := []
  rv : Int := 0
  /-- The bytes that `read_ring_buffer` gave. -/
  taken : List UInt8 := []
  /-- The bytes that the socket took. -/
  sent : List UInt8 := []
  returned : Option Int := none

/-- What a call of `bsr_kernel_sendmsg` comes to. -/
structure Result where
  rv : Int
  /-- The answer of `bsr_stream_send_timed_out`. -/
  timedOut : Bool
  /-- What the writers do to the ring meanwhile. -/
  writers : RingBuffer → RingBuffer

def eintr : Int := 4

def eagain : Int := 11

namespace Sender

/-- The head of the outer loop; without a ring there is nothing to read. -/
def fetch (s : Sender) : Sender :=
  match s.bab.bind readRingBuffer with
  | none => { s with returned := some s.rv }
  | some (ring, bytes, _) => { s with bab := some ring, buf := bytes, taken := s.taken ++ bytes }

/-- The end of the inner loop. -/
def advance (s : Sender) (rv : Int) : Sender :=
  let rest := s.buf.drop rv.toNat
  let s := { s with rv := rv, sent := s.sent ++ s.buf.take rv.toNat, buf := rest }
  if rest = [] then s.fetch else s

/-- A round of the inner loop; nothing happens once the call has returned. -/
def send (s : Sender) (r : Result) : Sender :=
  if s.returned.isSome then s
  else
    let s := { s with bab := s.bab.map r.writers }
    if 0 < r.rv then s.advance r.rv
    else if r.rv = -eagain ∧ r.timedOut = false then { s with rv := r.rv }
    else if r.rv = -eintr then s.advance 0
    else { s with rv := r.rv, returned := some r.rv }

end Sender

/-- `do_send` with the results of its calls of the socket. -/
def doSend (bab : Option RingBuffer) (results : List Result) : Sender :=
  results.foldl Sender.send (Sender.fetch { bab })

namespace Sender

/-- The socket has a part of what was taken, in order, and all of it if the call returned no
error. -/
def Delivers (s : Sender) : Prop :=
  s.sent <+: s.taken ∧ ∀ rv, s.returned = some rv → 0 ≤ rv → s.sent = s.taken

/-- As long as the call goes on, the socket takes more than zero bytes or fails. -/
def Taking (s : Sender) : List Result → Prop
  | [] => True
  | r :: rest => (s.returned = none → r.rv ≠ 0) ∧ (s.send r).Taking rest

/-- What is taken and not sent is in the buffer, and the call goes on as long as there is some. -/
structure Ok (s : Sender) : Prop where
  taken : s.taken = s.sent ++ s.buf
  pending : s.returned = none → s.buf ≠ []

variable {s : Sender}

theorem Ok.delivers_iff (h : s.Ok) : s.Delivers ↔ ∀ rv, s.returned = some rv → 0 ≤ rv → s.buf = [] := by
  unfold Delivers
  rw [h.taken]
  simp only [prefix_append, true_and, self_eq_append_right]

theorem readRingBuffer_ne_nil {ring ring' : RingBuffer} {bytes : List UInt8} {used : List Access}
    (h : readRingBuffer ring = some (ring', bytes, used)) : bytes ≠ [] := by
  unfold readRingBuffer at h
  split_ifs at h with hempty
  obtain ⟨-, rfl, -⟩ := Prod.mk.injEq .. ▸ some.inj h
  have hpos : 0 < txSz ring := by
    unfold txSz maxOnetimeSendBuf
    split_ifs <;> omega
  apply ne_nil_of_length_pos
  unfold Lib.takeWrapped
  split_ifs <;> simp <;> omega

theorem fetch_ok (hbuf : s.buf = []) (htaken : s.taken = s.sent) (hrun : s.returned = none) :
    s.fetch.Ok ∧ s.fetch.Delivers := by
  have hok : s.fetch.Ok := by
    unfold fetch
    split
    · exact ⟨by simp [hbuf, htaken], nofun⟩
    rename_i hread
    obtain ⟨_, -, hread⟩ := bind_eq_some_iff.1 hread
    exact ⟨by simp [htaken], fun _ => readRingBuffer_ne_nil hread⟩
  refine ⟨hok, hok.delivers_iff.2 ?_⟩
  unfold fetch
  split <;> simp [hbuf, hrun]

theorem Ok.advance (h : s.Ok) (hrun : s.returned = none) (rv : Int) :
    (s.advance rv).Ok ∧ (s.advance rv).Delivers := by
  have hsplit : s.taken = s.sent ++ s.buf.take rv.toNat ++ s.buf.drop rv.toNat := by
    rw [append_assoc, take_append_drop, h.taken]
  unfold Sender.advance
  dsimp only
  split_ifs with hrest
  · refine fetch_ok hrest ?_ hrun
    rw [hsplit, hrest, append_nil]
  have hok : Ok { s with
      rv := rv, sent := s.sent ++ s.buf.take rv.toNat, buf := s.buf.drop rv.toNat } := ⟨hsplit, fun _ => hrest⟩
  exact ⟨hok, hok.delivers_iff.2 (by simp [hrun])⟩

/-- A round delivers unless the socket takes zero bytes. -/
theorem Ok.send (h : s.Ok) (r : Result) :
    (s.send r).Ok ∧ ((s.send r).Delivers ↔ s.Delivers ∧ (s.returned = none → r.rv ≠ 0)) := by
  unfold Sender.send
  split_ifs with hret hpos hagain hintr
  · have hsome : s.returned ≠ none := isSome_iff_ne_none.1 hret
    exact ⟨h, by simp [hsome]⟩
  all_goals
    have hrun : s.returned = none := not_isSome_iff_eq_none.1 hret
    have hstart : s.Delivers := h.delivers_iff.2 (by simp [hrun])
    have hbab : Ok { s with bab := s.bab.map r.writers } := ⟨h.taken, h.pending⟩
    have hzero : (s.Delivers ∧ (s.returned = none → r.rv ≠ 0)) ↔ r.rv ≠ 0 := by
      simp [hstart, hrun]
    rw [hzero]
  · have hadv := hbab.advance hrun r.rv
    exact ⟨hadv.1, iff_of_true hadv.2 (by omega)⟩
  · have hok : Ok { s with bab := s.bab.map r.writers, rv := r.rv } := ⟨h.taken, h.pending⟩
    refine ⟨hok, iff_of_true (hok.delivers_iff.2 (by simp [hrun])) ?_⟩
    simp [hagain.1, eagain]
  · have hadv := hbab.advance hrun 0
    refine ⟨hadv.1, iff_of_true hadv.2 ?_⟩
    simp [hintr, eintr]
  · have hok : Ok { s with bab := s.bab.map r.writers, rv := r.rv, returned := some r.rv } := ⟨h.taken, nofun⟩
    refine ⟨hok, hok.delivers_iff.trans ?_⟩
    -- the block is not empty: a result that is no error loses it
    simp only [some.injEq, forall_eq', h.pending hrun, imp_false]
    omega

theorem Ok.run (h : s.Ok) (results : List Result) :
    (results.foldl Sender.send s).Delivers ↔ s.Delivers ∧ s.Taking results := by
  induction results generalizing s with
  | nil => simp [Taking]
  | cons r rest ih =>
    obtain ⟨hok, hround⟩ := h.send r
    rw [foldl_cons, ih hok, hround, Taking, and_assoc]

end Sender

/-- `do_send` delivers or reports an error exactly if the socket never answers with zero. -/
theorem do_send_delivers_iff (bab : Option RingBuffer) (results : List Result) :
    (doSend bab results).Delivers ↔ (Sender.fetch { bab }).Taking results := by
  obtain ⟨hok, hstart⟩ := Sender.fetch_ok (s := { bab }) rfl rfl rfl
  rw [doSend, hok.run, and_iff_right hstart]

/-- A ring with one byte. -/
def oneByte : RingBuffer where
  allocated := 3
  mem := fun _ => 7
  length := 4
  readPos := 0
  writePos := 1
  lastSendCmd := 0
  packetList := []

/-- The socket answers with zero: the byte is gone, and `do_send` returns zero. -/
theorem do_send_drops : ¬ (doSend (some oneByte) [⟨0, false, id⟩]).Delivers := by
  intro h
  have hsent := h.2 0 rfl (Int.le_refl 0)
  revert hsent
  decide

end Bsr.SendBuf
