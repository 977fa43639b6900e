import Bsr.SendBuf.Model

/-!
# The send buffer as a stream of bytes

Threads that send and the send thread share a ring; each of its critical sections is one step here.

* `Sys` has the ring, the calls of `write_ring_buffer` that wait for room, and what happened so far;
* `Inv` says that the bytes accepted are the bytes returned followed by those in the ring;
* the ring is one byte longer than the memory behind it, and the tables of counters are indexed by
  what may be the data of an application: `send_buffer_sound_iff` says which runs stay inside the
memory. -/

namespace Bsr.SendBuf

open Lib Function

/-! ## Calls -/

/-- A call of `write_ring_buffer` between two rounds of its loop. -/
structure Waiting where
  buf : Nat → UInt8
  len : Nat
  /-- The rounds that are left. -/
  rounds : Nat

/-- How a call of `write_ring_buffer` ended. -/
inductive Outcome where
  | written (len : Nat)
  | eagain
  | eio
  | bug
  deriving DecidableEq, Repr

/-- A call of `write_ring_buffer` that has ended, with the bytes it put into the ring. -/
structure Done where
  data : List UInt8
  stored : List UInt8
  outcome : Outcome

inductive Act where
  /-- A thread calls `write_ring_buffer`. -/
  | write (thread : Nat) (buf : Nat → UInt8) (len retry : Nat) (allocOk : Bool)
  /-- The next round of a call, unless the connection quits. -/
  | again (thread : Nat) (quit allocOk : Bool)
  /-- A call of `read_ring_buffer`. -/
  | read

structure Sys where
  ring : RingBuffer
  waiting : Nat → Option Waiting := fun _ => none
  done : List Done := []
  returned : List UInt8 := []
  accesses : List Access := []

namespace Sys

variable (s : Sys)

/-- The bytes accepted so far. -/
def accepted : List UInt8 :=
  (s.done.map Done.stored).flatten

/-- A call ends without having written. -/
def giveUp (thread : Nat) (w : Waiting) (o : Outcome) : Sys :=
  { s with
    waiting := update s.waiting thread none
    done := s.done ++ [⟨span w.buf w.len, [], o⟩] }

/-- A call gets past the test for congestion. -/
def buffer (thread : Nat) (w : Waiting) (allocOk : Bool) : Sys :=
  match goBuffering s.ring w.buf w.len allocOk with
  | some (ring, len, used) =>
    { s with
      ring := ring
      waiting := update s.waiting thread none
      done := s.done ++ [⟨span w.buf w.len, span w.buf len, .written len⟩]
      accesses := s.accesses ++ used }
  | none => s.giveUp thread w .bug

/-- A round that found the ring congested. -/
def wait (thread : Nat) (w : Waiting) : Sys :=
  if w.rounds = 0 then s.giveUp thread w .eagain
  else { s with waiting := update s.waiting thread (some w) }

def step : Act → Sys
  | .write thread buf len retry allocOk =>
    match s.waiting thread with
    | some _ => s
    | none =>
      if congested s.ring len (highwater s.ring) then s.wait thread ⟨buf, len, retry⟩
      else s.buffer thread ⟨buf, len, retry⟩ allocOk
  | .again thread quit allocOk =>
    match s.waiting thread with
    | none => s
    | some w =>
      if quit then s.giveUp thread w .eio
      else if congested s.ring w.len (highwater s.ring) then s.wait thread { w with rounds := w.rounds - 1 }
      else s.buffer thread w allocOk
  | .read =>
    match readRingBuffer s.ring with
    | none => s
    | some (ring, bytes, used) =>
      { s with ring := ring, returned := s.returned ++ bytes, accesses := s.accesses ++ used }

def run (acts : List Act) : Sys :=
  acts.foldl step s

end Sys

/-- Calls pass at least one byte. -/
def Act.Positive : Act → Prop
  | .write _ _ len _ _ => 0 < len
  | _ => True

/-- A ring that `alloc_bab` allocated for one of the streams, as `create_ring_buffer` makes it ready
for a connection; an earlier connection may have used it. -/
def Created (ring : RingBuffer) : Prop :=
  ∃ sndbufSize garbage data control, allocBab sndbufSize garbage = some (data, control) ∧
    ∃ old, (old.allocated = data.allocated ∧ old.length = data.length ∨
      old.allocated = control.allocated ∧ old.length = control.length) ∧
        ∃ length, createRingBuffer old length = some ring

variable {ring : RingBuffer}

theorem Created.spec (h : Created ring) :
    ring.length = ring.allocated + 1 ∧ 0 < ring.allocated ∧ ring.readPos = 0 ∧ ring.writePos = 0 ∧
      ring.packetList = [] := by
  obtain ⟨_, _, _, _, halloc, old, hold, length, hcreate⟩ := h
  unfold allocBab at halloc
  unfold createRingBuffer at hcreate
  split_ifs at halloc with hzero hmin
  split_ifs at hcreate
  obtain ⟨rfl, rfl⟩ := Prod.mk.inj (Option.some.inj halloc)
  cases hcreate
  refine ⟨?_, ?_, rfl, rfl, rfl⟩
  · rcases hold with ⟨ha, hl⟩ | ⟨ha, hl⟩
    · exact hl.trans (congrArg (· + 1) ha.symm)
    · exact hl.trans (congrArg (· + 1) ha.symm)
  change 0 < old.allocated
  rcases hold with ⟨ha, -⟩ | ⟨ha, -⟩
  · rw [ha]
    exact Nat.pos_of_ne_zero hzero
  · rw [ha]
    exact (by decide : 0 < controlBuffSize)

/-! ## The stream -/

/-- The ring is well-formed, and holds what was accepted and not yet returned. -/
structure Inv (s : Sys) : Prop where
  length : s.ring.length = s.ring.allocated + 1
  readPos : s.ring.readPos < s.ring.length
  writePos : s.ring.writePos < s.ring.length
  stream : s.accepted = s.returned ++ ringAt s.ring.mem s.ring.length s.ring.readPos (ringbufSize s.ring)
  whole : ∀ d ∈ s.done, d.stored = d.data ∧ d.outcome = .written d.data.length ∨
    d.stored = [] ∧ (d.outcome = .eagain ∨ d.outcome = .eio)
  waiting : ∀ t w, s.waiting t = some w → 0 < w.len
  /-- The commands in the list have been used as an index before. -/
  counted : ∀ p ∈ s.ring.packetList, Access.counter p.cmd ∈ s.accesses

/-- Where a ring is not congested, there is room for the whole call. -/
theorem freeBytes_of_not_congested {len : Nat} (hr : ring.readPos < ring.length)
    (hw : ring.writePos < ring.length) (h : congested ring len (highwater ring) = false) :
    ringbufSize ring + len < ring.length ∧ len ≤ freeBytes ring := by
  have hle : ringbufSize ring + len ≤ ring.length * 99 / 100 := Nat.le_of_not_lt (of_decide_eq_false h)
  have hlt : ringbufSize ring + len < ring.length := by omega
  refine ⟨hlt, ?_⟩
  unfold freeBytes
  unfold ringbufSize at hlt
  by_cases hrw : ring.readPos ≤ ring.writePos
  · rw [held_of_le hrw hw] at hlt
    rw [Nat.mod_eq_of_lt (by omega)]
    omega
  rw [held_of_lt (by omega) hr] at hlt
  have hsplit : ring.readPos + ring.length - ring.writePos - 1 =
      ring.readPos - ring.writePos - 1 + ring.length := by omega
  rw [hsplit, Nat.add_mod_right, Nat.mod_eq_of_lt (by omega)]
  omega

/-- The list of packets is apart from the ring. -/
structure SameRing (ring ring' : RingBuffer) : Prop where
  allocated : ring'.allocated = ring.allocated
  mem : ring'.mem = ring.mem
  length : ring'.length = ring.length
  readPos : ring'.readPos = ring.readPos
  writePos : ring'.writePos = ring.writePos

theorem addPacket_same (ring : RingBuffer) (p : PacketInfo) (allocOk : Bool) :
    SameRing ring (addPacket ring p allocOk).1 := by
  unfold addPacket
  split_ifs <;> exact ⟨rfl, rfl, rfl, rfl, rfl⟩

open List

/-- A packet on the list was there before, or its command has just been used. -/
theorem addPacket_counted {q : PacketInfo} {allocOk : Bool} {p : PacketInfo}
    (hp : p ∈ (addPacket ring q allocOk).1.packetList) :
    p ∈ ring.packetList ∨ Access.counter p.cmd ∈ (addPacket ring q allocOk).2 := by
  unfold addPacket at hp ⊢
  split_ifs at hp ⊢
  · rcases mem_append.1 hp with hp | hp
    · exact .inl hp
    · rw [mem_singleton.1 hp]
      exact .inr (mem_cons_self ..)
  · exact absurd hp not_mem_nil
  · exact .inl hp

/-- A packet that is left was there before, perhaps longer; and only commands on the list are
used. -/
theorem removePackets_cmds (ps : List PacketInfo) (length : Nat) :
    (∀ p ∈ (removePackets ps length).1, ∃ q ∈ ps, q.cmd = p.cmd) ∧
      ∀ x ∈ (removePackets ps length).2, ∃ q ∈ ps, x = .counter q.cmd := by
  induction ps generalizing length with
  | nil =>
    exact ⟨fun p hp => absurd hp not_mem_nil, fun x hx => absurd hx not_mem_nil⟩
  | cons q rest ih =>
    unfold removePackets
    obtain ⟨hleft, hused⟩ := ih (length - q.size)
    split_ifs
    · constructor
      · intro p hp
        obtain ⟨q', hq', hcmd⟩ := hleft p hp
        exact ⟨q', mem_cons_of_mem _ hq', hcmd⟩
      intro x hx
      rcases mem_cons.1 hx with rfl | hx
      · exact ⟨q, mem_cons_self .., rfl⟩
      rcases mem_cons.1 hx with rfl | hx
      · exact ⟨q, mem_cons_self .., rfl⟩
      obtain ⟨q', hq', hcmd⟩ := hused x hx
      exact ⟨q', mem_cons_of_mem _ hq', hcmd⟩
    · constructor
      · intro p hp
        rcases mem_cons.1 hp with rfl | hp
        · exact ⟨q, mem_cons_self .., rfl⟩
        · exact ⟨p, mem_cons_of_mem _ hp, rfl⟩
      · simp

/-- The ring with the bytes of a call written, before the list of packets is kept. -/
def written (ring : RingBuffer) (buf : Nat → UInt8) (len : Nat) : RingBuffer :=
  { ring with
    mem := putWrapped ring.mem buf ring.length ring.writePos len
    writePos := (ring.writePos + len) % ring.length }

theorem goBuffering_eq (buf : Nat → UInt8) {len : Nat} (allocOk : Bool)
    (hr : ring.readPos < ring.length) (hw : ring.writePos < ring.length) (hlen : 0 < len)
    (h : congested ring len (highwater ring) = false) :
    goBuffering ring buf len allocOk = some
      ((addPacket (written ring buf len) (packetAt ring.lastSendCmd buf) allocOk).1, len,
      copies ring.length ring.writePos len ++
      (addPacket (written ring buf len) (packetAt ring.lastSendCmd buf) allocOk).2) := by
  have hroom := (freeBytes_of_not_congested hr hw h).2
  unfold goBuffering
  rw [if_neg (by omega : ¬ freeBytes ring < len)]
  rw [if_pos hlen]
  rfl

/-- In the step `a` the call `w` gets past the test for congestion. -/
def Enters (s : Sys) (a : Act) (w : Waiting) (allocOk : Bool) : Prop :=
  congested s.ring w.len (highwater s.ring) = false ∧
    match a with
    | .write t buf len retry ok => s.waiting t = none ∧ w = ⟨buf, len, retry⟩ ∧ ok = allocOk
    | .again t quit ok => s.waiting t = some w ∧ quit = false ∧ ok = allocOk
    | .read => False

variable {s : Sys} {w : Waiting} {a : Act}

theorem Enters.positive {allocOk : Bool} (he : Enters s a w allocOk) (h : Inv s)
    (ha : a.Positive) : 0 < w.len := by
  cases a with
  | write t buf len retry ok =>
    obtain ⟨-, -, rfl, -⟩ := he
    exact ha
  | again t quit ok => exact h.waiting t w he.2.1
  | read => exact he.2.elim

theorem Enters.unique {w w' : Waiting} {ok ok' : Bool} (h : Enters s a w ok)
    (h' : Enters s a w' ok') : w = w' ∧ ok = ok' := by
  cases a with
  | write t buf len retry allocOk => exact ⟨h.2.2.1.trans h'.2.2.1.symm, h.2.2.2.symm.trans h'.2.2.2⟩
  | again t quit allocOk => exact ⟨Option.some.inj (h.2.1.symm.trans h'.2.1), h.2.2.2.symm.trans h'.2.2.2⟩
  | read => exact h.2.elim

open Sys

theorem step_cases (s : Sys) (a : Act) :
    (∃ t w ok, Enters s a w ok ∧ s.step a = s.buffer t w ok) ∨ a = .read ∨
      (∀ w ok, ¬ Enters s a w ok) ∧ (s.step a = s ∨
        (∃ t w, (Inv s → a.Positive → 0 < w.len) ∧ s.step a = s.wait t w) ∨
          ∃ t w, s.step a = s.giveUp t w .eio) := by
  cases a with
  | write t buf len retry ok =>
    simp only [step, Enters]
    cases hw : s.waiting t with
    | some w => exact .inr (.inr ⟨fun _ _ h => (nofun : ¬ some w = none) h.2.1, .inl rfl⟩)
    | none =>
      cases hroom : congested s.ring len (highwater s.ring) with
      | true =>
        refine .inr (.inr ⟨?_, .inr (.inl ⟨t, ⟨buf, len, retry⟩, fun _ h => h, if_pos rfl⟩)⟩)
        rintro w ok' ⟨hfalse, -, rfl, -⟩
        rw [hroom] at hfalse
        cases hfalse
      | false => exact .inl ⟨t, ⟨buf, len, retry⟩, ok, ⟨hroom, rfl, rfl, rfl⟩, if_neg nofun⟩
  | again t quit ok =>
    simp only [step, Enters]
    cases hw : s.waiting t with
    | none => exact .inr (.inr ⟨fun _ _ h => (nofun : ∀ w : Waiting, ¬ none = some w) _ h.2.1, .inl rfl⟩)
    | some w =>
      cases quit with
      | true =>
        exact .inr (.inr ⟨fun _ _ h => (nofun : ¬ true = false) h.2.2.1, .inr (.inr ⟨t, w, if_pos rfl⟩)⟩)
      | false =>
        cases hroom : congested s.ring w.len (highwater s.ring) with
        | true =>
          refine .inr (.inr ⟨?_, .inr (.inl ⟨t, { w with rounds := w.rounds - 1 }, ?_, ?_⟩)⟩)
          · rintro _ ok' ⟨hfalse, hsome, -⟩
            cases hsome
            rw [hroom] at hfalse
            cases hfalse
          · exact fun h _ => h.waiting t w hw
          · simp [hroom]
        | false => exact .inl ⟨t, w, ok, ⟨hroom, rfl, rfl, rfl⟩, by simp [hroom]⟩
  | read => exact .inr (.inl rfl)

theorem txSz_le (ring : RingBuffer) : txSz ring ≤ ringbufSize ring := by
  unfold txSz
  split_ifs with hmax
  · exact Nat.le_of_lt hmax
  · exact Nat.le_refl _

theorem read_of_empty (h : ringbufSize s.ring = 0) : s.step .read = s := by
  simp [step, readRingBuffer, h]

theorem read_eq (h : ringbufSize s.ring ≠ 0) : s.step .read =
      { s with
        ring := { s.ring with
          readPos := (s.ring.readPos + txSz s.ring) % s.ring.length
          packetList := (removePackets s.ring.packetList (txSz s.ring)).1 }
        returned := s.returned ++ takeWrapped s.ring.mem s.ring.length s.ring.readPos (txSz s.ring)
        accesses := s.accesses ++ (copies s.ring.length s.ring.readPos (txSz s.ring) ++
          (removePackets s.ring.packetList (txSz s.ring)).2) } := by
  simp [step, readRingBuffer, removePacketList, h]

namespace Inv

variable {s : Sys}

theorem start (h : Created ring) : Inv { ring := ring } := by
  obtain ⟨hlength, _, hread, hwrite, hlist⟩ := h.spec
  have hlt : 0 < ring.length := by omega
  refine ⟨hlength, hread ▸ hlt, hwrite ▸ hlt, ?_, nofun, nofun, ?_⟩
  · have hempty : ringbufSize ring = 0 := by
      unfold ringbufSize
      rw [hread, hwrite, held_of_le (Nat.le_refl 0) hlt]
    rw [hempty]
    rfl
  · intro p hp
    rw [hlist] at hp
    exact absurd hp not_mem_nil

theorem giveUp (h : Inv s) (t : Nat) (w : Waiting) {o : Outcome} (ho : o = .eagain ∨ o = .eio) :
    Inv (s.giveUp t w o) where
  length := h.length
  readPos := h.readPos
  writePos := h.writePos
  stream := by
    have hsame : (s.giveUp t w o).accepted = s.accepted := by
      simp [Sys.accepted, Sys.giveUp]
    rw [hsame]
    exact h.stream
  whole := by
    intro d hd
    rcases List.mem_append.1 hd with hd | hd
    · exact h.whole d hd
    · rw [List.mem_singleton.1 hd]
      exact .inr ⟨rfl, ho⟩
  waiting := by
    intro t' w' hw'
    by_cases ht : t' = t
    · subst ht
      simp [Sys.giveUp] at hw'
    · exact h.waiting t' w' (by simpa [Sys.giveUp, ht] using hw')
  counted := h.counted

theorem wait (h : Inv s) (t : Nat) (hlen : 0 < w.len) : Inv (s.wait t w) := by
  unfold Sys.wait
  split_ifs
  · exact h.giveUp t w (.inl rfl)
  refine ⟨h.length, h.readPos, h.writePos, h.stream, h.whole, ?_, h.counted⟩
  intro t' w' hw'
  by_cases ht : t' = t
  · subst ht
    have hw : w = w' := by simpa using hw'
    exact hw ▸ hlen
  · exact h.waiting t' w' (by simpa [ht] using hw')

theorem buffer_eq (h : Inv s) (t : Nat) (allocOk : Bool) (hlen : 0 < w.len)
    (hroom : congested s.ring w.len (highwater s.ring) = false) : s.buffer t w allocOk =
      { s with
        ring := (addPacket (written s.ring w.buf w.len) (packetAt s.ring.lastSendCmd w.buf) allocOk).1
        waiting := update s.waiting t none
        done := s.done ++ [⟨span w.buf w.len, span w.buf w.len, .written w.len⟩]
        accesses := s.accesses ++ (copies s.ring.length s.ring.writePos w.len ++
          (addPacket (written s.ring w.buf w.len) (packetAt s.ring.lastSendCmd w.buf) allocOk).2) } := by
  unfold buffer
  rw [goBuffering_eq w.buf allocOk h.readPos h.writePos hlen hroom]

theorem buffer (h : Inv s) (t : Nat) (allocOk : Bool) (hlen : 0 < w.len)
    (hroom : congested s.ring w.len (highwater s.ring) = false) : Inv (s.buffer t w allocOk) := by
  have hfit := (freeBytes_of_not_congested h.readPos h.writePos hroom).1
  have hsame := addPacket_same (written s.ring w.buf w.len) (packetAt s.ring.lastSendCmd w.buf) allocOk
  have hlength : 0 < s.ring.length := Nat.zero_lt_of_lt h.readPos
  rw [h.buffer_eq t allocOk hlen hroom]
  constructor
  · exact hsame.length.trans (h.length.trans (congrArg (· + 1) hsame.allocated.symm))
  · rw [hsame.readPos, hsame.length]
    exact h.readPos
  · rw [hsame.writePos, hsame.length]
    exact Nat.mod_lt _ hlength
  · have haccepted : s.accepted ++ span w.buf w.len =
        s.returned ++ ringAt (written s.ring w.buf w.len).mem (written s.ring w.buf w.len).length
          (written s.ring w.buf w.len).readPos (ringbufSize (written s.ring w.buf w.len)) := by
      unfold ringbufSize written
      rw [held_write h.readPos h.writePos hfit, ringAt_putWrapped h.readPos h.writePos hfit,
        h.stream, append_assoc]
      rfl
    unfold accepted ringbufSize at haccepted ⊢
    rw [hsame.readPos, hsame.writePos, hsame.length, hsame.mem]
    simpa using haccepted
  · intro d hd
    rcases mem_append.1 hd with hd | hd
    · exact h.whole d hd
    · rw [mem_singleton.1 hd]
      exact .inl ⟨rfl, by rw [length_span]⟩
  · intro t' w' hw'
    by_cases ht : t' = t
    · subst ht
      simp at hw'
    · exact h.waiting t' w' (by simpa [ht] using hw')
  · intro p hp
    rcases addPacket_counted hp with hold | hnew
    · exact mem_append_left _ (h.counted p hold)
    · exact mem_append_right _ (mem_append_right _ hnew)

theorem read (h : Inv s) : Inv (s.step .read) := by
  by_cases hempty : ringbufSize s.ring = 0
  · rw [read_of_empty hempty]
    exact h
  rw [read_eq hempty]
  have hle := txSz_le s.ring
  have hlt : ringbufSize s.ring < s.ring.length := held_lt h.readPos
  generalize txSz s.ring = tx at hle ⊢
  constructor
  · exact h.length
  · exact Nat.mod_lt _ (Nat.zero_lt_of_lt h.readPos)
  · exact h.writePos
  · change s.accepted = s.returned ++ takeWrapped s.ring.mem s.ring.length s.ring.readPos tx ++
      ringAt s.ring.mem s.ring.length ((s.ring.readPos + tx) % s.ring.length)
        (held s.ring.length ((s.ring.readPos + tx) % s.ring.length) s.ring.writePos)
    have hsum : tx + (held s.ring.length s.ring.readPos s.ring.writePos - tx) = ringbufSize s.ring :=
      Nat.add_sub_cancel' hle
    rw [takeWrapped_eq h.readPos (by omega), held_read h.readPos h.writePos hle,
      append_assoc, ← ringAt_add, hsum]
    exact h.stream
  · exact h.whole
  · exact h.waiting
  · intro p hp
    obtain ⟨q, hq, hcmd⟩ := (removePackets_cmds s.ring.packetList tx).1 p hp
    rw [← hcmd]
    exact mem_append_left _ (h.counted q hq)

theorem step (h : Inv s) (ha : a.Positive) : Inv (s.step a) := by
  rcases step_cases s a with ⟨t, w, ok, henters, hstep⟩ | rfl | ⟨-, hstep | ⟨t, w, hw, hstep⟩ | ⟨t, w, hstep⟩⟩
  · rw [hstep]
    exact h.buffer t ok (henters.positive h ha) henters.1
  · exact h.read
  · rw [hstep]
    exact h
  · rw [hstep]
    exact h.wait t (hw h ha)
  · rw [hstep]
    exact h.giveUp t w (.inr rfl)

end Inv

/-! ## The memory -/

/-- All memory that was used belongs to the ring. -/
def Sys.Inside (s : Sys) : Prop :=
  ∀ x ∈ s.accesses, x.Inside s.ring.allocated

/-- A call stays inside the memory: it ends before the last position of the ring, for which there is
no memory, and the command that is taken from its data has a counter (unless the memory for the list
runs out first). -/
def Fits (ring : RingBuffer) (buf : Nat → UInt8) (len : Nat) (allocOk : Bool) : Prop :=
  ring.writePos + len ≤ ring.allocated ∧
    (0 < (packetAt ring.lastSendCmd buf).size ∧ allocOk = false ∨
      (packetAt ring.lastSendCmd buf).cmd < pMayIgnore)

/-- A call that gets past the test for congestion in this step stays inside the memory. -/
def StepOk (s : Sys) (a : Act) : Prop :=
  ∀ w allocOk, Enters s a w allocOk → Fits s.ring w.buf w.len allocOk

/-- Every step of a run does. -/
def StepsOk : Sys → List Act → Prop
  | _, [] => True
  | s, a :: acts => StepOk s a ∧ StepsOk (s.step a) acts

theorem inside_copies {allocated length pos count : Nat} (hlength : length = allocated + 1) (hpos : pos < length) :
    (∀ x ∈ copies length pos count, x.Inside allocated) ↔ pos + count ≤ allocated := by
  unfold copies
  split_ifs with hwrap
  · simp only [forall_mem_cons, Access.Inside]
    omega
  · simp only [forall_mem_singleton, Access.Inside]

theorem inside_addPacket (allocated : Nat) (ring : RingBuffer) (p : PacketInfo) (allocOk : Bool) :
    (∀ x ∈ (addPacket ring p allocOk).2, x.Inside allocated) ↔
      (0 < p.size ∧ allocOk = false ∨ p.cmd < pMayIgnore) := by
  unfold addPacket
  split_ifs with hsize halloc
  · simp [Access.Inside, halloc]
  · simp [hsize, Bool.eq_false_iff.2 halloc]
  · simp [Access.Inside, hsize]

/-- Before a position outside the memory is used, the queue does not pass the end of the ring. -/
structure Straight (s : Sys) : Prop extends Inv s where
  straight : s.Inside → s.ring.readPos ≤ s.ring.writePos

theorem Sys.inside_append {s s' : Sys} {used : List Access} (haccesses : s'.accesses = s.accesses ++ used)
    (hallocated : s'.ring.allocated = s.ring.allocated) :
    s'.Inside ↔ s.Inside ∧ ∀ x ∈ used, x.Inside s.ring.allocated := by
  unfold Sys.Inside
  rw [haccesses, hallocated]
  exact forall_mem_append

theorem Straight.buffer (h : Straight s) (t : Nat) (allocOk : Bool) (hlen : 0 < w.len)
    (hroom : congested s.ring w.len (highwater s.ring) = false) :
    ((s.buffer t w allocOk).Inside ↔ s.Inside ∧ Fits s.ring w.buf w.len allocOk) ∧
      Straight (s.buffer t w allocOk) := by
  have hsame := addPacket_same (written s.ring w.buf w.len) (packetAt s.ring.lastSendCmd w.buf) allocOk
  have heq := h.toInv.buffer_eq t allocOk hlen hroom
  have hring : (s.buffer t w allocOk).ring = _ := congrArg ring heq
  have haccesses : (s.buffer t w allocOk).accesses = _ := congrArg accesses heq
  have hiff := inside_append haccesses (by rw [hring]; exact hsame.allocated)
  rw [forall_mem_append, inside_copies h.length h.writePos, inside_addPacket] at hiff
  refine ⟨hiff, h.toInv.buffer t allocOk hlen hroom, fun hin => ?_⟩
  obtain ⟨hold, _, -⟩ := hiff.1 hin
  have hstraight := h.straight hold
  have hlength := h.length
  rw [hring, hsame.readPos, hsame.writePos]
  change s.ring.readPos ≤ (s.ring.writePos + w.len) % s.ring.length
  rw [Nat.mod_eq_of_lt (by omega)]
  omega

theorem Straight.read (h : Straight s) : ((s.step .read).Inside ↔ s.Inside) ∧ Straight (s.step .read) := by
  by_cases hempty : ringbufSize s.ring = 0
  · rw [read_of_empty hempty]
    exact ⟨Iff.rfl, h⟩
  have hring : (s.step .read).ring = _ := congrArg ring (read_eq hempty)
  have haccesses : (s.step .read).accesses = _ := congrArg accesses (read_eq hempty)
  have hiff := inside_append haccesses (by rw [hring])
  have hlength := h.length
  have hwrite := h.writePos
  have hread := h.readPos
  have hle : s.Inside → s.ring.readPos + txSz s.ring ≤ s.ring.writePos := by
    intro hin
    have hstraight := h.straight hin
    have hsize : ringbufSize s.ring = s.ring.writePos - s.ring.readPos := held_of_le hstraight hwrite
    have htx := txSz_le s.ring
    omega
  refine ⟨⟨fun hin => (hiff.1 hin).1, fun hin => hiff.2 ⟨hin, ?_⟩⟩, h.toInv.read, fun hin => ?_⟩
  · have hle' := hle hin
    refine forall_mem_append.2 ⟨(inside_copies hlength hread).2 (by omega), ?_⟩
    intro x hx
    obtain ⟨q, hq, rfl⟩ := (removePackets_cmds s.ring.packetList (txSz s.ring)).2 x hx
    exact hin _ (h.counted q hq)
  · have hle' := hle (hiff.1 hin).1
    rw [hring]
    rw [Nat.mod_eq_of_lt (by omega)]
    exact hle'

/-- A critical section stays inside the memory exactly under the condition. -/
theorem Straight.step (h : Straight s) (ha : a.Positive) :
    ((s.step a).Inside ↔ s.Inside ∧ StepOk s a) ∧ Straight (s.step a) := by
  have hinv := h.toInv.step ha
  rcases step_cases s a with ⟨t, w, ok, henters, hstep⟩ | rfl | ⟨hnone, hstep⟩
  · obtain ⟨hiff, hstraight⟩ := h.buffer t ok (henters.positive h.toInv ha) henters.1
    rw [hstep]
    refine ⟨hiff.trans (and_congr_right fun _ => ⟨?_, fun hok => hok w ok henters⟩), hstraight⟩
    intro hfits _ _ henters'
    obtain ⟨rfl, rfl⟩ := henters.unique henters'
    exact hfits
  · obtain ⟨hiff, hstraight⟩ := h.read
    refine ⟨?_, hstraight⟩
    rw [hiff]
    exact ⟨fun hin => ⟨hin, fun w ok he => he.2.elim⟩, And.left⟩
  · have hsame : (s.step a).ring = s.ring ∧ (s.step a).accesses = s.accesses := by
      rcases hstep with hstep | ⟨t, w, -, hstep⟩ | ⟨t, w, hstep⟩
      · rw [hstep]
        exact ⟨rfl, rfl⟩
      · rw [hstep]
        unfold wait
        split_ifs <;> exact ⟨rfl, rfl⟩
      · rw [hstep]
        exact ⟨rfl, rfl⟩
    have hiff : (s.step a).Inside ↔ s.Inside := by
      unfold Sys.Inside
      rw [hsame.1, hsame.2]
    refine ⟨?_, hinv, fun hin => ?_⟩
    · rw [hiff]
      exact ⟨fun hin => ⟨hin, fun w ok he => absurd he (hnone w ok)⟩, And.left⟩
    · rw [hsame.1]
      exact h.straight (hiff.1 hin)

/-- What is asked of a send buffer: the bytes returned are the first of those accepted, each call is
taken as a whole or not at all, and no memory outside the ring is used. -/
structure Sound (s : Sys) : Prop where
  fifo : s.returned <+: s.accepted
  whole : ∀ d ∈ s.done, d.stored = d.data ∧ d.outcome = .written d.data.length ∨
    d.stored = [] ∧ (d.outcome = .eagain ∨ d.outcome = .eio)
  inside : s.Inside

theorem Straight.run (h : Straight s) {acts : List Act} (hpos : ∀ a ∈ acts, a.Positive) :
    Straight (s.run acts) ∧ ((s.run acts).Inside ↔ s.Inside ∧ StepsOk s acts) := by
  induction acts generalizing s with
  | nil => exact ⟨h, (and_iff_left trivial).symm⟩
  | cons a acts ih =>
    obtain ⟨ha, hpos⟩ := forall_mem_cons.1 hpos
    obtain ⟨hiff, hnext⟩ := h.step ha
    obtain ⟨hstraight, hrun⟩ := ih hnext hpos
    refine ⟨hstraight, hrun.trans ?_⟩
    rw [hiff, and_assoc]
    rfl

theorem Straight.start (h : Created ring) : Straight { ring := ring } := by
  refine ⟨Inv.start h, fun _ => ?_⟩
  obtain ⟨-, -, hread, -, -⟩ := h.spec
  rw [hread]
  exact Nat.zero_le _

/-- A run of the send buffer is sound exactly when each call that is taken ends before the last
position of the ring and brings no command without a counter. -/
theorem send_buffer_sound_iff {ring : RingBuffer} (h : Created ring) {acts : List Act} (hpos : ∀ a ∈ acts, a.Positive) :
    Sound (Sys.run { ring := ring } acts) ↔ StepsOk { ring := ring } acts := by
  obtain ⟨hstraight, hiff⟩ := (Straight.start h).run hpos
  constructor
  · intro hsound
    exact (hiff.1 hsound.inside).2
  intro hok
  refine ⟨?_, hstraight.whole, hiff.2 ⟨fun x hx => absurd hx not_mem_nil, hok⟩⟩
  rw [hstraight.stream]
  exact prefix_append _ _

/-- The ring of the data stream for the smallest size. -/
def smallRing : RingBuffer :=
  allocRing sndbufSizeMin fun _ => 0

theorem created_smallRing : Created smallRing :=
  ⟨sndbufSizeMin, fun _ => 0, smallRing, allocRing controlBuffSize fun _ => 0, rfl, smallRing,
    .inl ⟨rfl, rfl⟩, sndbufSizeMin, rfl⟩

/-- Three bytes through an empty ring. -/
theorem send_buffer_sound_three :
    (Sys.run { ring := smallRing } [.write 0 (fun _ => 7) 3 60 true, .read]).returned = [7, 7, 7] ∧
      Sound (Sys.run { ring := smallRing } [.write 0 (fun _ => 7) 3 60 true, .read]) := by
  refine ⟨by decide +kernel, (send_buffer_sound_iff created_smallRing ?_).2 ⟨?_, ?_, trivial⟩⟩
  · simp [Act.Positive]
  · rintro w ok ⟨-, -, rfl, rfl⟩
    exact ⟨by decide, .inr (by decide +kernel)⟩
  · rintro w ok ⟨-, h⟩
    exact h.elim

/-- A buffer with the data of an application that looks like a packet with the command `0xffff`. -/
def forgedPacket : Nat → UInt8 :=
  fun i => [0x83, 0x74, 0x02, 0x67, 0xff, 0xff].getD i 0

/-- Once the calls have filled the ring to its end, the last byte of it is written behind the
memory; and data that looks like a packet is counted behind the tables. -/
theorem send_buffer_outside : ¬ Sound (Sys.run { ring := smallRing }
        [.write 0 (fun _ => 7) 10380000 60 true, .read, .write 0 (fun _ => 7) 200000 60 true]) ∧
      ¬ Sound (Sys.run { ring := smallRing } [.write 0 forgedPacket 4096 60 true]) := by
  constructor
  · intro h
    exact absurd (h.inside (.bytes 10380000 105761) (by decide +kernel)) (by decide)
  · intro h
    exact absurd (h.inside (.counter 0xffff) (by decide +kernel)) (by decide)

end Bsr.SendBuf
