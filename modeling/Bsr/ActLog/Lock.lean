import Bsr.Lru.Holds

/-!
# The lock of the activity log

`__LC_LOCKED` is a bit of the cache without an owner. `bsr_al_begin_io_commit`,
`bsr_determine_dev_size` and `bsr_try_suspend_al` set and clear it; any number of threads run them
at the same time.

* `AlLock` keeps what the lock is about: the flags and the number of pending changes;
  `AlLock.lru_call_refines` ties it to the calls of `lru_cache.c`;
* `commitStep` goes through `bsr_al_begin_io_commit`, one access at a time;
* `Exclusive` is what the callers rely on, and `lock_exclusive` when it holds.

`bsr_determine_dev_size` takes the lock only if something has changed, but its exit clears the bit
in any case. The waiting for the metadata buffer is left out: it only takes interleavings away.
-/

namespace Bsr.ActLog

open Lib Lru

/-- The flags of `act_log` and `pending_changes`. -/
structure AlLock where
  locked : Bool := false
  dirty : Bool := false
  starving : Bool := false
  pending : Nat := 0
deriving DecidableEq, Repr

namespace AlLock

def ofCache (lc : LruCache) : AlLock :=
  { lc with pending := lc.pendingChanges }

variable (l : AlLock)

/-- `lc_try_lock_for_transaction`. -/
def tryLockForTransaction : AlLock × Bool :=
  ({ l with locked := true }, !l.locked)

/-- `lc_try_lock`. -/
def tryLock : AlLock × Bool :=
  if l.dirty = false ∧ l.locked = false ∧ l.starving = false then ({ l with locked := true }, true)
  else (l, false)

/-- `lc_unlock`. -/
def unlock : AlLock :=
  { l with dirty := false, locked := false }

/-- `lc_committed`. -/
def committed : AlLock :=
  { l with pending := 0 }

/-- A get or a put. While the cache is locked no change becomes pending. -/
def Used (l l' : AlLock) : Prop :=
  l'.locked = l.locked ∧ (l'.pending = l.pending ∨ l.locked = false ∧ l'.pending = l.pending + 1)

instance (l l' : AlLock) : Decidable (Used l l') :=
  inferInstanceAs (Decidable (_ ∧ _))

/-! ## The cache underneath -/

variable {lc lc' : LruCache} {α : Type}

theorem ofCache_tryLock (hquiet : lc.paranoia = false) :
    (ofCache lc).tryLock = (ofCache (lcTryLock lc).1, (lcTryLock lc).2) := by
  unfold tryLock lcTryLock
  simp only [hquiet, true_and]
  by_cases h : lc.dirty = false ∧ lc.locked = false ∧ lc.starving = false
  · rw [if_pos h]
    simp [ofCache, h]
  · rw [if_neg h]
    simp [ofCache, h]

theorem ofCache_commitOne (l : List Nat) (lc : LruCache) :
    ofCache (l.foldl commitOne lc) = ofCache lc := by
  induction l generalizing lc with
  | nil => rfl
  | cons e l ih => exact (ih _).trans rfl

theorem ofCache_committed {u : Unit} (h : lcCommitted lc = .ok (lc', u)) :
    ofCache lc' = (ofCache lc).committed := by
  obtain ⟨_, hbody, rfl⟩ := guarded_eq h
  cases hbody
  have hsame := ofCache_commitOne (lc.list .toBeChanged) { lc with paranoia := true }
  simp only [ofCache, AlLock.mk.injEq] at hsame
  simp [ofCache, committed, hsame]

theorem used_getMiss {enr : Nat} {mayChange : Bool} {r : Option Nat}
    (h : lcGetMiss lc enr mayChange = .ok (lc', r)) : Used (ofCache lc) (ofCache lc') := by
  unfold lcGetMiss at h
  dsimp only at h
  split_ifs at h with hmay hlocked
  -- the first four end without a change
  all_goals try (cases h; exact ⟨rfl, .inl rfl⟩)
  unfold lcPrepareForChange at h
  cases hrec : recyclable { lc with dirty := true } with
  | none =>
    rw [hrec] at h
    cases h
    exact ⟨rfl, .inl rfl⟩
  | some e =>
    rw [hrec] at h
    dsimp only at h
    by_cases he : e ≥ lc.nrElements
    · rw [if_pos he] at h
      cases h
    rw [if_neg he] at h
    dsimp only at h
    split_ifs at h
    cases h
    exact ⟨rfl, .inr ⟨Bool.eq_false_of_not_eq_true hlocked, rfl⟩⟩

theorem used_getBase {enr : Nat} {mayChange mayUseUncommitted : Bool} {r : Option Nat}
    (h : lcGetBase lc enr mayChange mayUseUncommitted = .ok (lc', r)) : Used (ofCache lc) (ofCache lc') := by
  obtain ⟨_, hbody, rfl⟩ := guarded_eq h
  split_ifs at hbody with hstarving
  · cases hbody
    exact ⟨rfl, .inl rfl⟩
  split at hbody
  · cases hbody
  · have hres := Except.ok.inj hbody
    unfold lcGetHit at hres
    dsimp only at hres
    split_ifs at hres <;> cases hres <;> exact ⟨rfl, .inl rfl⟩
  · have hmiss := used_getMiss hbody
    exact hmiss

/-- What a call of `lru_cache.c` does to the state of the lock. -/
def OfCall (l l' : AlLock) : LcCall → Prop
  | .tryLock => l' = l.tryLock.1
  | .tryLockForTransaction => l' = l.tryLockForTransaction.1
  | .unlock => l' = l.unlock
  | .committed => l' = l.committed
  | _ => Used l l'

/-- All calls but `lc_reset` do what `AlLock` says. -/
theorem lru_call_refines {call : LcCall} (hquiet : lc.paranoia = false) (hcall : call ≠ .reset)
    (h : call.exec lc = .ok lc') : OfCall (ofCache lc) (ofCache lc') call := by
  cases call with
  | get enr | getCumulative enr | tryGet enr =>
    obtain ⟨_, hget⟩ := LcCall.map_fst_eq_ok h
    exact used_getBase hget
  | put e =>
    obtain ⟨_, hput⟩ := LcCall.map_fst_eq_ok h
    obtain ⟨lc₁, hbody, rfl⟩ := guarded_eq hput
    dsimp only at hbody
    split_ifs at hbody <;> cases hbody <;> exact ⟨rfl, .inl rfl⟩
  | del e =>
    obtain ⟨_, hdel⟩ := LcCall.map_fst_eq_ok h
    obtain ⟨lc₁, hbody, rfl⟩ := guarded_eq hdel
    split_ifs at hbody
    cases hbody
    exact ⟨rfl, .inl rfl⟩
  | set enr index =>
    obtain ⟨_, hset⟩ := LcCall.map_fst_eq_ok h
    unfold lcSet at hset
    dsimp only at hset
    split_ifs at hset <;> cases hset <;> exact ⟨rfl, .inl rfl⟩
  | committed =>
    obtain ⟨_, hcommitted⟩ := LcCall.map_fst_eq_ok h
    exact ofCache_committed hcommitted
  | reset => exact absurd rfl hcall
  | tryLock =>
    cases h
    exact (congrArg Prod.fst (ofCache_tryLock hquiet)).symm
  | tryLockForTransaction | unlock =>
    cases h
    rfl

/-- A get of a new extent makes one change pending. -/
theorem lru_call_refines_get : ∃ lc lc', lcCreate 64 2 = some lc ∧ (LcCall.get 9).exec lc = .ok lc' ∧
      (ofCache lc').pending = 1 ∧ Used (ofCache lc) (ofCache lc') :=
  ⟨_, _, rfl, rfl, rfl, @lru_call_refines _ _ (.get 9) rfl nofun rfl⟩

end AlLock

/-! ## The threads -/

/-- Where a thread is in `bsr_al_begin_io_commit`. -/
inductive CommitPc where
  | entered
  /-- In `wait_event`, the lock was not free. -/
  | waits
  | holds
  /-- In `al_write_transaction`. -/
  | writes
  | written
  | unlocks
deriving DecidableEq, Repr

/-- The next access of `bsr_al_begin_io_commit`; nothing is left when it returns. -/
def commitStep (l : AlLock) : CommitPc → AlLock × Option CommitPc
  | .entered =>
    let (l, locked) := l.tryLockForTransaction
    (l, some (if locked then .holds else .waits))
  -- the lock is not tried again, only the counter is looked at
  | .waits => (l, if l.pending = 0 then none else some .waits)
  | .holds => (l, some (if l.pending = 0 then .unlocks else .writes))
  | .writes => (l, some .written)
  | .written => (l.committed, some .unlocks)
  | .unlocks => (l.unlock, none)

def CommitPc.locked : CommitPc → Bool
  | .entered | .waits => false
  | .holds | .writes | .written | .unlocks => true

inductive Pc where
  | idle
  | commit (p : CommitPc)
  /-- `bsr_determine_dev_size`, in `wait_event` for the lock. -/
  | resizeWaits
  | resizeHolds
  /-- `bsr_determine_dev_size` at its exit, without having taken the lock. -/
  | resizeSkips
  /-- `bsr_try_suspend_al` with the lock. -/
  | suspends
deriving DecidableEq, Repr

/-- The thread has taken the lock and has not cleared it yet. -/
def Pc.holds : Pc → Bool
  | .commit p => p.locked
  | .resizeHolds | .suspends => true
  | .idle | .resizeWaits | .resizeSkips => false

/-- The activity log and the threads that use its lock. -/
structure Threads where
  lock : AlLock := {}
  pc : Nat → Pc := fun _ => .idle

namespace Threads

inductive Event where
  /-- Someone gets or puts an extent. -/
  | use (lock : AlLock)
  | commit (t : Nat)
  /-- `bsr_determine_dev_size` past its early return. `changes`: the size or the layout changes, so
  the activity log has to be rewritten. -/
  | resize (t : Nat) (changes : Bool)
  | suspend (t : Nat)
  | run (t : Nat)
deriving DecidableEq, Repr

variable (s : Threads)

def goto (t : Nat) (lock : AlLock) (p : Pc) : Threads :=
  ⟨lock, Function.update s.pc t p⟩

/-- The next access of a thread. -/
def run (t : Nat) : Threads :=
  match s.pc t with
  | .idle => s
  | .commit p =>
    let (lock, next) := commitStep s.lock p
    s.goto t lock (next.elim .idle .commit)
  | .resizeWaits =>
    let (lock, locked) := s.lock.tryLockForTransaction
    s.goto t lock (if locked then .resizeHolds else .resizeWaits)
  | .resizeHolds | .resizeSkips | .suspends => s.goto t s.lock.unlock .idle

def exec : Event → Threads
  | .use lock => { s with lock := lock }
  | .commit t => s.goto t s.lock (.commit .entered)
  | .resize t changes => s.goto t s.lock (if changes then .resizeWaits else .resizeSkips)
  | .suspend t =>
    let (lock, locked) := s.lock.tryLock
    s.goto t lock (if locked then .suspends else .idle)
  | .run t => s.run t

def Legal : Event → Prop
  | .use lock => s.lock.Used lock
  | .commit t | .resize t _ | .suspend t => s.pc t = .idle
  | .run _ => True

instance (s : Threads) : ∀ e, Decidable (s.Legal e)
  | .use lock => inferInstanceAs (Decidable (s.lock.Used lock))
  | .commit t | .resize t _ | .suspend t => inferInstanceAs (Decidable (s.pc t = .idle))
  | .run _ => .isTrue trivial

/-- `bsr_determine_dev_size` comes to its exit without the lock only while nobody holds it. -/
def Guarded : Event → Prop
  | .run t => s.pc t = .resizeSkips → s.lock.locked = false
  | _ => True

def Step (e : Event) (s' : Threads) : Prop :=
  s.Legal e ∧ s' = s.exec e

def GuardedStep (e : Event) (s' : Threads) : Prop :=
  s.Guarded e ∧ s.Step e s'

def Start : Prop :=
  s.lock.locked = false ∧ ∀ t, s.pc t = .idle

/-- One thread at most holds the lock, only it can release it, and one transaction at most is
written. `step` says which steps may follow. -/
structure Exclusive (step : Threads → Event → Threads → Prop) (s : Threads) : Prop where
  one : ∀ t u, (s.pc t).holds = true → (s.pc u).holds = true → t = u
  owner : ∀ e s', step s e s' → s.lock.locked = true → s'.lock.locked = false →
    ∃ t, e = .run t ∧ (s.pc t).holds = true
  writer : ∀ t u, s.pc t = .commit .writes → s.pc u = .commit .writes → t = u

/-! ## Exclusion -/

/-- The bit is set as long as a thread holds the lock, and one thread at most does. -/
structure Owned (s : Threads) : Prop where
  one : ∀ t u, (s.pc t).holds = true → (s.pc u).holds = true → t = u
  locked : ∀ t, (s.pc t).holds = true → s.lock.locked = true

variable {s s' : Threads} {t : Nat} {lock : AlLock} {p : Pc} {e : Event}

@[simp] theorem goto_lock (t : Nat) (lock : AlLock) (p : Pc) : (s.goto t lock p).lock = lock := rfl

theorem goto_pc (t u : Nat) (lock : AlLock) (p : Pc) :
    (s.goto t lock p).pc u = if u = t then p else s.pc u := by
  exact Function.update_apply ..

section

variable (h : Owned s)

include h

theorem Owned.lose (hp : p.holds = false)
    (hlock : ∀ u, u ≠ t → (s.pc u).holds = true → lock.locked = true) : Owned (s.goto t lock p) := by
  have hother : ∀ u, ((s.goto t lock p).pc u).holds = true → u ≠ t ∧ (s.pc u).holds = true := by
    intro u hu
    rw [goto_pc] at hu
    split_ifs at hu with hut
    · rw [hp] at hu
      cases hu
    · exact ⟨hut, hu⟩
  exact ⟨fun u v hu hv => h.one u v (hother u hu).2 (hother v hv).2,
    fun u hu => hlock u (hother u hu).1 (hother u hu).2⟩

omit h in
theorem Owned.gain (hlock : lock.locked = true) (hothers : ∀ u, u ≠ t → (s.pc u).holds = false) :
    Owned (s.goto t lock p) := by
  have hme : ∀ u, ((s.goto t lock p).pc u).holds = true → u = t := by
    intro u hu
    by_contra hut
    rw [goto_pc, if_neg hut, hothers u hut] at hu
    cases hu
  exact ⟨fun u v hu hv => (hme u hu).trans (hme v hv).symm, fun _ _ => hlock⟩

theorem Owned.free (hfree : s.lock.locked = false) (u : Nat) : (s.pc u).holds = false := by
  by_contra hu
  have := h.locked u (Bool.eq_true_of_not_eq_false hu)
  rw [hfree] at this
  cases this

theorem Owned.others (ht : (s.pc t).holds = true) (u : Nat) (hu : u ≠ t) : (s.pc u).holds = false :=
  Bool.eq_false_of_not_eq_true fun hh => hu (h.one u t hh ht)

theorem Owned.release (ht : (s.pc t).holds = true) (hp : p.holds = false) :
    Owned (s.goto t lock p) := by
  refine h.lose hp fun u hu hh => ?_
  rw [h.others ht u hu] at hh
  cases hh

theorem Owned.tryLock {yes no : Pc} (hno : no.holds = false) :
    Owned (s.goto t s.lock.tryLockForTransaction.1
      (if s.lock.tryLockForTransaction.2 = true then yes else no)) := by
  cases hl : s.lock.locked with
  | true =>
    simp only [AlLock.tryLockForTransaction, hl]
    exact h.lose hno fun _ _ _ => rfl
  | false =>
    exact Owned.gain rfl fun u _ => h.free hl u

theorem Owned.run (hguard : s.pc t = .resizeSkips → s.lock.locked = false) : Owned (s.run t) := by
  unfold Threads.run
  cases hp : s.pc t with
  | idle => exact h
  | commit p =>
    cases p with
    | entered =>
      have htry := @Owned.tryLock s t h (.commit .holds) (.commit .waits) rfl
      cases hl : s.lock.locked with
      | true | false => simpa [commitStep, AlLock.tryLockForTransaction, hl] using htry
    | waits =>
      refine h.lose ?_ fun u _ hu => h.locked u hu
      split_ifs <;> rfl
    | holds | writes | written =>
      have ht : (s.pc t).holds = true := by rw [hp]; rfl
      exact Owned.gain (h.locked t ht) (h.others ht)
    | unlocks => exact h.release (by rw [hp]; rfl) rfl
  | resizeWaits => exact h.tryLock rfl
  | resizeHolds | suspends => exact h.release (by rw [hp]; rfl) rfl
  | resizeSkips =>
    refine h.lose rfl fun u _ hh => ?_
    rw [h.free (hguard hp) u] at hh
    cases hh

theorem Owned.step (hstep : s.GuardedStep e s') : Owned s' := by
  obtain ⟨hguard, hlegal, rfl⟩ := hstep
  cases e with
  | use lock => exact ⟨h.one, fun u hu => hlegal.1.trans (h.locked u hu)⟩
  | commit u => exact h.lose rfl fun v _ hv => h.locked v hv
  | resize u changes =>
    refine h.lose ?_ fun v _ hv => h.locked v hv
    split_ifs <;> rfl
  | suspend u =>
    by_cases hfree : s.lock.dirty = false ∧ s.lock.locked = false ∧ s.lock.starving = false
    · simp only [exec, AlLock.tryLock, if_pos hfree]
      exact Owned.gain rfl fun v _ => h.free hfree.2.1 v
    · simp only [exec, AlLock.tryLock, if_neg hfree]
      exact h.lose rfl fun v _ hv => h.locked v hv
  | run u => exact h.run hguard

end

/-- A step that clears the bit is the unlock of a thread that holds the lock. -/
theorem Owned.owner (hstep : s.GuardedStep e s') (hset : s.lock.locked = true)
    (hclear : s'.lock.locked = false) : ∃ t, e = .run t ∧ (s.pc t).holds = true := by
  obtain ⟨hguard, hlegal, rfl⟩ := hstep
  cases e with
  | use lock =>
    have := hlegal.1.symm.trans hclear
    rw [hset] at this
    cases this
  | commit | resize => exact absurd (hset.symm.trans hclear) (by simp)
  | suspend u => simp [exec, AlLock.tryLock, hset] at hclear
  | run u =>
    refine ⟨u, rfl, ?_⟩
    by_contra hnot
    have hkeep : (s.run u).lock.locked = true := by
      unfold Threads.run
      cases hp : s.pc u with
      | idle => exact hset
      | commit p =>
        rw [hp] at hnot
        cases p with
        | entered => rfl
        | waits => exact hset
        | holds | writes | written | unlocks => exact absurd rfl hnot
      | resizeWaits => rfl
      | resizeHolds | suspends => exact absurd (by rw [hp]; rfl) hnot
      | resizeSkips =>
        have := hguard hp
        rw [hset] at this
        cases this
    exact absurd (hkeep.symm.trans hclear) (by simp)

/-- The lock is exclusive in every run in which `bsr_determine_dev_size` never comes to its exit
without the lock while another thread holds it. -/
theorem lock_exclusive (hs : Reachable Start GuardedStep s) : Exclusive GuardedStep s := by
  have howned : Owned s := by
    refine hs.invariant (fun s h => ?_) fun s e s' h hstep => h.step hstep
    have hidle : ∀ t, (s.pc t).holds = false := fun t => by rw [h.2 t]; rfl
    exact ⟨fun t u ht => absurd ht (by simp [hidle]), fun t ht => absurd ht (by simp [hidle])⟩
  refine ⟨howned.one, fun e s' hstep => Owned.owner hstep, fun t u ht hu => howned.one t u ?_ ?_⟩
  · rw [ht]
    rfl
  · rw [hu]
    rfl

/-- A commit and a resize that rewrites the activity log, one after the other. -/
theorem lock_exclusive_turns :
    Exclusive GuardedStep ([.commit 1, .resize 0 true, .run 1, .run 0].foldl exec {}) := by
  have hok : Along exec (fun s e => s.Guarded e ∧ s.Legal e) {} [.commit 1, .resize 0 true, .run 1, .run 0] :=
    ⟨⟨trivial, rfl⟩, ⟨trivial, rfl⟩, ⟨nofun, trivial⟩, ⟨nofun, trivial⟩, trivial⟩
  apply lock_exclusive
  exact Reachable.along (fun s e h => ⟨h.1, h.2, rfl⟩) (.start ⟨rfl, fun _ => rfl⟩) hok

/-- The bit of the first committer is cleared by a resize that has changed nothing; the second one
starts another transaction. -/
theorem lock_not_exclusive :
    ∃ s, Reachable Start Step s ∧ s.pc 1 = .commit .writes ∧ s.pc 2 = .commit .writes ∧
      ¬Exclusive Step s := by
  refine ⟨[.resize 0 false, .use { pending := 1 }, .commit 1, .run 1, .run 1, .run 0,
    .commit 2, .run 2, .run 2].foldl exec {}, ?_, rfl, rfl, fun h => ?_⟩
  · have hok : Along exec Legal {} [.resize 0 false, .use { pending := 1 }, .commit 1, .run 1,
        .run 1, .run 0, .commit 2, .run 2, .run 2] := by
      decide
    exact Reachable.along (fun s e h => ⟨h, rfl⟩) (.start ⟨rfl, fun _ => rfl⟩) hok
  · exact absurd (h.writer 1 2 rfl rfl) (by decide)

end Threads

end Bsr.ActLog
