import Bsr.ActLog.Lock

/-!
# Committing what is pending

Any number of threads make changes of the activity log pending and call `bsr_al_begin_io_commit`. A
call that does not get the lock waits until `pending_changes` is zero.

* every call returns at a moment when nothing is pending, so what was pending at its start is
  committed;
* `Run.drains`: in a fair run the counter comes back to zero again and again. A waiting call need
  not look at it then: the next change may be pending already (`commit_starves`).

Changes are numbered in the order in which they become pending; `made` counts them.
-/

namespace Bsr.ActLog

open Function Function

/-- What a thread is doing with the activity log. -/
inductive CallPc where
  | idle
  /-- It has made a change pending and is about to commit. -/
  | changed
  | call (p : CommitPc)
deriving DecidableEq, Repr

structure Committers where
  lock : AlLock := {}
  /-- The changes that have become pending so far. -/
  made : Nat := 0
  pc : Nat → CallPc := fun _ => .idle
  /-- `made` when the thread called `bsr_al_begin_io_commit`. -/
  atStart : Nat → Nat := fun _ => 0

namespace Committers

inductive Event where
  /-- A get or a put that makes no change pending. -/
  | use (lock : AlLock)
  /-- A get that makes a change pending. -/
  | change (t : Nat)
  | call (t : Nat)
  | run (t : Nat)
deriving DecidableEq, Repr

variable (s : Committers)

/-- `bsr_al_begin_io_commit` is called. -/
def enter (t : Nat) : Committers :=
  { s with
    pc := update s.pc t (.call .entered)
    atStart := update s.atStart t s.made }

def exec : Event → Committers
  | .use lock => { s with lock := lock }
  | .change t =>
    { s with
      lock := { s.lock with pending := s.lock.pending + 1 }
      made := s.made + 1
      pc := update s.pc t .changed }
  | .call t => s.enter t
  | .run t =>
    match s.pc t with
    | .idle => s
    | .changed => s.enter t
    | .call p =>
      { s with
        lock := (commitStep s.lock p).1
        pc := update s.pc t ((commitStep s.lock p).2.elim .idle .call) }

def Legal : Event → Prop
  | .use lock => s.lock.Used lock ∧ lock.pending = s.lock.pending
  | .change t => s.lock.locked = false ∧ (s.pc t = .idle ∨ s.pc t = .changed)
  | .call t => s.pc t = .idle
  | .run _ => True

/-- An endless run from a state in which nothing is pending and no thread is active. -/
structure Run where
  state : Nat → Committers
  event : Nat → Event
  start : (state 0).lock.locked = false ∧ (state 0).lock.pending = 0 ∧ ∀ t, (state 0).pc t = .idle
  legal : ∀ n, (state n).Legal (event n)
  next : ∀ n, state (n + 1) = (state n).exec (event n)

/-- Every thread that is active is scheduled again. -/
def Run.Fair (ρ : Run) : Prop :=
  ∀ t n, (ρ.state n).pc t ≠ .idle → ∃ k, n ≤ k ∧ ρ.event k = .run t

def InCall (t : Nat) : Prop :=
  ∃ p, s.pc t = .call p

/-- The call that the thread is in returns. -/
def Run.Returns (ρ : Run) (t n : Nat) : Prop :=
  ∃ k, n ≤ k ∧ (ρ.state k).pc t = .idle

/-- Only finitely many changes become pending before the call returns. -/
def Run.FewChanges (ρ : Run) (t n : Nat) : Prop :=
  ∃ m, ∀ k, m ≤ k → n ≤ k → (∀ j, n ≤ j → j ≤ k → (ρ.state j).pc t ≠ .idle) →
    (ρ.state (k + 1)).made = (ρ.state k).made

/-! ## What holds in every run -/

def CallPc.locked : CallPc → Bool
  | .call p => p.locked
  | .idle | .changed => false

structure Inv (s : Committers) : Prop where
  /-- One thread at most has the lock. -/
  held : ∃ o : Option Nat, s.lock.locked = o.isSome ∧ ∀ t, CallPc.locked (s.pc t) = true ↔ o = some t
  pending_le : s.lock.pending ≤ s.made
  start_le : ∀ t, InCall s t → s.atStart t ≤ s.made
  /-- A thread that is about to unlock has left nothing pending. -/
  done : ∀ t, s.pc t = .call .unlocks → s.lock.pending = 0
  /-- Someone is going to commit what is pending. -/
  cared : s.lock.pending ≠ 0 → ∃ t, s.pc t = .changed ∨ s.pc t = .call .entered ∨
    CallPc.locked (s.pc t) = true

variable {s : Committers} {t u : Nat} {p : CommitPc} {q : CallPc} {o o' : Option Nat}

open CallPc

theorem held_update (h : ∀ u, locked (s.pc u) = true ↔ o = some u)
    (ht : locked q = true ↔ o' = some t) (hothers : ∀ u, u ≠ t → (o' = some u ↔ o = some u))
    (u : Nat) : locked (update s.pc t q u) = true ↔ o' = some u := by
  rw [update_apply]
  split_ifs with hu
  · rw [hu, ht]
  · rw [h u, hothers u hu]

theorem pc_update {q' : CallPc} (h : update s.pc t q u = q') : u = t ∧ q = q' ∨ u ≠ t ∧ s.pc u = q' := by
  rw [update_apply] at h
  split_ifs at h with hu
  · exact .inl ⟨hu, h⟩
  · exact .inr ⟨hu, h⟩

theorem Inv.owner (h : Inv s) (hl : s.lock.locked = true) : ∃ t, locked (s.pc t) = true := by
  obtain ⟨o, ho, hheld⟩ := h.held
  rw [hl] at ho
  obtain ⟨t, rfl⟩ := Option.isSome_iff_exists.mp ho.symm
  exact ⟨t, (hheld t).mpr rfl⟩

theorem Inv.enter (h : Inv s) (ht : locked (s.pc t) = false) : Inv (s.enter t) := by
  obtain ⟨o, ho, hheld⟩ := h.held
  have hnot : o ≠ some t := fun heq => by
    rw [(hheld t).mpr heq] at ht
    cases ht
  refine ⟨⟨o, ho, held_update hheld (by simp [CallPc.locked, CommitPc.locked, hnot]) fun _ _ => Iff.rfl⟩,
    h.pending_le, fun u hu => ?_, fun u hu => ?_, fun _ => ⟨t, .inr (.inl (update_self ..))⟩⟩
  · show update s.atStart t s.made u ≤ s.made
    obtain ⟨q, hq⟩ := hu
    obtain ⟨rfl, -⟩ | ⟨hut, hq⟩ := pc_update hq
    · rw [update_self]
    · rw [update_of_ne hut]
      exact h.start_le u ⟨q, hq⟩
  · obtain ⟨-, ⟨⟩⟩ | ⟨-, hu⟩ := pc_update hu
    exact h.done u hu

variable {lock : AlLock}

theorem Inv.move (h : Inv s) (hcall : InCall s t) (hheld : ∃ o : Option Nat, lock.locked = o.isSome ∧
      ∀ u, locked (update s.pc t q u) = true ↔ o = some u)
    (hpending : lock.pending = s.lock.pending ∨ lock.pending = 0)
    (hdone : q = .call .unlocks → lock.pending = 0)
    (hcared : lock.pending ≠ 0 → locked q = true ∨ lock.locked = true ∨
      s.pc t ≠ .call .entered ∧ locked (s.pc t) = false) :
    Inv { s with lock := lock, pc := update s.pc t q } := by
  have hle := h.pending_le
  have hwas := h.start_le
  refine ⟨hheld, ?_, fun u hu => hwas u ?_, fun u hu => ?_, fun hne => ?_⟩
  · show lock.pending ≤ s.made
    omega
  · obtain ⟨q', hq'⟩ := hu
    obtain ⟨rfl, -⟩ | ⟨-, hq'⟩ := pc_update hq'
    · exact hcall
    · exact ⟨q', hq'⟩
  · obtain ⟨-, hq⟩ | ⟨-, hu⟩ := pc_update hu
    · exact hdone hq
    have hzero := h.done u hu
    show lock.pending = 0
    omega
  · dsimp only at hne ⊢
    rcases hcared hne with hq | hl | ⟨hnot, hfree⟩
    · exact ⟨t, .inr (.inr (by rw [update_self]; exact hq))⟩
    · obtain ⟨o, ho, hiff⟩ := hheld
      rw [hl] at ho
      obtain ⟨u, rfl⟩ := Option.isSome_iff_exists.mp ho.symm
      exact ⟨u, .inr (.inr ((hiff u).mpr rfl))⟩
    · obtain ⟨u, hu⟩ := h.cared (by omega)
      have hut : u ≠ t := by
        rintro rfl
        obtain ⟨p, hp⟩ := hcall
        rw [hp] at hu hfree hnot
        rcases hu with hu | hu | hu
        · cases hu
        · exact hnot hu
        · rw [hfree] at hu
          cases hu
      exact ⟨u, by rwa [update_of_ne hut]⟩

variable {e : Event}

theorem Inv.step (h : Inv s) (hlegal : s.Legal e) : Inv (s.exec e) := by
  obtain ⟨o, ho, hheld⟩ := h.held
  cases e with
  | use lock =>
    obtain ⟨⟨hl, _⟩, hp⟩ := hlegal
    refine ⟨⟨o, hl.trans ho, hheld⟩, hp.trans_le h.pending_le, h.start_le, fun t ht => hp.trans (h.done t ht), ?_⟩
    intro hne
    exact h.cared (by rw [← hp]; exact hne)
  | change t =>
    have hnone : o = none := by
      rw [hlegal.1] at ho
      exact Option.not_isSome_iff_eq_none.mp (by simp [← ho])
    subst hnone
    refine ⟨⟨none, ho, held_update hheld (by simp [CallPc.locked]) fun _ _ => Iff.rfl⟩,
      Nat.succ_le_succ h.pending_le, fun u hu => ?_, fun u hu => ?_,
      fun _ => ⟨t, .inl (update_self ..)⟩⟩
    · refine Nat.le_succ_of_le (h.start_le u ?_)
      obtain ⟨q, hq⟩ := hu
      obtain ⟨-, ⟨⟩⟩ | ⟨-, hq⟩ := pc_update hq
      exact ⟨q, hq⟩
    · obtain ⟨-, ⟨⟩⟩ | ⟨-, hu⟩ := pc_update hu
      cases (hheld u).mp (by rw [hu]; rfl)
  | call t => exact h.enter (by rw [show s.pc t = .idle from hlegal]; rfl)
  | run t =>
    unfold exec
    dsimp only
    split
    · exact h
    · rename_i hp
      exact h.enter (by rw [hp]; rfl)
    · rename_i p hp
      have hme : p.locked = true ↔ o = some t := by
        rw [← hheld t, hp]
        rfl
      cases p with
      | entered =>
        have hnot : o ≠ some t := fun heq => Bool.false_ne_true (hme.mpr heq)
        cases hl : s.lock.locked with
        | true =>
          refine h.move ⟨_, hp⟩ ⟨o, ?_, held_update hheld ?_ fun _ _ => Iff.rfl⟩ (.inl rfl) ?_
            fun _ => .inr (.inl rfl)
          · rw [← ho, hl]
            rfl
          · simp [commitStep, AlLock.tryLockForTransaction, hl, CallPc.locked, CommitPc.locked, hnot]
          · simp [commitStep, AlLock.tryLockForTransaction, hl]
        | false =>
          have hnone : o = none := Option.not_isSome_iff_eq_none.mp (by simp [← ho, hl])
          subst hnone
          refine h.move ⟨_, hp⟩ ⟨some t, rfl, held_update hheld ?_ ?_⟩ (.inl rfl) ?_
            fun _ => .inr (.inl rfl)
          · simp [commitStep, AlLock.tryLockForTransaction, hl, CallPc.locked, CommitPc.locked]
          · intro u hu
            simp [Ne.symm hu]
          · simp [commitStep, AlLock.tryLockForTransaction, hl]
      | waits =>
        have hnot : o ≠ some t := fun heq => Bool.false_ne_true (hme.mpr heq)
        refine h.move ⟨_, hp⟩ ⟨o, ho, held_update hheld ?_ fun _ _ => Iff.rfl⟩ (.inl rfl) ?_
          fun _ => .inr (.inr ⟨by rw [hp]; simp, by rw [hp]; rfl⟩)
        · dsimp only [commitStep]
          split_ifs <;> simp [CallPc.locked, CommitPc.locked, hnot]
        · dsimp only [commitStep]
          split_ifs <;> simp
      | holds =>
        have hmine := hme.mp rfl
        refine h.move ⟨_, hp⟩ ⟨o, ho, held_update hheld ?_ fun _ _ => Iff.rfl⟩ (.inl rfl) ?_
          fun _ => .inr (.inl (by rw [show (commitStep s.lock .holds).1 = s.lock from rfl, ho, hmine]; rfl))
        · dsimp only [commitStep]
          split_ifs <;> simp [CallPc.locked, CommitPc.locked, hmine]
        dsimp only [commitStep]
        simp
      | writes =>
        have hmine := hme.mp rfl
        exact h.move ⟨_, hp⟩ ⟨o, ho, held_update hheld (by simp [commitStep, CallPc.locked, CommitPc.locked, hmine])
          fun _ _ => Iff.rfl⟩ (.inl rfl) (by simp [commitStep]) fun _ => .inl rfl
      | written =>
        have hmine := hme.mp rfl
        exact h.move ⟨_, hp⟩ ⟨o, ho, held_update hheld (by simp [commitStep, CallPc.locked, CommitPc.locked, hmine])
          fun _ _ => Iff.rfl⟩ (.inr rfl) (fun _ => rfl) fun hne => absurd rfl hne
      | unlocks =>
        have hmine := hme.mp rfl
        refine h.move ⟨_, hp⟩ ⟨none, rfl, held_update hheld (by simp [commitStep, CallPc.locked])
          ?_⟩ (.inl rfl) (by simp [commitStep]) fun hne => absurd (h.done t hp) hne
        intro u hu
        simp [hmine, Ne.symm hu]

theorem exec_pc (hlegal : s.Legal e) (ht : s.pc t ≠ .idle) (he : e ≠ .run t) :
    (s.exec e).pc t = s.pc t := by
  cases e with
  | use lock => rfl
  | change u =>
    by_cases hut : t = u
    · subst hut
      rw [hlegal.2.resolve_left ht]
      exact update_self ..
    · exact update_of_ne hut ..
  | call u =>
    have hut : t ≠ u := by
      rintro rfl
      exact ht hlegal
    exact update_of_ne hut ..
  | run u =>
    have hut : t ≠ u := fun heq => he (by rw [heq])
    unfold exec
    dsimp only
    split
    · rfl
    · exact update_of_ne hut ..
    · exact update_of_ne hut ..

theorem exec_run (hp : s.pc t = .call p) :
    (s.exec (.run t)).pc t = (commitStep s.lock p).2.elim .idle .call ∧
      (s.exec (.run t)).lock = (commitStep s.lock p).1 := by
  unfold exec
  simp only [hp, update_self, and_self]

theorem Inv.returns (h : Inv s) (hlegal : s.Legal e) (hcall : InCall s t)
    (hidle : (s.exec e).pc t = .idle) : (s.exec e).lock.pending = 0 := by
  obtain ⟨p, hp⟩ := hcall
  by_cases he : e = .run t
  · subst he
    obtain ⟨hpc, hlock⟩ := exec_run hp
    rw [hpc] at hidle
    rw [hlock]
    cases p with
    | waits =>
      by_contra hne
      rw [show (commitStep s.lock .waits).2 = some .waits from if_neg hne] at hidle
      cases hidle
    | unlocks => exact h.done t hp
    | entered | holds | writes | written => cases hidle
  · rw [exec_pc hlegal (by rw [hp]; simp) he, hp] at hidle
    cases hidle

/-! ## Progress -/

namespace Run

variable {ρ : Run} {n : Nat}

theorem inv (ρ : Run) (n : Nat) : Inv (ρ.state n) := by
  induction n with
  | zero =>
    obtain ⟨hl, hp, hidle⟩ := ρ.start
    refine ⟨⟨none, hl, fun t => by simp [hidle t, CallPc.locked]⟩, by omega, fun t ht => ?_,
      fun t ht => by simp [hidle t] at ht, fun hne => absurd hp hne⟩
    obtain ⟨p, hp⟩ := ht
    simp [hidle t] at hp
  | succ n ih =>
    rw [ρ.next n]
    exact ih.step (ρ.legal n)

variable (hfair : ρ.Fair)

include hfair

/-- An active thread stays where it is until it is scheduled, and it is. -/
theorem turn {q : CallPc} (hq : q ≠ .idle) (hpc : (ρ.state n).pc t = q) :
    ∃ k, n ≤ k ∧ (ρ.state k).pc t = q ∧ ρ.state (k + 1) = (ρ.state k).exec (.run t) := by
  obtain ⟨k, hk, hev⟩ := hfair t n (by rw [hpc]; exact hq)
  -- on the way to the first time at which the thread is scheduled
  obtain ⟨d, rfl⟩ := Nat.exists_eq_add_of_le hk
  clear hk
  induction d generalizing n with
  | zero => exact ⟨n, Nat.le_refl n, hpc, by rw [ρ.next, show ρ.event n = _ from hev]⟩
  | succ d ih =>
    by_cases hnow : ρ.event n = .run t
    · exact ⟨n, Nat.le_refl n, hpc, by rw [ρ.next, hnow]⟩
    have hnext : (ρ.state (n + 1)).pc t = q := by
      rw [ρ.next, exec_pc (ρ.legal n) (by rw [hpc]; exact hq) hnow, hpc]
    obtain ⟨k, hk, h⟩ := ih hnext (by rw [show n + 1 + d = n + (d + 1) by omega]; exact hev)
    exact ⟨k, by omega, h⟩

theorem advance (hpc : (ρ.state n).pc t = .call p) : ∃ k, n ≤ k ∧ (ρ.state k).pc t = .call p ∧
      (ρ.state (k + 1)).pc t = (commitStep (ρ.state k).lock p).2.elim .idle .call ∧
      (ρ.state (k + 1)).lock = (commitStep (ρ.state k).lock p).1 := by
  obtain ⟨k, hk, hat, hnext⟩ := turn hfair (by simp) hpc
  obtain ⟨h1, h2⟩ := exec_run hat
  exact ⟨k, hk, hat, by rw [hnext, h1], by rw [hnext, h2]⟩

theorem written_drains (hpc : (ρ.state n).pc t = .call .written) :
    ∃ k, n ≤ k ∧ (ρ.state k).lock.pending = 0 ∧ (ρ.state k).pc t = .call .unlocks := by
  obtain ⟨k, _, _, hnext, hlock⟩ := advance hfair hpc
  exact ⟨k + 1, by omega, by rw [hlock]; rfl, hnext⟩

theorem writes_drains (hpc : (ρ.state n).pc t = .call .writes) :
    ∃ k, n ≤ k ∧ (ρ.state k).lock.pending = 0 ∧ (ρ.state k).pc t = .call .unlocks := by
  obtain ⟨k, _, _, hnext, _⟩ := advance hfair hpc
  obtain ⟨m, _, h⟩ := written_drains hfair hnext
  exact ⟨m, by omega, h⟩

theorem locked_drains (hpc : (ρ.state n).pc t = .call p) (hp : p.locked = true) :
    ∃ k, n ≤ k ∧ (ρ.state k).lock.pending = 0 ∧ (ρ.state k).pc t = .call .unlocks := by
  cases p with
  | entered | waits => cases hp
  | holds =>
    obtain ⟨k, _, _, hnext, hlock⟩ := advance hfair hpc
    by_cases hzero : (ρ.state k).lock.pending = 0
    · rw [show (commitStep (ρ.state k).lock .holds).2 = some .unlocks by simp [commitStep, hzero]] at hnext
      exact ⟨k + 1, by omega, by rw [hlock]; exact hzero, hnext⟩
    rw [show (commitStep (ρ.state k).lock .holds).2 = some .writes by simp [commitStep, hzero]] at hnext
    obtain ⟨m, _, h⟩ := writes_drains hfair hnext
    exact ⟨m, by omega, h⟩
  | writes => exact writes_drains hfair hpc
  | written => exact written_drains hfair hpc
  | unlocks => exact ⟨n, Nat.le_refl n, (ρ.inv n).done t hpc, hpc⟩

theorem holder_drains (ht : locked ((ρ.state n).pc t) = true) :
    ∃ k, n ≤ k ∧ (ρ.state k).lock.pending = 0 := by
  cases hpc : (ρ.state n).pc t with
  | idle | changed =>
    rw [hpc] at ht
    cases ht
  | call p =>
    rw [hpc] at ht
    obtain ⟨k, hk, hzero, _⟩ := locked_drains hfair hpc ht
    exact ⟨k, hk, hzero⟩

theorem entered_drains (hpc : (ρ.state n).pc t = .call .entered) :
    ∃ k, n ≤ k ∧ (ρ.state k).lock.pending = 0 := by
  obtain ⟨k, _, _, _, hlock⟩ := advance hfair hpc
  -- it gets the lock, or someone has it
  obtain ⟨u, hu⟩ := (ρ.inv (k + 1)).owner (by rw [hlock]; rfl)
  obtain ⟨m, _, hzero⟩ := holder_drains hfair hu
  exact ⟨m, by omega, hzero⟩

/-- In a fair run the counter comes back to zero again and again. -/
theorem drains (n : Nat) : ∃ k, n ≤ k ∧ (ρ.state k).lock.pending = 0 := by
  by_cases hzero : (ρ.state n).lock.pending = 0
  · exact ⟨n, Nat.le_refl n, hzero⟩
  obtain ⟨t, hchanged | hentered | hlocked⟩ := (ρ.inv n).cared hzero
  · obtain ⟨k, _, hat, hnext⟩ := turn hfair (by simp) hchanged
    have hentered : (ρ.state (k + 1)).pc t = .call .entered := by
      rw [hnext, exec, hat]
      exact update_self ..
    obtain ⟨m, _, h⟩ := entered_drains hfair hentered
    exact ⟨m, by omega, h⟩
  · exact entered_drains hfair hentered
  · exact holder_drains hfair hlocked

omit hfair in
theorem stays_drained (hn : (ρ.state n).lock.pending = 0)
    (hsame : ∀ k, n ≤ k → (ρ.state (k + 1)).made = (ρ.state k).made) (k : Nat) (hk : n ≤ k) :
    (ρ.state k).lock.pending = 0 := by
  induction k, hk using Nat.le_induction with
  | base => exact hn
  | succ k hk ih =>
    have hmade := hsame k hk
    have hlegal := ρ.legal k
    rw [ρ.next] at hmade ⊢
    cases he : ρ.event k with
    | use lock =>
      rw [he] at hlegal
      exact hlegal.2.trans ih
    | change t =>
      rw [he] at hmade
      exact absurd hmade (Nat.succ_ne_self _)
    | call t => exact ih
    | run t =>
      unfold exec
      dsimp only
      split
      · exact ih
      · exact ih
      · rename_i p _
        cases p with
        | written => rfl
        | entered | waits | holds | writes | unlocks => exact ih

theorem locked_returns (hpc : (ρ.state n).pc t = .call p) (hp : p.locked = true) : ρ.Returns t n := by
  obtain ⟨k, _, _, hun⟩ := locked_drains hfair hpc hp
  obtain ⟨m, _, _, hnext, _⟩ := advance hfair hun
  exact ⟨m + 1, by omega, hnext⟩

/-- Once no change becomes pending any more, a waiting call finds the counter at zero. -/
theorem waits_returns (hpc : (ρ.state n).pc t = .call .waits) {m : Nat}
    (hsame : ∀ k, m ≤ k → n ≤ k → (∀ j, n ≤ j → j ≤ k → (ρ.state j).pc t ≠ .idle) →
      (ρ.state (k + 1)).made = (ρ.state k).made) : ρ.Returns t n := by
  by_contra hnever
  have hbusy : ∀ k, n ≤ k → (ρ.state k).pc t ≠ .idle := fun k hk hidle => hnever ⟨k, hk, hidle⟩
  have hstill : ∀ k, n ≤ k → (ρ.state k).pc t = .call .waits := by
    intro k hk
    induction k, hk using Nat.le_induction with
    | base => exact hpc
    | succ k hk ih =>
      have hne := hbusy (k + 1) (by omega)
      rw [ρ.next] at hne ⊢
      by_cases he : ρ.event k = .run t
      · rw [he, (exec_run ih).1] at hne ⊢
        dsimp only [commitStep] at hne ⊢
        split_ifs at hne ⊢
        · exact absurd rfl hne
        · rfl
      · rw [exec_pc (ρ.legal k) (hbusy k hk) he, ih]
  obtain ⟨k, hk, hzero⟩ := ρ.drains hfair (max m n)
  have hquiet := stays_drained hzero fun j hj => hsame j (by omega) (by omega) fun i hi _ => hbusy i hi
  obtain ⟨j, hj, _, hnext, _⟩ := advance hfair (hstill k (by omega))
  refine hbusy (j + 1) (by omega) ?_
  rw [hnext, show (commitStep (ρ.state j).lock .waits).2 = none from if_pos (hquiet j hj)]
  rfl

end Run

/-- In every run a call returns only when what was pending at its start is committed; in a fair run
it returns exactly if only finitely many changes become pending before that. -/
theorem commit_completes (ρ : Run) : (∀ n t, InCall (ρ.state n) t → (ρ.state (n + 1)).pc t = .idle →
      (ρ.state n).atStart t ≤ (ρ.state (n + 1)).made - (ρ.state (n + 1)).lock.pending) ∧
    (ρ.Fair → ∀ n t, InCall (ρ.state n) t → (ρ.Returns t n ↔ ρ.FewChanges t n)) := by
  refine ⟨fun n t hcall hidle => ?_, fun hfair n t hcall => ⟨fun ⟨k, hk, hidle⟩ => ?_, fun ⟨m, hfew⟩ => ?_⟩⟩
  · have hstart := (ρ.inv n).start_le t hcall
    rw [ρ.next] at hidle ⊢
    rw [(ρ.inv n).returns (ρ.legal n) hcall hidle]
    have hmade : (ρ.state n).made ≤ ((ρ.state n).exec (ρ.event n)).made := by
      cases ρ.event n with
      | change u => exact Nat.le_succ _
      | use lock | call u => exact Nat.le_refl _
      | run u =>
        unfold exec
        dsimp only
        split <;> exact Nat.le_refl _
    omega
  · exact ⟨k, fun j hj _ hbusy => absurd hidle (hbusy k hk hj)⟩
  · obtain ⟨p, hp⟩ := hcall
    cases hl : p.locked with
    | true => exact Run.locked_returns hfair hp hl
    | false =>
      cases p with
      | holds | writes | written | unlocks => cases hl
      | waits => exact Run.waits_returns hfair hp hfew
      | entered =>
        obtain ⟨k, hk, _, hnext, _⟩ := Run.advance hfair hp
        cases hfree : (ρ.state k).lock.locked with
        | false =>
          simp only [commitStep, AlLock.tryLockForTransaction, hfree] at hnext
          obtain ⟨j, hj, hidle⟩ := Run.locked_returns hfair hnext rfl
          exact ⟨j, by omega, hidle⟩
        | true =>
          simp only [commitStep, AlLock.tryLockForTransaction, hfree] at hnext
          by_contra hnever
          have hbusy : ∀ i, n ≤ i → (ρ.state i).pc t ≠ .idle := fun i hi hidle => hnever ⟨i, hi, hidle⟩
          obtain ⟨j, hj, hidle⟩ := Run.waits_returns hfair hnext fun i hi _ _ =>
            hfew i hi (by omega) fun l hl _ => hbusy l hl
          exact hnever ⟨j, by omega, hidle⟩

/-! ## A call that waits forever -/

/-- Thread 0 waits for the counter, thread 1 changes and commits, the others do nothing. -/
structure Waiting (s : Committers) (lock : AlLock) (q : CallPc) : Prop where
  lock_eq : s.lock = lock
  waiter : s.pc 0 = .call .waits
  other : s.pc 1 = q
  idle : ∀ t, 2 ≤ t → s.pc t = .idle

/-- A round: the waiter looks while a change is pending, the other thread commits it and makes the
next one pending. -/
def round : Nat → Event × AlLock × CallPc
  | 0 => (.run 0, { locked := true, pending := 1 }, .call .holds)
  | 1 => (.run 1, { locked := true, pending := 1 }, .call .holds)
  | 2 => (.run 1, { locked := true, pending := 1 }, .call .writes)
  | 3 => (.run 1, { locked := true, pending := 1 }, .call .written)
  | 4 => (.run 1, { locked := true }, .call .unlocks)
  | 5 => (.change 1, {}, .idle)
  | 6 => (.run 1, { pending := 1 }, .changed)
  | _ => (.run 1, { pending := 1 }, .call .entered)

theorem Waiting.update (h : Waiting s lock q) (lock' : AlLock) (made : Nat) (q' : CallPc)
    (atStart : Nat → Nat) : Waiting ⟨lock', made, update s.pc 1 q', atStart⟩ lock' q' := by
  refine ⟨rfl, ?_, ?_, fun t ht => ?_⟩
  · exact (update_of_ne Nat.zero_ne_one q' s.pc).trans h.waiter
  · exact update_self (f := s.pc) 1 q'
  · exact (update_of_ne (by omega) ..).trans (h.idle t ht)

theorem Waiting.run (h : Waiting s lock (.call p)) :
    Waiting (s.exec (.run 1)) (commitStep lock p).1 ((commitStep lock p).2.elim .idle .call) := by
  have hnext := h.update (commitStep lock p).1 s.made ((commitStep lock p).2.elim .idle .call) s.atStart
  unfold exec
  simp only [h.other, h.lock_eq]
  exact hnext

theorem Waiting.step {r : Nat} (hr : r < 8) (h : Waiting s (round r).2.1 (round r).2.2) :
    Waiting (s.exec (round r).1) (round ((r + 1) % 8)).2.1 (round ((r + 1) % 8)).2.2 := by
  match r with
  | 0 =>
    have hsame : Function.update s.pc 0 (.call .waits) = s.pc := by
      rw [← h.waiter]
      exact update_eq_self 0 s.pc
    have hexec : s.exec (.run 0) = s := by
      have hne : s.lock.pending ≠ 0 := by
        rw [h.lock_eq]
        decide
      unfold exec
      simp [h.waiter, commitStep, hne, hsame]
    show Waiting (s.exec (.run 0)) _ _
    rw [hexec]
    exact h
  | 1 | 2 | 3 | 4 | 7 => exact h.run
  | 5 =>
    have hnext := h.update { s.lock with pending := s.lock.pending + 1 } (s.made + 1) .changed s.atStart
    refine { hnext with lock_eq := ?_ }
    show ({ s.lock with pending := s.lock.pending + 1 } : AlLock) = _
    rw [h.lock_eq]
    rfl
  | 6 =>
    have hnext := h.update s.lock s.made (.call .entered) (Function.update s.atStart 1 s.made)
    unfold exec
    simp only [h.other, round, enter]
    exact { hnext with lock_eq := h.lock_eq }

/-- Thread 0 calls while thread 1 has the lock, and then round after round. -/
def starvingEvent (n : Nat) : Event :=
  if n < 5 then [.change 1, .run 1, .run 1, .call 0].getD n (.run 0) else (round ((n - 5) % 8)).1

def starvingState : Nat → Committers
  | 0 => {}
  | n + 1 => (starvingState n).exec (starvingEvent n)

theorem starvingState_waiting (n : Nat) :
    Waiting (starvingState (n + 5)) (round (n % 8)).2.1 (round (n % 8)).2.2 := by
  induction n with
  | zero =>
    refine ⟨rfl, rfl, rfl, fun t ht => ?_⟩
    simp [starvingState, starvingEvent, exec, enter, show t ≠ 0 by omega, show t ≠ 1 by omega]
  | succ n ih =>
    have hstep := ih.step (Nat.mod_lt n (by decide))
    rw [Nat.mod_add_mod] at hstep
    exact hstep

def starving : Run where
  state := starvingState
  event := starvingEvent
  start := ⟨rfl, rfl, fun _ => rfl⟩
  legal := by
    intro n
    by_cases hn : n < 5
    · match n with
      | 0 => exact ⟨rfl, .inl rfl⟩
      | 1 | 2 | 4 => trivial
      | 3 => exact (rfl : (starvingState 3).pc 0 = .idle)
    obtain ⟨m, rfl⟩ := Nat.exists_eq_add_of_le' (Nat.not_lt.mp hn)
    have hat := starvingState_waiting m
    rw [starvingEvent, if_neg hn, Nat.add_sub_cancel]
    have hr : m % 8 < 8 := Nat.mod_lt m (by decide)
    revert hat hr
    generalize m % 8 = r
    intro hat hr
    match r with
    | 0 | 1 | 2 | 3 | 4 | 6 | 7 => trivial
    | 5 => exact ⟨by rw [hat.lock_eq]; rfl, .inl hat.other⟩
  next := fun _ => rfl

theorem starving_fair : starving.Fair := by
  intro t n hn
  have hev : ∀ r, r < 8 → starvingEvent (8 * n + r + 5) = (round r).1 := by
    intro r hr
    rw [starvingEvent, if_neg (by omega), Nat.add_sub_cancel, Nat.mul_add_mod, Nat.mod_eq_of_lt hr]
  match t with
  | 0 => exact ⟨8 * n + 0 + 5, by omega, hev 0 (by decide)⟩
  | 1 => exact ⟨8 * n + 1 + 5, by omega, hev 1 (by decide)⟩
  | t + 2 =>
    refine absurd ?_ hn
    by_cases h5 : n < 5
    · match n with
      | 0 | 1 | 2 | 3 | 4 => rfl
    · obtain ⟨m, rfl⟩ := Nat.exists_eq_add_of_le' (Nat.not_lt.mp h5)
      exact (starvingState_waiting m).idle (t + 2) (by omega)

/-- A fair run in which a call waits forever. -/
theorem commit_starves : starving.Fair ∧ InCall (starving.state 5) 0 ∧ ¬starving.Returns 0 5 := by
  refine ⟨starving_fair, ⟨.waits, rfl⟩, fun ⟨k, hk, hidle⟩ => ?_⟩
  obtain ⟨m, rfl⟩ := Nat.exists_eq_add_of_le' hk
  have hwaits := (starvingState_waiting m).waiter
  rw [show starvingState (m + 5) = starving.state (m + 5) from rfl, hidle] at hwaits
  cases hwaits

/-- In that run the call of the other thread returns before the next change. -/
theorem commit_completes_other : starving.Returns 1 5 ∧ starving.FewChanges 1 5 := by
  have hreturns : starving.Returns 1 5 := ⟨10, by decide, rfl⟩
  exact ⟨hreturns, ((commit_completes starving).2 starving_fair 5 1 ⟨.holds, rfl⟩).mp hreturns⟩

end Committers

end Bsr.ActLog
