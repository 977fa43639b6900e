import Mathlib

/-!
# Runs and invariants

A transition system is a predicate on initial states and a step relation labelled by events.
`Reachable` collects the states of its runs; `Reachable.invariant` is the one induction over runs.
`Along` checks the events of a list one after the other, for runs that are to be computed.
-/

namespace Bsr.Lib

variable {σ ε : Type*} {init : σ → Prop} {step : σ → ε → σ → Prop}

/-- States that a run from an initial state reaches. -/
inductive Reachable (init : σ → Prop) (step : σ → ε → σ → Prop) : σ → Prop
  | start {s : σ} (h : init s) : Reachable init step s
  | next {s s' : σ} (e : ε) (hs : Reachable init step s) (h : step s e s') : Reachable init step s'

/-- What holds initially and is kept by every step holds in every reachable state. -/
theorem Reachable.invariant {P : σ → Prop} (hinit : ∀ s, init s → P s)
    (hstep : ∀ s e s', P s → step s e s' → P s') {s : σ} (hs : Reachable init step s) : P s := by
  induction hs with
  | start h => exact hinit _ h
  | next e _ h ih => exact hstep _ e _ ih h

/-- Each event of a list may be taken in the state that the ones before it lead to. -/
def Along (exec : σ → ε → σ) (ok : σ → ε → Prop) : σ → List ε → Prop
  | _, [] => True
  | s, e :: es => ok s e ∧ Along exec ok (exec s e) es

instance Along.decidable {exec : σ → ε → σ} {ok : σ → ε → Prop} [∀ s e, Decidable (ok s e)] :
    ∀ (s : σ) (es : List ε), Decidable (Along exec ok s es)
  | _, [] => .isTrue trivial
  | s, e :: es =>
    have : Decidable (Along exec ok (exec s e) es) := Along.decidable (exec s e) es
    inferInstanceAs (Decidable (ok s e ∧ Along exec ok (exec s e) es))

theorem Reachable.along {exec : σ → ε → σ} {ok : σ → ε → Prop} (hstep : ∀ s e, ok s e → step s e (exec s e)) {s : σ}
    {es : List ε} (hs : Reachable init step s) (h : Along exec ok s es) : Reachable init step (es.foldl exec s) := by
  induction es generalizing s with
  | nil => exact hs
  | cons e es ih => exact ih (.next e hs (hstep s e h.1)) h.2

end Bsr.Lib
