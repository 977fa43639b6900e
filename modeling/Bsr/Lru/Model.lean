import Bsr.Lib.Buckets

/-!
# The LRU cache

`lru_cache.c`: a fixed number of elements, each on one of four lists, with a label that is looked up
through hash chains. A change of a label is prepared by `lc_get` and takes effect with
`lc_committed`.

* An element is its index; the lists and the chains hold indices.
* `list_move` takes an element off the list it is on; `hlist_del` takes it off its chain, if any.
* The checks of `BUG_ON` are the errors of the model.
* The statistics counters are left out.
-/

namespace Bsr.Lru

open Lib

def lcFree : Nat := 2 ^ 32 - 1

def lcMaxActive : Nat := 2 ^ 24

/-- The lists of a cache. -/
inductive LcList where
  | lru
  | free
  | inUse
  | toBeChanged
deriving DecidableEq, Repr

/-- `struct lc_element`; fewer than `2 ^ 32` references are held to one. -/
structure LcElement where
  refcnt : Nat
  lcNumber : Nat
  lcNewNumber : Nat
deriving DecidableEq, Repr

/-- `struct lru_cache`; lists and chains start with the node behind the list head. -/
structure LruCache where
  list : LcList → List Nat
  nrElements : Nat
  maxPendingChanges : Nat
  pendingChanges : Nat
  used : Nat
  paranoia : Bool
  dirty : Bool
  locked : Bool
  starving : Bool
  lcSlot : Nat → List Nat
  lcElement : Nat → LcElement

/-- The `BUG_ON` checks. -/
inductive LcBug where
  | noElements
  | concurrent
  | foreignElement
  | refcnt
  | uncommitted
deriving DecidableEq, Repr

/-- An element as `lc_create` and `lc_reset` leave it. -/
def freshElement : LcElement :=
  ⟨0, lcFree, lcFree⟩

/-- All elements on the free list; `list_add` puts each in front of the ones before. -/
def freshLists (nrElements : Nat) : LcList → List Nat
  | .free => (List.range nrElements).reverse
  | _ => []

/-- `lc_create`, when the allocations succeed. -/
def lcCreate (maxPendingChanges eCount : Nat) : Option LruCache :=
  if eCount > lcMaxActive then none
  else some {
    list := freshLists eCount
    nrElements := eCount
    maxPendingChanges := maxPendingChanges
    pendingChanges := 0
    used := 0
    paranoia := false
    dirty := false
    locked := false
    starving := false
    lcSlot := fun _ => []
    lcElement := fun _ => freshElement }

variable (lc : LruCache)

def lcReset : LruCache where
  list := freshLists lc.nrElements
  nrElements := lc.nrElements
  maxPendingChanges := lc.maxPendingChanges
  pendingChanges := 0
  used := 0
  paranoia := false
  dirty := false
  locked := false
  starving := false
  lcSlot := fun _ => []
  lcElement := fun _ => freshElement

/-! ## Locks -/

def lcTryLockForTransaction : LruCache × Bool :=
  ({ lc with locked := true }, !lc.locked)

/-- `lc_try_lock`: only on a cache without any flag. -/
def lcTryLock : LruCache × Bool :=
  if lc.paranoia = false ∧ lc.dirty = false ∧ lc.locked = false ∧ lc.starving = false then
    ({ lc with locked := true }, true)
  else (lc, false)

def lcUnlock : LruCache :=
  { lc with dirty := false, locked := false }

/-! ## Building blocks -/

def listMove (e : Nat) (k : LcList) : LruCache :=
  { lc with list := moveTo lc.list e k }

def setElement (e : Nat) (x : LcElement) : LruCache :=
  { lc with lcElement := Function.update lc.lcElement e x }

variable (enr : Nat)

def lcHashSlot : Nat :=
  enr % lc.nrElements

variable (e : Nat)

/-- `hlist_del_init`. -/
def hlistDel : LruCache :=
  { lc with lcSlot := unlink lc.lcSlot e }

/-- Take the element off its chain, if any, and `hlist_add_head` it to the chain of `enr`. -/
def rehash (e enr : Nat) : LruCache :=
  { lc with lcSlot := moveTo lc.lcSlot e (lcHashSlot lc enr) }

/-- The walk of `__lc_find` along a chain. -/
def findInChain (lc : LruCache) (enr : Nat) (includeChanging : Bool) : List Nat → Option Nat
  | [] => none
  | e :: rest =>
    let x := lc.lcElement e
    if x.lcNewNumber ≠ enr then findInChain lc enr includeChanging rest
    else if x.lcNewNumber = x.lcNumber ∨ includeChanging = true then some e
    else none

/-- `__lc_find`. -/
def lcFindBase (includeChanging : Bool) : Except LcBug (Option Nat) :=
  if lc.nrElements = 0 then .error .noElements
  else .ok (findInChain lc enr includeChanging (lc.lcSlot (lcHashSlot lc enr)))

def lcFind : Except LcBug (Option Nat) :=
  lcFindBase lc enr false

/-- `PARANOIA_ENTRY` in front of `body` and `RETURN` behind it. -/
def guarded {α : Type} (body : LruCache → Except LcBug (LruCache × α)) :
    Except LcBug (LruCache × α) :=
  if lc.nrElements = 0 then .error .noElements
  else if lc.paranoia then .error .concurrent
  else
    match body { lc with paranoia := true } with
    | .error b => .error b
    | .ok (lc, r) => .ok ({ lc with paranoia := false }, r)

/-! ## Operations -/

def lcDel : Except LcBug (LruCache × Unit) :=
  guarded lc fun lc =>
    if e ≥ lc.nrElements then .error .foreignElement
    else if (lc.lcElement e).refcnt ≠ 0 then .error .refcnt
    else
      let lc := setElement lc e { lc.lcElement e with lcNumber := lcFree, lcNewNumber := lcFree }
      .ok (listMove (hlistDel lc e) e .free, ())

/-- The element `lc_prepare_for_change` recycles: the first free one, or the least recently used. -/
def recyclable : Option Nat :=
  match lc.list .free with
  | e :: _ => some e
  | [] => (lc.list .lru).getLast?

def lcPrepareForChange (newNumber : Nat) : Except LcBug (LruCache × Option Nat) :=
  match recyclable lc with
  | none => .ok (lc, none)
  | some e =>
    if e ≥ lc.nrElements then .error .foreignElement
    else
      let lc := setElement lc e { lc.lcElement e with lcNewNumber := newNumber }
      .ok (listMove (rehash lc e newNumber) e .toBeChanged, some e)

def lcUnusedElementAvailable : Bool :=
  !(lc.list .free).isEmpty || !(lc.list .lru).isEmpty

/-- `++e->refcnt`. -/
def LcElement.ref (x : LcElement) : LcElement :=
  { x with refcnt := x.refcnt + 1 }

/-- `__lc_get` on a label that is in the hash. -/
def lcGetHit (mayUseUncommitted : Bool) : LruCache × Option Nat :=
  let x := lc.lcElement e
  if x.lcNewNumber ≠ x.lcNumber then
    -- not yet committed: only for a caller that prepares a cumulative transaction
    if mayUseUncommitted then (setElement lc e x.ref, some e) else (lc, none)
  else
    let used := if x.refcnt = 0 then lc.used + 1 else lc.used
    (listMove { setElement lc e x.ref with used := used } e .inUse, some e)

/-- `__lc_get` on a label that is not in the hash. -/
def lcGetMiss (mayChange : Bool) : Except LcBug (LruCache × Option Nat) :=
  if mayChange = false then .ok (lc, none)
  else
    let lc := { lc with dirty := true }
    if lc.locked then .ok (lc, none)
    else if lcUnusedElementAvailable lc = false then .ok ({ lc with starving := true }, none)
    else if lc.pendingChanges ≥ lc.maxPendingChanges then .ok (lc, none)
    else
      match lcPrepareForChange lc enr with
      | .error b => .error b
      | .ok (lc, none) => .ok (lc, none)
      | .ok (lc, some e) =>
        let x := lc.lcElement e
        if x.refcnt + 1 ≠ 1 then .error .refcnt
        else
          let lc := setElement lc e x.ref
          .ok ({ lc with
            starving := false
            used := lc.used + 1
            pendingChanges := lc.pendingChanges + 1 }, some e)

/-- `__lc_get`; the flags are `LC_GET_MAY_CHANGE` and `LC_GET_MAY_USE_UNCOMMITTED`. -/
def lcGetBase (mayChange mayUseUncommitted : Bool) :
    Except LcBug (LruCache × Option Nat) :=
  guarded lc fun lc =>
    if lc.starving then .ok (lc, none)
    else
      match lcFindBase lc enr true with
      | .error b => .error b
      | .ok (some e) => .ok (lcGetHit lc e mayUseUncommitted)
      | .ok none => lcGetMiss lc enr mayChange

def lcGet : Except LcBug (LruCache × Option Nat) :=
  lcGetBase lc enr true false

def lcGetCumulative : Except LcBug (LruCache × Option Nat) :=
  lcGetBase lc enr true true

def lcTryGet : Except LcBug (LruCache × Option Nat) :=
  lcGetBase lc enr false false

/-- One round of the loop of `lc_committed`. -/
def commitOne : LruCache :=
  let x := lc.lcElement e
  listMove (setElement lc e { x with lcNumber := x.lcNewNumber }) e .inUse

def lcCommitted : Except LcBug (LruCache × Unit) :=
  guarded lc fun lc =>
    .ok ({ (lc.list .toBeChanged).foldl commitOne lc with pendingChanges := 0 }, ())

def lcPut : Except LcBug (LruCache × Nat) :=
  guarded lc fun lc =>
    let x := lc.lcElement e
    if e ≥ lc.nrElements then .error .foreignElement
    else if x.refcnt = 0 then .error .refcnt
    else if x.lcNumber ≠ x.lcNewNumber then .error .uncommitted
    else
      let lc := setElement lc e { x with refcnt := x.refcnt - 1 }
      if x.refcnt - 1 = 0 then
        let lc := listMove lc e .lru
        .ok ({ lc with used := lc.used - 1, starving := false }, x.refcnt - 1)
      else .ok (lc, x.refcnt - 1)

def lcSet (index : Int) : Except LcBug (LruCache × Unit) :=
  if index < 0 ∨ index ≥ lc.nrElements then .ok (lc, ())
  else
    let e := index.toNat
    let x := lc.lcElement e
    if x.lcNumber ≠ x.lcNewNumber then .error .uncommitted
    else if x.refcnt ≠ 0 then .error .refcnt
    else
      let lc := setElement lc e { x with lcNumber := enr, lcNewNumber := enr }
      if enr = lcFree then .ok (listMove (hlistDel lc e) e .free, ())
      else .ok (listMove (rehash lc e enr) e .lru, ())

end Bsr.Lru
