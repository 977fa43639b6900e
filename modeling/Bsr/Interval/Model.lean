import Bsr.Lib.AugTree

/-!
# The interval tree

`bsr_interval.c` keeps the requests in flight in a red-black tree ordered by start sector, with the
highest interval end of each subtree stored in its root.

* a node is a `BsrInterval`; intervals of one start sector are ordered by their addresses;
* the kernel's red-black tree is a `Lib.Balancer`, called with `updateIntervalEnd` as its
  augmentation callback;
* the descents are the source's loops, one tree level an iteration.
-/

namespace Bsr.Interval

open Lib

/-- `struct bsr_interval`, with the address of the structure. -/
structure BsrInterval where
  addr : Nat
  sector : Nat
  size : Nat
deriving DecidableEq, Repr

/-- The tree; the stored value of a node is its `end`. -/
abbrev Tree := AugTree BsrInterval Nat

/-- The kernel's red-black tree. -/
abbrev RbTree := Balancer BsrInterval Nat

/-- `BUG_ON(!IS_ALIGNED(size, 512))`. -/
inductive Bug where
  | unaligned
deriving DecidableEq, Repr

/-- `sector + (size >> 9)` as a `sector_t`. -/
def sectorEnd (sector size : Nat) : Nat :=
  (sector + size >>> 9) % 2 ^ 64

/-- The sector after the interval. -/
def BsrInterval.stop (i : BsrInterval) : Nat :=
  sectorEnd i.sector i.size

/-- `update_interval_end`, as a function of the children's ends. -/
def updateIntervalEnd (left : Option Nat) (this : BsrInterval) (right : Option Nat) : Nat :=
  let stop := this.stop
  let stop := match left with
    | some l => if l > stop then l else stop
    | none => stop
  match right with
  | some r => if r > stop then r else stop
  | none => stop

/-- The loop of `bsr_insert_interval` and `rb_link_node`: the tree with `this` as a new leaf, or
`none` when the loop meets `this` itself. `stale` is what `this->end` holds so far. -/
def linkInterval (this : BsrInterval) (stale : Nat) : Tree → Option Tree
  | .leaf => some (.node .leaf this stale .leaf)
  | .node l here e r =>
    if this.sector < here.sector then
      (linkInterval this stale l).map fun l' => .node l' here e r
    else if this.sector > here.sector then
      (linkInterval this stale r).map fun r' => .node l here e r'
    else if this.addr < here.addr then
      (linkInterval this stale l).map fun l' => .node l' here e r
    else if this.addr > here.addr then
      (linkInterval this stale r).map fun r' => .node l here e r'
    else
      none

def bsrInsertInterval (rb : RbTree) (root : Tree) (this : BsrInterval) (stale : Nat) :
    Except Bug (Tree × Bool) :=
  if this.size % 512 ≠ 0 then
    .error .unaligned
  else
    match linkInterval this stale root with
    | none => .ok (root, false)
    | some linked => .ok (rb.insertColor updateIntervalEnd linked this, true)

def bsrContainsInterval (sector addr : Nat) : Tree → Bool
  | .leaf => false
  | .node l here _ r =>
    if sector < here.sector then bsrContainsInterval sector addr l
    else if sector > here.sector then bsrContainsInterval sector addr r
    else if addr < here.addr then bsrContainsInterval sector addr l
    else if addr > here.addr then bsrContainsInterval sector addr r
    else true

/-- `bsr_remove_interval`; `empty` is `bsr_interval_empty(this)`, true of a cleared node. -/
def bsrRemoveInterval (rb : RbTree) (root : Tree) (this : BsrInterval) (empty : Bool) : Tree :=
  if empty then root else rb.erase updateIntervalEnd root this

/-- The loop of `bsr_find_overlap`, where `stop` is the end of the searched range. -/
def findOverlap (sector stop : Nat) : Tree → Option BsrInterval
  | .leaf => none
  | .node l here _ r =>
    if l.rootVal.any (fun e => decide (sector < e)) then
      -- Overlap if any must be on left side
      findOverlap sector stop l
    else if here.sector < stop ∧ sector < here.stop then
      some here
    else if sector ≥ here.sector then
      -- Overlap if any must be on right side
      findOverlap sector stop r
    else
      none

def bsrFindOverlap (root : Tree) (sector size : Nat) : Except Bug (Option BsrInterval) :=
  if size % 512 ≠ 0 then .error .unaligned
  else .ok (findOverlap sector (sectorEnd sector size) root)

/-- The loop of `bsr_next_overlap`; the walk has at most as many steps as the tree has nodes. -/
def nextOverlap (rb : RbTree) (root : Tree) (sector stop : Nat) :
    Nat → BsrInterval → Option BsrInterval
  | 0, _ => none
  | fuel + 1, i =>
    match rb.next root i with
    | none => none
    | some j =>
      if j.sector ≥ stop then none
      else if sector < j.stop then some j
      else nextOverlap rb root sector stop fuel j

def bsrNextOverlap (rb : RbTree) (root : Tree) (i : BsrInterval) (sector size : Nat) :
    Option BsrInterval :=
  nextOverlap rb root sector (sectorEnd sector size) (root.inorder.length + 1) i

/-- The visited intervals of a loop that is at `i` and goes on with `bsr_next_overlap`. -/
def overlapsFrom (rb : RbTree) (root : Tree) (sector size : Nat) :
    Nat → Option BsrInterval → List BsrInterval
  | 0, _ => []
  | _, none => []
  | fuel + 1, some i =>
    i :: overlapsFrom rb root sector size fuel (bsrNextOverlap rb root i sector size)

/-- `bsr_for_each_overlap`, as the sequence of intervals its body sees in `fuel` iterations. -/
def bsrForEachOverlap (rb : RbTree) (root : Tree) (sector size fuel : Nat) :
    Except Bug (List BsrInterval) :=
  (bsrFindOverlap root sector size).map (overlapsFrom rb root sector size fuel)

end Bsr.Interval
