import TestingSystem.Lib.GoMap
import Mathlib.Logic.Relation

/-!
# The cache with a bound on the total size

`lib/cache/cache.go`. Every definition is one section of the source under the mutex. `getter` runs
outside of it, so its result is an argument of `loadAbsentValue`.

`recentRank` is the list of the keys of the source's list elements, and a holder's `listPosition` says
whether it has an element: there is one for each key at most (`WellFormed`). A `WaitGroup` is the
number of an allocated wait group. `removals` is a history that no function reads.
-/

set_option autoImplicit false

namespace TestingSystem

/-- A `*sync.WaitGroup`. -/
abbrev WaitGroup := Nat

/-- `valHolder`. -/
structure ValHolder (V E : Type) where
  value : Option V
  error : Option E
  lockCount : Nat
  size : UInt64
  loadingStatus : Option WaitGroup
  listPosition : Bool
  deriving DecidableEq

/-- A call of `removeSingleItem`: the key, its holder and the total size before the subtraction. -/
structure Removal (K V E : Type) where
  key : K
  holder : ValHolder V E
  totalSize : UInt64
  deriving DecidableEq

/-- `LRUSizeCache`. -/
structure LRUSizeCache (K V E : Type) where
  valueHolders : GoMap K (ValHolder V E)
  /-- Whether `remover` is not `nil`. -/
  remover : Bool
  sizeBound : UInt64
  totalSize : UInt64
  recentRank : List K
  removals : List (Removal K V E)

/-- The errors of `lib/cache/errors.go`. -/
inductive CacheError (K : Type) where
  | itemLocked (key : K)
  | itemNotFound (key : K)
  | itemNotLocked (key : K)
  | itemAlreadyExists (key : K)
  deriving DecidableEq

/-- The panics of the cache: those of its logger and the uses of a `nil` pointer. -/
inductive CachePanic where
  | loadedTwice
  | removingLocked
  | nilHolder
  | nilLoadingStatus
  | nilListPosition
  deriving DecidableEq, Repr

namespace LRUSizeCache

variable {K V E : Type}

/-- `NewLRUSizeCache`. -/
def new (sizeBound : UInt64) (remover : Bool) : LRUSizeCache K V E where
  valueHolders := .empty
  remover := remover
  sizeBound := sizeBound
  totalSize := 0
  recentRank := []
  removals := []

variable [DecidableEq K]

/-- The removals of `key` so far, latest first. -/
def removalsOf (c : LRUSizeCache K V E) (key : K) : List (Removal K V E) :=
  c.removals.filter fun r => r.key = key

/-- The calls of the remover for `key` so far, latest first: it is called before the removal of an item
without error. -/
def removerCallsOf (c : LRUSizeCache K V E) (key : K) : List (K × Option V) :=
  if c.remover then
    ((c.removalsOf key).filter fun r => r.holder.error.isNone).map fun r => (r.key, r.holder.value)
  else []

/-- `MoveToBack` for the element of `key`. -/
def moveToBack (rank : List K) (key : K) : List K :=
  if key ∈ rank then rank.erase key ++ [key] else rank

/-- `itemUsed`; the holder is written back under its key. -/
def itemUsed (c : LRUSizeCache K V E) (key : K) (valueHolder : ValHolder V E) :
    LRUSizeCache K V E :=
  if valueHolder.listPosition then
    { c with
      valueHolders := c.valueHolders.set key valueHolder
      recentRank := moveToBack c.recentRank key }
  else
    { c with
      valueHolders := c.valueHolders.set key { valueHolder with listPosition := true }
      recentRank := c.recentRank ++ [key] }

/-- What `removeSingleItem` removes. -/
def withoutItem (c : LRUSizeCache K V E) (key : K) (valueHolder : ValHolder V E) :
    LRUSizeCache K V E :=
  { c with
    valueHolders := c.valueHolders.delete key
    totalSize := c.totalSize - valueHolder.size
    recentRank := c.recentRank.erase key
    removals := { key := key, holder := valueHolder, totalSize := c.totalSize } :: c.removals }

/-- `removeSingleItem`. -/
def removeSingleItem (c : LRUSizeCache K V E) (key : K) :
    Except CachePanic (LRUSizeCache K V E) :=
  match c.valueHolders.get? key with
  | none => .error .nilHolder
  | some valueHolder =>
    if valueHolder.lockCount ≠ 0 then .error .removingLocked
    else if valueHolder.listPosition then .ok (c.withoutItem key valueHolder)
    else .error .nilListPosition

/-- The loop of `removeItemsIfNeeded` over the elements that are left. The next element is read before
the removal, and a removal takes out no other element. -/
def removeItemsFrom : List K → LRUSizeCache K V E → Except CachePanic (LRUSizeCache K V E)
  | [], c => .ok c
  | key :: rest, c =>
    if c.totalSize > c.sizeBound then
      match c.valueHolders.get? key with
      | none => .error .nilHolder
      | some valueHolder =>
        if valueHolder.lockCount = 0 then do
          let c ← c.removeSingleItem key
          removeItemsFrom rest c
        else removeItemsFrom rest c
    else .ok c

/-- `removeItemsIfNeeded`. -/
def removeItemsIfNeeded (c : LRUSizeCache K V E) : Except CachePanic (LRUSizeCache K V E) :=
  removeItemsFrom c.recentRank c

/-- `lockAndGetHolder`. An absent key gets a holder with the new wait group `group`, and
`loadAbsentValue` is started for it. -/
def lockAndGetHolder (c : LRUSizeCache K V E) (key : K) (group : WaitGroup) :
    LRUSizeCache K V E × ValHolder V E :=
  match c.valueHolders.get? key with
  | some valueHolder =>
    let valueHolder := { valueHolder with lockCount := valueHolder.lockCount + 1 }
    ({ c with valueHolders := c.valueHolders.set key valueHolder }, valueHolder)
  | none =>
    let valueHolder : ValHolder V E :=
      { value := none, error := none, lockCount := 1, size := 0, loadingStatus := some group
        listPosition := false }
    ({ c with valueHolders := c.valueHolders.set key valueHolder }, valueHolder)

/-- What a `Get` returns. -/
abbrev Got (V E : Type) := Option V × Option E

/-- The end of `Get`: the holder is unlocked and used. The lock count is at least 1 here. -/
def finishGet (c : LRUSizeCache K V E) (key : K) (valueHolder : ValHolder V E) :
    LRUSizeCache K V E × Got V E :=
  (c.itemUsed key { valueHolder with lockCount := valueHolder.lockCount - 1 },
    (valueHolder.value, valueHolder.error))

/-- `Get` up to its return or to the wait for a wait group. -/
def get (c : LRUSizeCache K V E) (key : K) (group : WaitGroup) :
    LRUSizeCache K V E × (Got V E ⊕ WaitGroup) :=
  let (c, valueHolder) := c.lockAndGetHolder key group
  match valueHolder.loadingStatus with
  | none =>
    let (c, got) := c.finishGet key valueHolder
    (c, .inl got)
  | some loadingStatus => (c, .inr loadingStatus)

/-- `Get` after the wait. -/
def wake (c : LRUSizeCache K V E) (key : K) :
    Except CachePanic (LRUSizeCache K V E × Got V E) :=
  match c.valueHolders.get? key with
  | none => .error .nilHolder
  | some valueHolder => .ok (c.finishGet key valueHolder)

/-- `Lock`. -/
def lock (c : LRUSizeCache K V E) (key : K) (group : WaitGroup) : LRUSizeCache K V E :=
  let (c, valueHolder) := c.lockAndGetHolder key group
  if valueHolder.loadingStatus = none then c.itemUsed key valueHolder else c

/-- `Unlock`, with the error it returns. -/
def unlock (c : LRUSizeCache K V E) (key : K) :
    Except CachePanic (LRUSizeCache K V E × Option (CacheError K)) :=
  match c.valueHolders.get? key with
  | none => .ok (c, some (.itemNotFound key))
  | some valueHolder =>
    if valueHolder.lockCount > 0 then do
      let valueHolder := { valueHolder with lockCount := valueHolder.lockCount - 1 }
      let c ← { c with valueHolders := c.valueHolders.set key valueHolder }.removeItemsIfNeeded
      return (c, none)
    else .ok (c, some (.itemNotLocked key))

/-- `Remove`, with the error it returns. -/
def remove (c : LRUSizeCache K V E) (key : K) :
    Except CachePanic (LRUSizeCache K V E × Option (CacheError K)) :=
  match c.valueHolders.get? key with
  | none => .ok (c, none)
  | some valueHolder =>
    if valueHolder.lockCount > 0 then .ok (c, some (.itemLocked key))
    else do
      let c ← c.removeSingleItem key
      return (c, none)

/-- `Insert`, with the error it returns. -/
def insert (c : LRUSizeCache K V E) (key : K) (val : Option V) (size : UInt64) :
    LRUSizeCache K V E × Option (CacheError K) :=
  match c.valueHolders.get? key with
  | some _ => (c, some (.itemAlreadyExists key))
  | none =>
    let valueHolder : ValHolder V E :=
      { value := val, error := none, lockCount := 0, size := size, loadingStatus := none
        listPosition := false }
    (c.itemUsed key valueHolder, none)

/-- `loadAbsentValue` after the call of the getter, with the wait group it ends. -/
def loadAbsentValue (c : LRUSizeCache K V E) (key : K) (value : Option V) (err : Option E)
    (size : UInt64) : Except CachePanic (LRUSizeCache K V E × WaitGroup) :=
  match c.valueHolders.get? key with
  | none => .error .nilHolder
  | some valueHolder =>
    if valueHolder.value.isSome || valueHolder.error.isSome then .error .loadedTwice
    else
      match valueHolder.loadingStatus with
      | none => .error .nilLoadingStatus
      | some loadingStatus => do
        let valueHolder :=
          { valueHolder with value := value, error := err, size := size, loadingStatus := none }
        let c ← ({ c with totalSize := c.totalSize + size }.itemUsed key
          valueHolder).removeItemsIfNeeded
        return (c, loadingStatus)

end LRUSizeCache

end TestingSystem
