import AionDb.Core
import AionDb.LibRun
import AionDb.LibMap
import AionDb.LibTiles
import Mathlib.Data.List.Lex
import Mathlib.Order.Fin.Basic

/-!
# The registry of key ranges

The registry maps the start key of every range to its descriptor and the id of
every range to its start key. `split` and `merge` are not one step: they read
the ranges, remove them and put the new ones back, each under a lock of its
own. A call is therefore a small machine that takes one step per lock, and what has been
removed and not put back yet is what the call owes.
-/

namespace AionDb.Ranges

open Std (ExtTreeMap)

def Key := List (Fin 256)
deriving DecidableEq

instance : LinearOrder Key := inferInstanceAs (LinearOrder (List (Fin 256)))

instance : Std.TransCmp (compare : Key → Key → Ordering) := inferInstance

instance : Std.LawfulEqCmp (compare : Key → Key → Ordering) := ⟨compare_eq_iff_eq.mp⟩

def keyMax : Key := ([] : List (Fin 256))

theorem keyMax_le (k : Key) : keyMax ≤ k :=
  le_of_not_gt fun h => List.not_lt_nil (show List (Fin 256) from k) h

structure ReplicaDescriptor where
  replicaId : Nat
  nodeId : String
  isLearner : Bool
deriving DecidableEq

structure Lease where
  shard : Nat
  holder : String
  epoch : Nat
  expiresAt : Nat
deriving DecidableEq

structure RangeDescriptor where
  rangeId : Nat
  startKey : Key
  endKey : Key
  replicas : List ReplicaDescriptor
  shard : Nat
  lease : Option Lease
  generation : Nat
deriving DecidableEq

def Below (key endKey : Key) : Prop := endKey = keyMax ∨ key < endKey
deriving Decidable

def RangeDescriptor.Contains (d : RangeDescriptor) (key : Key) : Prop :=
  d.startKey ≤ key ∧ Below key d.endKey
deriving Decidable

def overlaps (aStart aEnd bStart bEnd : Key) : Prop := Below aStart bEnd ∧ Below bStart aEnd
deriving Decidable

def RangeDescriptor.Overlaps (a b : RangeDescriptor) : Prop :=
  overlaps a.startKey a.endKey b.startKey b.endKey
deriving Decidable

def validateBounds (d : RangeDescriptor) : DbResult Unit :=
  if d.endKey = keyMax then .ok ()
  else if d.startKey ≥ d.endKey then
    .error (.internalMsg s!"range range-{d.rangeId} has start_key >= end_key")
  else .ok ()

structure RegistryInner where
  byStartKey : ExtTreeMap Key RangeDescriptor := ∅
  byId : ExtTreeMap Nat Key := ∅

namespace RegistryInner

variable (r : RegistryInner)

def get (rangeId : Nat) : Option RangeDescriptor :=
  r.byId[rangeId]?.bind fun startKey => r.byStartKey[startKey]?

def remove (rangeId : Nat) : RegistryInner :=
  match r.byId[rangeId]? with
  | none => r
  | some startKey => { byStartKey := r.byStartKey.erase startKey, byId := r.byId.erase rangeId }

def snapshot : List RangeDescriptor := r.byStartKey.toList.map (·.2)

def conflict (d : RangeDescriptor) : Option RangeDescriptor :=
  r.snapshot.find? fun e => e.rangeId ≠ d.rangeId ∧ d.Overlaps e

/-- The old range of the id is dropped before the check, also when that fails. -/
def upsert (d : RangeDescriptor) : DbResult Unit × RegistryInner :=
  match validateBounds d with
  | .error e => (.error e, r)
  | .ok () =>
    let priorGeneration := ((r.get d.rangeId).map (·.generation)).getD 0
    let cleared := r.remove d.rangeId
    match cleared.conflict d with
    | some other =>
      (.error (.internalMsg
        s!"range descriptor for range-{d.rangeId} overlaps existing range-{other.rangeId}"),
        cleared)
    | none =>
      let d' := { d with generation := min (max d.generation priorGeneration + 1) u64Max }
      (.ok (), {
        byStartKey := cleared.byStartKey.insert d.startKey d'
        byId := cleared.byId.insert d.rangeId d.startKey })

/-- The range of the largest start key up to `key`, if it reaches that far. -/
def lookup (key : Key) : Option RangeDescriptor :=
  (r.snapshot.filter (·.startKey ≤ key)).getLast?.filter (·.Contains key)

end RegistryInner

/-! ## Calls -/

/-- A `split` whose key lies inside the range it has read. -/
structure SplitPlan where
  rangeId : Nat
  newRangeId : Nat
  splitKey : Key
  parent : RangeDescriptor
  after_start : parent.startKey < splitKey
  below_end : Below splitKey parent.endKey

namespace SplitPlan

def left (p : SplitPlan) : RangeDescriptor :=
  { p.parent with rangeId := p.rangeId, endKey := p.splitKey }

def right (p : SplitPlan) : RangeDescriptor :=
  { p.parent with rangeId := p.newRangeId, startKey := p.splitKey, generation := 0 }

end SplitPlan

/-- A `merge` of two ranges that were adjacent as it has read them. -/
structure MergePlan where
  leftId : Nat
  rightId : Nat
  left : RangeDescriptor
  right : RangeDescriptor
  adjacent : left.endKey = right.startKey

def MergePlan.merged (p : MergePlan) : RangeDescriptor :=
  { p.left with
    rangeId := p.leftId, endKey := p.right.endKey
    generation := max p.left.generation p.right.generation }

/-- How a call has ended; `panicked` is the `expect` of a descriptor that is gone. -/
inductive Outcome where
  | split (left right : RangeDescriptor)
  | merged (descriptor : RangeDescriptor)
  | failed (error : DbError)
  | panicked (message : String)

/-- A call of `split` or `merge`, by the lock it takes next. -/
inductive Call where
  | splitReadParent (rangeId newRangeId : Nat) (splitKey : Key)
  | splitReadNew (p : SplitPlan)
  | splitRemove (p : SplitPlan)
  | splitUpsertLeft (p : SplitPlan)
  | splitUpsertRight (p : SplitPlan)
  | splitReloadLeft (p : SplitPlan)
  | splitReloadRight (p : SplitPlan) (left : RangeDescriptor)
  | mergeReadLeft (leftId rightId : Nat)
  | mergeReadRight (leftId rightId : Nat) (left : RangeDescriptor)
  | mergeRemoveLeft (p : MergePlan)
  | mergeRemoveRight (p : MergePlan)
  | mergeUpsert (p : MergePlan)
  | mergeReload (p : MergePlan)
  | finished (outcome : Outcome)

def upsertThen (r : RegistryInner) (d : RangeDescriptor) (next : Call) : RegistryInner × Call :=
  match r.upsert d with
  | (.ok (), r') => (r', next)
  | (.error e, r') => (r', .finished (.failed e))

def notFound (rangeId : Nat) : Call :=
  .finished (.failed (.internalMsg s!"range range-{rangeId} not found"))

def Call.next (r : RegistryInner) : Call → Option (RegistryInner × Call)
  | .splitReadParent rangeId newRangeId splitKey =>
    match r.get rangeId with
    | none => some (r, notFound rangeId)
    | some parent =>
      if hstart : splitKey ≤ parent.startKey then
        some (r, .finished (.failed (.internalMsg
          s!"split_key must be strictly greater than parent start_key for range-{rangeId}")))
      else if hend : parent.endKey ≠ keyMax ∧ splitKey ≥ parent.endKey then
        some (r, .finished (.failed (.internalMsg
          s!"split_key must be strictly less than parent end_key for range-{rangeId}")))
      else
        some (r, .splitReadNew {
          rangeId, newRangeId, splitKey, parent
          after_start := lt_of_not_ge hstart
          below_end := by
            by_cases h : parent.endKey = keyMax
            · exact .inl h
            · exact .inr (lt_of_not_ge fun hle => hend ⟨h, hle⟩) })
  | .splitReadNew p =>
    if (r.get p.newRangeId).isSome then
      some (r, .finished (.failed (.internalMsg
        s!"new range id range-{p.newRangeId} already exists")))
    else some (r, .splitRemove p)
  | .splitRemove p => some (r.remove p.rangeId, .splitUpsertLeft p)
  | .splitUpsertLeft p => some (upsertThen r p.left (.splitUpsertRight p))
  | .splitUpsertRight p => some (upsertThen r p.right (.splitReloadLeft p))
  | .splitReloadLeft p =>
    match r.get p.rangeId with
    | none => some (r, .finished (.panicked "left re-loaded"))
    | some left => some (r, .splitReloadRight p left)
  | .splitReloadRight p left =>
    match r.get p.newRangeId with
    | none => some (r, .finished (.panicked "right re-loaded"))
    | some right => some (r, .finished (.split left right))
  | .mergeReadLeft leftId rightId =>
    match r.get leftId with
    | none => some (r, notFound leftId)
    | some left => some (r, .mergeReadRight leftId rightId left)
  | .mergeReadRight leftId rightId left =>
    match r.get rightId with
    | none => some (r, notFound rightId)
    | some right =>
      if adjacent : left.endKey = right.startKey then
        some (r, .mergeRemoveLeft { leftId, rightId, left, right, adjacent })
      else
        some (r, .finished (.failed (.internalMsg (s!"range-{leftId} and range-{rightId}" ++
          " are not adjacent: left.end_key != right.start_key"))))
  | .mergeRemoveLeft p => some (r.remove p.leftId, .mergeRemoveRight p)
  | .mergeRemoveRight p => some (r.remove p.rightId, .mergeUpsert p)
  | .mergeUpsert p => some (upsertThen r p.merged (.mergeReload p))
  | .mergeReload p =>
    match r.get p.leftId with
    | none => some (r, .finished (.panicked "merged re-loaded"))
    | some d => some (r, .finished (.merged d))
  | .finished _ => none

/-- What the call has taken out of the registry and will put back. -/
def Call.owed : Call → List RangeDescriptor
  | .splitUpsertLeft p => [p.left, p.right]
  | .splitUpsertRight p => [p.right]
  | .mergeRemoveRight p => [p.left]
  | .mergeUpsert p => [p.merged]
  | _ => []

/-- The ranges that the call is about to remove are as it has read them, and the id
it gives to a new range is free. -/
def Call.Current (r : RegistryInner) (pieces : List RangeDescriptor) : Call → Prop
  | .splitRemove p => r.get p.rangeId = some p.parent ∧ ∀ d ∈ pieces, d.rangeId ≠ p.newRangeId
  | .mergeRemoveLeft p =>
    r.get p.leftId = some p.left ∧ r.get p.rightId = some p.right ∧
      (p.left.endKey = keyMax → p.leftId = p.rightId)
  | .mergeRemoveRight p => p.leftId ≠ p.rightId → r.get p.rightId = some p.right
  | _ => True

instance (r : RegistryInner) (pieces : List RangeDescriptor) (c : Call) :
    Decidable (c.Current r pieces) := by
  cases c <;> unfold Call.Current <;> infer_instance

/-! ## Concurrent calls -/

structure RangeSystem where
  registry : RegistryInner
  calls : List Call := []
  answers : List (Key × Option RangeDescriptor) := []

inductive RangeAction where
  | split (rangeId newRangeId : Nat) (splitKey : Key)
  | merge (leftId rightId : Nat)
  | advance (i : Nat)
  | lookup (key : Key)

namespace RangeSystem

def step (s : RangeSystem) : RangeAction → Option RangeSystem
  | .split rangeId newRangeId splitKey =>
    some { s with calls := s.calls ++ [.splitReadParent rangeId newRangeId splitKey] }
  | .merge leftId rightId => some { s with calls := s.calls ++ [.mergeReadLeft leftId rightId] }
  | .advance i => do
    let call ← s.calls[i]?
    let (registry, call') ← call.next s.registry
    some { s with registry, calls := s.calls.set i call' }
  | .lookup key => some { s with answers := s.answers ++ [(key, s.registry.lookup key)] }

def pieces (s : RangeSystem) : List RangeDescriptor :=
  s.registry.snapshot ++ s.calls.flatMap Call.owed

/-- No call removes what it has not read, and nobody looks for a key that a call has
removed and not put back. -/
def Undisturbed (s : RangeSystem) : RangeAction → Prop
  | .advance i => ∀ call ∈ s.calls[i]?, call.Current s.registry s.pieces
  | .lookup key => ∀ call ∈ s.calls, ∀ d ∈ call.owed, ¬d.Contains key
  | _ => True

instance (s : RangeSystem) (a : RangeAction) : Decidable (s.Undisturbed a) := by
  cases a <;> unfold Undisturbed <;> infer_instance

end RangeSystem

end AionDb.Ranges
