import AionDb.Core
import Mathlib.Data.List.Induction

/-!
# Shard leases

The epoch of a new lease is counted up from the lease it replaces. Nothing is left to count
from once a lease is revoked: the next holder starts again at epoch one.
-/

namespace AionDb.Leases

open List
open Std (ExtTreeMap)

structure Lease where
  shard : Nat
  holder : Nat
  epoch : Nat
  expiresAt : Nat
deriving DecidableEq

def Lease.isExpired (lease : Lease) (now : Nat) : Bool := lease.expiresAt ≤ now

inductive LeaseOutcome where
  | granted (lease : Lease)
  | held (lease : Lease)
  | stale (current : Lease)

abbrev LeaseRegistry := ExtTreeMap Nat Lease

def nextEpoch (epoch : Nat) : Nat := min (epoch + 1) u64Max

section

variable (r : LeaseRegistry) (shard holder ttl now : Nat)

def grant (epoch : Nat) : Lease × LeaseRegistry :=
  let lease := { shard, holder, epoch, expiresAt := now + ttl }
  (lease, r.insert shard lease)

def acquire : LeaseOutcome × LeaseRegistry :=
  match r[shard]? with
  | some existing =>
    if existing.isExpired now = false ∧ existing.holder ≠ holder then (.held existing, r)
    else (grant r shard holder ttl now (nextEpoch existing.epoch)).map .granted id
  | none => (grant r shard holder ttl now 1).map .granted id

def extend (expectedEpoch : Nat) : LeaseOutcome × LeaseRegistry :=
  match r[shard]? with
  | some existing =>
    if existing.holder = holder ∧ existing.epoch = expectedEpoch then
      (grant r shard holder ttl now existing.epoch).map .granted id
    else (.stale existing, r)
  | none => (.stale { shard, holder := 0, epoch := 0, expiresAt := now }, r)

def transfer : Lease × LeaseRegistry :=
  grant r shard holder ttl now ((r[shard]?.map fun lease => nextEpoch lease.epoch).getD 1)

def revoke : Option Lease × LeaseRegistry := (r[shard]?, r.erase shard)

end

inductive LeaseCall where
  | acquire (holder ttl now : Nat)
  | extend (holder expectedEpoch ttl now : Nat)
  | transfer (target ttl now : Nat)
  | revoke

def LeaseOutcome.lease? : LeaseOutcome → Option Lease
  | granted lease => some lease
  | _ => none

/-- The lease the call grants, and the registry after it. -/
def LeaseCall.exec (r : LeaseRegistry) (shard : Nat) : LeaseCall → Option Lease × LeaseRegistry
  | .acquire holder ttl now => (Leases.acquire r shard holder ttl now).map LeaseOutcome.lease? id
  | .extend holder epoch ttl now =>
    (Leases.extend r shard holder ttl now epoch).map LeaseOutcome.lease? id
  | .transfer target ttl now => (Leases.transfer r shard target ttl now).map some id
  | .revoke => (none, (Leases.revoke r shard).2)

/-- The registry with the leases of a shard that were granted, the oldest first. -/
structure LeaseLog where
  registry : LeaseRegistry := ∅
  granted : List Lease := []

def LeaseLog.run (s : LeaseLog) (shard : Nat) (calls : List LeaseCall) : LeaseLog :=
  calls.foldl (fun s call =>
    let (lease?, registry) := call.exec s.registry shard
    { registry, granted := s.granted ++ lease?.toList }) s

variable {r : LeaseRegistry} {shard : Nat}

/-- What a call other than `revoke` leaves is what it grants, if anything, or what was there. -/
theorem exec_cases (r : LeaseRegistry) (shard : Nat) {call : LeaseCall} (hcall : call ≠ .revoke) :
    (∃ lease, (call.exec r shard).1 = some lease ∧ (call.exec r shard).2[shard]? = some lease ∧
      ∀ old ∈ r[shard]?, lease.epoch = nextEpoch old.epoch ∨
        lease.epoch = old.epoch ∧ lease.holder = old.holder) ∨
    call.exec r shard = (none, r) := by
  cases call with
  | acquire holder ttl now =>
    simp only [LeaseCall.exec, acquire]
    split
    · split
      · exact .inr rfl
      · exact .inl ⟨_, rfl, ExtTreeMap.getElem?_insert_self, by simp_all⟩
    · exact .inl ⟨_, rfl, ExtTreeMap.getElem?_insert_self, by simp_all⟩
  | extend holder epoch ttl now =>
    simp only [LeaseCall.exec, extend]
    split
    · split
      · exact .inl ⟨_, rfl, ExtTreeMap.getElem?_insert_self, by simp_all⟩
      · exact .inr rfl
    · exact .inr rfl
  | transfer target ttl now =>
    refine .inl ⟨_, rfl, ExtTreeMap.getElem?_insert_self, fun old hold => ?_⟩
    simp_all
  | revoke => exact absurd rfl hcall

/-- The later lease has a higher epoch, unless it is of the same holder. -/
def Lease.Before (a b : Lease) : Prop :=
  a.epoch ≤ b.epoch ∧ (a.holder ≠ b.holder → a.epoch < b.epoch)

theorem Lease.Before.renew {a old lease : Lease} (h : a.Before old) (hmax : lease.epoch < u64Max)
    (hnew : lease.epoch = nextEpoch old.epoch ∨
      lease.epoch = old.epoch ∧ lease.holder = old.holder) : a.Before lease := by
  rcases hnew with hnext | ⟨hepoch, hholder⟩
  · have hle := h.1
    unfold nextEpoch at hnext
    exact ⟨by omega, fun _ => by omega⟩
  · rwa [Lease.Before, hepoch, hholder]

end AionDb.Leases
