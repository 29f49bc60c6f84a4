import AionDb.TxDistributed

/-!
# The timestamp cache

The cache keeps the highest timestamp a key was read at, and drops its smallest
key when it is full; what is dropped raises the floor. A key that was dropped
stays below every key of the full cache. So when it is read again it is the one
that is dropped, and no low timestamp of it hides the floor.
-/

namespace AionDb

open Std

/-- The shard and the bytes of the key, in this order. -/
def ReadKey : Type := Nat × List Nat
deriving DecidableEq

instance : Ord ReadKey := lexOrd

instance : TransOrd ReadKey :=
  letI : Ord (Nat × List Nat) := lexOrd
  inferInstanceAs (TransOrd (Nat × List Nat))

instance : LawfulEqOrd ReadKey :=
  letI : Ord (Nat × List Nat) := lexOrd
  inferInstanceAs (LawfulEqOrd (Nat × List Nat))

structure TimestampCache where
  entries : ExtTreeMap ReadKey HlcTimestamp := ∅
  floor : HlcTimestamp := .zero
  capacity : Nat

namespace TimestampCache

def new (capacity : Nat) : TimestampCache := { capacity := max capacity 1 }

def latest (a b : HlcTimestamp) : HlcTimestamp := if a.lt b then b else a

def recordRead (c : TimestampCache) (key : ReadKey) (ts : HlcTimestamp) : TimestampCache :=
  let entries := c.entries.insert key (latest (c.entries.getD key .zero) ts)
  if c.capacity < entries.size then
    match entries.keys.head? with
    | some oldestKey =>
      { c with
        entries := entries.erase oldestKey
        floor := latest c.floor (entries.getD oldestKey .zero) }
    | none => { c with entries }
  else { c with entries }

def maxReadTs (c : TimestampCache) (key : ReadKey) : HlcTimestamp :=
  match c.entries[key]? with
  | some ts => ts
  | none => c.floor

def checkWrite (c : TimestampCache) (key : ReadKey) (writeTs : HlcTimestamp) :
    Except HlcTimestamp Unit :=
  let observed := c.maxReadTs key
  if observed.lt writeTs then .ok () else .error observed

/-- A read at `ts` is still seen. -/
def Remembers (c : TimestampCache) (key : ReadKey) (ts : HlcTimestamp) : Prop :=
  match c.entries[key]? with
  | some seen => seen.lt ts = false
  | none => c.floor.lt ts = false ∧ c.capacity ≤ c.entries.size ∧
    ∀ k ∈ c.entries, compare key k = .lt

variable {c : TimestampCache} {key k : ReadKey} {ts t a b : HlcTimestamp}

theorem latest_keeps (h : a.lt ts = false) : (latest a b).lt ts = false := by
  unfold latest
  split
  · rename_i hab
    simp [HlcTimestamp.lt] at *
    omega
  · exact h

theorem latest_covers (h : b.lt ts = false) : (latest a b).lt ts = false := by
  unfold latest
  split
  · exact h
  · rename_i hab
    simp [HlcTimestamp.lt] at *
    omega

theorem remembers_of_some (h : c.entries[key]? = some a) (ha : a.lt ts = false) :
    c.Remembers key ts := by
  unfold Remembers
  rwa [h]

theorem remembers_of_below (hfloor : c.floor.lt ts = false) (hsize : c.capacity ≤ c.entries.size)
    (hbelow : ∀ k ∈ c.entries, compare key k = .lt) : c.Remembers key ts := by
  have hnone : c.entries[key]? = none := by
    refine ExtTreeMap.getElem?_eq_none fun hmem => ?_
    cases (hbelow key hmem).symm.trans ReflCmp.compare_self
  unfold Remembers
  rw [hnone]
  exact ⟨hfloor, hsize, hbelow⟩

section
variable {es : ExtTreeMap ReadKey HlcTimestamp} {m : ReadKey}

theorem of_head?_keys (h : es.keys.head? = some m) :
    m ∈ es ∧ ∀ k ∈ es, compare m k ≠ .eq → compare m k = .lt := by
  obtain ⟨rest, hkeys⟩ := List.head?_eq_some_iff.mp h
  have hordered := es.ordered_keys
  rw [hkeys] at hordered
  have hmem (k : ReadKey) : k ∈ es ↔ k = m ∨ k ∈ rest := by
    rw [← ExtTreeMap.mem_keys, hkeys, List.mem_cons]
  refine ⟨(hmem m).mpr (.inl rfl), fun k hk hne => ?_⟩
  rcases (hmem k).mp hk with rfl | hk
  · exact absurd ReflCmp.compare_self hne
  · exact List.rel_of_pairwise_cons hordered hk

variable (hm : es.keys.head? = some m) (hsize : c.capacity < es.size)
include hm hsize

theorem capacity_le_size_erase : c.capacity ≤ (es.erase m).size := by
  rw [ExtTreeMap.size_erase, if_pos (show es.contains m = true from (of_head?_keys hm).1)]
  omega

/-- The smallest key is dropped, whether it is `key` or another. -/
theorem remembers_drop (hkey : es[key]? = some a) (ha : a.lt ts = false) :
    Remembers { c with entries := es.erase m, floor := latest c.floor (es.getD m .zero) } key ts := by
  obtain ⟨-, hleast⟩ := of_head?_keys hm
  by_cases heq : m = key
  · subst heq
    refine remembers_of_below (latest_covers ?_) (capacity_le_size_erase hm hsize) fun k hk => ?_
    · rwa [ExtTreeMap.getD_eq_getD_getElem?, hkey]
    · obtain ⟨hne, hk⟩ := ExtTreeMap.mem_erase.mp hk
      exact hleast k hk hne
  · refine remembers_of_some ?_ ha
    rw [ExtTreeMap.getElem?_erase, if_neg (mt LawfulEqCmp.eq_of_compare heq), hkey]

end

/-- Both what was read before and the read itself are seen afterwards. -/
theorem remembers_recordRead (h : c.Remembers key ts ∨ key = k ∧ t.lt ts = false) :
    (c.recordRead k t).Remembers key ts := by
  let v := latest (c.entries.getD k .zero) t
  -- the entry of the key covers the read, or the key was dropped before
  have hcases : (∃ a, (c.entries.insert k v)[key]? = some a ∧ a.lt ts = false) ∨
      c.floor.lt ts = false ∧ c.capacity ≤ c.entries.size ∧ ∀ k ∈ c.entries, compare key k = .lt := by
    rcases h with h | ⟨rfl, ht⟩
    · unfold Remembers at h
      cases hkey : c.entries[key]? with
      | none =>
        rw [hkey] at h
        exact .inr h
      | some a =>
        rw [hkey] at h
        by_cases heq : k = key
        · subst heq
          refine .inl ⟨v, ExtTreeMap.getElem?_insert_self, latest_keeps ?_⟩
          rwa [ExtTreeMap.getD_eq_getD_getElem?, hkey]
        · refine .inl ⟨a, ?_, h⟩
          rw [ExtTreeMap.getElem?_insert, if_neg (mt LawfulEqCmp.eq_of_compare heq), hkey]
    · exact .inl ⟨v, ExtTreeMap.getElem?_insert_self, latest_covers ht⟩
  unfold recordRead
  simp only
  split
  · rename_i hsize
    split
    · rename_i m hm
      rcases hcases with ⟨a, hkey, ha⟩ | ⟨hfloor, -, hbelow⟩
      · exact remembers_drop hm hsize hkey ha
      refine remembers_of_below (latest_keeps hfloor) (capacity_le_size_erase hm hsize) ?_
      intro k' hk'
      obtain ⟨hne, hk'⟩ := ExtTreeMap.mem_erase.mp hk'
      obtain ⟨hmem, hleast⟩ := of_head?_keys hm
      -- `k'` is the key that was read, so what is dropped was there before
      rcases ExtTreeMap.mem_insert.mp hk' with heq | hold
      · rcases ExtTreeMap.mem_insert.mp hmem with heq' | hmem
        · cases LawfulEqCmp.eq_of_compare heq
          cases LawfulEqCmp.eq_of_compare heq'
          exact absurd ReflCmp.compare_self hne
        · exact TransCmp.lt_trans (hbelow m hmem) (hleast k' hk' hne)
      · exact hbelow k' hold
    · rename_i hm
      have hmem := ExtTreeMap.mem_keys.mpr (ExtTreeMap.mem_insert_self (t := c.entries) (k := k) (v := v))
      rw [List.head?_eq_none_iff.mp hm] at hmem
      cases hmem
  · rename_i hsize
    rcases hcases with ⟨a, hkey, ha⟩ | ⟨hfloor, hfull, hbelow⟩
    · exact remembers_of_some hkey ha
    -- the cache is full and did not grow, so the key that was read is in it
    have hmem : k ∈ c.entries := by
      by_contra hk
      rw [ExtTreeMap.size_insert, if_neg (show ¬c.entries.contains k = true from hk)] at hsize
      omega
    refine remembers_of_below hfloor (hfull.trans ExtTreeMap.size_le_size_insert) fun k' hk' => ?_
    rcases ExtTreeMap.mem_insert.mp hk' with heq | hold
    · exact LawfulEqCmp.eq_of_compare heq ▸ hbelow k hmem
    · exact hbelow k' hold

theorem remembers_foldl {reads : List (ReadKey × HlcTimestamp)}
    (h : c.Remembers key ts ∨ (key, ts) ∈ reads) :
    (reads.foldl (fun c r => c.recordRead r.1 r.2) c).Remembers key ts := by
  induction reads generalizing c with
  | nil => exact h.resolve_right List.not_mem_nil
  | cons r reads ih =>
    refine ih ?_
    rcases h with h | h
    · exact .inl (remembers_recordRead (.inl h))
    · rcases List.mem_cons.mp h with rfl | h
      · exact .inl (remembers_recordRead (.inr ⟨rfl, by simp [HlcTimestamp.lt]⟩))
      · exact .inr h

/-- A write that is let through is above every earlier read of its key. -/
theorem checkWrite_ok_above_reads {capacity : Nat} {reads : List (ReadKey × HlcTimestamp)}
    {writeTs : HlcTimestamp}
    (h : (reads.foldl (fun c r => c.recordRead r.1 r.2) (new capacity)).checkWrite key writeTs = .ok ()) :
    ∀ ts, (key, ts) ∈ reads → ts.lt writeTs := by
  intro ts hread
  have hseen : (reads.foldl (fun c r => c.recordRead r.1 r.2) (new capacity)).Remembers key ts :=
    remembers_foldl (.inr hread)
  unfold checkWrite maxReadTs at h
  unfold Remembers at hseen
  have hlt : ∀ a : HlcTimestamp, a.lt ts = false → a.lt writeTs = true → ts.lt writeTs := by
    intro a hle hlt
    simp [HlcTimestamp.lt] at *
    omega
  split at hseen
  · rename_i a ha
    simp only [ha] at h
    split at h
    · exact hlt a hseen ‹_›
    · cases h
  · rename_i ha
    simp only [ha] at h
    split at h
    · exact hlt _ hseen.1 ‹_›
    · cases h

/-- A dropped key is read again at a lower timestamp. -/
theorem checkWrite_ok_above_reads_dropped :
    let reads : List (ReadKey × HlcTimestamp) :=
      [((1, [7]), ⟨10, 0⟩), ((1, [8]), ⟨5, 0⟩), ((1, [7]), ⟨3, 0⟩)]
    let c := reads.foldl (fun c r => c.recordRead r.1 r.2) (new 1)
    c.maxReadTs (1, [7]) = ⟨10, 0⟩ ∧ ∀ ts, ((1, [7]), ts) ∈ reads → ts.lt ⟨11, 0⟩ := by
  intro reads c
  have hok : c.checkWrite (1, [7]) ⟨11, 0⟩ = .ok () := by decide +kernel
  exact ⟨by decide +kernel, checkWrite_ok_above_reads hok⟩

end TimestampCache

end AionDb
