import AionDb.Core
import AionDb.LibRun
import Mathlib.Data.Finset.Sort

/-!
# The buffer pool

A pool of page frames over a page store. A call of the pool is a task that
takes its locks one after another: the lock of a page (a stripe), the page
table, the free list, the clock and the lock of a frame are separate critical
sections, and every one of them is a step here. Any number of agents run their
tasks in any order; an agent runs one call at a time and has at most one guard, so
a thread with several guards is several agents.
-/

namespace AionDb.Pool

open Std Function

variable {D : Type*}

structure PageId where
  relationId : Nat
  pageNumber : Nat
deriving DecidableEq

abbrev pageIdCmp : PageId → PageId → Ordering :=
  compareLex (compareOn PageId.relationId) (compareOn PageId.pageNumber)

instance : TransCmp pageIdCmp := inferInstance

instance : LawfulEqCmp pageIdCmp where
  eq_of_compare {a b} h := by
    obtain ⟨h1, h2⟩ := compareLex_eq_eq.mp h
    cases a
    cases b
    rw [PageId.mk.injEq]
    exact ⟨LawfulEqCmp.eq_of_compare h1, LawfulEqCmp.eq_of_compare h2⟩

abbrev PageTable := ExtTreeMap PageId Nat pageIdCmp

def u32Max : Nat := 2 ^ 32 - 1

/-- A page in its frame. Whether it is counted as dirty is left out, as is the counter. -/
structure Page (D : Type*) where
  id : PageId
  data : D
  dirty : Bool := false
  pinCount : Nat := 0

namespace Page

variable (page : Page D)

def pin : Page D := { page with pinCount := min (page.pinCount + 1) u32Max }

def unpin : Page D := { page with pinCount := page.pinCount - 1 }

def write (data : D) : Page D := { page with data, dirty := true }

def markClean : Page D := { page with dirty := false }

def isPinned : Bool := 0 < page.pinCount

end Page

/-! ## The clock -/

def maxUsageCount : Nat := 5

structure ClockSweep where
  capacity : Nat
  pageAt : Nat → Option PageId := fun _ => none
  usage : Nat → Nat := fun _ => 0
  hand : Nat := 0

namespace ClockSweep

def access (c : ClockSweep) (slot : Nat) : ClockSweep :=
  { c with usage := update c.usage slot (min (c.usage slot + 1) maxUsageCount) }

def insert (c : ClockSweep) (slot : Nat) (p : PageId) : ClockSweep :=
  { c with
    pageAt := update c.pageAt slot (some p), usage := update c.usage slot 1 }

/-- At most `n` moves of the hand. The frames are read one after another, so `pinned` answers
each move anew. -/
def sweep (pinned : Nat → Bool) : Nat → ClockSweep → Option Nat × ClockSweep
  | 0, c => (none, c)
  | n + 1, c =>
    let slot := c.hand
    let c := { c with hand := (c.hand + 1) % c.capacity }
    if c.pageAt slot = none ∨ pinned n then sweep pinned n c
    else if c.usage slot = 0 then (some slot, c)
    else sweep pinned n { c with usage := update c.usage slot (c.usage slot - 1) }

def findVictim (pinned : Nat → Bool) (c : ClockSweep) : Option Nat × ClockSweep :=
  sweep pinned (c.capacity * (maxUsageCount + 1)) c

theorem sweep_spec (pinned : Nat → Bool) (n : Nat) (c : ClockSweep) :
    (sweep pinned n c).2.pageAt = c.pageAt ∧
      ∀ slot, (sweep pinned n c).1 = some slot → c.pageAt slot ≠ none := by
  induction n generalizing c with
  | zero => exact ⟨rfl, nofun⟩
  | succ n ih =>
    simp only [sweep]
    split
    · exact ih _
    rename_i hslot
    split
    · refine ⟨rfl, fun slot h => ?_⟩
      cases h
      exact fun hnone => hslot (.inl hnone)
    · exact ih _

theorem findVictim_spec (pinned : Nat → Bool) (c : ClockSweep) :
    (findVictim pinned c).2.pageAt = c.pageAt ∧
      ∀ slot, (findVictim pinned c).1 = some slot → c.pageAt slot ≠ none :=
  sweep_spec pinned _ c

end ClockSweep

/-! ## The pool -/

/-- The page store: what it answers for a page that was never written, and what an
allocated page holds. -/
structure PoolConfig (D : Type*) where
  capacity : Nat
  zero : D
  absent : Option D
  allocated : Option D

@[irreducible] def PoolConfig.pageLoadLock (cfg : PoolConfig D) (p : PageId) : Nat :=
  let mixed := BitVec.ofNat 64 p.relationId * 1099511628211#64 ^^^
    (BitVec.ofNat 64 p.pageNumber).rotateLeft 17
  mixed.toNat % max 1 (min cfg.capacity 64)

inductive SlotUse where
  | free
  | taken (agent : Nat)
  | used

structure PoolState (D : Type*) where
  frames : Nat → Page D
  table : PageTable := ∅
  freeList : List Nat
  clock : ClockSweep
  store : PageId → Option D := fun _ => none
  allocated : PageId → Bool := fun _ => false
  modifiedPages : Nat → Finset Nat := fun _ => ∅
  pageLocks : Nat → Option Nat := fun _ => none
  frameLocks : Nat → Option Nat := fun _ => none
  /-- Ghost: who has pinned the frame. -/
  pins : Nat → Finset Nat := fun _ => ∅
  /-- Ghost. -/
  slots : Nat → SlotUse := fun _ => .free
  /-- Ghost: the last completed write to a page through a guard. -/
  written : PageId → Option D := fun _ => none
  /-- Ghost: how often a page was written through a guard. -/
  version : PageId → Nat := fun _ => 0
  /-- Ghost: the version up to which a dropped guard has recorded the page as modified. -/
  tracked : PageId → Nat := fun _ => 0
  /-- Ghost: the last version a guard wrote that has been dropped. -/
  due : PageId → Nat := fun _ => 0
  /-- Ghost: the last version a snapshot has returned. -/
  shown : PageId → Nat := fun _ => 0
  /-- Ghost: the last version returned by a snapshot before a clear of the page. -/
  cleared : PageId → Nat := fun _ => 0

namespace PoolState

variable (cfg : PoolConfig D) (s : PoolState D) (agent : Nat)

def init (cfg : PoolConfig D) : PoolState D where
  frames := fun _ => { id := ⟨0, 0⟩, data := cfg.zero }
  freeList := (List.range cfg.capacity).reverse
  clock := { capacity := cfg.capacity }

def lock (p : PageId) : PoolState D :=
  { s with pageLocks := update s.pageLocks (cfg.pageLoadLock p) (some agent) }

def unlock (p : PageId) : PoolState D :=
  { s with pageLocks := update s.pageLocks (cfg.pageLoadLock p) none }

def setFrame (slot : Nat) (page : Page D) : PoolState D :=
  { s with frames := update s.frames slot page }

def pin (slot : Nat) : PoolState D :=
  { s.setFrame slot (s.frames slot).pin with
    pins := update s.pins slot (insert agent (s.pins slot)) }

def unpin (slot : Nat) : PoolState D :=
  { s.setFrame slot (s.frames slot).unpin with
    pins := update s.pins slot ((s.pins slot).erase agent) }

def fill (p : PageId) (data : D) (slot : Nat) : PoolState D :=
  { s.setFrame slot (Page.pin { id := p, data }) with
    pins := update s.pins slot {agent} }

def enterTable (p : PageId) (slot : Nat) : PoolState D :=
  { s with
    table := s.table.insert p slot
    slots := update s.slots slot .used }

def writeBack (slot : Nat) : PoolState D :=
  { s with
    frameLocks := update s.frameLocks slot (some agent)
    store := if (s.frames slot).dirty then
        update s.store (s.frames slot).id (some (s.frames slot).data)
      else s.store }

def replace (p : PageId) (data : D) (slot : Nat) : PoolState D :=
  let old := (s.frames slot).id
  { s.fill agent p data slot with
    table := (if s.table[old]? = some slot then s.table.erase old else s.table).insert p slot
    frameLocks := update s.frameLocks slot none }

def flush (slot : Nat) : PoolState D :=
  { s.setFrame slot (s.frames slot).markClean with
    store := update s.store (s.frames slot).id (some (s.frames slot).data) }

def write (p : PageId) (slot : Nat) (data : D) : PoolState D :=
  { s.setFrame slot ((s.frames slot).write data) with
    written := update s.written p (some data)
    version := update s.version p (s.version p + 1) }

def trackModifiedPage (p : PageId) (version : Nat) : PoolState D :=
  { s with
    modifiedPages := update s.modifiedPages p.relationId
      (insert p.pageNumber (s.modifiedPages p.relationId))
    tracked := update s.tracked p (max (s.tracked p) version) }

def clearModifiedRelationPages (relationId : Nat) (pageNumbers : List Nat) : PoolState D :=
  { s with
    modifiedPages := update s.modifiedPages relationId
      (s.modifiedPages relationId \ pageNumbers.toFinset)
    cleared := fun p =>
      if p.relationId = relationId ∧ p.pageNumber ∈ pageNumbers then s.shown p else s.cleared p }

def markShown (copied : List (PageId × D × Nat)) : PoolState D :=
  let shown (p : PageId) : Nat :=
    copied.foldl (fun v e => if e.1 = p then max v e.2.2 else v) (s.shown p)
  { s with shown }

end PoolState

/-! ## Tasks -/

structure Snapshot (D : Type*) where
  relationId : Nat
  pages : List PageId
  /-- What has been copied; the version is a ghost. -/
  copied : List (PageId × D × Nat) := []
  /-- Ghost: the pages that were due when the call began. -/
  due : PageId → Bool

/-- What an agent does next; `p` is the page of the call. -/
inductive Task (D : Type*) where
  | idle
  | fetchLookup (p : PageId)
  | fetchPin (p : PageId) (slot : Nat)
  | fetchLock (p : PageId)
  | lockedLookup (p : PageId)
  | lockedPin (p : PageId) (slot : Nat)
  | load (p : PageId)
  | allocate (relationId : Nat)
  | newLock (p : PageId)
  -- `allocate_frame`, with the page it brings
  | popFree (p : PageId) (data : D)
  | fillFrame (p : PageId) (data : D) (slot : Nat)
  | enterTable (p : PageId) (slot : Nat)
  | findVictim (p : PageId) (data : D)
  | evict (p : PageId) (data : D) (slot : Nat)
  | replace (p : PageId) (data : D) (slot : Nat)
  | enterClock (p : PageId) (slot : Nat)
  | accessClock (p : PageId) (slot : Nat) (locked : Bool)
  /-- The agent has a guard; the version of its last write is a ghost, zero for none. -/
  | holding (p : PageId) (slot : Nat) (wrote : Nat)
  /-- The guard is dropped: whether the frame was dirty, and at which version. -/
  | tracking (p : PageId) (slot : Nat) (wrote : Nat) (dirtyAt : Option Nat)
  | unpinning (p : PageId) (slot : Nat) (wrote : Nat)
  | flushNext (pages : List PageId) (limit : Nat)
  | flushLookup (p : PageId) (pages : List PageId) (limit : Nat)
  | flushFrame (p : PageId) (slot : Nat) (pages : List PageId) (limit : Nat)
  | snapNext (c : Snapshot D)
  | snapLookup (p : PageId) (c : Snapshot D)
  | snapFrame (p : PageId) (slot : Nat) (c : Snapshot D)
  | snapStore (p : PageId) (c : Snapshot D)

/-- The step of an agent's task under its next lock; `none` while it has to wait. -/
def Task.advance (cfg : PoolConfig D) (s : PoolState D) (agent : Nat) :
    Task D → Option (PoolState D × Task D)
  | .fetchLookup p =>
    match s.table[p]? with
    | some slot => some (s, .fetchPin p slot)
    | none => some (s, .fetchLock p)
  | .fetchPin p slot =>
    if s.frameLocks slot ≠ none then none
    else if (s.frames slot).id = p then some (s.pin agent slot, .accessClock p slot false)
    else some (s, .fetchLookup p)
  | .fetchLock p =>
    if s.pageLocks (cfg.pageLoadLock p) ≠ none then none
    else some (s.lock cfg agent p, .lockedLookup p)
  | .lockedLookup p =>
    match s.table[p]? with
    | some slot => some (s, .lockedPin p slot)
    | none => some (s, .load p)
  | .lockedPin p slot =>
    if s.frameLocks slot ≠ none then none
    else if (s.frames slot).id = p then some (s.pin agent slot, .accessClock p slot true)
    else some (s.unlock cfg p, .fetchLookup p)
  | .load p =>
    match (s.store p).or cfg.absent with
    | some data => some (s, .popFree p data)
    | none => some (s.unlock cfg p, .idle)
  | .newLock p =>
    -- `new_page` does not look the page up.
    if s.pageLocks (cfg.pageLoadLock p) ≠ none then none
    else some (s.lock cfg agent p, .popFree p cfg.zero)
  | .popFree p data =>
    match s.freeList.getLast? with
    | some slot =>
      some ({ s with
        freeList := s.freeList.dropLast
        slots := update s.slots slot (.taken agent) }, .fillFrame p data slot)
    | none => some (s, .findVictim p data)
  | .fillFrame p data slot =>
    if s.frameLocks slot ≠ none then none
    else some (s.fill agent p data slot, .enterTable p slot)
  | .enterTable p slot => some (s.enterTable p slot, .enterClock p slot)
  | .evict p data slot =>
    if s.frameLocks slot ≠ none then none
    else if (s.frames slot).isPinned then some (s, .findVictim p data)
    else some (s.writeBack agent slot, .replace p data slot)
  | .replace p data slot => some (s.replace agent p data slot, .enterClock p slot)
  | .enterClock p slot =>
    some ({ s.unlock cfg p with clock := s.clock.insert slot p }, .holding p slot 0)
  | .accessClock p slot locked =>
    some ({ if locked then s.unlock cfg p else s with clock := s.clock.access slot },
      .holding p slot 0)
  | .tracking p slot wrote dirtyAt =>
    match dirtyAt with
    | some version => some (s.trackModifiedPage p version, .unpinning p slot wrote)
    | none => some (s, .unpinning p slot wrote)
  | .unpinning p slot wrote =>
    if s.frameLocks slot ≠ none then none
    else some ({ s.unpin agent slot with
      due := update s.due p (max (s.due p) wrote) }, .idle)
  | .flushNext [] _ => some (s, .idle)
  | .flushNext (p :: pages) limit =>
    if limit = 0 then some (s, .idle)
    else if s.pageLocks (cfg.pageLoadLock p) ≠ none then none
    else some (s.lock cfg agent p, .flushLookup p pages limit)
  | .flushLookup p pages limit =>
    match s.table[p]? with
    | some slot => some (s, .flushFrame p slot pages limit)
    | none => some (s.unlock cfg p, .flushNext pages limit)
  | .flushFrame p slot pages limit =>
    if s.frameLocks slot ≠ none then none
    else if (s.frames slot).id = p ∧ (s.frames slot).dirty then
      some ((s.flush slot).unlock cfg p, .flushNext pages (limit - 1))
    else some (s.unlock cfg p, .flushNext pages limit)
  | .snapNext c =>
    match c.pages with
    | [] => some (s.markShown c.copied, .idle)
    | p :: pages =>
      if s.pageLocks (cfg.pageLoadLock p) ≠ none then none
      else some (s.lock cfg agent p, .snapLookup p { c with pages })
  | .snapLookup p c =>
    match s.table[p]? with
    | some slot => some (s, .snapFrame p slot c)
    | none => some (s, .snapStore p c)
  | .snapFrame p slot c =>
    if s.frameLocks slot ≠ none then none
    else if (s.frames slot).id = p then
      some (s.unlock cfg p,
        .snapNext { c with copied := c.copied ++ [(p, (s.frames slot).data, s.version p)] })
    else some (s, .snapStore p c)
  | .snapStore p c =>
    match (s.store p).or cfg.absent with
    | some data => some (s.unlock cfg p,
        .snapNext { c with copied := c.copied ++ [(p, data, s.version p)] })
    | none => some (s.unlock cfg p, .snapNext c)
  | .idle | .allocate _ | .findVictim .. | .holding .. => none

def Task.fails (cfg : PoolConfig D) (s : PoolState D) : Task D → Option (PoolState D)
  | .load p | .findVictim p _ | .evict p _ _ | .flushFrame p _ _ _ | .snapStore p _ =>
    some (s.unlock cfg p)
  | .allocate _ => some s
  | _ => none

/-! ## All agents together -/

structure PoolSystem (D : Type*) where
  state : PoolState D
  tasks : Nat → Task D := fun _ => .idle
  /-- Ghost: the pages due at the beginning of a snapshot call and those it returned. -/
  snapshots : List (Nat × (PageId → Bool) × List PageId) := []

inductive PoolAction (D : Type*) where
  | fetchPage (agent : Nat) (p : PageId)
  | newPage (agent : Nat) (relationId : Nat)
  | flushPage (agent : Nat) (p : PageId)
  /-- The keys of the table come in any order. -/
  | flushAll (agent : Nat) (pages : List PageId)
  | flushSome (agent : Nat) (limit : Nat) (pages : List PageId)
  | snapshot (agent : Nat) (relationId : Nat)
  | clearModified (relationId : Nat) (pageNumbers : List Nat)
  | write (agent : Nat) (data : D)
  | drop (agent : Nat)
  | step (agent : Nat)
  /-- The page store hands out a page it has not handed out and that was not written. -/
  | allocated (agent : Nat) (pageNumber : Nat)
  | sweep (agent : Nat) (pinned : Nat → Bool)
  | fail (agent : Nat)

namespace PoolSystem

variable (cfg : PoolConfig D)

def setTask (sys : PoolSystem D) (agent : Nat) (s : PoolState D) (t : Task D) : PoolSystem D :=
  { sys with state := s, tasks := update sys.tasks agent t }

def begin (sys : PoolSystem D) (agent : Nat) (t : Task D) : Option (PoolSystem D) :=
  match sys.tasks agent with
  | .idle => some (sys.setTask agent sys.state t)
  | _ => none

def isDue (s : PoolState D) (p : PageId) : Bool := s.cleared p < s.due p

def step (sys : PoolSystem D) : PoolAction D → Option (PoolSystem D)
  | .fetchPage agent p => sys.begin agent (.fetchLookup p)
  | .newPage agent relationId => sys.begin agent (.allocate relationId)
  | .flushPage agent p => sys.begin agent (.flushNext [p] 1)
  | .flushAll agent pages =>
    if pages.isPerm sys.state.table.keys then sys.begin agent (.flushNext pages pages.length)
    else none
  | .flushSome agent limit pages =>
    if pages.isPerm sys.state.table.keys then sys.begin agent (.flushNext pages limit)
    else none
  | .snapshot agent relationId =>
    sys.begin agent (.snapNext {
      relationId
      pages := ((sys.state.modifiedPages relationId).sort (· ≤ ·)).map (⟨relationId, ·⟩)
      due := isDue sys.state })
  | .clearModified relationId pageNumbers =>
    some { sys with state := sys.state.clearModifiedRelationPages relationId pageNumbers }
  | .write agent data =>
    match sys.tasks agent with
    | .holding p slot _ =>
      if sys.state.frameLocks slot ≠ none then none
      else some (sys.setTask agent (sys.state.write p slot data)
        (.holding p slot (sys.state.version p + 1)))
    | _ => none
  | .drop agent =>
    match sys.tasks agent with
    | .holding p slot wrote =>
      if sys.state.frameLocks slot ≠ none then none
      else some (sys.setTask agent sys.state (.tracking p slot wrote
        (if (sys.state.frames slot).dirty then some (sys.state.version p) else none)))
    | _ => none
  | .step agent =>
    match (sys.tasks agent).advance cfg sys.state agent with
    | none => none
    | some (s, t) =>
      match sys.tasks agent with
      | .snapNext ⟨relationId, [], copied, due⟩ =>
        some { sys.setTask agent s t with
          snapshots := sys.snapshots ++ [(relationId, due, copied.map (·.1))] }
      | _ => some (sys.setTask agent s t)
  | .allocated agent pageNumber =>
    match sys.tasks agent with
    | .allocate relationId =>
      let p : PageId := ⟨relationId, pageNumber⟩
      let s := sys.state
      if s.allocated p ∨ s.store p ≠ none then none
      else some (sys.setTask agent { s with
        allocated := update s.allocated p true
        store := update s.store p cfg.allocated } (.newLock p))
    | _ => none
  | .sweep agent pinned =>
    match sys.tasks agent with
    | .findVictim p data =>
      let r := sys.state.clock.findVictim pinned
      match r.1 with
      | some slot => some (sys.setTask agent { sys.state with clock := r.2 } (.evict p data slot))
      | none => some (sys.setTask agent { sys.state.unlock cfg p with clock := r.2 } .idle)
    | _ => none
  | .fail agent => ((sys.tasks agent).fails cfg sys.state).map fun s => sys.setTask agent s .idle

def init : PoolSystem D := { state := .init cfg }

def guardPage (sys : PoolSystem D) (agent : Nat) : Option (PageId × D) :=
  match sys.tasks agent with
  | .holding p slot _ => some (p, (sys.state.frames slot).data)
  | _ => none

end PoolSystem

end AionDb.Pool
