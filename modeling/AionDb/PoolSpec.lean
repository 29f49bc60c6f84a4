import AionDb.PoolModel

/-!
# The pool refines a page map

What every task relies on while it runs (`Relies`) and what holds of the shared
state (`Sound`). Each effect on the shared state keeps both; a step of a task
is one or two effects, after which only the agent's own task has to be looked at.
-/

namespace AionDb.Pool

open Std ExtTreeMap Function Pool.Task

variable {D : Type*}

namespace Task

def locked : Task D → Option PageId
  | .lockedLookup p | .lockedPin p _ | .load p | .popFree p _ | .fillFrame p _ _
  | .enterTable p _ | .findVictim p _ | .evict p _ _ | .replace p _ _ | .enterClock p _
  | .accessClock p _ true | .flushLookup p _ _ | .flushFrame p _ _ _ | .snapLookup p _
  | .snapFrame p _ _ | .snapStore p _ => some p
  | _ => none

def absent : Task D → Option PageId
  | .load p | .popFree p _ | .fillFrame p _ _ | .enterTable p _ | .findVictim p _ | .evict p _ _
  | .replace p _ _ | .snapStore p _ => some p
  | _ => none

def carries : Task D → Option (PageId × D)
  | .popFree p data | .fillFrame p data _ | .findVictim p data | .evict p data _
  | .replace p data _ => some (p, data)
  | _ => none

def pinned : Task D → Option (PageId × Nat)
  | .enterTable p slot | .enterClock p slot | .accessClock p slot _ | .holding p slot _
  | .tracking p slot _ _ | .unpinning p slot _ => some (p, slot)
  | _ => none

def taken : Task D → Option Nat
  | .fillFrame _ _ slot | .enterTable _ slot => some slot
  | _ => none

def entering : Task D → Option (PageId × Nat)
  | .enterTable p slot => some (p, slot)
  | _ => none

def uses : Task D → Option Nat
  | .fetchPin _ slot | .lockedPin _ slot | .evict _ _ slot | .replace _ _ slot
  | .enterClock _ slot | .accessClock _ slot _ | .holding _ slot _ | .tracking _ slot _ _
  | .unpinning _ slot _ | .flushFrame _ slot _ _ | .snapFrame _ slot _ => some slot
  | _ => none

def looked : Task D → Option (PageId × Nat)
  | .snapFrame p slot _ => some (p, slot)
  | _ => none

def frame : Task D → Option Nat
  | .replace _ _ slot => some slot
  | _ => none

variable {t : Task D} {p : PageId} {data : D} {slot : Nat}

theorem locked_of_absent (h : t.absent = some p) : t.locked = some p := by
  cases t <;> first | exact h | cases h

theorem absent_of_carries (h : t.carries = some (p, data)) : t.absent = some p := by
  cases t <;> cases h <;> rfl

theorem absent_of_entering (h : t.entering = some (p, slot)) : t.absent = some p := by
  cases t <;> cases h
  rfl

theorem taken_of_entering (h : t.entering = some (p, slot)) : t.taken = some slot := by
  cases t <;> cases h
  rfl

theorem locked_of_looked (h : t.looked = some (p, slot)) : t.locked = some p := by
  cases t <;> cases h
  rfl

theorem uses_of_frame (h : t.frame = some slot) : t.uses = some slot := by
  cases t <;> cases h
  rfl

theorem uses_or_taken_of_pinned (h : t.pinned = some (p, slot)) :
    t.uses = some slot ∨ t.taken = some slot := by
  cases t <;> cases h <;> first | exact .inl rfl | exact .inr rfl

end Task

/-! ## Invariants -/

structure Relies (cfg : PoolConfig D) (s : PoolState D) (i : Nat) (t : Task D) : Prop where
  locked : ∀ p, t.locked = some p → s.pageLocks (cfg.pageLoadLock p) = some i
  absent : ∀ p, t.absent = some p → s.table[p]? = none
  carries : ∀ p data, t.carries = some (p, data) → ∀ w, s.written p = some w → data = w
  entering : ∀ p slot, t.entering = some (p, slot) → ∀ w, s.written p = some w →
    (s.frames slot).data = w
  pins : ∀ slot, i ∈ s.pins slot ↔ ∃ p, t.pinned = some (p, slot)
  page : ∀ p slot, t.pinned = some (p, slot) → (s.frames slot).id = p
  taken : ∀ slot, t.taken = some slot → s.slots slot = .taken i
  uses : ∀ slot, t.uses = some slot → s.slots slot = .used
  looked : ∀ p slot, t.looked = some (p, slot) → s.table[p]? = some slot ∨ s.table[p]? = none
  frame : ∀ slot, t.frame = some slot → s.frameLocks slot = some i ∧
    (s.frames slot).pinCount = 0 ∧
    ∀ w, s.written (s.frames slot).id = some w → s.store (s.frames slot).id = some w

/-- The table and the frames in use agree, pins are counted, and what was written last to
a page is in its frame, or in the store when the frame is clean or gone. -/
structure Sound (s : PoolState D) : Prop where
  table : ∀ p slot, s.table[p]? = some slot → (s.frames slot).id = p ∧ s.slots slot = .used
  used : ∀ slot, s.slots slot = .used → s.table[(s.frames slot).id]? = some slot
  count : ∀ slot, (s.frames slot).pinCount = (s.pins slot).card
  cached : ∀ p w slot, s.written p = some w → s.table[p]? = some slot →
    (s.frames slot).data = w ∧ ((s.frames slot).dirty = false → s.store p = some w)
  stored : ∀ p w, s.written p = some w → s.table[p]? = none → s.store p = some w
  nodup : s.freeList.Nodup
  free : ∀ slot ∈ s.freeList, s.slots slot = .free
  clock : ∀ slot, s.clock.pageAt slot ≠ none → s.slots slot = .used

section

variable {cfg : PoolConfig D} {s : PoolState D} {i j slot : Nat} {t u : Task D} {p : PageId}
  {data : D}

theorem update_proj {β : Type*} (f : Page D → β) (frames : Nat → Page D) (slot : Nat)
    (page : Page D) (h : f page = f (frames slot)) (slot' : Nat) :
    f (update frames slot page slot') = f (frames slot') := by
  by_cases hs : slot' = slot
  · rw [hs, update_self, h]
  · rw [update_of_ne hs]

theorem update_keeps {α β : Type*} [DecidableEq α] {f : α → β} {a b : α} {x y z : β} (ha : f a = x)
    (hb : f b = y) (hne : x ≠ y) : update f a z b = y := by
  rw [update_of_ne, hb]
  rintro rfl
  exact hne (ha.symm.trans hb)

variable {w : D} {page : Page D} {pins : Nat → Finset Nat} {allocated : PageId → Bool}
  {x : Option D} {q : PageId}

theorem Relies.ne_of_locked (hj : Relies cfg s j u) (hij : j ≠ i)
    (hi : s.pageLocks (cfg.pageLoadLock p) = some i) (hq : u.locked = some q) :
    q ≠ p := by
  rintro rfl
  exact hij (Option.some.inj ((hj.locked q hq).symm.trans hi))

theorem Sound.data_eq (hs : Sound s) (hused : s.slots slot = .used)
    (hw : s.written (s.frames slot).id = some w) : (s.frames slot).data = w :=
  (hs.cached _ w slot hw (hs.used slot hused)).1

theorem Relies.lock (hj : Relies cfg s j u) (hfree : s.pageLocks (cfg.pageLoadLock p) = none) :
    Relies cfg (s.lock cfg i p) j u :=
  { hj with locked := fun q hq => update_keeps hfree (hj.locked q hq) nofun }

theorem Relies.unlock (hj : Relies cfg s j u) (hij : j ≠ i)
    (hi : s.pageLocks (cfg.pageLoadLock p) = some i) : Relies cfg (s.unlock cfg p) j u :=
  { hj with locked := fun q hq =>
      update_keeps hi (hj.locked q hq) fun h => hij (Option.some.inj h).symm }

/-! ### Pinning -/

theorem Sound.setFrame (hs : Sound s) (hid : page.id = (s.frames slot).id)
    (hdata : page.data = (s.frames slot).data) (hdirty : page.dirty = (s.frames slot).dirty)
    (hcount : ∀ k, (update s.frames slot page k).pinCount = (pins k).card) :
    Sound { s.setFrame slot page with pins } := by
  have hid := update_proj Page.id s.frames slot page hid
  have hdata := update_proj Page.data s.frames slot page hdata
  have hdirty := update_proj Page.dirty s.frames slot page hdirty
  refine ⟨fun q k h => ?_, fun k h => ?_, hcount, fun q w k hw h => ?_, hs.stored, hs.nodup,
    hs.free, hs.clock⟩
  · exact ⟨(hid k).trans (hs.table q k h).1, (hs.table q k h).2⟩
  · exact (congrArg (fun x => s.table[x]?) (hid k)).trans (hs.used k h)
  · obtain ⟨h1, h2⟩ := hs.cached q w k hw h
    exact ⟨(hdata k).trans h1, fun hd => h2 ((hdirty k).symm.trans hd)⟩

theorem Sound.count_update (hs : Sound s) {P : Finset Nat} (h : page.pinCount = P.card) (k : Nat) :
    (update s.frames slot page k).pinCount = (update s.pins slot P k).card := by
  by_cases hk : k = slot
  · rw [hk, update_self, update_self, h]
  · rw [update_of_ne hk, update_of_ne hk, hs.count]

theorem Sound.pin (hs : Sound s) (hnot : i ∉ s.pins slot)
    (hmax : (s.frames slot).pinCount < u32Max) : Sound (s.pin i slot) := by
  refine hs.setFrame rfl rfl rfl (hs.count_update ?_)
  rw [Finset.card_insert_of_notMem hnot, ← hs.count]
  exact min_eq_left hmax

theorem Sound.unpin (hs : Sound s) (hmem : i ∈ s.pins slot) : Sound (s.unpin i slot) := by
  refine hs.setFrame rfl rfl rfl (hs.count_update ?_)
  rw [Finset.card_erase_of_mem hmem, ← hs.count]
  rfl

theorem Relies.setFrame (hj : Relies cfg s j u) (hlock : s.frameLocks slot = none)
    (hid : page.id = (s.frames slot).id) (hdata : page.data = (s.frames slot).data)
    (hpins : ∀ k, j ∈ pins k ↔ j ∈ s.pins k) : Relies cfg { s.setFrame slot page with pins } j u := by
  have hid := update_proj Page.id s.frames slot page hid
  have hdata := update_proj Page.data s.frames slot page hdata
  refine ⟨hj.locked, hj.absent, hj.carries, fun q k h w hw => ?_, fun k => ?_, fun q k h => ?_,
    hj.taken, hj.uses, hj.looked, fun k h => ?_⟩
  · exact (hdata k).trans (hj.entering q k h w hw)
  · exact (hpins k).trans (hj.pins k)
  · exact (hid k).trans (hj.page q k h)
  · have hne : k ≠ slot := by
      rintro rfl
      exact nomatch (hj.frame k h).1.symm.trans hlock
    have hsame : update s.frames slot page k = s.frames k := update_of_ne hne _ _
    change s.frameLocks k = some j ∧ (update s.frames slot page k).pinCount = 0 ∧ ∀ w,
      s.written (update s.frames slot page k).id = some w →
        s.store (update s.frames slot page k).id = some w
    rw [hsame]
    exact hj.frame k h

section

variable (hj : Relies cfg s j u) (hij : j ≠ i) (hlock : s.frameLocks slot = none)
include hj hij hlock

theorem Relies.pin : Relies cfg (s.pin i slot) j u := by
  refine hj.setFrame hlock rfl rfl ?_
  exact (forall_update_iff s.pins fun k P => j ∈ P ↔ j ∈ s.pins k).mpr
    ⟨by simp [hij], fun _ _ => Iff.rfl⟩

theorem Relies.unpin : Relies cfg (s.unpin i slot) j u := by
  refine hj.setFrame hlock rfl rfl ?_
  exact (forall_update_iff s.pins fun k P => j ∈ P ↔ j ∈ s.pins k).mpr
    ⟨by simp [hij], fun _ _ => Iff.rfl⟩

end

/-! ### Taking a free slot -/

theorem Sound.pop (hs : Sound s) (hlast : s.freeList.getLast? = some slot) :
    Sound { s with
      freeList := s.freeList.dropLast, slots := update s.slots slot (.taken i) } := by
  obtain ⟨init, hinit⟩ := List.getLast?_eq_some_iff.mp hlast
  have hfree : s.slots slot = .free := hs.free slot (by simp [hinit])
  have hused : ∀ k, update s.slots slot (.taken i) k = .used ↔ s.slots k = .used := by
    intro k
    by_cases hk : k = slot
    · simp [hk, hfree]
    · rw [update_of_ne hk]
  refine ⟨fun q k h => ?_, fun k h => hs.used k ((hused k).mp h), hs.count, hs.cached, hs.stored,
    ?_, fun k hk => ?_, fun k h => (hused k).mpr (hs.clock k h)⟩
  · exact ⟨(hs.table q k h).1, (hused k).mpr (hs.table q k h).2⟩
  · exact hs.nodup.sublist (List.dropLast_sublist _)
  · have hne : k ≠ slot := by
      rintro rfl
      have := hs.nodup
      rw [hinit] at this hk
      simp only [List.dropLast_concat] at hk
      exact (List.disjoint_of_nodup_append this) hk (by simp)
    exact (update_of_ne hne _ _).trans (hs.free k (List.mem_of_mem_dropLast hk))

theorem Relies.pop (hj : Relies cfg s j u) (hfree : s.slots slot = .free) {freeList : List Nat} :
    Relies cfg { s with freeList, slots := update s.slots slot (.taken i) } j u := by
  exact { hj with
    taken := fun k h => update_keeps hfree (hj.taken k h) nofun
    uses := fun k h => update_keeps hfree (hj.uses k h) nofun }

theorem Sound.count_fill (hs : Sound s) (k : Nat) :
    ((s.fill i p data slot).frames k).pinCount = ((s.fill i p data slot).pins k).card :=
  hs.count_update (Finset.card_singleton i).symm k

theorem Sound.fill (hs : Sound s) (htaken : s.slots slot = .taken i) :
    Sound (s.fill i p data slot) := by
  have hne : ∀ k, s.slots k = .used → k ≠ slot := by
    rintro k h rfl
    exact nomatch h.symm.trans htaken
  have hframe : ∀ k, s.slots k = .used → (s.fill i p data slot).frames k = s.frames k :=
    fun k h => update_of_ne (hne k h) _ _
  refine ⟨fun q k h => ?_, fun k h => ?_, hs.count_fill, fun q w k hw h => ?_, hs.stored, hs.nodup,
    hs.free, hs.clock⟩
  · rw [hframe k (hs.table q k h).2]
    exact hs.table q k h
  · rw [hframe k h]
    exact hs.used k h
  · rw [hframe k (hs.table q k h).2]
    exact hs.cached q w k hw h

/-- A frame that the agent neither takes, pins nor locks may be filled by another one. -/
theorem Relies.fill_of_ne (hj : Relies cfg s j u) (hij : j ≠ i)
    (htaken : ∀ k, u.taken = some k → k ≠ slot)
    (hpinned : ∀ q k, u.pinned = some (q, k) → k ≠ slot)
    (hlocked : ∀ k, u.frame = some k → k ≠ slot) : Relies cfg (s.fill i p data slot) j u := by
  have hframe : ∀ k, k ≠ slot → (s.fill i p data slot).frames k = s.frames k := fun k h =>
    update_of_ne h _ _
  refine ⟨hj.locked, hj.absent, hj.carries, fun q k h w hw => ?_, fun k => ?_, fun q k h => ?_,
    hj.taken, hj.uses, hj.looked, fun k h => ?_⟩
  · rw [hframe k (htaken k (taken_of_entering h))]
    exact hj.entering q k h w hw
  · change j ∈ update s.pins slot {i} k ↔ _
    by_cases hk : k = slot
    · subst hk
      rw [update_self, Finset.mem_singleton]
      exact ⟨fun h => absurd h hij, fun ⟨q, h⟩ => absurd rfl (hpinned q k h)⟩
    · rw [update_of_ne hk]
      exact hj.pins k
  · rw [hframe k (hpinned q k h)]
    exact hj.page q k h
  · rw [hframe k (hlocked k h)]
    exact hj.frame k h

theorem Relies.fill (hj : Relies cfg s j u) (hij : j ≠ i) (htaken : s.slots slot = .taken i) :
    Relies cfg (s.fill i p data slot) j u := by
  have hnotTaken : ∀ k, u.taken = some k → k ≠ slot := by
    rintro k h rfl
    have := (hj.taken k h).symm.trans htaken
    exact hij (SlotUse.taken.inj this)
  have hnotUsed : ∀ k, u.uses = some k → k ≠ slot := by
    rintro k h rfl
    exact nomatch (hj.uses k h).symm.trans htaken
  exact hj.fill_of_ne hij hnotTaken
    (fun q k h => (uses_or_taken_of_pinned h).elim (hnotUsed k) (hnotTaken k))
    fun k h => hnotUsed k (uses_of_frame h)

/-! ### Entering the table -/

theorem Sound.enterTable (hs : Sound s) (habsent : s.table[p]? = none)
    (hid : (s.frames slot).id = p) (hdata : ∀ w, s.written p = some w → (s.frames slot).data = w)
    (htaken : s.slots slot = .taken i) : Sound (s.enterTable p slot) := by
  have hslot : ∀ k, s.slots k = .used → (s.enterTable p slot).slots k = .used := fun k h =>
    update_keeps htaken h nofun
  have htable : ∀ q, (s.enterTable p slot).table[q]? = if p = q then some slot else s.table[q]? := by
    intro q
    simp [PoolState.enterTable, getElem?_insert]
  refine ⟨fun q k h => ?_, fun k h => ?_, hs.count, fun q w k hw h => ?_, fun q w hw h => ?_,
    hs.nodup, fun k hk => update_keeps htaken (hs.free k hk) nofun,
    fun k h => hslot k (hs.clock k h)⟩
  · rw [htable] at h
    split at h
    · cases h
      exact ⟨hid.trans ‹_›, update_self _ _ _⟩
    · exact ⟨(hs.table q k h).1, hslot k (hs.table q k h).2⟩
  · rw [htable]
    by_cases hk : k = slot
    · subst hk
      exact if_pos hid.symm
    · have hused : s.slots k = .used := (update_of_ne hk _ _).symm.trans h
      have htab := hs.used k hused
      rw [if_neg]
      · exact htab
      · intro (heq : p = (s.frames k).id)
        rw [← heq] at htab
        exact nomatch habsent.symm.trans htab
  · rw [htable] at h
    split at h
    · rename_i heq
      cases h
      subst heq
      exact ⟨hdata w hw, fun _ => hs.stored p w hw habsent⟩
    · exact hs.cached q w k hw h
  · rw [htable] at h
    split at h
    · cases h
    · exact hs.stored q w hw h

theorem Relies.enterTable (hj : Relies cfg s j u) (hij : j ≠ i)
    (hi : s.pageLocks (cfg.pageLoadLock p) = some i) (htaken : s.slots slot = .taken i) :
    Relies cfg (s.enterTable p slot) j u := by
  have htable : ∀ q, u.locked = some q → (s.enterTable p slot).table[q]? = s.table[q]? := by
    intro q hq
    have hne := hj.ne_of_locked hij hi hq
    simp [PoolState.enterTable, getElem?_insert, hne.symm]
  refine { hj with
    absent := fun q h => ?_
    taken := fun k h =>
      update_keeps htaken (hj.taken k h) fun h => hij (SlotUse.taken.inj h).symm
    uses := fun k h => ?_
    looked := fun q k h => ?_ }
  · rw [htable q (locked_of_absent h)]
    exact hj.absent q h
  · by_cases hk : k = slot
    · rw [hk]
      exact update_self _ _ _
    · exact (update_of_ne hk _ _).trans (hj.uses k h)
  · rw [htable q (locked_of_looked h)]
    exact hj.looked q k h

/-! ### Writing back and replacing -/

section

variable (hs : Sound s) (hused : s.slots slot = .used)
include hs hused

theorem Sound.store_update (hw : s.written q = some w)
    (hq : s.store q = some w ∨ q = (s.frames slot).id) :
    update s.store (s.frames slot).id (some (s.frames slot).data) q = some w := by
  by_cases heq : q = (s.frames slot).id
  · subst heq
    rw [update_self, hs.data_eq hused hw]
  · rw [update_of_ne heq]
    exact hq.resolve_right heq

theorem store_writeBack (hw : s.written q = some w)
    (hq : s.store q = some w) :
    (s.writeBack i slot).store q = some w := by
  unfold PoolState.writeBack
  dsimp only
  split
  · exact hs.store_update hused hw (.inl hq)
  · exact hq

theorem Sound.writeBack : Sound (s.writeBack i slot) := by
  refine { hs with cached := fun q w k hw h => ?_, stored := fun q w hw h => ?_ }
  · obtain ⟨h1, h2⟩ := hs.cached q w k hw h
    exact ⟨h1, fun hd => store_writeBack hs hused hw (h2 hd)⟩
  · exact store_writeBack hs hused hw (hs.stored q w hw h)

end

theorem Relies.writeBack (hs : Sound s) (hj : Relies cfg s j u) (hlock : s.frameLocks slot = none)
    (hused : s.slots slot = .used) : Relies cfg (s.writeBack i slot) j u := by
  refine { hj with frame := fun k h => ?_ }
  obtain ⟨h1, h2, h3⟩ := hj.frame k h
  exact ⟨update_keeps hlock h1 nofun, h2, fun w hw => store_writeBack hs hused hw (h3 w hw)⟩

theorem store_writeBack_self (hs : Sound s) (hused : s.slots slot = .used)
    (hw : s.written (s.frames slot).id = some w) :
    (s.writeBack i slot).store (s.frames slot).id = some w := by
  unfold PoolState.writeBack
  dsimp only
  split
  · exact hs.store_update hused hw (.inr rfl)
  · rename_i hclean
    exact (hs.cached _ w slot hw (hs.used slot hused)).2 (by simpa using hclean)

theorem getElem?_replace_table (i : Nat) (p : PageId) (data : D) (hs : Sound s)
    (hused : s.slots slot = .used) (q : PageId) :
    (s.replace i p data slot).table[q]? =
      if p = q then some slot else if (s.frames slot).id = q then none else s.table[q]? := by
  simp [PoolState.replace, hs.used slot hused, getElem?_insert, getElem?_erase]

section

variable (hs : Sound s)
include hs

theorem Sound.replace (hused : s.slots slot = .used) (habsent : s.table[p]? = none)
    (hdata : ∀ w, s.written p = some w → data = w)
    (hstore : ∀ w, s.written (s.frames slot).id = some w → s.store (s.frames slot).id = some w) :
    Sound (s.replace i p data slot) := by
  have htable := getElem?_replace_table i p data hs hused
  have hself : (s.replace i p data slot).frames slot = Page.pin { id := p, data } :=
    update_self _ _ _
  have hother : ∀ k, k ≠ slot → (s.replace i p data slot).frames k = s.frames k := fun k h =>
    update_of_ne h _ _
  -- A page other than the two is where it was.
  have hkeep : ∀ q k, (s.replace i p data slot).table[q]? = some k → p ≠ q →
      s.table[q]? = some k ∧ k ≠ slot := by
    intro q k h hq
    rw [htable, if_neg hq] at h
    split at h
    · cases h
    · rename_i hold
      refine ⟨h, ?_⟩
      rintro rfl
      exact hold (hs.table q k h).1
  refine ⟨fun q k h => ?_, fun k h => ?_, hs.count_fill, fun q w k hw h => ?_, fun q w hw h => ?_,
    hs.nodup, hs.free, hs.clock⟩
  · by_cases hq : p = q
    · rw [htable, if_pos hq] at h
      cases h
      rw [hself]
      exact ⟨hq, hused⟩
    · obtain ⟨h', hk⟩ := hkeep q k h hq
      rw [hother k hk]
      exact hs.table q k h'
  · by_cases hk : k = slot
    · subst hk
      rw [htable, hself]
      exact if_pos rfl
    · rw [htable, hother k hk]
      have htab := hs.used k h
      rw [if_neg, if_neg]
      · exact htab
      · intro heq
        have := hs.used slot hused
        rw [heq] at this
        exact hk (Option.some.inj (htab.symm.trans this))
      · rintro rfl
        exact nomatch habsent.symm.trans htab
  · by_cases hq : p = q
    · rw [htable, if_pos hq] at h
      cases h
      subst hq
      rw [hself]
      exact ⟨hdata w hw, fun _ => hs.stored p w hw habsent⟩
    · obtain ⟨h', hk⟩ := hkeep q k h hq
      rw [hother k hk]
      exact hs.cached q w k hw h'
  · rw [htable] at h
    split at h
    · cases h
    · split at h
      · rename_i hold
        subst hold
        exact hstore w hw
      · exact hs.stored q w hw h

theorem Relies.replace (hj : Relies cfg s j u) (hij : j ≠ i)
    (hi : s.pageLocks (cfg.pageLoadLock p) = some i) (hused : s.slots slot = .used)
    (hlock : s.frameLocks slot = some i) (hunpinned : (s.frames slot).pinCount = 0) :
    Relies cfg (s.replace i p data slot) j u := by
  have htable := getElem?_replace_table i p data hs hused
  have hempty : s.pins slot = ∅ := Finset.card_eq_zero.mp ((hs.count slot).symm.trans hunpinned)
  have hne : ∀ k, u.frame = some k → k ≠ slot := by
    rintro k h rfl
    exact hij (Option.some.inj ((hj.frame k h).1.symm.trans hlock))
  have hfill : Relies cfg (s.fill i p data slot) j u := by
    refine hj.fill_of_ne hij ?_ ?_ hne
    · rintro k h rfl
      exact nomatch (hj.taken k h).symm.trans hused
    · rintro q k h rfl
      have := (hj.pins k).mpr ⟨q, h⟩
      rw [hempty] at this
      simp at this
  refine { hfill with absent := fun q h => ?_, looked := fun q k h => ?_, frame := fun k h => ?_ }
  · rw [htable, if_neg (hj.ne_of_locked hij hi (locked_of_absent h)).symm, hj.absent q h, ite_self]
  · rw [htable, if_neg (hj.ne_of_locked hij hi (locked_of_looked h)).symm]
    split
    · exact .inr rfl
    · exact hj.looked q k h
  · exact ⟨(update_of_ne (hne k h) _ _).trans (hj.frame k h).1, (hfill.frame k h).2⟩

/-! ### Flushing, writing, allocating -/

theorem Sound.flush (hused : s.slots slot = .used) : Sound (s.flush slot) := by
  have hid := update_proj Page.id s.frames slot ((s.frames slot).markClean) rfl
  have hdata := update_proj Page.data s.frames slot ((s.frames slot).markClean) rfl
  have hcount := update_proj Page.pinCount s.frames slot ((s.frames slot).markClean) rfl
  refine ⟨fun q k h => ?_, fun k h => ?_, fun k => (hcount k).trans (hs.count k),
    fun q w k hw h => ?_, fun q w hw h => ?_, hs.nodup, hs.free, hs.clock⟩
  · exact ⟨(hid k).trans (hs.table q k h).1, (hs.table q k h).2⟩
  · exact (congrArg (fun x => s.table[x]?) (hid k)).trans (hs.used k h)
  · obtain ⟨h1, h2⟩ := hs.cached q w k hw h
    refine ⟨(hdata k).trans h1, fun hd => hs.store_update hused hw ?_⟩
    by_cases hk : k = slot
    · subst hk
      exact .inr (hs.table q k h).1.symm
    · exact .inl (h2 ((congrArg Page.dirty (update_of_ne hk _ _)).symm.trans hd))
  · exact hs.store_update hused hw (.inl (hs.stored q w hw h))

theorem Relies.flush (hj : Relies cfg s j u) (hlock : s.frameLocks slot = none)
    (hused : s.slots slot = .used) : Relies cfg (s.flush slot) j u := by
  have h : Relies cfg (s.setFrame slot (s.frames slot).markClean) j u :=
    hj.setFrame hlock rfl rfl fun _ => Iff.rfl
  refine { h with frame := fun k hk => ?_ }
  obtain ⟨h1, h2, h3⟩ := h.frame k hk
  exact ⟨h1, h2, fun w hw => hs.store_update hused hw (.inl (h3 w hw))⟩

theorem Sound.write (hused : s.slots slot = .used) (hid : (s.frames slot).id = p) :
    Sound (s.write p slot data) := by
  have hid' := update_proj Page.id s.frames slot ((s.frames slot).write data) rfl
  have hcount := update_proj Page.pinCount s.frames slot ((s.frames slot).write data) rfl
  have htab : s.table[p]? = some slot := hid ▸ hs.used slot hused
  have hold : ∀ q w, (s.write p slot data).written q = some w → q ≠ p → s.written q = some w :=
    fun q w hw hq => (update_of_ne hq _ _).symm.trans hw
  refine ⟨fun q k h => ?_, fun k h => ?_, fun k => (hcount k).trans (hs.count k),
    fun q w k hw h => ?_, fun q w hw h => ?_, hs.nodup, hs.free, hs.clock⟩
  · exact ⟨(hid' k).trans (hs.table q k h).1, (hs.table q k h).2⟩
  · exact (congrArg (fun x => s.table[x]?) (hid' k)).trans (hs.used k h)
  · by_cases hq : q = p
    · subst hq
      cases htab.symm.trans h
      have hframe : (s.write q slot data).frames slot = (s.frames slot).write data :=
        update_self _ _ _
      have hw' : data = w := by simpa [PoolState.write] using hw
      subst hw'
      rw [hframe]
      exact ⟨rfl, nofun⟩
    · have hk : k ≠ slot := by
        rintro rfl
        exact hq ((hs.table q k h).1.symm.trans hid)
      have hframe : (s.write p slot data).frames k = s.frames k := update_of_ne hk _ _
      rw [hframe]
      exact hs.cached q w k (hold q w hw hq) h
  · refine hs.stored q w (hold q w hw ?_) h
    rintro rfl
    exact nomatch htab.symm.trans h

theorem Relies.write (hj : Relies cfg s j u) (hlock : s.frameLocks slot = none)
    (hused : s.slots slot = .used) (hid : (s.frames slot).id = p) :
    Relies cfg (s.write p slot data) j u := by
  have htab : s.table[p]? = some slot := hid ▸ hs.used slot hused
  have hwritten : ∀ q w, s.table[q]? ≠ some slot → (s.write p slot data).written q = some w →
      s.written q = some w := by
    intro q w hq hw
    have hne : q ≠ p := by
      rintro rfl
      exact hq htab
    exact (update_of_ne hne _ _).symm.trans hw
  have habsent : ∀ q, u.absent = some q → s.table[q]? ≠ some slot := fun q h => by
    rw [hj.absent q h]
    exact nofun
  have hid' := update_proj Page.id s.frames slot ((s.frames slot).write data) rfl
  refine ⟨hj.locked, hj.absent, fun q d h w hw => ?_, fun q k h w hw => ?_, hj.pins,
    fun q k h => (hid' k).trans (hj.page q k h), hj.taken, hj.uses, hj.looked, fun k h => ?_⟩
  · exact hj.carries q d h w (hwritten q w (habsent q (absent_of_carries h)) hw)
  · have hk : k ≠ slot := by
      rintro rfl
      exact nomatch (hj.taken k (taken_of_entering h)).symm.trans hused
    have hframe : (s.write p slot data).frames k = s.frames k := update_of_ne hk _ _
    rw [hframe]
    exact hj.entering q k h w (hwritten q w (habsent q (absent_of_entering h)) hw)
  · obtain ⟨h1, h2, h3⟩ := hj.frame k h
    have hk : k ≠ slot := by
      rintro rfl
      exact nomatch h1.symm.trans hlock
    have hframe : (s.write p slot data).frames k = s.frames k := update_of_ne hk _ _
    rw [hframe]
    refine ⟨h1, h2, fun w hw => h3 w (hwritten _ w ?_ hw)⟩
    rw [hs.used k (hj.uses k (uses_of_frame h))]
    exact fun heq => hk (Option.some.inj heq)

end

theorem store_allocate (hnone : s.store p = none) (hq : s.store q = some w) :
    update s.store p x q = some w := update_keeps hnone hq nofun

theorem Sound.allocate (hs : Sound s) (hnone : s.store p = none) :
    Sound { s with allocated, store := update s.store p x } := by
  refine { hs with cached := fun q w k hw h => ?_, stored := fun q w hw h => ?_ }
  · obtain ⟨h1, h2⟩ := hs.cached q w k hw h
    exact ⟨h1, fun hd => store_allocate hnone (h2 hd)⟩
  · exact store_allocate hnone (hs.stored q w hw h)

theorem Relies.allocate (hj : Relies cfg s j u) (hnone : s.store p = none) :
    Relies cfg { s with allocated, store := update s.store p x } j u := by
  refine { hj with frame := fun k h => ?_ }
  obtain ⟨h1, h2, h3⟩ := hj.frame k h
  exact ⟨h1, h2, fun w hw => store_allocate hnone (h3 w hw)⟩

theorem Sound.clockInsert (hs : Sound s) (hused : s.slots slot = .used) :
    Sound { s with clock := s.clock.insert slot p } := by
  refine { hs with clock := fun k h => ?_ }
  by_cases hk : k = slot
  · rw [hk]
    exact hused
  · refine hs.clock k ?_
    have : (s.clock.insert slot p).pageAt k = s.clock.pageAt k := update_of_ne hk _ _
    rwa [← this]

end

end AionDb.Pool
