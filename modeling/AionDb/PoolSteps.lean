import AionDb.PoolSpec

/-!
# Runs of the pool

Every step keeps the invariants of the shared state and of all tasks, as long as
`new_page` brings a page that nobody has fetched and no pin count overflows.
-/

namespace AionDb.Pool

open Function

variable {D : Type*} {cfg : PoolConfig D} {s : PoolState D} {i slot : Nat} {t : Task D}
  {p : PageId} {data : D}

/-! ## What the next task relies on -/

def Task.Plain (t : Task D) : Prop :=
  t.locked = none ∧ t.absent = none ∧ t.carries = none ∧ t.entering = none ∧ t.pinned = none ∧
    t.taken = none ∧ t.uses = none ∧ t.looked = none ∧ t.frame = none

theorem Relies.plain (hnot : ∀ k, i ∉ s.pins k) (h : t.Plain) : Relies cfg s i t := by
  obtain ⟨h1, h2, h3, h4, h5, h6, h7, h8, h9⟩ := h
  constructor <;> simp_all

theorem Relies.unpinned (hnot : ∀ k, i ∉ s.pins k) (hpinned : t.pinned = none)
    (hentering : t.entering = none) (hlocked : t.locked = some p)
    (hlock : s.pageLocks (cfg.pageLoadLock p) = some i)
    (habsent : ∀ q, t.absent = some q → s.table[q]? = none)
    (hcarries : ∀ q data, t.carries = some (q, data) → ∀ w, s.written q = some w → data = w)
    (htaken : ∀ k, t.taken = some k → s.slots k = .taken i)
    (huses : ∀ k, t.uses = some k → s.slots k = .used)
    (hlooked : ∀ q k, t.looked = some (q, k) → s.table[q]? = some k ∨ s.table[q]? = none)
    (hframe : t.frame = none) : Relies cfg s i t := by
  refine ⟨fun q hq => ?_, habsent, hcarries, ?_, fun k => ?_, ?_, htaken, huses, hlooked, ?_⟩
  · cases hlocked.symm.trans hq
    exact hlock
  · simp [hentering]
  · simp [hpinned, hnot k]
  · simp [hpinned]
  · simp [hframe]

theorem Relies.pinnedFrame (hpinned : t.pinned = some (p, slot)) (huses : t.uses = some slot)
    (hother : t.absent = none ∧ t.carries = none ∧ t.entering = none ∧ t.taken = none ∧
      t.looked = none ∧ t.frame = none)
    (hlock : ∀ q, t.locked = some q → s.pageLocks (cfg.pageLoadLock q) = some i)
    (hpins : ∀ k, i ∈ s.pins k ↔ k = slot) (hid : (s.frames slot).id = p)
    (hused : s.slots slot = .used) : Relies cfg s i t := by
  obtain ⟨h1, h2, h3, h4, h5, h6⟩ := hother
  refine ⟨hlock, by simp [h1], by simp [h2], by simp [h3], fun k => ?_, fun q k h => ?_,
    by simp [h4], fun k h => ?_, by simp [h5], by simp [h6]⟩
  · rw [hpins, hpinned]
    constructor
    · rintro rfl
      exact ⟨p, rfl⟩
    · rintro ⟨q, h⟩
      cases h
      rfl
  · cases hpinned.symm.trans h
    exact hid
  · cases huses.symm.trans h
    exact hused

theorem Relies.not_mem_pins (h : Relies cfg s i t) (hpinned : t.pinned = none) (k : Nat) :
    i ∉ s.pins k := by
  rw [h.pins, hpinned]
  simp

theorem Relies.mem_pins_iff (h : Relies cfg s i t) (hpinned : t.pinned = some (p, slot)) (k : Nat) :
    i ∈ s.pins k ↔ k = slot := by
  rw [h.pins, hpinned]
  simp [eq_comm]

/-! ## The system -/

structure Inv (cfg : PoolConfig D) (sys : PoolSystem D) : Prop where
  sound : Sound sys.state
  relies : ∀ i, Relies cfg sys.state i (sys.tasks i)

theorem Inv.setTask {sys : PoolSystem D} (hinv : Inv cfg sys) (hs : Sound s)
    (hself : Relies cfg s i t)
    (hothers : ∀ j u, j ≠ i → Relies cfg sys.state j u → Relies cfg s j u) :
    Inv cfg (sys.setTask i s t) :=
  ⟨hs, (forall_update_iff sys.tasks (Relies cfg s)).mpr
    ⟨hself, fun j hj => hothers j _ hj (hinv.relies j)⟩⟩

/-- `new_page` brings a page that is in no frame and was never written, and no pin count
overflows. -/
def Orderly (sys : PoolSystem D) : PoolAction D → Prop
  | .step i =>
    match sys.tasks i with
    | .fetchPin p slot | .lockedPin p slot =>
      (sys.state.frames slot).id = p → (sys.state.frames slot).pinCount < u32Max
    | .newLock p => sys.state.table[p]? = none ∧ sys.state.written p = none
    | _ => True
  | _ => True

instance (sys : PoolSystem D) : (a : PoolAction D) → Decidable (Orderly sys a)
  | .step i => by
    unfold Orderly
    dsimp only
    split <;> infer_instance
  | .fetchPage .. | .newPage .. | .flushPage .. | .flushAll .. | .flushSome .. | .snapshot ..
  | .clearModified .. | .write .. | .drop _ | .allocated .. | .sweep .. | .fail _ =>
    inferInstanceAs (Decidable True)

section

variable {sys : PoolSystem D} {s' : PoolState D} {t' : Task D}

theorem Relies.setClock (h : Relies cfg s i t) {clock : ClockSweep} :
    Relies cfg { s with clock } i t := { h with }

theorem Sound.unlock (hs : Sound s) : Sound (s.unlock cfg p) := { hs with }

theorem Sound.lock (hs : Sound s) : Sound (s.lock cfg i p) := { hs with }

variable (hinv : Inv cfg sys)
include hinv

theorem Inv.reliesOn (ht : sys.tasks i = t) : Relies cfg sys.state i t :=
  ht ▸ hinv.relies i

theorem Inv.stay (hself : Relies cfg sys.state i t') : Inv cfg (sys.setTask i sys.state t') :=
  hinv.setTask hinv.sound hself fun _ _ _ h => h

section

variable (ht : sys.tasks i = t) (hpinned : t.pinned = none)
include ht hpinned

theorem Inv.toPlain (h : t'.Plain) : Inv cfg (sys.setTask i sys.state t') :=
  hinv.stay (.plain ((hinv.reliesOn ht).not_mem_pins hpinned) h)

theorem Inv.unlock (hlocked : t.locked = some p) (h : t'.Plain) :
    Inv cfg (sys.setTask i (sys.state.unlock cfg p) t') := by
  have hi := hinv.reliesOn ht
  refine hinv.setTask hinv.sound.unlock (.plain (hi.not_mem_pins hpinned) h) ?_
  exact fun j u hj hu => hu.unlock hj (hi.locked p hlocked)

theorem Inv.lock (hfree : sys.state.pageLocks (cfg.pageLoadLock p) = none)
    (hlocked : t'.locked = some p) (habsent : ∀ q, t'.absent = some q → sys.state.table[q]? = none)
    (hcarries : ∀ q data, t'.carries = some (q, data) → ∀ w, sys.state.written q = some w →
      data = w)
    (h : t'.pinned = none ∧ t'.entering = none ∧ t'.taken = none ∧ t'.uses = none ∧
      t'.looked = none ∧ t'.frame = none) :
    Inv cfg (sys.setTask i (sys.state.lock cfg i p) t') := by
  obtain ⟨h1, h2, h3, h4, h5, h6⟩ := h
  refine hinv.setTask hinv.sound.lock (.unpinned ((hinv.reliesOn ht).not_mem_pins hpinned) h1 h2
    hlocked (update_self _ _ _) habsent hcarries (by simp [h3]) (by simp [h4])
    (by simp [h5]) h6) fun j u _ hu => hu.lock hfree

theorem Inv.pin (huses : t.uses = some slot) (hlock : sys.state.frameLocks slot = none)
    (hid : (sys.state.frames slot).id = p) (hmax : (sys.state.frames slot).pinCount < u32Max)
    {locked : Bool} (hlocked : locked → t.locked = some p) :
    Inv cfg (sys.setTask i (sys.state.pin i slot) (.accessClock p slot locked)) := by
  have hi := hinv.reliesOn ht
  have hnot := hi.not_mem_pins hpinned
  refine hinv.setTask (hinv.sound.pin (hnot slot) hmax) (.pinnedFrame rfl rfl (by trivial) (fun q hq => ?_) (fun k => ?_) ?_ (hi.uses slot huses))
    fun j u hj hu => hu.pin hj hlock
  · cases locked with
    | false => cases hq
    | true =>
      cases hq
      exact hi.locked p (hlocked rfl)
  · change i ∈ update sys.state.pins slot _ k ↔ _
    by_cases hk : k = slot
    · subst hk
      simp
    · simp [hnot k, hk]
  · have hframe : (sys.state.pin i slot).frames slot = (sys.state.frames slot).pin :=
      update_self _ _ _
    rw [hframe]
    exact hid

end

theorem Inv.pop (ht : sys.tasks i = .popFree p data)
    (hlast : sys.state.freeList.getLast? = some slot) :
    Inv cfg (sys.setTask i { sys.state with
      freeList := sys.state.freeList.dropLast
      slots := update sys.state.slots slot (.taken i) } (.fillFrame p data slot)) := by
  have hi := hinv.reliesOn ht
  have hfree : sys.state.slots slot = .free :=
    hinv.sound.free slot (List.mem_of_getLast? hlast)
  refine hinv.setTask (hinv.sound.pop hlast) (.unpinned (hi.not_mem_pins rfl) rfl rfl rfl
    (hi.locked p rfl) hi.absent hi.carries ?_ nofun nofun rfl) fun j u _ hu => hu.pop hfree
  rintro _ ⟨⟩
  exact update_self _ _ _

theorem Inv.fill (ht : sys.tasks i = .fillFrame p data slot) :
    Inv cfg (sys.setTask i (sys.state.fill i p data slot) (.enterTable p slot)) := by
  have hi := hinv.reliesOn ht
  have htaken := hi.taken slot rfl
  have hframe : (sys.state.fill i p data slot).frames slot = Page.pin { id := p, data } :=
    update_self _ _ _
  refine hinv.setTask (hinv.sound.fill htaken) ⟨hi.locked, hi.absent, nofun, ?_, fun k => ?_, ?_,
    hi.taken, nofun, nofun, nofun⟩ fun j u hj hu => hu.fill hj htaken
  · rintro _ _ ⟨⟩ w hw
    rw [hframe]
    exact hi.carries p data rfl w hw
  · change i ∈ update sys.state.pins slot {i} k ↔ ∃ q, some (p, slot) = some (q, k)
    by_cases hk : k = slot
    · subst hk
      simp
    · simp [update_of_ne hk, hi.not_mem_pins rfl k, Ne.symm hk]
  · rintro _ _ ⟨⟩
    rw [hframe]
    rfl

theorem Inv.enterTable (ht : sys.tasks i = .enterTable p slot) :
    Inv cfg (sys.setTask i (sys.state.enterTable p slot) (.enterClock p slot)) := by
  have hi := hinv.reliesOn ht
  have htaken := hi.taken slot rfl
  have hid := hi.page p slot rfl
  refine hinv.setTask (hinv.sound.enterTable (hi.absent p rfl) hid (hi.entering p slot rfl) htaken)
    (.pinnedFrame rfl rfl (by trivial) hi.locked (hi.mem_pins_iff rfl) hid (update_self _ _ _))
    fun j u hj hu => hu.enterTable hj (hi.locked p rfl) htaken

theorem Inv.writeBack (ht : sys.tasks i = .evict p data slot)
    (hlock : sys.state.frameLocks slot = none) (hpin : ¬(sys.state.frames slot).isPinned) :
    Inv cfg (sys.setTask i (sys.state.writeBack i slot) (.replace p data slot)) := by
  have hi := hinv.reliesOn ht
  have hused := hi.uses slot rfl
  refine hinv.setTask (hinv.sound.writeBack hused) ⟨hi.locked, hi.absent, hi.carries, nofun,
    hi.pins, nofun, nofun, hi.uses, nofun, ?_⟩
    fun j u _ hu => hu.writeBack hinv.sound hlock hused
  rintro _ ⟨⟩
  have hzero : (sys.state.frames slot).pinCount = 0 := by simpa [Page.isPinned] using hpin
  exact ⟨update_self _ _ _, hzero, fun w hw => store_writeBack_self hinv.sound hused hw⟩

theorem Inv.replace (ht : sys.tasks i = .replace p data slot) :
    Inv cfg (sys.setTask i (sys.state.replace i p data slot) (.enterClock p slot)) := by
  have hi := hinv.reliesOn ht
  have hused := hi.uses slot rfl
  obtain ⟨hlock, hunpinned, hstore⟩ := hi.frame slot rfl
  refine hinv.setTask (hinv.sound.replace hused (hi.absent p rfl) (hi.carries p data rfl) hstore)
    (.pinnedFrame rfl rfl (by trivial) hi.locked (fun k => ?_) ?_ hused)
    fun j u hj hu => hu.replace hinv.sound hj (hi.locked p rfl) hused hlock hunpinned
  · change i ∈ update sys.state.pins slot {i} k ↔ _
    by_cases hk : k = slot
    · subst hk
      simp
    · simp [hi.not_mem_pins rfl k, hk]
  · have hframe : (sys.state.replace i p data slot).frames slot = Page.pin { id := p, data } :=
      update_self _ _ _
    rw [hframe]
    rfl

theorem Inv.enterClock (ht : sys.tasks i = .enterClock p slot) :
    Inv cfg (sys.setTask i { sys.state.unlock cfg p with clock := sys.state.clock.insert slot p }
      (.holding p slot 0)) := by
  have hi := hinv.reliesOn ht
  have hused := hi.uses slot rfl
  refine hinv.setTask (hinv.sound.unlock.clockInsert hused) (.pinnedFrame rfl rfl (by trivial) nofun (hi.mem_pins_iff rfl) (hi.page p slot rfl) hused)
    fun j u hj hu => (hu.unlock hj (hi.locked p rfl)).setClock

theorem Inv.accessClock {locked : Bool} (ht : sys.tasks i = .accessClock p slot locked) :
    Inv cfg (sys.setTask i
      { if locked then sys.state.unlock cfg p else sys.state with
        clock := sys.state.clock.access slot } (.holding p slot 0)) := by
  have hi := hinv.reliesOn ht
  have hself : Relies cfg sys.state i (.holding p slot 0) := .pinnedFrame rfl rfl (by trivial) nofun (hi.mem_pins_iff rfl) (hi.page p slot rfl)
    (hi.uses slot rfl)
  cases locked with
  | false => exact hinv.setTask { hinv.sound with } hself.setClock fun j u _ hu => hu.setClock
  | true =>
    refine hinv.setTask { hinv.sound with } { hself with locked := nofun } ?_
    exact fun j u hj hu => (hu.unlock hj (hi.locked p rfl)).setClock

theorem Inv.keepPin (ht : sys.tasks i = t) (hpinned : t.pinned = some (p, slot))
    (huses : t.uses = some slot) (hs : Sound s')
    (hothers : ∀ j u, Relies cfg sys.state j u → Relies cfg s' j u)
    (h : t'.pinned = some (p, slot) ∧ t'.uses = some slot ∧ t'.locked = none ∧
      t'.absent = none ∧ t'.carries = none ∧ t'.entering = none ∧ t'.taken = none ∧
      t'.looked = none ∧ t'.frame = none) : Inv cfg (sys.setTask i s' t') := by
  obtain ⟨h1, h2, h3, h4, h5, h6, h7, h8, h9⟩ := h
  have hi := hinv.reliesOn ht
  have hself : Relies cfg sys.state i t' := .pinnedFrame h1 h2 ⟨h4, h5, h6, h7, h8, h9⟩
    (by simp [h3]) (hi.mem_pins_iff hpinned) (hi.page p slot hpinned) (hi.uses slot huses)
  exact hinv.setTask hs (hothers i t' hself) fun j u _ hu => hothers j u hu

theorem Inv.unpin {wrote : Nat} (ht : sys.tasks i = .unpinning p slot wrote)
    (hlock : sys.state.frameLocks slot = none) {due : PageId → Nat} :
    Inv cfg (sys.setTask i { sys.state.unpin i slot with due } .idle) := by
  have hi := hinv.reliesOn ht
  have hmem : i ∈ sys.state.pins slot := (hi.mem_pins_iff rfl slot).mpr rfl
  refine hinv.setTask { hinv.sound.unpin hmem with } (.plain (fun k hk => ?_) (by trivial)) fun j u hj hu => { hu.unpin hj hlock with }
  have hk : i ∈ update sys.state.pins slot ((sys.state.pins slot).erase i) k := hk
  by_cases heq : k = slot
  · subst heq
    simp at hk
  · rw [update_of_ne heq] at hk
    exact heq ((hi.mem_pins_iff rfl k).mp hk)

theorem Inv.flush {pages pages' : List PageId} {limit limit' : Nat}
    (ht : sys.tasks i = .flushFrame p slot pages limit) (hlock : sys.state.frameLocks slot = none) :
    Inv cfg (sys.setTask i ((sys.state.flush slot).unlock cfg p) (.flushNext pages' limit')) := by
  have hi := hinv.reliesOn ht
  have hused := hi.uses slot rfl
  refine hinv.setTask (hinv.sound.flush hused).unlock (.plain (hi.not_mem_pins rfl) (by trivial)) fun j u hj hu => ?_
  exact (hu.flush hinv.sound hlock hused).unlock hj (hi.locked p rfl)

theorem Inv.write {wrote wrote' : Nat} (ht : sys.tasks i = .holding p slot wrote)
    (hlock : sys.state.frameLocks slot = none) :
    Inv cfg (sys.setTask i (sys.state.write p slot data) (.holding p slot wrote')) := by
  have hi := hinv.reliesOn ht
  have hused := hi.uses slot rfl
  have hid := hi.page p slot rfl
  refine hinv.keepPin ht rfl rfl (hinv.sound.write hused hid)
    (fun j u hu => hu.write hinv.sound hlock hused hid) (by trivial)

theorem Inv.advance (hord : Orderly sys (.step i))
    (h : (sys.tasks i).advance cfg sys.state i = some (s', t')) :
    Inv cfg (sys.setTask i s' t') := by
  have hs := hinv.sound
  have hi := hinv.relies i
  cases ht : sys.tasks i with (rw [ht] at h hi; simp only [Task.advance] at h)
  | fetchLookup p =>
    split at h
    · rename_i slot hslot
      cases h
      refine hinv.stay ⟨nofun, nofun, nofun, nofun, fun k => ?_, nofun, nofun, ?_, nofun, nofun⟩
      · simp [hi.not_mem_pins rfl k, Task.pinned]
      · rintro _ ⟨⟩
        exact (hs.table p slot hslot).2
    · cases h
      exact hinv.toPlain ht rfl (by trivial)
  | fetchPin p slot =>
    simp only [Orderly, ht] at hord
    split at h
    · cases h
    rename_i hlock
    split at h
    · rename_i hid
      cases h
      exact hinv.pin ht rfl rfl (not_not.mp hlock) hid (hord hid) nofun
    · cases h
      exact hinv.toPlain ht rfl (by trivial)
  | fetchLock p =>
    split at h
    · cases h
    · rename_i hlock
      cases h
      exact hinv.lock ht rfl (not_not.mp hlock) rfl nofun nofun (by trivial)
  | lockedLookup p =>
    split at h
    · rename_i slot hslot
      cases h
      refine hinv.stay (.unpinned (hi.not_mem_pins rfl) rfl rfl rfl (hi.locked p rfl) nofun nofun
        nofun ?_ nofun rfl)
      rintro _ ⟨⟩
      exact (hs.table p slot hslot).2
    · rename_i hnone
      cases h
      refine hinv.stay (.unpinned (hi.not_mem_pins rfl) rfl rfl rfl (hi.locked p rfl) ?_ nofun
        nofun nofun nofun rfl)
      rintro _ ⟨⟩
      exact hnone
  | lockedPin p slot =>
    simp only [Orderly, ht] at hord
    split at h
    · cases h
    rename_i hlock
    split at h
    · rename_i hid
      cases h
      exact hinv.pin ht rfl rfl (not_not.mp hlock) hid (hord hid)
        fun _ => rfl
    · cases h
      exact hinv.unlock ht rfl rfl (by trivial)
  | load p =>
    split at h
    · rename_i data hdata
      cases h
      refine hinv.stay (.unpinned (hi.not_mem_pins rfl) rfl rfl rfl (hi.locked p rfl) hi.absent
        ?_ nofun nofun nofun rfl)
      rintro _ _ ⟨⟩ w hw
      rw [hs.stored p w hw (hi.absent p rfl), Option.some_or] at hdata
      exact (Option.some.inj hdata).symm
    · cases h
      exact hinv.unlock ht rfl rfl (by trivial)
  | newLock p =>
    simp only [Orderly, ht] at hord
    split at h
    · cases h
    rename_i hlock
    cases h
    refine hinv.lock ht rfl (not_not.mp hlock) rfl ?_ ?_ (by trivial)
    · rintro _ ⟨⟩
      exact hord.1
    · rintro _ _ ⟨⟩ w hw
      exact nomatch hord.2.symm.trans hw
  | popFree p data =>
    split at h
    · rename_i slot hlast
      cases h
      exact hinv.pop ht hlast
    · cases h
      exact hinv.stay (.unpinned (hi.not_mem_pins rfl) rfl rfl rfl (hi.locked p rfl) hi.absent
        hi.carries nofun nofun nofun rfl)
  | fillFrame p data slot =>
    split at h
    · cases h
    · cases h
      exact hinv.fill ht
  | enterTable p slot =>
    cases h
    exact hinv.enterTable ht
  | evict p data slot =>
    split at h
    · cases h
    rename_i hlock
    split at h
    · cases h
      exact hinv.stay (.unpinned (hi.not_mem_pins rfl) rfl rfl rfl (hi.locked p rfl) hi.absent
        hi.carries nofun nofun nofun rfl)
    · rename_i hpin
      cases h
      exact hinv.writeBack ht (not_not.mp hlock) hpin
  | replace p data slot =>
    cases h
    exact hinv.replace ht
  | enterClock p slot =>
    cases h
    exact hinv.enterClock ht
  | accessClock p slot locked =>
    cases h
    exact hinv.accessClock ht
  | tracking p slot wrote dirtyAt =>
    split at h
    · cases h
      exact hinv.keepPin ht rfl rfl { hs with } (fun j u hu => { hu with }) (by trivial)
    · cases h
      exact hinv.keepPin ht rfl rfl hs (fun j u hu => hu) (by trivial)
  | unpinning p slot wrote =>
    split at h
    · cases h
    · rename_i hlock
      cases h
      exact hinv.unpin ht (not_not.mp hlock)
  | flushNext pages limit =>
    cases pages with
    | nil =>
      cases h
      exact hinv.toPlain ht rfl (by trivial)
    | cons p pages =>
      simp only at h
      split at h
      · cases h
        exact hinv.toPlain ht rfl (by trivial)
      · split at h
        · cases h
        · rename_i hlock
          cases h
          exact hinv.lock ht rfl (not_not.mp hlock) rfl nofun nofun (by trivial)
  | flushLookup p pages limit =>
    split at h
    · rename_i slot hslot
      cases h
      refine hinv.stay (.unpinned (hi.not_mem_pins rfl) rfl rfl rfl (hi.locked p rfl) nofun nofun
        nofun ?_ nofun rfl)
      rintro _ ⟨⟩
      exact (hs.table p slot hslot).2
    · cases h
      exact hinv.unlock ht rfl rfl (by trivial)
  | flushFrame p slot pages limit =>
    split at h
    · cases h
    rename_i hlock
    split at h
    · cases h
      exact hinv.flush ht (not_not.mp hlock)
    · cases h
      exact hinv.unlock ht rfl rfl (by trivial)
  | snapNext c =>
    split at h
    · cases h
      exact hinv.setTask { hs with } (.plain (hi.not_mem_pins rfl) (by trivial)) fun j u _ hu => { hu with }
    · split at h
      · cases h
      · rename_i hlock
        cases h
        exact hinv.lock ht rfl (not_not.mp hlock) rfl nofun nofun (by trivial)
  | snapLookup p c =>
    split at h
    · rename_i slot hslot
      cases h
      refine hinv.stay (.unpinned (hi.not_mem_pins rfl) rfl rfl rfl (hi.locked p rfl) nofun nofun
        nofun ?_ ?_ rfl)
      · rintro _ ⟨⟩
        exact (hs.table p slot hslot).2
      · rintro _ _ ⟨⟩
        exact .inl hslot
    · rename_i hnone
      cases h
      refine hinv.stay (.unpinned (hi.not_mem_pins rfl) rfl rfl rfl (hi.locked p rfl) ?_ nofun
        nofun nofun nofun rfl)
      rintro _ ⟨⟩
      exact hnone
  | snapFrame p slot c =>
    split at h
    · cases h
    split at h
    · cases h
      exact hinv.unlock ht rfl rfl (by trivial)
    -- The page has left the frame since the lookup, and nobody else can bring it back.
    rename_i hid
    cases h
    refine hinv.stay (.unpinned (hi.not_mem_pins rfl) rfl rfl rfl (hi.locked p rfl) ?_ nofun
      nofun nofun nofun rfl)
    rintro _ ⟨⟩
    exact (hi.looked p slot rfl).resolve_left fun h => hid (hs.table p slot h).1
  | snapStore p c =>
    split at h <;>
      (cases h
       exact hinv.unlock ht rfl rfl (by trivial))
  | idle | allocate relationId | findVictim p data | holding p slot wrote => cases h

end

/-! ## Every run -/

namespace PoolSystem

variable {sys sys' : PoolSystem D} {a : PoolAction D}

theorem begin_eq_some (h : sys.begin i t = some sys') :
    sys.tasks i = .idle ∧ sys' = sys.setTask i sys.state t := by
  unfold begin at h
  split at h
  · cases h
    exact ⟨‹_›, rfl⟩
  · cases h

theorem inv_begin (hinv : Inv cfg sys) (h : sys.begin i t = some sys') (hplain : t.Plain) :
    Inv cfg sys' := by
  obtain ⟨ht, rfl⟩ := begin_eq_some h
  exact hinv.toPlain ht rfl hplain

theorem inv_fails (hinv : Inv cfg sys) {s' : PoolState D}
    (h : (sys.tasks i).fails cfg sys.state = some s') : Inv cfg (sys.setTask i s' .idle) := by
  cases ht : sys.tasks i with
  | load p | findVictim p data | evict p data slot | flushFrame p slot pages limit
  | snapStore p c =>
    rw [ht] at h
    cases h
    exact hinv.unlock ht rfl rfl (by trivial)
  | allocate relationId =>
    rw [ht] at h
    cases h
    exact hinv.toPlain ht rfl (by trivial)
  | _ =>
    rw [ht] at h
    cases h

variable {clock : ClockSweep} {pinned : Nat → Bool} {k : Nat}

section

variable (hinv : Inv cfg sys)
include hinv

theorem inv_sweep (ht : sys.tasks i = .findVictim p data)
    (h : sys.state.clock.findVictim pinned = (some slot, clock)) :
    Inv cfg (sys.setTask i { sys.state with clock } (.evict p data slot)) := by
  have hi := hinv.reliesOn ht
  obtain ⟨hpages, hvictim⟩ := ClockSweep.findVictim_spec pinned sys.state.clock
  rw [h] at hpages hvictim
  have hs : Sound { sys.state with clock } :=
    { hinv.sound with clock := fun k hk => hinv.sound.clock k (by rwa [← hpages]) }
  refine hinv.setTask hs (.unpinned (hi.not_mem_pins rfl) rfl rfl rfl (hi.locked p rfl) hi.absent
    hi.carries nofun ?_ nofun rfl) fun j u _ hu => hu.setClock
  rintro _ ⟨⟩
  exact hinv.sound.clock slot (hvictim slot rfl)

theorem inv_exhausted (ht : sys.tasks i = .findVictim p data)
    (h : sys.state.clock.findVictim pinned = (none, clock)) :
    Inv cfg (sys.setTask i { sys.state.unlock cfg p with clock } .idle) := by
  have hi := hinv.reliesOn ht
  have hpages := (ClockSweep.findVictim_spec pinned sys.state.clock).1
  rw [h] at hpages
  have hs : Sound { sys.state.unlock cfg p with clock } :=
    { hinv.sound with clock := fun k hk => hinv.sound.clock k (by rwa [← hpages]) }
  exact hinv.setTask hs (.plain (hi.not_mem_pins rfl) (by trivial))
    fun j u hj hu => (hu.unlock hj (hi.locked p rfl)).setClock

theorem inv_allocated {relationId : Nat}
    (ht : sys.tasks i = .allocate relationId) (hnone : sys.state.store p = none) {x : Option D}
    {allocated : PageId → Bool} :
    Inv cfg (sys.setTask i { sys.state with
      allocated, store := update sys.state.store p x } (.newLock p)) := by
  have hi := hinv.reliesOn ht
  exact hinv.setTask (hinv.sound.allocate hnone) (.plain (hi.not_mem_pins rfl) (by trivial)) fun j u _ hu => hu.allocate hnone

theorem step_inv (hord : Orderly sys a) (hstep : sys.step cfg a = some sys') : Inv cfg sys' := by
  cases a with (simp only [step] at hstep)
  | fetchPage i p | newPage i relationId | flushPage i p | snapshot i relationId =>
    exact inv_begin hinv hstep (by trivial)
  | flushAll i pages | flushSome i limit pages =>
    split at hstep
    · exact inv_begin hinv hstep (by trivial)
    · cases hstep
  | clearModified relationId pageNumbers =>
    cases hstep
    exact ⟨{ hinv.sound with }, fun j => { hinv.relies j with }⟩
  | write i data =>
    repeat' split at hstep
    all_goals cases hstep
    rename_i ht hlock
    exact hinv.write ht (not_not.mp hlock)
  | drop i =>
    split at hstep
    · rename_i p slot wrote ht
      split at hstep
      · cases hstep
      · cases hstep
        exact hinv.keepPin ht rfl rfl hinv.sound (fun j u hu => hu) (by trivial)
    · cases hstep
  | step i =>
    split at hstep
    · cases hstep
    rename_i s t hadv
    have h := hinv.advance hord hadv
    split at hstep
    · cases hstep
      exact ⟨h.sound, h.relies⟩
    · cases hstep
      exact h
  | allocated i pageNumber =>
    repeat' split at hstep
    all_goals cases hstep
    rename_i ht hnone
    exact inv_allocated hinv ht (not_not.mp fun h => hnone (.inr h))
  | sweep i pinned =>
    split at hstep
    · rename_i p data ht
      split at hstep
      · rename_i slot hvictim
        cases hstep
        exact inv_sweep hinv ht (Prod.ext hvictim rfl)
      · rename_i hvictim
        cases hstep
        exact inv_exhausted hinv ht (Prod.ext hvictim rfl)
    · cases hstep
  | fail i =>
    obtain ⟨s, hfail, rfl⟩ := Option.map_eq_some_iff.mp hstep
    exact inv_fails hinv hfail

end

theorem inv_init : Inv cfg (init cfg) := by
  refine ⟨⟨fun p slot h => ?_, nofun, fun slot => rfl, nofun, nofun, ?_, fun slot h => rfl,
    fun slot h => absurd rfl h⟩, fun i => ?_⟩
  · simp [init, PoolState.init] at h
  · exact List.nodup_reverse.mpr List.nodup_range
  · exact .plain (fun k => Finset.notMem_empty i) (by trivial)

theorem id_advance {s' : PoolState D} {t' : Task D} (h : t.advance cfg s i = some (s', t'))
    (k : Nat) : (s'.frames k).id = (s.frames k).id ∨ t.taken = some k ∨ t.frame = some k := by
  have hkeep : ∀ slot (page : Page D), page.id = (s.frames slot).id →
      (update s.frames slot page k).id = (s.frames k).id := fun slot page hid =>
    update_proj Page.id s.frames slot page hid k
  have hfill : ∀ slot (page : Page D), k ≠ slot →
      (update s.frames slot page k).id = (s.frames k).id := fun slot page hk => by
    rw [update_of_ne hk]
  cases t with
  | fillFrame p data slot =>
    simp only [Task.advance] at h
    split at h
    · cases h
    · cases h
      by_cases hk : k = slot
      · exact .inr (.inl (hk ▸ rfl))
      · exact .inl (hfill _ _ hk)
  | replace p data slot =>
    cases h
    by_cases hk : k = slot
    · exact .inr (.inr (hk ▸ rfl))
    · exact .inl (hfill _ _ hk)
  | accessClock p slot locked =>
    cases h
    cases locked <;> exact .inl rfl
  | flushNext pages limit =>
    cases pages with (simp only [Task.advance] at h)
    | nil => cases h; exact .inl rfl
    | cons p pages =>
      repeat' split at h
      all_goals cases h
      all_goals exact .inl rfl
  | _ =>
    -- the frames are kept, or one of them changes and its page stays
    simp only [Task.advance] at h
    repeat' split at h
    all_goals cases h
    all_goals first | exact .inl rfl | exact .inl (hkeep _ _ rfl)

theorem pinCount_eq_zero (hinv : Inv cfg sys)
    (h : (sys.tasks i).pinned = none ∧ (sys.tasks i).taken = some k ∨
      (sys.tasks i).frame = some k) : (sys.state.frames k).pinCount = 0 := by
  rcases h with ⟨hpinned, htaken⟩ | h
  · rw [hinv.sound.count, Finset.card_eq_zero, Finset.eq_empty_iff_forall_notMem]
    intro j hj
    have hslot := (hinv.relies i).taken k htaken
    obtain ⟨q, hq⟩ := ((hinv.relies j).pins k).mp hj
    rcases Task.uses_or_taken_of_pinned hq with hu | hu
    · exact nomatch ((hinv.relies j).uses k hu).symm.trans hslot
    · cases ((hinv.relies j).taken k hu).symm.trans hslot
      exact nomatch hpinned.symm.trans hq
  · exact ((hinv.relies i).frame k h).2.1

theorem step_id (hinv : Inv cfg sys) (hstep : sys.step cfg a = some sys')
    (hpin : (sys.state.frames k).isPinned) :
    (sys'.state.frames k).id = (sys.state.frames k).id := by
  have hne : (sys.state.frames k).pinCount ≠ 0 := by
    simpa [Page.isPinned, Nat.pos_iff_ne_zero] using hpin
  have hbegin : ∀ {i t}, sys.begin i t = some sys' →
      (sys'.state.frames k).id = (sys.state.frames k).id := fun h => by
    obtain ⟨-, rfl⟩ := begin_eq_some h
    rfl
  cases a with (simp only [step] at hstep)
  | fetchPage i p | newPage i relationId | flushPage i p | snapshot i relationId =>
    exact hbegin hstep
  | flushAll i pages | flushSome i limit pages =>
    split at hstep
    · exact hbegin hstep
    · cases hstep
  | write i data =>
    repeat' split at hstep
    all_goals cases hstep
    exact update_proj Page.id sys.state.frames _ ((sys.state.frames _).write data) rfl k
  | clearModified | drop | allocated | sweep =>
    repeat' split at hstep
    all_goals cases hstep
    all_goals rfl
  | step i =>
    split at hstep
    · cases hstep
    rename_i s t hadv
    have hid : (s.frames k).id = (sys.state.frames k).id := by
      rcases id_advance hadv k with h | h | h
      · exact h
      · by_cases hpinned : (sys.tasks i).pinned = none
        · exact absurd (pinCount_eq_zero hinv (.inl ⟨hpinned, h⟩)) hne
        cases ht : sys.tasks i with
        | enterTable p slot =>
          rw [ht] at hadv
          cases hadv
          rfl
        | _ => simp_all [Task.taken, Task.pinned]
      · exact absurd (pinCount_eq_zero hinv (.inr h)) hne
    split at hstep <;> (cases hstep; exact hid)
  | fail i =>
    obtain ⟨s, hfail, rfl⟩ := Option.map_eq_some_iff.mp hstep
    cases ht : sys.tasks i <;> (rw [ht] at hfail; cases hfail) <;> rfl

/-- In every run in which `new_page` brings a page nobody has fetched and no pin count
overflows, a read through a guard returns the last write to its page, and no step gives
a pinned frame to another page. -/
theorem pool_refines_page_map {as : List (PoolAction D)}
    (hrun : Run.run (step cfg) (init cfg) as = some sys)
    (hord : Run.Along (step cfg) Orderly (init cfg) as) :
    (∀ i p data, sys.guardPage i = some (p, data) → ∀ w, sys.state.written p = some w → data = w) ∧
    (∀ a sys', sys.step cfg a = some sys' → ∀ k, (sys.state.frames k).isPinned →
      (sys'.state.frames k).id = (sys.state.frames k).id) := by
  have hinv : Inv cfg sys := Run.run_preserves_along step_inv inv_init hord hrun
  refine ⟨fun i p data hguard w hw => ?_, fun a sys' hstep k hpin => step_id hinv hstep hpin⟩
  have hi := hinv.relies i
  unfold guardPage at hguard
  split at hguard
  · rename_i ht
    cases hguard
    rw [ht] at hi
    have hid := hi.page p _ rfl
    rw [← hid] at hw
    exact hinv.sound.data_eq (hi.uses _ rfl) hw
  · cases hguard

/-- A pool over a store of files, where a page that was never written reads as zero. -/
def filePool (capacity : Nat) : PoolConfig Nat :=
  { capacity, zero := 0, absent := some 0, allocated := some 0 }

def steps (n agent : Nat) : List (PoolAction Nat) := List.replicate n (.step agent)

/-- A page is written, leaves the only frame for another one, and is fetched again. -/
def evictAndReturn : List (PoolAction Nat) :=
  [.newPage 0 1, .allocated 0 0] ++ steps 5 0 ++ [.write 0 7, .drop 0] ++ steps 2 0 ++
    [.fetchPage 1 ⟨1, 1⟩] ++ steps 5 1 ++ [.sweep 1 fun _ => false] ++ steps 3 1 ++ [.drop 1] ++
    steps 2 1 ++ [.fetchPage 2 ⟨1, 0⟩] ++ steps 5 2 ++ [.sweep 2 fun _ => false] ++ steps 3 2

theorem pool_refines_page_map_evictAndReturn :
    ∃ sys, Run.run (step (filePool 1)) (init (filePool 1)) evictAndReturn = some sys ∧
      sys.state.written ⟨1, 0⟩ = some 7 ∧ ∃ data, sys.guardPage 2 = some (⟨1, 0⟩, data) ∧ data = 7 := by
  have hrun : Run.run (step (filePool 1)) (init (filePool 1)) evictAndReturn =
      some (Run.after (step (filePool 1)) (init (filePool 1)) evictAndReturn) :=
    Run.run_eq_some_after (by decide +kernel)
  refine ⟨_, hrun, by decide +kernel, 7, by decide +kernel, ?_⟩
  exact (pool_refines_page_map hrun (by decide +kernel)).1 2 ⟨1, 0⟩ 7 (by decide +kernel) 7
    (by decide +kernel)

/-- `new_page` has been given a page and another agent fetches it before `new_page`
takes its lock: the page then has two frames, and what is written to one is not read
from the other. -/
theorem new_page_doubles_frame :
    ∃ sys, Run.run (step (filePool 2)) (init (filePool 2))
        ([.newPage 0 1, .allocated 0 0, .fetchPage 1 ⟨1, 0⟩] ++ steps 8 1 ++ steps 5 0 ++
          [.write 0 7]) = some sys ∧
      sys.state.written ⟨1, 0⟩ = some 7 ∧ sys.guardPage 1 = some (⟨1, 0⟩, 0) := by
  exact ⟨_, Run.run_eq_some_after (by decide +kernel), by decide +kernel, by decide +kernel⟩

end PoolSystem

end AionDb.Pool
