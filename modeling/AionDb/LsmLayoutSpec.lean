import AionDb.LsmLayout
import AionDb.LibMap
import AionDb.LibRun

/-!
# The last published snapshot is the one that is read

The store goes through three phases: nothing was written, the first run was
written without a manifest that names it, and a manifest names the newest run
(`LsmManifest.Names`). Every file operation of a checkpoint stays within them,
so a crash between any two operations does too. A merge keeps the newest
snapshot when no older run has more chunks (`foldl_orInsertChunks`).
-/

namespace AionDb

open Std.ExtTreeMap List

open Std (ExtTreeMap)
open Effect

variable {blockSize : Nat}

/-! ## Runs -/

def LsmRun.Readable (blockSize : Nat) (run : LsmRun) : Prop :=
  blockCount blockSize 0 run.entrySizes ≤ maxSstableBlockCount

instance (run : LsmRun) : Decidable (run.Readable blockSize) := Nat.decLe _ _

def LsmRun.Holds (run : LsmRun) (bytes : SnapshotBytes) : Prop :=
  run.chunks ≠ [] ∧ run.chunks.flatten = bytes

theorem readRun_eq {run : LsmRun} (h : run.Readable blockSize) : readRun blockSize run = .ok run :=
  if_neg (Nat.not_lt.mpr h)

theorem flatten_sliceChunks {n : Nat} (hn : 0 < n) (fuel : Nat) (bytes : SnapshotBytes)
    (hfuel : bytes.length ≤ fuel) : (sliceChunks n fuel bytes).flatten = bytes := by
  induction fuel generalizing bytes with
  | zero => simpa [sliceChunks] using (length_eq_zero_iff.mp (Nat.le_zero.mp hfuel)).symm
  | succ fuel ih =>
    cases bytes with
    | nil => rfl
    | cons b bs =>
      have hlen : ((b :: bs).drop n).length ≤ fuel := by
        simp only [length_drop, length_cons] at *
        omega
      rw [sliceChunks, flatten_cons, ih _ hlen, take_append_drop]

theorem checkpointRun_holds (checkpoint : CheckpointInfo) (bytes : SnapshotBytes) :
    (checkpointRun blockSize checkpoint bytes).Holds bytes := by
  cases bytes with
  | nil => exact ⟨by simp [checkpointRun], rfl⟩
  | cons b bs =>
    refine ⟨by simp [checkpointRun, sliceChunks], ?_⟩
    exact flatten_sliceChunks (by omega) _ _ le_rfl

theorem foldl_orInsertChunks {runs : List LsmRun} {chunks : List SnapshotBytes}
    (h : ∀ run ∈ runs, run.chunks.length ≤ chunks.length) :
    runs.foldl (fun merged run => orInsertChunks merged run.chunks) chunks = chunks := by
  induction runs with
  | nil => rfl
  | cons run runs ih =>
    have hrun : orInsertChunks chunks run.chunks = chunks := by
      rw [orInsertChunks, drop_eq_nil_of_le (h run mem_cons_self), append_nil]
    rw [foldl_cons, hrun]
    exact ih fun run hrun => h run (mem_cons_of_mem _ hrun)

/-! ## Manifests -/

/-- The manifest names files that are there, and `newest`, the run with the largest id, holds the
snapshot. -/
structure LsmManifest.Names (m : LsmManifest) (s : LsmStore) (newest : LsmRunManifestEntry)
    (bytes : SnapshotBytes) : Prop where
  file : ∀ e ∈ m.runs, (s.file e).isSome
  levelZero : ∀ e ∈ m.levelZeroRuns, e.level = 0
  levelOne : ∀ e ∈ m.levelOneRuns, e.level = 1
  below : ∀ e ∈ m.runs, e.id < m.nextSstableId
  mem : newest ∈ m.runs
  largest : ∀ e ∈ m.runs, e = newest ∨ e.id < newest.id
  holds : ∃ run, s.file newest = some run ∧ run.Holds bytes

variable {m : LsmManifest} {s s' : LsmStore} {newest : LsmRunManifestEntry} {bytes : SnapshotBytes}

theorem LsmManifest.Names.congr (h : m.Names s newest bytes)
    (hfile : ∀ e ∈ m.runs, s'.file e = s.file e) : m.Names s' newest bytes where
  file e he := by rw [hfile e he]; exact h.file e he
  levelZero := h.levelZero
  levelOne := h.levelOne
  below := h.below
  mem := h.mem
  largest := h.largest
  holds := by rw [hfile newest h.mem]; exact h.holds

variable {runs : List LsmRunManifestEntry} {e : LsmRunManifestEntry}

theorem mem_sortByIdDesc : e ∈ sortByIdDesc runs ↔ e ∈ runs :=
  mem_insertionSort _

theorem LsmManifest.Names.canonicalize (h : m.Names s newest bytes)
    (discovered : List LsmRunManifestEntry) :
    (AionDb.canonicalize m discovered).Names s newest bytes := by
  have hruns : ∀ e, e ∈ (AionDb.canonicalize m discovered).runs ↔ e ∈ m.runs := by
    intro e
    simp only [AionDb.canonicalize, LsmManifest.runs, mem_append, mem_sortByIdDesc]
  constructor
  · exact fun e he => h.file e ((hruns e).mp he)
  · exact fun e he => h.levelZero e (mem_sortByIdDesc.mp he)
  · exact fun e he => h.levelOne e (mem_sortByIdDesc.mp he)
  · intro e he
    have hlt := h.below e ((hruns e).mp he)
    simp only [AionDb.canonicalize]
    omega
  · exact (hruns newest).mpr h.mem
  · exact fun e he => h.largest e ((hruns e).mp he)
  · exact h.holds

theorem LsmManifest.Names.newestRunEntry (h : m.Names s newest bytes) :
    newestRunEntry m = some newest := by
  refine argmax_eq_some_iff.mpr ⟨h.mem, fun e he => ?_, fun e he hle => ?_⟩
  · rcases h.largest e he with rfl | hlt
    · exact le_rfl
    · exact hlt.le
  · rcases h.largest e he with rfl | hlt
    · exact le_rfl
    · omega

theorem sortByIdDesc_head (h : ∀ e' ∈ runs, e'.id < e.id) :
    ∃ rest, sortByIdDesc (e :: runs) = e :: rest ∧
      (∀ e', e' ∈ rest ↔ e' ∈ runs) ∧ rest.length = runs.length := by
  have hsorted : sortByIdDesc (e :: runs) = e :: sortByIdDesc runs := by
    rw [sortByIdDesc, insertionSort_cons]
    cases hr : List.insertionSort (fun a b => b.id ≤ a.id) runs with
    | nil => simp [sortByIdDesc, hr]
    | cons first rest =>
      have hfirst : first ∈ runs :=
        (mem_insertionSort (fun a b => b.id ≤ a.id)).mp (hr ▸ mem_cons_self)
      have hle : first.id ≤ e.id := (h first hfirst).le
      simp [sortByIdDesc, hr, List.orderedInsert, hle]
  exact ⟨_, hsorted, fun e' => mem_sortByIdDesc, length_insertionSort _ _⟩

/-! ## Loading the manifest -/

def LsmStore.AllReadable (blockSize : Nat) (s : LsmStore) : Prop :=
  (∀ (id : Nat) (run : LsmRun), s.levelZero[id]? = some run → run.Readable blockSize) ∧
    ∀ (id : Nat) (run : LsmRun), s.levelOne[id]? = some run → run.Readable blockSize

theorem discoverRunsInLevel_eq {files : ExtTreeMap Nat LsmRun} (level : Nat)
    (h : ∀ (id : Nat) (run : LsmRun), files[id]? = some run → run.Readable blockSize) :
    discoverRunsInLevel blockSize files level =
      .ok (files.toList.reverse.map fun file => ⟨file.1, level, file.2.checkpoint⟩) := by
  rw [discoverRunsInLevel, mapM_eq_ok, forall₂_map_right_iff, forall₂_same]
  intro file hfile
  have hget := mem_toList_iff_getElem?_eq_some.mp (mem_reverse.mp hfile)
  simp only [readRun_eq (h _ _ hget)]
  rfl

theorem LsmManifest.Names.not_blank (h : m.Names s newest bytes) : m.isBlank = false := by
  have hmem := h.mem
  simp only [LsmManifest.runs, mem_append] at hmem
  rcases hmem with hmem | hmem
  · have hne := isEmpty_eq_false_iff.mpr (ne_nil_of_mem hmem)
    simp [LsmManifest.isBlank, hne]
  · have hne := isEmpty_eq_false_iff.mpr (ne_nil_of_mem hmem)
    simp [LsmManifest.isBlank, hne]

theorem LsmManifest.Names.load (h : m.Names s newest bytes) (hread : s.AllReadable blockSize)
    (hm : s.manifest = some m) :
    ∃ discovered, loadCanonicalLsmManifest blockSize s = .ok (AionDb.canonicalize m discovered) := by
  have hall : (m.runs.all fun run => (s.file run).isSome) = true :=
    all_eq_true.mpr h.file
  rw [loadCanonicalLsmManifest, discoverRunsInLevel_eq 0 hread.1, discoverRunsInLevel_eq 1 hread.2]
  simp only [bind, Except.bind, hm, Option.getD_some, h.not_blank, hall, if_true]
  exact ⟨_, rfl⟩

theorem load_of_blank (hread : s.AllReadable blockSize)
    (hm : s.manifest.getD defaultLsmManifest = defaultLsmManifest) (hone : s.levelOne.toList = []) :
    let discovered := s.levelZero.toList.reverse.map fun file => ⟨file.1, 0, file.2.checkpoint⟩
    loadCanonicalLsmManifest blockSize s =
      .ok (canonicalize ⟨1, none, discovered, []⟩ discovered) := by
  rw [loadCanonicalLsmManifest, discoverRunsInLevel_eq 0 hread.1, discoverRunsInLevel_eq 1 hread.2]
  simp only [bind, Except.bind, hm, hone, reverse_nil, map_nil, append_nil]
  rfl

theorem LsmManifest.Names.read (h : m.Names s newest bytes) (hread : s.AllReadable blockSize) :
    readRunSnapshotBytes blockSize s newest = .ok (some bytes) := by
  obtain ⟨run, hfile, hne, rfl⟩ := h.holds
  have hreadable : run.Readable blockSize := by
    simp only [LsmStore.file] at hfile
    split at hfile
    · exact hread.1 _ _ hfile
    · exact hread.2 _ _ hfile
  simp only [readRunSnapshotBytes, readRunEntries, hfile, readRun_eq hreadable, bind, Except.bind,
    pure, Except.pure, isEmpty_eq_false_iff.mpr hne]
  rfl

/-! ## Phases -/

structure LsmStore.Unnamed (s : LsmStore) : Prop where
  manifest : s.manifest.getD defaultLsmManifest = defaultLsmManifest
  levelOne : s.levelOne.toList = []
  published : s.published = none

/-- The snapshot that counts is the last published one, or the first run's. -/
def LsmStore.Counts (s : LsmStore) (bytes : SnapshotBytes) : Prop :=
  s.published = some bytes ∨ s.published = none ∧ s.firstRun = some bytes

/-- Where the store stands; the first run stays unnamed only under `p`. -/
inductive LsmStore.Phase (s : LsmStore) (p : Prop) : Prop where
  | blank (unnamed : s.Unnamed) (zero : s.levelZero.toList = []) (first : s.firstRun = none)
  | first {run : LsmRun} {bytes : SnapshotBytes} (hp : p) (unnamed : s.Unnamed)
      (zero : s.levelZero.toList = [(1, run)]) (holds : run.Holds bytes)
      (first : s.firstRun = some bytes)
  | kept {m : LsmManifest} {newest : LsmRunManifestEntry} {bytes : SnapshotBytes}
      (manifest : s.manifest = some m) (names : m.Names s newest bytes) (counts : s.Counts bytes)

structure LsmStore.Stands (blockSize : Nat) (s : LsmStore) (m : LsmManifest)
    (newest : LsmRunManifestEntry) (bytes : SnapshotBytes) : Prop where
  readable : s.AllReadable blockSize
  manifest : s.manifest = some m
  names : m.Names s newest bytes
  counts : s.Counts bytes

def LsmStore.Sound (blockSize : Nat) (s : LsmStore) : Prop :=
  s.AllReadable blockSize ∧ s.Phase (s.crashed = true)

def StaysSound (blockSize : Nat) (c : LsmEff Unit) (s : LsmStore) : Prop :=
  Spec c s (fun _ => LsmStore.Sound blockSize) (LsmStore.Sound blockSize)

theorem LsmStore.Stands.sound (h : s.Stands blockSize m newest bytes) : s.Sound blockSize :=
  ⟨h.readable, .kept h.manifest h.names h.counts⟩

theorem LsmStore.Stands.sound_crashed (h : s.Stands blockSize m newest bytes) :
    { s with crashed := true }.Sound blockSize :=
  ⟨h.readable, .kept h.manifest (h.names.congr fun _ _ => rfl) h.counts⟩

/-! ## File operations -/

abbrev LsmStore.filesOf (s : LsmStore) (level : Nat) : ExtTreeMap Nat LsmRun :=
  if level = 0 then s.levelZero else s.levelOne

@[simp] abbrev LsmStore.addRun (s : LsmStore) (level runId : Nat) (run : LsmRun) : LsmStore :=
  if level = 0 then { s with levelZero := s.levelZero.insert runId run }
  else { s with levelOne := s.levelOne.insert runId run }

section

variable {Q : Unit → LsmStore → Prop} {E : LsmStore → Prop}

theorem spec_fileOp {f : LsmStore → LsmStore} (hok : ∀ budget, Q () { f s with budget })
    (hdie : E { s with crashed := true }) : Spec (fileOp f) s Q E := by
  obtain ⟨zero, one, manifest, budget, crashed, alive, firstRun, published⟩ := s
  match budget with
  | none => exact hok _
  | some 0 => exact hdie
  | some (n + 1) => exact hok (some n)

theorem spec_orWarn {c : LsmEff Unit} (h : Spec c s (fun _ => Q ()) (Q ())) :
    Spec (orWarn c) s Q E := by
  unfold Spec at *
  simp only [orWarn]
  match hr : c s with
  | (.ok a, s') => rw [hr] at h; exact h
  | (.error e, s') => rw [hr] at h; exact h

theorem spec_publish {level runId : Nat} {run : LsmRun} {note : LsmStore → LsmStore}
    (hok : runId ∉ s.filesOf level → ∀ budget, Q () { note (s.addRun level runId run) with budget })
    (herr : E s) (hdie : E { s with crashed := true }) :
    Spec (publishSstableAtomically level runId run note) s Q E := by
  unfold publishSstableAtomically
  refine spec_get_bind (spec_ite (fun _ => herr) fun hfresh => spec_ite (fun _ => herr) fun _ => ?_)
  exact spec_fileOp (hok (by simpa using hfresh)) hdie

end

/-! ## The directories -/

variable {files : ExtTreeMap Nat LsmRun} {next runId : Nat} {e : LsmRunManifestEntry}
  {checkpoint : CheckpointInfo} {run : LsmRun} {p : Prop} {a : LsmAction} {old : SnapshotBytes}

/-- A run that is added takes no file from a manifest. -/
theorem file_addRun {level : Nat} (hfresh : runId ∉ s.filesOf level) (he : (s.file e).isSome) :
    (s.addRun level runId run).file e = s.file e := by
  unfold LsmStore.addRun LsmStore.filesOf LsmStore.file at *
  by_cases hid : runId = e.id
  · subst hid
    split_ifs at * <;> simp_all
  · split_ifs <;> simp [ExtTreeMap.getElem?_insert, hid]

section

variable (h : ∀ (id : Nat) (run : LsmRun), files[id]? = some run → run.Readable blockSize)
include h

theorem readable_insert (hrun : run.Readable blockSize) (id : Nat) (run' : LsmRun)
    (hget : (files.insert runId run)[id]? = some run') : run'.Readable blockSize := by
  rw [ExtTreeMap.getElem?_insert] at hget
  split at hget
  · cases hget; exact hrun
  · exact h id run' hget

theorem readable_erase (id : Nat) (run : LsmRun) (hget : (files.erase runId)[id]? = some run) :
    run.Readable blockSize := by
  rw [getElem?_erase] at hget
  split at hget
  · cases hget
  · exact h id run hget

end

theorem spec_cleanup {E : LsmStore → Prop} (h : s.Stands blockSize m newest bytes) :
    Spec (orWarn (cleanupUnreferencedRuns m)) s (fun _ => LsmStore.Sound blockSize) E := by
  have hlevel : ∀ e ∈ m.runs, e.level ≠ 0 → e.level = 1 := by
    intro e he hne
    rcases mem_append.mp he with he | he
    · exact absurd (h.names.levelZero e he) hne
    · exact h.names.levelOne e he
  have hdie : ∀ s : LsmStore, s.Stands blockSize m newest bytes →
      { s with crashed := true }.Stands blockSize m newest bytes :=
    fun s h => ⟨h.readable, h.manifest, h.names.congr fun _ _ => rfl, h.counts⟩
  have hspec : Spec (cleanupUnreferencedRuns m) s (fun _ s => s.Stands blockSize m newest bytes)
      fun s => s.Stands blockSize m newest bytes := by
    refine spec_get_bind (spec_bind (spec_forM _ ?_ h) fun _ s' hs' => spec_forM _ ?_ hs')
    · rintro runId hmem s hs
      have hnot := (mem_filter.mp hmem).2
      refine spec_fileOp (fun budget => ⟨⟨readable_erase hs.readable.1, hs.readable.2⟩,
        hs.manifest, hs.names.congr fun e he => ?_, hs.counts⟩) (hdie s hs)
      by_cases hzero : e.level = 0
      · have hne : ¬ runId = e.id := by
          rintro rfl
          simp only [Bool.not_eq_true', any_eq_false, decide_eq_true_eq, not_and] at hnot
          exact hnot e he hzero rfl
        simp [LsmStore.file, hzero, getElem?_erase, hne]
      · simp [LsmStore.file, hzero]
    · rintro runId hmem s hs
      have hnot := (mem_filter.mp hmem).2
      refine spec_fileOp (fun budget => ⟨⟨hs.readable.1, readable_erase hs.readable.2⟩,
        hs.manifest, hs.names.congr fun e he => ?_, hs.counts⟩) (hdie s hs)
      by_cases hzero : e.level = 0
      · simp [LsmStore.file, hzero]
      · have hne : ¬ runId = e.id := by
          rintro rfl
          simp only [Bool.not_eq_true', any_eq_false, decide_eq_true_eq, not_and] at hnot
          exact hnot e he (hlevel e he hzero) rfl
        simp [LsmStore.file, hzero, getElem?_erase, hne]
  exact spec_orWarn (spec_mono hspec (fun _ _ h => h.sound) fun _ h => h.sound)

/-! ## Compaction -/

theorem lt_of_next {n : Nat} {e : DbError}
    (h : (checkedAdd n 1).elim (Except.error e) .ok = .ok next) : n < next := by
  cases hadd : checkedAdd n 1 with
  | none => simp [hadd] at h
  | some next' =>
    simp only [hadd, Option.elim_some, Except.ok.injEq] at h
    have := (checkedAdd_eq_some.mp hadd).2
    omega

theorem file_of_readRunEntries (h : readRunEntries blockSize s e = .ok run) :
    s.file e = some run := by
  unfold readRunEntries at h
  split at h
  · next run' hfile =>
    unfold readRun at h
    simp only at h
    split at h
    · cases h
    · cases h; exact hfile
  · cases h

theorem names_levelOne {lsn : Nat} (hget : s.levelOne[runId]? = some run) (hholds : run.Holds bytes)
    (hnext : runId < next) :
    (LsmManifest.mk next (some lsn) [] [⟨runId, 1, checkpoint⟩]).Names s ⟨runId, 1, checkpoint⟩
      bytes := by
  have hruns : ∀ e ∈ (LsmManifest.mk next (some lsn) [] [⟨runId, 1, checkpoint⟩]).runs,
      e = ⟨runId, 1, checkpoint⟩ := by simp [LsmManifest.runs]
  constructor
  · intro e he
    rw [hruns e he]
    simp [LsmStore.file, hget]
  · simp
  · simp
  · intro e he
    rw [hruns e he]
    exact hnext
  · simp [LsmManifest.runs]
  · exact fun e he => .inl (hruns e he)
  · exact ⟨run, by simp [LsmStore.file, hget], hholds⟩

theorem spec_compact {m0 : LsmManifest} {newest0 : LsmRunManifestEntry}
    {older : List LsmRunManifestEntry} (hold : s.Stands blockSize m0 newest0 old)
    (hnames : m.Names s newest bytes) (hhead : m.levelZeroRuns = newest :: older)
    (hrun : s.file newest = some run)
    (hfits : lsmLevelZeroCompactionThreshold ≤ m.levelZeroRuns.length →
      ∀ e ∈ older ++ m.levelOneRuns, ∀ r, s.file e = some r → r.chunks.length ≤ run.chunks.length) :
    Spec (compactLevelZeroRuns blockSize m) s
      (fun m' s' => s'.Stands blockSize m0 newest0 old ∧ ∃ newest', m'.Names s' newest' bytes)
      (LsmStore.Sound blockSize) := by
  have hholds : run.Holds bytes := by
    obtain ⟨run', hrun', hholds⟩ := hnames.holds
    rw [hrun] at hrun'
    exact Option.some.inj hrun' ▸ hholds
  unfold compactLevelZeroRuns
  rw [hhead] at *
  refine spec_ite (fun _ => spec_pure ⟨hold, newest, hnames⟩) fun hlong => spec_get_bind ?_
  refine spec_liftExcept_bind (fun newestRun hread => ?_) fun _ _ => hold.sound
  obtain rfl : newestRun = run := by
    have := (file_of_readRunEntries hread).symm.trans hrun
    exact Option.some.inj this
  refine spec_liftExcept_bind (fun olderRuns holder => ?_) fun _ _ => hold.sound
  have hmerged : olderRuns.foldl (fun merged run => orInsertChunks merged run.chunks)
      newestRun.chunks = newestRun.chunks := by
    refine foldl_orInsertChunks fun r hr => ?_
    obtain ⟨e, he, hre⟩ := mem_of_mapM_eq_ok holder hr
    exact hfits (Nat.le_of_not_lt hlong) e he r (file_of_readRunEntries hre)
  have hreadable : newestRun.Readable blockSize := by
    simp only [LsmStore.file] at hrun
    split at hrun
    · exact hold.readable.1 _ _ hrun
    · exact hold.readable.2 _ _ hrun
  simp only [hmerged]
  refine spec_bind (spec_publish (fun hfresh budget => ?_) hold.sound hold.sound_crashed)
    fun _ s' (hs' : s'.Stands blockSize m0 newest0 old ∧
      s'.levelOne[m.nextSstableId]? = some newestRun) => ?_
  · refine ⟨⟨⟨hold.readable.1, readable_insert hold.readable.2 hreadable⟩, hold.manifest,
      hold.names.congr fun e he => file_addRun hfresh (hold.names.file e he), hold.counts⟩, ?_⟩
    simp
  · refine spec_liftExcept_bind (fun next hnext => spec_pure ⟨hs'.1, _, names_levelOne hs'.2 hholds ?_⟩)
      fun _ _ => hs'.1.sound
    exact lt_of_next hnext

/-! ## Recording a checkpoint -/

/-- The reader takes the new run, and when the call compacts, no run it merges has more chunks. -/
def LsmStore.Fits (blockSize : Nat) (s : LsmStore) : LsmAction → Prop
  | .prepare _ => True
  | .record checkpoint bytes _ =>
    (checkpointRun blockSize checkpoint bytes).Readable blockSize ∧
      ∀ m ∈ (loadCanonicalLsmManifest blockSize s).toOption,
        lsmLevelZeroCompactionThreshold ≤ m.levelZeroRuns.length + 1 →
        ∀ e ∈ m.runs, ∀ run ∈ s.file e,
          run.chunks.length ≤ (checkpointRun blockSize checkpoint bytes).chunks.length

instance LsmStore.decidableFits (s : LsmStore) : (a : LsmAction) → Decidable (s.Fits blockSize a)
  | .prepare _ => isTrue trivial
  | .record _ _ _ => inferInstanceAs (Decidable (_ ∧ _))

theorem LsmManifest.Names.push {m : LsmManifest} (checkpoint : CheckpointInfo) (hfile : ∀ e ∈ m.runs, (s.file e).isSome)
    (hzero : ∀ e ∈ m.levelZeroRuns, e.level = 0) (hone : ∀ e ∈ m.levelOneRuns, e.level = 1)
    (hbelow : ∀ e ∈ m.runs, e.id < m.nextSstableId) (hget : s.levelZero[m.nextSstableId]? = some run)
    (hholds : run.Holds bytes) (hnext : m.nextSstableId < next) :
    { m with
        levelZeroRuns := sortByIdDesc (⟨m.nextSstableId, 0, checkpoint⟩ :: m.levelZeroRuns)
        nextSstableId := next }.Names s ⟨m.nextSstableId, 0, checkpoint⟩ bytes := by
  have hruns : ∀ e, e ∈ LsmManifest.runs { m with
        levelZeroRuns := sortByIdDesc (⟨m.nextSstableId, 0, checkpoint⟩ :: m.levelZeroRuns)
        nextSstableId := next } ↔ e = ⟨m.nextSstableId, 0, checkpoint⟩ ∨ e ∈ m.runs := by
    intro e
    simp only [LsmManifest.runs, mem_append, mem_sortByIdDesc, mem_cons, or_assoc]
  have hnew : s.file ⟨m.nextSstableId, 0, checkpoint⟩ = some run := hget
  constructor
  · intro e he
    rcases (hruns e).mp he with rfl | he
    · rw [hnew]; rfl
    · exact hfile e he
  · intro e he
    rcases mem_cons.mp (mem_sortByIdDesc.mp he) with rfl | he
    · rfl
    · exact hzero e he
  · exact hone
  · intro e he
    rcases (hruns e).mp he with rfl | he
    · exact hnext
    · exact (hbelow e he).trans hnext
  · exact (hruns _).mpr (.inl rfl)
  · intro e he
    exact ((hruns e).mp he).imp_right (hbelow e)
  · exact ⟨run, hnew, hholds⟩

theorem spec_writeAndClean {note : LsmStore → LsmStore}
    (hok : ∀ budget, { note { s with manifest := some m } with budget }.Stands blockSize m newest
      bytes)
    (hdie : { s with crashed := true }.Sound blockSize) :
    StaysSound blockSize
      (writeLsmManifest m note >>= fun _ => orWarn (cleanupUnreferencedRuns m)) s :=
  spec_bind (spec_fileOp hok hdie) fun _ s' (hs' : s'.Stands blockSize m newest bytes) =>
    spec_cleanup hs'

theorem LsmManifest.Names.setLast (h : m.Names s newest bytes) (lsn : Option Nat) :
    { m with lastCheckpointLsn := lsn }.Names s newest bytes :=
  ⟨h.file, h.levelZero, h.levelOne, h.below, h.mem, h.largest, h.holds⟩

theorem spec_record_kept {budget : Option Nat} (h : s.Stands blockSize m newest old)
    (hfits : s.Fits blockSize (.record checkpoint bytes budget)) :
    StaysSound blockSize (recordLsmCheckpoint blockSize checkpoint bytes) s := by
  obtain ⟨discovered, hload⟩ := h.names.load h.readable h.manifest
  have hnames := h.names.canonicalize discovered
  obtain ⟨hreadable, hmerge⟩ := hfits
  simp only [hload, Except.toOption, Option.mem_def, Option.some.injEq, forall_eq'] at hmerge
  generalize canonicalize m discovered = m1 at hload hnames hmerge
  unfold recordLsmCheckpoint
  refine spec_get_bind (spec_liftExcept_bind (fun m' hm' => ?_) fun _ _ => h.sound)
  obtain rfl : m' = m1 := Except.ok.inj (hm'.symm.trans hload)
  -- the run is written; the manifest on disk still names the old ones
  refine spec_bind (spec_publish (fun hfresh budget => ?_) h.sound h.sound_crashed)
    fun _ s' (hs' : s'.Stands blockSize m newest old ∧
      s'.levelZero[m'.nextSstableId]? = some (checkpointRun blockSize checkpoint bytes) ∧
      ∀ e ∈ m'.runs, s'.file e = s.file e) => ?_
  · refine ⟨⟨⟨readable_insert h.readable.1 hreadable, h.readable.2⟩, h.manifest,
      h.names.congr fun e he => file_addRun hfresh (h.names.file e he), ?_⟩, ?_, ?_⟩
    · exact h.counts.imp_right fun hpub => ⟨hpub.1, by simp [hpub.2]⟩
    · simp
    · exact fun e he => file_addRun hfresh (hnames.file e he)
  obtain ⟨hold, hget, hfile⟩ := hs'
  refine spec_liftExcept_bind (fun next hnext => ?_) fun _ _ => hold.sound
  have hlt := lt_of_next hnext
  have hpush := LsmManifest.Names.push checkpoint (fun e he => hfile e he ▸ hnames.file e he)
    hnames.levelZero hnames.levelOne hnames.below hget (checkpointRun_holds checkpoint bytes) hlt
  obtain ⟨older, hsort, hmem, hlen⟩ := sortByIdDesc_head (e := ⟨m'.nextSstableId, 0, checkpoint⟩)
    fun e he => hnames.below e (mem_append_left _ he)
  refine spec_bind (spec_compact hold hpush hsort hget fun hlong e he run hrun => ?_)
    fun m2 s2 hcompact => ?_
  · have he' : e ∈ m'.runs := by
      rcases mem_append.mp he with he | he
      · exact mem_append_left _ ((hmem e).mp he)
      · exact mem_append_right _ he
    refine hmerge ?_ e he' run ((hfile e he').symm.trans hrun)
    simpa [hsort, hlen] using hlong
  · obtain ⟨hs2, newest2, hnames2⟩ := hcompact
    have hnames3 := hnames2.setLast (some checkpoint.checkpointLsn)
    exact spec_writeAndClean (fun budget => ⟨hs2.readable, rfl, hnames3.congr fun _ _ => rfl,
      .inl rfl⟩) hs2.sound_crashed

theorem eq_empty_of_toList (h : files.toList = []) : files = ∅ :=
  ext_toList (by simp [h])

theorem toList_insert_of_nil (h : files.toList = []) (runId : Nat) (run : LsmRun) :
    (files.insert runId run).toList = [(runId, run)] := by
  have hnone : files[runId]? = none := by simp [eq_empty_of_toList h]
  have hperm := OrdMap.toList_insert_perm (v := run) hnone
  rw [h] at hperm
  exact perm_singleton.mp hperm

theorem getElem?_of_toList (h : files.toList = [(runId, run)]) : files[runId]? = some run :=
  mem_toList_iff_getElem?_eq_some.mp (h ▸ mem_singleton_self _)

theorem spec_record_blank (hread : s.AllReadable blockSize) (hun : s.Unnamed)
    (hzero : s.levelZero.toList = []) (hfirst : s.firstRun = none)
    (hreadable : (checkpointRun blockSize checkpoint bytes).Readable blockSize) :
    StaysSound blockSize (recordLsmCheckpoint blockSize checkpoint bytes) s := by
  have hload := load_of_blank hread hun.manifest hun.levelOne
  simp only [hzero, reverse_nil, map_nil] at hload
  have hblank : ∀ crashed, { s with crashed }.Sound blockSize := fun _ =>
    ⟨hread, .blank ⟨hun.manifest, hun.levelOne, hun.published⟩ hzero hfirst⟩
  unfold recordLsmCheckpoint
  refine spec_get_bind (spec_liftExcept_bind (fun m' hm' => ?_) fun _ _ => hblank s.crashed)
  obtain rfl : m' = ⟨1, none, [], []⟩ := Except.ok.inj (hm'.symm.trans hload)
  refine spec_bind (spec_publish (fun hfresh budget => ?_) (hblank s.crashed) (hblank true))
    fun _ s' (hs' : s'.AllReadable blockSize ∧ s'.Unnamed ∧
      s'.levelZero.toList = [(1, checkpointRun blockSize checkpoint bytes)] ∧
      s'.firstRun = some bytes) => ?_
  · exact ⟨⟨readable_insert hread.1 hreadable, hread.2⟩,
      ⟨hun.manifest, hun.levelOne, hun.published⟩, toList_insert_of_nil hzero _ _, by simp [hfirst]⟩
  obtain ⟨hread', hun', hzero', hfirst'⟩ := hs'
  have hholds : (checkpointRun blockSize checkpoint bytes).Holds bytes :=
    checkpointRun_holds checkpoint bytes
  have hnames : (LsmManifest.mk 2 (some checkpoint.checkpointLsn) [⟨1, 0, checkpoint⟩] []).Names s'
      ⟨1, 0, checkpoint⟩ bytes :=
    (LsmManifest.Names.push (m := ⟨1, none, [], []⟩) checkpoint (by simp [LsmManifest.runs])
      (by simp) (by simp) (by simp [LsmManifest.runs]) (getElem?_of_toList hzero') hholds
      (by decide)).setLast _
  -- one run in level 0 is not compacted, and its id leaves room for the next
  have hend : StaysSound blockSize (writeLsmManifest _ (fun s => { s with published := some bytes })
      >>= fun _ => orWarn (cleanupUnreferencedRuns _)) s' :=
    spec_writeAndClean (fun budget => ⟨hread', rfl, hnames.congr fun _ _ => rfl, .inl rfl⟩)
      ⟨hread', .first rfl ⟨hun'.manifest, hun'.levelOne, hun'.published⟩ hzero' hholds hfirst'⟩
  exact hend

/-! ## Preparing the layout -/

theorem LsmStore.Phase.carry {q : Prop} {budget : Option Nat} {crashed alive : Bool}
    (h : s.Phase p) (hpq : p → q) : { s with budget, crashed, alive }.Phase q := by
  cases h with
  | blank hun hzero hfirst => exact .blank ⟨hun.manifest, hun.levelOne, hun.published⟩ hzero hfirst
  | first hp hun hzero hholds hfirst =>
    exact .first (hpq hp) ⟨hun.manifest, hun.levelOne, hun.published⟩ hzero hholds hfirst
  | kept hm hnames hcounts => exact .kept hm (hnames.congr fun _ _ => rfl) hcounts

theorem cleanup_of_nil (hzero : s.levelZero.toList = []) (hone : s.levelOne.toList = []) :
    orWarn (cleanupUnreferencedRuns m) s = (.ok (), s) := by
  have hz : s.levelZero.keys = [] := by simp [eq_empty_of_toList hzero]
  have ho : s.levelOne.keys = [] := by simp [eq_empty_of_toList hone]
  simp only [orWarn, cleanupUnreferencedRuns, get_bind_apply, hz, ho, filter_nil]
  rfl

theorem names_first (hzero : s.levelZero.toList = [(1, run)]) (hholds : run.Holds bytes) :
    (canonicalize ⟨1, none, [⟨1, 0, run.checkpoint⟩], []⟩ [⟨1, 0, run.checkpoint⟩]).Names s
      ⟨1, 0, run.checkpoint⟩ bytes :=
  (LsmManifest.Names.push (m := ⟨1, none, [], []⟩) run.checkpoint (by simp [LsmManifest.runs])
    (by simp) (by simp) (by simp [LsmManifest.runs]) (getElem?_of_toList hzero) hholds
    (show 1 < 2 by decide)).setLast _

theorem spec_prepare (hread : s.AllReadable blockSize) (hphase : s.Phase True) :
    StaysSound blockSize (prepareLsmLayout blockSize) s := by
  unfold prepareLsmLayout
  refine spec_get_bind ?_
  cases hphase with
  | blank hun hzero hfirst =>
    have hload := load_of_blank hread hun.manifest hun.levelOne
    simp only [hzero, reverse_nil, map_nil] at hload
    rw [hload]
    have hblank : ∀ s' : LsmStore, s'.levelZero = s.levelZero → s'.levelOne = s.levelOne →
        s'.manifest.getD defaultLsmManifest = defaultLsmManifest → s'.published = none →
        s'.firstRun = none → s'.Sound blockSize := by
      intro s' hz ho hm hp hf
      exact ⟨by rw [LsmStore.AllReadable, hz, ho]; exact hread,
        .blank ⟨hm, ho ▸ hun.levelOne, hp⟩ (hz ▸ hzero) hf⟩
    refine spec_liftExcept_bind (fun m hm => ?_) fun _ he => by cases he
    cases hm
    refine spec_bind (spec_fileOp (fun budget => ⟨?_, hzero, hun.levelOne⟩) ?_)
      fun _ s' (hs' : s'.Sound blockSize ∧ s'.levelZero.toList = [] ∧ s'.levelOne.toList = []) => ?_
    · exact hblank _ rfl rfl hun.manifest hun.published hfirst
    · unfold Spec
      rw [cleanup_of_nil hs'.2.1 hs'.2.2]
      exact hs'.1
    · exact hblank _ rfl rfl rfl hun.published hfirst
  | @first run bytes _ hun hzero hholds hfirst =>
    have hload := load_of_blank hread hun.manifest hun.levelOne
    simp only [hzero, reverse_singleton, map_singleton] at hload
    rw [hload]
    have hnames := names_first hzero hholds
    exact spec_writeAndClean (fun budget => ⟨hread, rfl, hnames.congr fun _ _ => rfl,
      .inr ⟨hun.published, hfirst⟩⟩)
      ⟨hread, .first rfl ⟨hun.manifest, hun.levelOne, hun.published⟩ hzero hholds hfirst⟩
  | @kept m newest bytes hm hnames hcounts =>
    obtain ⟨discovered, hload⟩ := hnames.load hread hm
    rw [hload]
    have hnames' := hnames.canonicalize discovered
    exact spec_writeAndClean (fun budget => ⟨hread, rfl, hnames'.congr fun _ _ => rfl, hcounts⟩)
      ⟨hread, .kept hm (hnames.congr fun _ _ => rfl) hcounts⟩

/-! ## Runs of the store -/

/-- Between two calls: only a store that is not prepared holds a first run without a name. -/
def LsmStore.Inv (blockSize : Nat) (s : LsmStore) : Prop :=
  s.AllReadable blockSize ∧ s.Phase (s.alive = false)

theorem inv_init : LsmStore.Inv blockSize {} :=
  ⟨⟨by simp, by simp⟩, .blank ⟨rfl, by simp, rfl⟩ (by simp) rfl⟩

theorem LsmStore.Sound.inv {alive : Bool} (h : s.Sound blockSize) (halive : s.crashed → alive = false) :
    { s with alive }.Inv blockSize :=
  ⟨h.1, h.2.carry halive⟩

theorem StaysSound.sound {c : LsmEff Unit} (h : StaysSound blockSize c s) :
    (c s).2.Sound blockSize := by
  unfold StaysSound Spec at h
  match hc : c s with
  | (.ok _, s') => rw [hc] at h; exact h
  | (.error _, s') => rw [hc] at h; exact h

theorem step_prepare_eq (budget : Option Nat) :
    let r := prepareLsmLayout blockSize { s with budget, crashed := false }
    s.step blockSize (.prepare budget) = some { r.2 with alive := r.1.isOk && !r.2.crashed } := rfl

theorem step_record_eq (budget : Option Nat) (halive : s.alive = true) :
    let r := recordLsmCheckpoint blockSize checkpoint bytes { s with budget, crashed := false }
    s.step blockSize (.record checkpoint bytes budget) = some { r.2 with alive := !r.2.crashed } :=
  if_pos halive

theorem LsmStore.Fits.start (h : s.Fits blockSize a) (budget : Option Nat) :
    { s with budget, crashed := false }.Fits blockSize a := by
  have hload : loadCanonicalLsmManifest blockSize { s with budget, crashed := false } =
      loadCanonicalLsmManifest blockSize s := by
    unfold loadCanonicalLsmManifest LsmStore.file
    rfl
  cases a with
  | prepare => trivial
  | record checkpoint bytes budget' =>
    refine ⟨h.1, ?_⟩
    rw [hload]
    exact h.2

theorem inv_step (h : s.Inv blockSize) (hfits : s.Fits blockSize a)
    (hstep : s.step blockSize a = some s') : s'.Inv blockSize := by
  obtain ⟨hread, hphase⟩ := h
  cases a with
  | prepare budget =>
    have hs := (spec_prepare (s := { s with budget, crashed := false }) hread
      (hphase.carry fun _ => trivial)).sound
    rw [step_prepare_eq] at hstep
    obtain rfl := Option.some.inj hstep
    exact hs.inv fun hcrashed => by rw [hcrashed]; exact Bool.and_false _
  | record checkpoint bytes budget =>
    by_cases halive : s.alive = true
    · have hspec : StaysSound blockSize (recordLsmCheckpoint blockSize checkpoint bytes)
          { s with budget, crashed := false } := by
        cases (hphase.carry id : { s with budget, crashed := false }.Phase _) with
        | blank hun hzero hfirst => exact spec_record_blank hread hun hzero hfirst hfits.1
        | first hp => exact absurd (hp.symm.trans halive) Bool.false_ne_true
        | kept hm hnames hcounts =>
          exact spec_record_kept ⟨hread, hm, hnames, hcounts⟩ (hfits.start budget)
      rw [step_record_eq budget halive] at hstep
      obtain rfl := Option.some.inj hstep
      exact hspec.sound.inv fun hcrashed => by rw [hcrashed]; rfl
    · rw [LsmStore.step, if_neg halive] at hstep
      cases hstep

theorem LsmStore.Stands.latest (h : s.Stands blockSize m newest bytes) :
    latestSnapshotBytes blockSize s = .ok (some bytes) := by
  obtain ⟨discovered, hload⟩ := h.names.load h.readable h.manifest
  have hnames := h.names.canonicalize discovered
  simp only [latestSnapshotBytes, hload, bind, Except.bind, hnames.newestRunEntry]
  exact hnames.read h.readable

/-- In every run of checkpoints and preparations, with crashes before any file operation, in which
no compaction merges a run with more chunks than the new snapshot, the snapshot that is read is the
last published one; before the first publication it is none, or that of the first run. -/
theorem latestSnapshotBytes_exact (blockSize : Nat) {as : List LsmAction}
    (hfits : Run.Along (LsmStore.step blockSize) (LsmStore.Fits blockSize) {} as)
    (hrun : Run.run (LsmStore.step blockSize) {} as = some s) :
    (∀ bytes, s.published = some bytes → latestSnapshotBytes blockSize s = .ok (some bytes)) ∧
      (s.published = none → latestSnapshotBytes blockSize s = .ok none ∨
        ∃ bytes, s.firstRun = some bytes ∧ latestSnapshotBytes blockSize s = .ok (some bytes)) := by
  obtain ⟨hread, hphase⟩ : s.Inv blockSize :=
    Run.run_preserves_along inv_step inv_init hfits hrun
  cases hphase with
  | blank hun hzero hfirst =>
    have hload := load_of_blank hread hun.manifest hun.levelOne
    simp only [hzero, reverse_nil, map_nil] at hload
    refine ⟨fun bytes hpub => ?_, fun _ => .inl ?_⟩
    · rw [hun.published] at hpub
      cases hpub
    · rw [latestSnapshotBytes, hload]
      rfl
  | @first run bytes hp hun hzero hholds hfirst =>
    have hload := load_of_blank hread hun.manifest hun.levelOne
    simp only [hzero, reverse_singleton, map_singleton] at hload
    refine ⟨fun bytes hpub => ?_, fun _ => .inr ⟨bytes, hfirst, ?_⟩⟩
    · rw [hun.published] at hpub
      cases hpub
    · have hnames := names_first hzero hholds
      simp only [latestSnapshotBytes, hload, bind, Except.bind, hnames.newestRunEntry]
      exact hnames.read hread
  | @kept m newest bytes hm hnames hcounts =>
    have hlatest := LsmStore.Stands.latest ⟨hread, hm, hnames, hcounts⟩
    rcases hcounts with hpub | ⟨hpub, hfirst⟩
    · refine ⟨fun bytes' hpub' => ?_, fun hnone => ?_⟩
      · rw [hlatest, Option.some.inj (hpub.symm.trans hpub')]
      · rw [hpub] at hnone
        cases hnone
    · refine ⟨fun bytes' hpub' => ?_, fun _ => .inr ⟨bytes, hfirst, hlatest⟩⟩
      rw [hpub] at hpub'
      cases hpub'

/-- Four checkpoints of growing snapshots, of which the last compacts, and a fifth that dies before
its manifest is written. -/
def growingSnapshots : List LsmAction :=
  [.prepare none, .record ⟨1, 0⟩ [1] none, .record ⟨2, 0⟩ [] none, .record ⟨3, 0⟩ [2, 3] none,
    .record ⟨4, 0⟩ [4, 5, 6] none, .record ⟨5, 0⟩ [7] (some 1), .prepare none]

theorem latestSnapshotBytes_exact_growing :
    latestSnapshotBytes 2 (Run.after (LsmStore.step 2) {} growingSnapshots) =
      .ok (some [4, 5, 6]) :=
  have hrun : (Run.run (LsmStore.step 2) {} growingSnapshots).isSome = true := by decide +kernel
  (latestSnapshotBytes_exact 2 (by decide +kernel) (Run.run_eq_some_after hrun)).1 [4, 5, 6]
    (by decide +kernel)

/-- A long snapshot followed by three short ones, with chunks of one byte. -/
def shrinkingSnapshots : List LsmAction :=
  [.prepare none, .record ⟨1, 0⟩ [1, 2, 3] none, .record ⟨2, 0⟩ [8] none, .record ⟨3, 0⟩ [9] none,
    .record ⟨4, 0⟩ [7] none]

/-- The compaction appends the chunks of the long snapshot to the last one. -/
theorem latestSnapshotBytes_stale_chunks :
    ∃ s, Run.run (LsmStore.step 1) {} shrinkingSnapshots = some s ∧ s.published = some [7] ∧
      latestSnapshotBytes 1 s = .ok (some [7, 2, 3]) :=
  ⟨_, Run.run_eq_some_after (by decide +kernel), by decide +kernel, by decide +kernel⟩

end AionDb
