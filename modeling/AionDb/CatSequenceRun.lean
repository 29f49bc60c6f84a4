import AionDb.CatSequenceSpec

/-!
# Sequences over whole runs of the catalog store

What the replay of the log does to one sequence, the invariant of the store
with its open transactions and its log, and the runs in which the values of a
sequence are handed out once.
-/

namespace AionDb

open Function List Effect

open Std (ExtTreeMap)

/-! ## Replay -/

def lastSaved (ws : List SequenceWrite) (id : SequenceId) : Option SequenceValueState :=
  ws.reverse.lookup id

theorem lastSaved_append (ws ws' : List SequenceWrite) (id : SequenceId) :
    lastSaved (ws ++ ws') id = (lastSaved ws' id).or (lastSaved ws id) := by
  simp [lastSaved, lookup_append]

theorem lastSaved_singleton (w : SequenceWrite) (id : SequenceId) :
    lastSaved [w] id = if w.1 = id then some w.2 else none := by
  obtain ⟨i, v⟩ := w
  by_cases h : i = id
  · simp [lastSaved, h]
  · simp [lastSaved, lookup_cons, h, beq_eq_false_iff_ne.mpr (Ne.symm h)]

variable {w : SequenceWrite} {n : Nat} {wal : List CatalogWalRecord} {r r' : CatalogReplay}

theorem replaySequenceWrite_eq_ok {c c' : CatalogState} (h : replaySequenceWrite c w = .ok c') :
    c' = { c with sequenceValues := c.sequenceValues.insert w.1 w.2 } := by
  unfold replaySequenceWrite at h
  split at h
  · exact (Except.ok.inj h).symm
  · cases h

theorem replayAll_eq_ok {c c' : CatalogState} {ws : List SequenceWrite}
    (h : ws.foldlM replaySequenceWrite c = .ok c') (id : SequenceId) :
    c'.sequenceValues[id]? = (lastSaved ws id).or c.sequenceValues[id]? := by
  induction ws generalizing c with
  | nil =>
    cases foldlM_nil_eq_ok.mp h
    simp [lastSaved]
  | cons w ws ih =>
    obtain ⟨c1, hw, hws⟩ := foldlM_cons_eq_ok.mp h
    rw [ih hws, replaySequenceWrite_eq_ok hw, ← singleton_append, lastSaved_append,
      lastSaved_singleton, ExtTreeMap.getElem?_insert]
    by_cases hid : w.1 = id <;> simp [hid]

theorem recoverCatalogState_append {snapshot : CatalogState} {records : List CatalogWalRecord} (h : recoverCatalogState snapshot (wal ++ records) = .ok r') :
    ∃ r, recoverCatalogState snapshot wal = .ok r ∧
      records.foldlM CatalogReplay.entry r = .ok r' := by
  rw [recoverCatalogState, foldlM_append] at h
  exact bind_eq_ok.mp h

variable {txn : TxnId}

theorem replay_open (htxn : 0 < txn) (ws : List SequenceWrite) (r : CatalogReplay) :
    (ws.map fun w => CatalogWalRecord.setSequenceValue txn w.1 w.2).foldlM CatalogReplay.entry r =
      .ok { r with openTxns := update r.openTxns txn (r.openTxns txn ++ ws) } := by
  induction ws generalizing r with
  | nil => simp [pure, Except.pure]
  | cons w ws ih =>
    have hentry : r.entry (.setSequenceValue txn w.1 w.2) = .ok { r with
        openTxns := update r.openTxns txn (r.openTxns txn ++ [w]) } := by
      simp [CatalogReplay.entry, htxn.ne']
    rw [map_cons, foldlM_cons, hentry]
    refine (ih _).trans ?_
    simp

theorem replay_commitRecords (htxn : 0 < txn) {p : PendingCatalogTxn}
    (h : ((CatalogStore.commitRecords txn p).take n).foldlM CatalogReplay.entry r = .ok r') :
    (n < (CatalogStore.commitRecords txn p).length ∧ r'.state = r.state) ∨
    ((CatalogStore.commitRecords txn p).length ≤ n ∧
      ∀ id, r'.state.sequenceValues[id]? =
        (lastSaved (r.openTxns txn ++ p.pendingWalRecords) id).or r.state.sequenceValues[id]?) := by
  by_cases hn : (CatalogStore.commitRecords txn p).length ≤ n
  · refine .inr ⟨hn, fun id => ?_⟩
    rw [take_of_length_le hn, CatalogStore.commitRecords, foldlM_append, replay_open htxn] at h
    have hcommit := (foldlM_cons_eq_ok.mp h)
    obtain ⟨r1, hentry, hnil⟩ := hcommit
    cases foldlM_nil_eq_ok.mp hnil
    obtain ⟨c, hc, heq⟩ := bind_eq_ok.mp hentry
    cases heq
    simpa using replayAll_eq_ok hc id
  · refine .inl ⟨not_le.mp hn, ?_⟩
    have hlen : n ≤ (p.pendingWalRecords.map fun w =>
        CatalogWalRecord.setSequenceValue txn w.1 w.2).length := by
      simp only [CatalogStore.commitRecords, length_append, length_map, length_singleton] at hn ⊢
      omega
    rw [CatalogStore.commitRecords, take_append_of_le_length hlen, ← map_take,
      replay_open htxn] at h
    cases h
    rfl

theorem replay_autocommitRecords {s : CatalogStore} (hauto : 0 < s.autoTxnCounter)
    (h : ((s.autocommitRecords w).take n).foldlM CatalogReplay.entry r = .ok r') :
    (n < 3 ∧ r'.state = r.state) ∨
      (3 ≤ n ∧ ∀ id, r'.state.sequenceValues[id]? =
        (lastSaved [w] id).or r.state.sequenceValues[id]?) := by
  cases n with
  | zero =>
    cases foldlM_nil_eq_ok.mp h
    exact .inl ⟨by omega, rfl⟩
  | succ n =>
    obtain ⟨r1, hbegin, hrest⟩ := foldlM_cons_eq_ok.mp h
    cases hbegin
    let p : PendingCatalogTxn := ⟨0, {}, true, [w], []⟩
    have hp : ((CatalogStore.commitRecords s.autoTxnCounter p).take n).foldlM
        CatalogReplay.entry _ = .ok r' := hrest
    rcases replay_commitRecords hauto hp with ⟨hn, hr'⟩ | ⟨hn, hr'⟩
    · exact .inl ⟨Nat.succ_lt_succ hn, hr'⟩
    · exact .inr ⟨Nat.succ_le_succ hn, fun id => by simpa [p] using hr' id⟩

theorem CatalogReplay.entry_sequencesById {record : CatalogWalRecord}
    (h : r.entry record = .ok r') : r'.state.sequencesById = r.state.sequencesById := by
  have hwrite : ∀ {c c' : CatalogState} {w : SequenceWrite}, replaySequenceWrite c w = .ok c' →
      c'.sequencesById = c.sequencesById := fun hw => by rw [replaySequenceWrite_eq_ok hw]
  cases record with
  | beginTxn txn => cases h; rfl
  | abortTxn txn => cases h; rfl
  | commitTxn txn =>
    obtain ⟨c, hc, heq⟩ := bind_eq_ok.mp h
    cases heq
    exact foldlM_preserves (I := fun c => c.sequencesById = r.state.sequencesById)
      (fun _ _ _ _ hI hw => (hwrite hw).trans hI) rfl hc
  | setSequenceValue txn id runtime =>
    rw [CatalogReplay.entry] at h
    split at h
    · obtain ⟨c, hc, heq⟩ := bind_eq_ok.mp h
      cases heq
      exact hwrite hc
    · cases h
      rfl

theorem recoverCatalogState_sequencesById {snapshot : CatalogState} (h : recoverCatalogState snapshot wal = .ok r) :
    r.state.sequencesById = snapshot.sequencesById :=
  foldlM_preserves (I := fun r => r.state.sequencesById = snapshot.sequencesById)
    (fun _ _ _ _ hI hentry => (CatalogReplay.entry_sequencesById hentry).trans hI) rfl h

/-! ## The invariant -/

def draws (id : SequenceId) (l : List (SequenceId × Int)) : List Int :=
  (l.filter (·.1 = id)).map (·.2)

theorem draws_append (id : SequenceId) (l l' : List (SequenceId × Int)) :
    draws id (l ++ l') = draws id l ++ draws id l' := by
  simp [draws]

theorem draws_self (id : SequenceId) (values : List Int) :
    draws id (values.map (id, ·)) = values := by
  simp [draws, filter_map, comp_def]

theorem draws_of_ne {id id' : SequenceId} (h : id' ≠ id) (values : List Int) :
    draws id (values.map (id', ·)) = [] := by
  simp [draws, filter_map, comp_def, h]

/-- A transaction in progress, against the shared catalog. As long as the revision has not moved
its values lie ahead of the shared catalog, and what it will log has counted past them. -/
structure PendingCatalogTxn.Inv (id : SequenceId) (d : SequenceDescriptor) (c : CatalogState)
    (p : PendingCatalogTxn) : Prop where
  seq : p.state.sequencesById[id]? = some d
  base_le : p.baseRevision ≤ c.revision
  nodup : (draws id p.issued).Nodup
  handed : ∀ v ∈ draws id p.issued, p.state.Handed id d v ∧
    ∃ r, lastSaved p.pendingWalRecords id = some r ∧ d.place v < r.reach d
  clean : p.dirty = false → p.issued = []
  behind : p.baseRevision = c.revision → c.Behind p.state id d
  ahead : p.baseRevision = c.revision → ∀ v ∈ draws id p.issued, c.Ahead id d v
  upTo : p.baseRevision = c.revision → ∀ r, lastSaved p.pendingWalRecords id = some r →
    c.UpTo id d r

structure CatalogStore.Inv (snapshot : CatalogState) (id : SequenceId) (d : SequenceDescriptor)
    (s : CatalogStore) : Prop where
  seq : s.state.sequencesById[id]? = some d
  nodup : (draws id s.granted).Nodup
  handed : ∀ v ∈ draws id s.granted, s.state.Handed id d v
  replayed : ∀ r, recoverCatalogState snapshot s.wal = .ok r →
    ∀ v ∈ draws id s.granted, r.state.Handed id d v
  auto : 0 < s.autoTxnCounter
  pending : ∀ txn p, s.activeTxns txn = some p → 0 < txn ∧ p.Inv id d s.state

section

variable {snapshot : CatalogState} {id : SequenceId} {d : SequenceDescriptor}
  {c c' : CatalogState} {p : PendingCatalogTxn} {s : CatalogStore}

theorem PendingCatalogTxn.Inv.of_revision_lt (h : p.Inv id d c) (hlt : c.revision < c'.revision) :
    p.Inv id d c' where
  seq := h.seq
  base_le := h.base_le.trans hlt.le
  nodup := h.nodup
  handed := h.handed
  clean := h.clean
  behind heq := absurd h.base_le (by omega)
  ahead heq := absurd h.base_le (by omega)
  upTo heq := absurd h.base_le (by omega)

theorem PendingCatalogTxn.Inv.of_other (h : p.Inv id d c) (hrev : c'.revision = c.revision)
    (hvalue : c'.sequenceValues[id]? = c.sequenceValues[id]?) : p.Inv id d c' where
  seq := h.seq
  base_le := hrev ▸ h.base_le
  nodup := h.nodup
  handed := h.handed
  clean := h.clean
  behind heq r hr := h.behind (heq.trans hrev) r (hvalue ▸ hr)
  ahead heq v hv r hr := h.ahead (heq.trans hrev) v hv r (hvalue ▸ hr)
  upTo heq r hr r₀ hr₀ := h.upTo (heq.trans hrev) r hr r₀ (hvalue ▸ hr₀)

theorem nodup_append_of_ahead {old new : List Int} (hold : old.Nodup) (hnew : new.Nodup)
    (hhanded : ∀ v ∈ old, c.Handed id d v) (hahead : ∀ v ∈ new, c.Ahead id d v) :
    (old ++ new).Nodup :=
  nodup_append.mpr ⟨hold, hnew, fun v hv w hw => (hhanded v hv).ne (hahead w hw)⟩

theorem CatalogStore.Inv.pending_update (h : s.Inv snapshot id d) {x : Option PendingCatalogTxn}
    (hx : ∀ p, x = some p → 0 < txn ∧ p.Inv id d s.state) :
    ∀ txn' p, update s.activeTxns txn x txn' = some p → 0 < txn' ∧ p.Inv id d s.state :=
  (forall_update_iff s.activeTxns fun txn' x => ∀ p, x = some p → 0 < txn' ∧ p.Inv id d s.state).mpr
    ⟨hx, fun txn' _ => h.pending txn'⟩

theorem CatalogStore.Inv.beginTxn (h : s.Inv snapshot id d) (htxn : 0 < txn) :
    (s.beginTxn txn).Inv snapshot id d := by
  refine { h with pending := h.pending_update fun p hp => ?_ }
  cases hactive : s.activeTxns txn with (rw [hactive] at hp)
  | some p' =>
    cases hp
    exact h.pending _ _ hactive
  | none =>
    cases hp
    exact ⟨htxn, h.seq, le_rfl, nodup_nil, by simp [draws], fun _ => rfl,
      fun _ => .refl, by simp [draws], by simp [lastSaved]⟩

variable {id' : SequenceId} {r : SequenceValueState} {v : Int}

theorem handed_of_replay {ws : List SequenceWrite}
    (hvalues : c'.sequenceValues[id]? = (lastSaved ws id).or c.sequenceValues[id]?)
    (hsome : ∀ r, lastSaved ws id = some r → d.place v < r.reach d)
    (hnone : lastSaved ws id = none → c.Handed id d v) : c'.Handed id d v := by
  cases hlast : lastSaved ws id with
  | some r => exact ⟨r, by rw [hvalues, hlast]; rfl, hsome r hlast⟩
  | none =>
    obtain ⟨r, hr, hlt⟩ := hnone hlast
    exact ⟨r, by rw [hvalues, hlast]; exact hr, hlt⟩

theorem CatalogState.Handed.lt_of_eq (h : c.Handed id d v) (hr : c.sequenceValues[id]? = some r) :
    d.place v < r.reach d := by
  obtain ⟨r', hr', hlt⟩ := h
  cases hr.symm.trans hr'
  exact hlt

theorem CatalogState.Behind.upTo (h : c.Behind c' id d) (hr : c'.sequenceValues[id]? = some r) :
    c.UpTo id d r := by
  intro r₀ hr₀
  obtain ⟨r', hr', hle⟩ := h r₀ hr₀
  cases hr.symm.trans hr'
  exact hle

variable (hinc : d.incrementBy ≠ 0) (hcycle : d.cycle = false)
include hinc hcycle

theorem advance_ok (hseq : c.sequencesById[id]? = some d) {count : Nat} {values : List Int}
    (hadv : c.advance id' count = (.ok (values, r), c')) :
    c'.sequencesById[id]? = some d ∧ c'.revision = c.revision ∧ c.Behind c' id d ∧
      c'.sequenceValues[id]? = (lastSaved [(id', r)] id).or c.sequenceValues[id]? ∧
      (draws id (values.map (id', ·))).Nodup ∧
      ∀ v ∈ draws id (values.map (id', ·)), id' = id ∧ c.Ahead id d v ∧ c'.Handed id d v := by
  obtain ⟨hby, hrev, hbehind, hok⟩ := CatalogState.advance_spec hinc hcycle hseq id' count
  rw [hadv] at hby hrev hbehind hok
  obtain ⟨hinsert, hvalues⟩ := hok values r rfl
  have hlookup : c'.sequenceValues[id]? = (lastSaved [(id', r)] id).or c.sequenceValues[id]? := by
    rw [hinsert, lastSaved_singleton, ExtTreeMap.getElem?_insert]
    by_cases hid : id' = id <;> simp [hid]
  refine ⟨hby ▸ hseq, hrev, hbehind, hlookup, ?_⟩
  by_cases hid : id' = id
  · subst hid
    rw [draws_self]
    exact ⟨(hvalues rfl).1, fun v hv => ⟨rfl, (hvalues rfl).2 v hv⟩⟩
  · rw [draws_of_ne hid]
    exact ⟨nodup_nil, by simp⟩

theorem CatalogStore.Inv.nextValuesAutocommit (h : s.Inv snapshot id d) (id' : SequenceId)
    (count : Nat) : (s.nextValuesAutocommit id' count).Inv snapshot id d := by
  unfold CatalogStore.nextValuesAutocommit
  split
  · exact h
  next values r staged hadv =>
  obtain ⟨hseq, -, hbehind, hlookup, hnodup, hnew⟩ := advance_ok hinc hcycle h.seq hadv
  have hhanded : ∀ v ∈ draws id (s.granted ++ values.map (id', ·)), staged.Handed id d v := by
    intro v hv
    rw [draws_append, mem_append] at hv
    rcases hv with hv | hv
    · exact (h.handed v hv).mono hbehind
    · exact (hnew v hv).2.2
  refine ⟨hseq, ?_, hhanded, fun r' hr' v hv => ?_, Nat.succ_pos _, fun txn p hp => ?_⟩
  · rw [draws_append]
    exact nodup_append_of_ahead h.nodup hnodup h.handed fun v hv => (hnew v hv).2.1
  · obtain ⟨r₀, hr₀, hfold⟩ := recoverCatalogState_append hr'
    rw [← take_of_length_le (i := 3) (l := s.autocommitRecords (id', r)) le_rfl] at hfold
    rcases replay_autocommitRecords h.auto hfold with ⟨hlt, -⟩ | ⟨-, hvalues⟩
    · exact absurd hlt (lt_irrefl 3)
    refine handed_of_replay (hvalues id) (fun r₁ hlast => ?_) fun hlast => ?_
    · exact (hhanded v hv).lt_of_eq (by rw [hlookup, hlast]; rfl)
    · -- the draw was of another sequence
      rw [draws_append, mem_append] at hv
      rcases hv with hv | hv
      · exact h.replayed r₀ hr₀ v hv
      · simp [lastSaved_singleton, (hnew v hv).1] at hlast
  · exact ⟨(h.pending txn p hp).1, (h.pending txn p hp).2.of_revision_lt (Nat.lt_succ_self _)⟩

theorem CatalogStore.Inv.nextValuesPending (h : s.Inv snapshot id d)
    (hp : s.activeTxns txn = some p) (id' : SequenceId) (count : Nat) :
    (s.nextValuesPending txn p id' count).Inv snapshot id d := by
  obtain ⟨htxn, hpend⟩ := h.pending txn p hp
  -- the store with another entry for the transaction
  have update : ∀ p' : PendingCatalogTxn, p'.Inv id d s.state →
      CatalogStore.Inv snapshot id d
        { s with activeTxns := update s.activeTxns txn (some p') } := by
    intro p' hp'
    refine { h with pending := h.pending_update ?_ }
    rintro _ ⟨⟩
    exact ⟨htxn, hp'⟩
  unfold CatalogStore.nextValuesPending
  split
  · next e state hadv =>
    obtain ⟨hby, -, hbehind, -⟩ := CatalogState.advance_spec hinc hcycle hpend.seq id' count
    rw [hadv] at hby hbehind
    exact update _ { hpend with
      seq := hby ▸ hpend.seq
      handed v hv := ⟨(hpend.handed v hv).1.mono hbehind, (hpend.handed v hv).2⟩
      behind heq := (hpend.behind heq).trans hbehind }
  · next values r state hadv =>
    obtain ⟨hseq, -, hbehind, hlookup, hnodup, hnew⟩ := advance_ok hinc hcycle hpend.seq hadv
    have hhanded : ∀ v ∈ draws id (p.issued ++ values.map (id', ·)),
        state.Handed id d v ∧
        ∃ r1, lastSaved (p.pendingWalRecords ++ [(id', r)]) id = some r1 ∧
          d.place v < r1.reach d := by
      intro v hv
      rw [draws_append, mem_append] at hv
      have hv' : state.Handed id d v :=
        hv.elim (fun hv => (hpend.handed v hv).1.mono hbehind) fun hv => (hnew v hv).2.2
      refine ⟨hv', ?_⟩
      rw [lastSaved_append]
      by_cases hid : id' = id
      · rw [lastSaved_singleton, if_pos hid] at hlookup ⊢
        exact ⟨r, rfl, hv'.lt_of_eq hlookup⟩
      · rw [lastSaved_singleton, if_neg hid, Option.none_or]
        rcases hv with hv | hv
        · exact (hpend.handed v hv).2
        · exact absurd (hnew v hv).1 hid
    refine update _
      { seq := hseq
        base_le := hpend.base_le
        nodup := ?_
        handed := hhanded
        clean := fun hd => by cases hd
        behind := fun heq => (hpend.behind heq).trans hbehind
        ahead := fun heq v hv => ?_
        upTo := fun heq r1 hlast => ?_ }
    · rw [draws_append]
      exact nodup_append_of_ahead hpend.nodup hnodup (fun v hv => (hpend.handed v hv).1)
        fun v hv => (hnew v hv).2.1
    · rw [draws_append, mem_append] at hv
      rcases hv with hv | hv
      · exact hpend.ahead heq v hv
      · exact (hnew v hv).2.1.mono (hpend.behind heq)
    · rw [lastSaved_append] at hlast
      by_cases hid : id' = id
      · rw [lastSaved_singleton, if_pos hid] at hlookup hlast
        cases hlast
        exact ((hpend.behind heq).trans hbehind).upTo hlookup
      · rw [lastSaved_singleton, if_neg hid, Option.none_or] at hlast
        exact hpend.upTo heq r1 hlast

theorem CatalogStore.Inv.nextValuesUnregistered (h : s.Inv snapshot id d)
    (htxn : 0 < txn) (hid : id' ≠ id) (count : Nat) :
    (s.nextValuesUnregistered txn id' count).Inv snapshot id d := by
  obtain ⟨hby, hrev, hbehind, -⟩ := CatalogState.advance_spec hinc hcycle h.seq id' count
  have hother := CatalogState.advance_other s.state hid count
  unfold CatalogStore.nextValuesUnregistered
  split
  · next e state hadv =>
    rw [hadv] at hby hrev hbehind hother
    exact ⟨hby ▸ h.seq, h.nodup, fun v hv => (h.handed v hv).mono hbehind, h.replayed, h.auto,
      fun txn p hp => ⟨(h.pending txn p hp).1, (h.pending txn p hp).2.of_other hrev hother⟩⟩
  · next values r state hadv =>
    rw [hadv] at hby hrev hbehind hother
    have hgranted : draws id (s.granted ++ values.map (id', ·)) = draws id s.granted := by
      rw [draws_append, draws_of_ne hid, append_nil]
    refine ⟨hby ▸ h.seq, ?_, ?_, ?_, h.auto, fun txn p hp =>
      ⟨(h.pending txn p hp).1, (h.pending txn p hp).2.of_revision_lt ?_⟩⟩
    · exact hgranted ▸ h.nodup
    · exact hgranted ▸ fun v hv => (h.handed v hv).mono hbehind
    · rw [hgranted]
      intro r' hr'
      obtain ⟨r₀, hr₀, hfold⟩ := recoverCatalogState_append hr'
      cases (replay_open htxn [(id', r)] r₀).symm.trans hfold
      exact h.replayed r₀ hr₀
    · exact Nat.lt_succ_of_le hrev.ge

end

/-! ## Runs -/

/-- The records the log holds of a transaction under the id, which an earlier transaction of that
id left without a commit record. -/
def CatalogStore.leftOpen (snapshot : CatalogState) (s : CatalogStore) (txn : TxnId) :
    List SequenceWrite :=
  match recoverCatalogState snapshot s.wal with
  | .ok r => r.openTxns txn
  | .error _ => []

instance (c : CatalogState) (id : SequenceId) (d : SequenceDescriptor) (r : SequenceValueState) :
    Decidable (c.UpTo id d r) :=
  inferInstanceAs (Decidable (∀ r₀ ∈ c.sequenceValues[id]?, r₀.reach d ≤ r.reach d))

/-- What was left open under the id does not take the sequence back when the transaction commits. -/
def CatalogStore.KeepsUp (snapshot : CatalogState) (id : SequenceId) (d : SequenceDescriptor)
    (s : CatalogStore) (txn : TxnId) : Prop :=
  ∀ p ∈ s.activeTxns txn, p.dirty = true ∧ s.state.revision = p.baseRevision →
    lastSaved p.pendingWalRecords id = none →
    ∀ r ∈ lastSaved (s.leftOpen snapshot txn) id, s.state.UpTo id d r
deriving Decidable

/-- The sequence is drawn from in autocommit or in a registered transaction, and no commit record
makes the replay take it back. -/
def CatalogStore.Tidy (snapshot : CatalogState) (id : SequenceId) (d : SequenceDescriptor)
    (s : CatalogStore) : CatalogStore.Action → Prop
  | .nextValues txn id' count => id' = id → count ≠ 0 → txn = 0 ∨ (s.activeTxns txn).isSome = true
  | .commitTxn txn => s.KeepsUp snapshot id d txn
  | .crash (.commit txn) logged =>
    (s.inFlight (.commit txn)).length ≤ logged → s.KeepsUp snapshot id d txn
  | _ => True

instance (snapshot : CatalogState) (id : SequenceId) (d : SequenceDescriptor) (s : CatalogStore) :
    DecidablePred (s.Tidy snapshot id d)
  | .nextValues txn id' count => inferInstanceAs
      (Decidable (id' = id → count ≠ 0 → txn = 0 ∨ (s.activeTxns txn).isSome = true))
  | .commitTxn txn => inferInstanceAs (Decidable (s.KeepsUp snapshot id d txn))
  | .crash (.commit txn) logged => inferInstanceAs (Decidable
      ((s.inFlight (.commit txn)).length ≤ logged → s.KeepsUp snapshot id d txn))
  | .crash .nothing _ => isTrue trivial
  | .crash (.autocommit _ _) _ => isTrue trivial
  | .beginTxn _ => isTrue trivial
  | .rollbackTxn _ => isTrue trivial

variable {r' : CatalogReplay}

section

variable {snapshot : CatalogState} {id : SequenceId} {d : SequenceDescriptor}
  {p : PendingCatalogTxn} {s : CatalogStore} {txn : TxnId}

section

variable (h : s.Inv snapshot id d)
include h

theorem CatalogStore.Inv.nodup_commit (hp : s.activeTxns txn = some p)
    (hrev : s.state.revision = p.baseRevision) : (draws id (s.granted ++ p.issued)).Nodup := by
  obtain ⟨-, hpend⟩ := h.pending txn p hp
  rw [draws_append]
  exact nodup_append_of_ahead h.nodup hpend.nodup h.handed (hpend.ahead hrev.symm)

/-- After the records of a commit, whole or in part, the replay has counted past the values handed
out, and past those of the transaction when its commit record is there. -/
theorem CatalogStore.Inv.replayed_commit (hp : s.activeTxns txn = some p)
    (hcan : p.dirty = true ∧ s.state.revision = p.baseRevision) {n : Nat}
    (hkeeps : (commitRecords txn p).length ≤ n → s.KeepsUp snapshot id d txn)
    (hr' : recoverCatalogState snapshot (s.wal ++ (commitRecords txn p).take n) = .ok r') :
    (∀ v ∈ draws id s.granted, r'.state.Handed id d v) ∧
      ((commitRecords txn p).length ≤ n → ∀ v ∈ draws id p.issued, r'.state.Handed id d v) := by
  obtain ⟨htxn, hpend⟩ := h.pending txn p hp
  obtain ⟨r₀, hr₀, hfold⟩ := recoverCatalogState_append hr'
  have hopen : s.leftOpen snapshot txn = r₀.openTxns txn := by
    rw [CatalogStore.leftOpen, hr₀]
  rcases replay_commitRecords htxn hfold with ⟨hlt, hstate⟩ | ⟨hle, hvalues⟩
  · exact ⟨hstate ▸ h.replayed r₀ hr₀, fun hle => absurd hle (not_le.mpr hlt)⟩
  have hlookup := hvalues id
  refine ⟨fun v hv => handed_of_replay hlookup (fun r hlast => ?_) fun _ => ?_, fun _ v hv => ?_⟩
  · refine (h.handed v hv).lt_reach ?_
    rw [lastSaved_append] at hlast
    cases hown : lastSaved p.pendingWalRecords id with
    | some r₁ =>
      rw [hown] at hlast
      cases hlast
      exact hpend.upTo hcan.2.symm _ hown
    | none =>
      rw [hown, Option.none_or, ← hopen] at hlast
      exact hkeeps hle p hp hcan hown r hlast
  · exact h.replayed r₀ hr₀ v hv
  · obtain ⟨-, r, hlast, hlt⟩ := hpend.handed v hv
    refine handed_of_replay hlookup (fun r₁ hlast' => ?_) fun hnone => ?_
    · rw [lastSaved_append, hlast] at hlast'
      cases hlast'
      exact hlt
    · rw [lastSaved_append, hlast] at hnone
      cases hnone

theorem CatalogStore.Inv.commitTxn (hkeeps : s.KeepsUp snapshot id d txn) :
    (s.commitTxn txn).Inv snapshot id d := by
  -- the transactions that stay
  have others : ∀ txn' p, update s.activeTxns txn none txn' = some p →
      0 < txn' ∧ p.Inv id d s.state := h.pending_update nofun
  unfold CatalogStore.commitTxn
  split
  · exact h
  next p hp =>
  split
  · exact { h with pending := others }
  next hdirty =>
  split
  · next hrev =>
    obtain ⟨-, hpend⟩ := h.pending txn p hp
    have hcan : p.dirty = true ∧ s.state.revision = p.baseRevision :=
      ⟨by simpa using hdirty, hrev⟩
    refine ⟨hpend.seq, h.nodup_commit hp hrev, fun v hv => ?_, fun r hr v hv => ?_,
      h.auto, fun txn' p' hp' => ⟨(others txn' p' hp').1,
        (others txn' p' hp').2.of_revision_lt (Nat.lt_succ_self _)⟩⟩
    · rw [draws_append, mem_append] at hv
      rcases hv with hv | hv
      · exact (h.handed v hv).mono (hpend.behind hrev.symm)
      · exact (hpend.handed v hv).1
    · rw [← take_length (l := commitRecords txn p)] at hr
      obtain ⟨hold, hnew⟩ := h.replayed_commit hp hcan (fun _ => hkeeps) hr
      rw [draws_append, mem_append] at hv
      exact hv.elim (hold v) (hnew le_rfl v)
  · exact h

theorem CatalogStore.Inv.rollbackTxn (txn : TxnId) : (s.rollbackTxn txn).Inv snapshot id d := by
  unfold CatalogStore.rollbackTxn
  split
  · exact h
  refine { h with replayed := fun r hr => ?_, pending := h.pending_update nofun }
  dsimp only at hr
  split at hr
  · obtain ⟨r₀, hr₀, hfold⟩ := recoverCatalogState_append hr
    cases hfold
    exact h.replayed r₀ hr₀
  · exact h.replayed r hr

end

end

section

variable {snapshot : CatalogState} {id : SequenceId} {d : SequenceDescriptor} {s : CatalogStore}
  (hinc : d.incrementBy ≠ 0) (hcycle : d.cycle = false)
include hinc hcycle

theorem CatalogStore.Inv.replayed_autocommit (h : s.Inv snapshot id d) {id' : SequenceId}
    {count n : Nat}
    (hr' : recoverCatalogState snapshot
      (s.wal ++ (s.inFlight (.autocommit id' count)).take n) = .ok r') :
    ∀ v ∈ draws id s.granted, r'.state.Handed id d v := by
  obtain ⟨r₀, hr₀, hfold⟩ := recoverCatalogState_append hr'
  simp only [CatalogStore.inFlight] at hfold
  split at hfold
  · next values r staged hadv =>
    obtain ⟨-, -, hbehind, hlookup, -⟩ := advance_ok hinc hcycle h.seq hadv
    rcases replay_autocommitRecords h.auto hfold with ⟨-, hstate⟩ | ⟨-, hvalues⟩
    · exact hstate ▸ h.replayed r₀ hr₀
    · intro v hv
      refine handed_of_replay (hvalues id) (fun r₁ hlast => ?_) fun _ => h.replayed _ hr₀ v hv
      exact ((h.handed v hv).mono hbehind).lt_of_eq (by rw [hlookup, hlast]; rfl)
  · rw [take_nil] at hfold
    cases foldlM_nil_eq_ok.mp hfold
    exact h.replayed _ hr₀

theorem CatalogStore.Inv.replayed_crash (h : s.Inv snapshot id d) {call : Interrupted} {n : Nat}
    (htidy : s.Tidy snapshot id d (.crash call n))
    (hr' : recoverCatalogState snapshot (s.wal ++ (s.inFlight call).take n) = .ok r') :
    (draws id (s.granted ++ s.committedBy call n)).Nodup ∧
      ∀ v ∈ draws id (s.granted ++ s.committedBy call n), r'.state.Handed id d v := by
  cases call with
  | nothing =>
    simp only [CatalogStore.inFlight, CatalogStore.committedBy, take_nil, append_nil] at hr' ⊢
    exact ⟨h.nodup, h.replayed r' hr'⟩
  | autocommit id' count =>
    simp only [CatalogStore.committedBy, append_nil]
    exact ⟨h.nodup, h.replayed_autocommit hinc hcycle hr'⟩
  | commit txn =>
    cases hp : s.activeTxns txn with
    | none =>
      simp only [CatalogStore.inFlight, CatalogStore.committedBy, hp, take_nil, append_nil] at hr' ⊢
      exact ⟨h.nodup, h.replayed r' hr'⟩
    | some p =>
      by_cases hcan : p.dirty = true ∧ s.state.revision = p.baseRevision
      · have hflight : s.inFlight (.commit txn) = commitRecords txn p := by
          simp only [CatalogStore.inFlight, hp, if_pos hcan]
        have hne : commitRecords txn p ≠ [] := by simp [commitRecords]
        rw [hflight] at hr'
        obtain ⟨hold, hnew⟩ := h.replayed_commit hp hcan (fun hle => htidy (hflight ▸ hle)) hr'
        simp only [CatalogStore.committedBy, hp, hflight]
        split
        · next hdone =>
          refine ⟨h.nodup_commit hp hcan.2, fun v hv => ?_⟩
          rw [draws_append, mem_append] at hv
          exact hv.elim (hold v) (hnew hdone.1 v)
        · rw [append_nil]
          exact ⟨h.nodup, hold⟩
      · have hflight : s.inFlight (.commit txn) = [] := by
          simp only [CatalogStore.inFlight, hp, if_neg hcan]
        simp only [CatalogStore.committedBy, hp, hflight, take_nil, append_nil,
          ne_eq, not_true_eq_false, and_false, if_false] at hr' ⊢
        exact ⟨h.nodup, h.replayed r' hr'⟩

theorem CatalogStore.Inv.step (hsnap : snapshot.sequencesById[id]? = some d)
    (h : s.Inv snapshot id d) {a : CatalogStore.Action} (htidy : s.Tidy snapshot id d a)
    {s' : CatalogStore} (hstep : CatalogStore.step snapshot s a = some s') :
    s'.Inv snapshot id d := by
  cases a with (simp only [CatalogStore.step] at hstep)
  | beginTxn txn =>
    split at hstep
    · next htxn =>
      cases hstep
      exact h.beginTxn htxn.1
    · cases hstep
  | nextValues txn id' count =>
    split at hstep
    · cases hstep
      unfold CatalogStore.nextValues
      split
      · exact h
      next hcount =>
      split
      · exact h.nextValuesAutocommit hinc hcycle id' count
      next htxn =>
      split
      · next p hp => exact h.nextValuesPending hinc hcycle hp id' count
      next hp =>
      refine h.nextValuesUnregistered hinc hcycle (Nat.pos_of_ne_zero htxn) ?_ count
      intro hid
      rcases htidy hid hcount with hzero | hsome
      · exact htxn hzero
      · rw [hp] at hsome
        cases hsome
    · cases hstep
  | commitTxn txn =>
    cases hstep
    exact h.commitTxn htidy
  | rollbackTxn txn =>
    cases hstep
    exact h.rollbackTxn txn
  | crash call logged =>
    split at hstep
    · next r hr =>
      cases hstep
      obtain ⟨hnodup, hhanded⟩ := h.replayed_crash hinc hcycle htidy hr
      refine ⟨?_, hnodup, hhanded, fun r' hr' => ?_, Nat.two_pow_pos 48,
        fun txn p hp => by cases hp⟩
      · exact recoverCatalogState_sequencesById hr ▸ hsnap
      · cases hr.symm.trans hr'
        exact hhanded
    · cases hstep

end

def orderSequences : CatalogState where
  sequencesById := .ofList
    [(1, (⟨"orders_id", 1, 1, 100, false⟩ : SequenceDescriptor)), (2, ⟨"items_id", 1, 1, 100, false⟩)]
  sequenceValues := .ofList [(1, (⟨1, false⟩ : SequenceValueState)), (2, ⟨1, false⟩)]

end AionDb
