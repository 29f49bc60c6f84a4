import AionDb.BtreeRedo

/-!
# What redo of the disk B-tree preserves

A record that a commit logs fits the pages it was logged against, so its redo
there goes well (`exists_redo_of_emits`). A record that is not an edit in
place writes the same images whatever the pages hold, as long as the page it
splits has the same frame: its kind, and the header field a split leaves alone
(`redo_congr`). Redo of such records keeps the frames of the pages that are
not new, so the records may run a second time over their own result
(`redoAll_again`).
-/

namespace AionDb.Btree

open Effect List Option

/-! ## Writes to the file -/

namespace RelationFile

def writeAll (file : RelationFile) (images : List (Nat × Page)) : RelationFile :=
  images.foldl (fun file image => file.write image.1 image.2) file

variable {file file' : RelationFile} {images : List (Nat × Page)} {m n : Nat}

theorem length_le_write (file : RelationFile) (n : Nat) (page : Page) :
    file.length ≤ (file.write n page).length := by
  rw [length_write]
  exact Nat.le_max_left ..

theorem length_le_writeAll (file : RelationFile) (images : List (Nat × Page)) :
    file.length ≤ (file.writeAll images).length := by
  induction images generalizing file with
  | nil => exact Nat.le_refl _
  | cons image images ih => exact (length_le_write ..).trans (ih _)

theorem length_writeAll (h : ∀ n ∈ images.map Prod.fst, n < file.length) :
    (file.writeAll images).length = file.length := by
  induction images generalizing file with
  | nil => rfl
  | cons image images ih =>
    have hhead : image.1 < file.length := h _ (mem_cons_self ..)
    have hlen : (file.write image.1 image.2).length = file.length := by
      rw [length_write]
      omega
    refine (ih fun n hn => ?_).trans hlen
    rw [hlen]
    exact h n (mem_cons_of_mem _ hn)

theorem getElem?_writeAll_of_not_mem (h : m ∉ images.map Prod.fst) (hm : m < file.length) :
    (file.writeAll images)[m]? = file[m]? := by
  induction images generalizing file with
  | nil => rfl
  | cons image images ih =>
    rw [map_cons, mem_cons, not_or] at h
    refine (ih h.2 (Nat.lt_of_lt_of_le hm (length_le_write ..))).trans ?_
    exact getElem?_write_of_ne _ h.1 hm

theorem exists_getElem?_writeAll (h : m ∈ images.map Prod.fst) :
    ∃ page, (m, page) ∈ images ∧ ∀ file : RelationFile, (file.writeAll images)[m]? = some page := by
  induction images with
  | nil => cases h
  | cons image images ih =>
    by_cases hm : m ∈ images.map Prod.fst
    · obtain ⟨page, hpage, hget⟩ := ih hm
      exact ⟨page, mem_cons_of_mem _ hpage, fun file => hget _⟩
    rcases mem_cons.mp h with rfl | h
    · refine ⟨image.2, mem_cons_self .., fun file => ?_⟩
      refine (getElem?_writeAll_of_not_mem hm ?_).trans (getElem?_write_self ..)
      rw [length_write]
      omega
    · exact absurd h hm

theorem getElem?_writeAll_congr (h : m ∈ images.map Prod.fst) :
    (file.writeAll images)[m]? = (file'.writeAll images)[m]? := by
  obtain ⟨page, -, hget⟩ := exists_getElem?_writeAll h
  rw [hget, hget]

theorem lt_length_writeAll (h : n ∈ images.map Prod.fst) : n < (file.writeAll images).length := by
  obtain ⟨page, -, hget⟩ := exists_getElem?_writeAll h
  exact (List.getElem?_eq_some_iff.mp (hget file)).1

end RelationFile

/-! ## What a commit logs fits the pages on disk -/

variable {e : Nat × Nat} {old new : Entries}

theorem length_of_extractSingleInsert
    (h : extractSingleInsert old new = some e) : new.length = old.length + 1 := by
  unfold extractSingleInsert at h
  split at h
  · cases h
  · exact not_not.mp ‹_›

theorem mem_of_extractLoop {inserted : Option (Nat × Nat)}
    (h : extractLoop old new inserted = some e) : e ∈ new ∨ inserted = some e := by
  fun_induction extractLoop old new inserted with
  | case1 o old new inserted ih => exact (ih h).imp_left (mem_cons_of_mem _)
  | case2 => cases h
  | case3 o old n new inserted hne hnone ih =>
    rcases ih h with hmem | heq
    · exact .inl (mem_cons_of_mem _ hmem)
    · cases heq
      exact .inl (mem_cons_self ..)
  | case4 n => cases h; exact .inl (mem_cons_self ..)
  | case5 inserted => exact .inr h
  | case6 => cases h

theorem mem_of_extractSingleDelete (h : extractSingleDelete old new = some e) : e ∈ old := by
  unfold extractSingleDelete extractSingleInsert at h
  split at h
  · cases h
  · rcases mem_of_extractLoop h with hmem | heq
    · exact hmem
    · cases heq

theorem parseKind_eq_some {kind : PageKind} {page : Page} {node : Node} :
    parseKind kind page = some node ↔ page = .node node ∧ node.kind = kind := by
  cases page with
  | zero | metapage m => simp [parseKind]
  | node n =>
    simp only [parseKind, Page.node.injEq]
    constructor
    · intro h
      split at h
      · cases h
        exact ⟨rfl, ‹_›⟩
      · cases h
    · rintro ⟨rfl, hkind⟩
      rw [if_pos hkind]

variable {n : Nat} {file : RelationFile}

theorem readRelationPageImage_eq_ok {image : Option Page}
    (h : readRelationPageImage file n = .ok image) :
    n * pageSize ≤ u64Max ∧ image = file[n]? := by
  unfold readRelationPageImage at h
  split at h
  · cases h
  · split at h
    · cases h
    · cases h
      exact ⟨by omega, rfl⟩

def NodeAt (file : RelationFile) (n : Nat) (kind : PageKind) (node : Node) : Prop :=
  n * pageSize ≤ u64Max ∧ file[n]? = some (.node node) ∧ node.kind = kind

theorem mem_priorPages {pages : List (Nat × Page)} {prior : List PriorPage}
    (h : priorPages file pages = .ok prior) {p : PriorPage} (hp : p ∈ prior) :
    p.page * pageSize ≤ u64Max ∧ file[p.page]? = some p.old := by
  obtain ⟨images, himages, hprior⟩ := bind_eq_ok.mp h
  cases hprior
  obtain ⟨image, himage, hid⟩ := mem_filterMap.mp hp
  obtain ⟨⟨n, new⟩, -, hread⟩ := mem_of_mapM_eq_ok himages himage
  obtain ⟨old, hold, hsome⟩ := bind_eq_ok.mp hread
  obtain ⟨hn, rfl⟩ := readRelationPageImage_eq_ok hold
  cases hsome
  obtain ⟨old, hold, rfl⟩ := map_eq_some_iff.mp hid
  exact ⟨hn, hold⟩

/-- What the record needs of the pages to be redone. -/
def Fits (file : RelationFile) : PageRecord → Prop
  | .metaUpdate .. => ∃ m, file[0]? = some (.metapage m)
  | .leafInsert n _ _ => ∃ node, NodeAt file n .leaf node ∧ node.entries.length < maxEntries
  | .leafDelete n key value => ∃ node, NodeAt file n .leaf node ∧ (key, value) ∈ node.entries
  | .internalInsert n _ _ => ∃ node, NodeAt file n .internal node ∧ node.entries.length < maxEntries
  | .internalDelete n separator child =>
    ∃ node, NodeAt file n .internal node ∧ (separator, child) ∈ node.entries
  | .leafSplit left right _ _ leftEntries rightEntries =>
    (∃ node, NodeAt file left .leaf node) ∧ right * pageSize ≤ u64Max ∧
      leftEntries.length ≤ maxEntries ∧ rightEntries.length ≤ maxEntries
  | .internalSplit left right _ _ _ leftEntries rightEntries =>
    (∃ node, NodeAt file left .internal node) ∧ right * pageSize ≤ u64Max ∧
      leftEntries.length ≤ maxEntries ∧ rightEntries.length ≤ maxEntries
  | .rootGrow n _ _ _ => n * pageSize ≤ u64Max

section
variable {file : RelationFile} {n : Nat} {old new : Page} {record : PageRecord}
  {prior : List PriorPage}

theorem lt_maxEntries_of_insert {oldNode newNode : Node}
    (h : extractSingleInsert oldNode.entries newNode.entries = some e) :
    oldNode.entries.length < maxEntries := by
  have hlen := length_of_extractSingleInsert h
  have hle := newNode.length_le
  omega

section

variable (hn : n * pageSize ≤ u64Max)
include hn

theorem fits_of_buildSpecialized (hold : file[n]? = some old)
    (h : buildSpecialized n old new = some record) : Fits file record := by
  unfold buildSpecialized at h
  split at h
  · subst n
    split at h
    · cases h
      exact ⟨_, hold⟩
    · cases h
  · split at h
    · -- both images are leaves
      rename_i oldLeaf newLeaf hparse _
      obtain ⟨rfl, hkind⟩ := parseKind_eq_some.mp hparse
      split at h
      · cases h
      split at h
      · rename_i e hinsert
        cases h
        exact ⟨oldLeaf, ⟨hn, hold, hkind⟩, lt_maxEntries_of_insert hinsert⟩
      · obtain ⟨e, hdelete, rfl⟩ := map_eq_some_iff.mp h
        exact ⟨oldLeaf, ⟨hn, hold, hkind⟩, mem_of_extractSingleDelete hdelete⟩
    · split at h
      · rename_i record' hinsert
        cases h
        simp only [detectInternalInsert, bind_eq_bind, bind_eq_some_iff,
          parseKind_eq_some] at hinsert
        obtain ⟨oldNode, ⟨rfl, hkind⟩, newNode, -, hinsert⟩ := hinsert
        split at hinsert
        · cases hinsert
        · obtain ⟨e, he, rfl⟩ := map_eq_some_iff.mp hinsert
          exact ⟨oldNode, ⟨hn, hold, hkind⟩, lt_maxEntries_of_insert he⟩
      · simp only [detectInternalDelete, bind_eq_bind, bind_eq_some_iff, parseKind_eq_some] at h
        obtain ⟨oldNode, ⟨rfl, hkind⟩, newNode, -, h⟩ := h
        split at h
        · cases h
        · obtain ⟨e, he, rfl⟩ := map_eq_some_iff.mp h
          exact ⟨oldNode, ⟨hn, hold, hkind⟩, mem_of_extractSingleDelete he⟩

theorem fits_of_detectRootGrow (h : detectRootGrow n new = some record) : Fits file record := by
  simp only [detectRootGrow, bind_eq_bind, bind_eq_some_iff] at h
  obtain ⟨node, -, h⟩ := h
  split at h
  · cases h
    exact hn
  · cases h

variable (hprior : ∀ p ∈ prior, p.page * pageSize ≤ u64Max ∧ file[p.page]? = some p.old)
include hprior

theorem fits_of_detectLeafSplit (h : detectLeafSplit n new prior = some record) : Fits file record := by
  simp only [detectLeafSplit, bind_eq_bind, bind_eq_some_iff] at h
  obtain ⟨right, -, first, -, h⟩ := h
  obtain ⟨p, hp, h⟩ := exists_of_findSome?_eq_some h
  simp only [bind_eq_some_iff, parseKind_eq_some] at h
  obtain ⟨old, ⟨hold, hkind⟩, left, -, h⟩ := h
  split at h
  · cases h
  split at h
  · cases h
  · split at h
    · cases h
      exact ⟨⟨old, (hprior p hp).1, by rw [(hprior p hp).2, hold], hkind⟩, hn,
        left.length_le, right.length_le⟩
    · cases h

theorem fits_of_detectInternalSplit (h : detectInternalSplit n new prior = some record) :
    Fits file record := by
  simp only [detectInternalSplit, bind_eq_bind, bind_eq_some_iff] at h
  obtain ⟨right, -, h⟩ := h
  obtain ⟨p, hp, h⟩ := exists_of_findSome?_eq_some h
  simp only [bind_eq_some_iff, parseKind_eq_some] at h
  obtain ⟨old, ⟨hold, hkind⟩, left, -, h⟩ := h
  split at h
  · cases h
  obtain ⟨promoted, -, h⟩ := bind_eq_some_iff.mp h
  split at h
  · cases h
  · split at h
    · cases h
    · cases h
      exact ⟨⟨old, (hprior p hp).1, by rw [(hprior p hp).2, hold], hkind⟩, hn,
        left.length_le, right.length_le⟩

end

end

theorem fits_of_emits {record : PageRecord} (h : Emits file record) : Fits file record := by
  obtain ⟨patch, pages, prior, n, new, hprior, -, hrecord⟩ := h
  have hprior' := fun p hp => mem_priorPages hprior (p := p) hp
  obtain ⟨old, hread, hrecord⟩ := bind_eq_ok.mp hrecord
  obtain ⟨hn, rfl⟩ := readRelationPageImage_eq_ok hread
  have hsplit : (detectLeafSplit n new prior).or (detectInternalSplit n new prior) =
      some record → Fits file record := by
    intro h
    rcases or_eq_some_iff.mp h with h | ⟨-, h⟩
    · exact fits_of_detectLeafSplit hn hprior' h
    · exact fits_of_detectInternalSplit hn hprior' h
  dsimp only at hrecord
  split at hrecord
  · rename_i old hold
    split at hrecord
    · rename_i record' hbuild
      cases hrecord
      exact fits_of_buildSpecialized hn hold hbuild
    · split at hrecord
      · cases hrecord
      · exact hsplit (Except.ok.inj hrecord)
  · rcases or_eq_some_iff.mp (Except.ok.inj hrecord) with h | ⟨-, h⟩
    · exact hsplit h
    · exact fits_of_detectRootGrow hn h

/-! ## Redo of one record -/

section
variable {relation : RelationId} {file file' file₁ : RelationFile} {record : PageRecord}
  {entries le re : Entries} {node : Node} {records : List PageRecord} {c left right : Nat}
  {kind : PageKind} {context : String}

theorem readNode_of_nodeAt (h : NodeAt file n kind node) (found : String) :
    readNode relation file n kind found = .ok node := by
  obtain ⟨hn, hget, hkind⟩ := h
  simp only [readNode, readDiskIndexPage, if_neg (Nat.not_lt.mpr hn), hget, bind, Except.bind,
    parseKind_eq_some.mpr ⟨rfl, hkind⟩]
  rfl

theorem nodeAt_of_readNode {found : String}
    (h : readNode relation file n kind found = .ok node) : NodeAt file n kind node := by
  obtain ⟨page, hread, hparse⟩ := bind_eq_ok.mp h
  split at hparse
  · rename_i node' hnode
    cases hparse
    obtain ⟨rfl, hkind⟩ := parseKind_eq_some.mp hnode
    unfold readDiskIndexPage at hread
    split at hread
    · cases hread
    · split at hread
      · rename_i page' hget
        cases hread
        exact ⟨by omega, hget, hkind⟩
      · cases hread
  · cases hparse

theorem putEntries_of_le (h : entries.length ≤ maxEntries) :
    putEntries context node entries = .ok { node with entries, length_le := h } := by
  rw [putEntries, Node.writeEntries, dif_pos h]

theorem putEntries_eq_ok {node' : Node} (h : putEntries context node entries = .ok node') :
    ∃ hle, node' = { node with entries, length_le := hle } := by
  by_cases hle : entries.length ≤ maxEntries
  · rw [putEntries_of_le hle] at h
    exact ⟨hle, (Except.ok.inj h).symm⟩
  · unfold putEntries Node.writeEntries at h
    rw [dif_neg hle] at h
    dsimp only at h
    split at h <;> cases h

theorem applyFullPageImage_eq_ok {page : Page} :
    applyFullPageImage file n page = .ok file' ↔
      n * pageSize ≤ u64Max ∧ file' = file.write n page := by
  unfold applyFullPageImage
  split
  · simp only [reduceCtorEq, false_iff, not_and]
    omega
  · simp only [Except.ok.injEq, eq_comm (a := file'), iff_and_self]
    omega

theorem exists_editPage (hat : NodeAt file n kind node)
    {edit : Entries → DbResult Entries} (hedit : edit node.entries = .ok entries)
    (hle : entries.length ≤ maxEntries) (found context : String) :
    ∃ file', editPage relation file n kind found context edit = .ok file' := by
  refine ⟨file.write n (.node { node with entries, length_le := hle }), ?_⟩
  refine bind_eq_ok.mpr ⟨node, readNode_of_nodeAt hat found, ?_⟩
  refine bind_eq_ok.mpr ⟨entries, hedit, ?_⟩
  exact bind_eq_ok.mpr ⟨_, putEntries_of_le hle, applyFullPageImage_eq_ok.mpr ⟨hat.1, rfl⟩⟩

theorem length_insertIdx_le (h : node.entries.length < maxEntries) (i : Nat) (e : Nat × Nat) :
    (node.entries.insertIdx i e).length ≤ maxEntries := by
  rw [length_insertIdx]
  split <;> omega

theorem length_erase_le (node : Node) (e : Nat × Nat) :
    (node.entries.erase e).length ≤ maxEntries :=
  (List.length_erase_le ..).trans node.length_le

theorem removeEntry_of_mem {missing : String} (h : e ∈ entries) :
    removeEntry missing e entries = .ok (entries.erase e) := if_pos h

-- both splits change the left node by `f` and write the halves, the right one over `base`
theorem split_eq_ok {kind : PageKind} {invalid leftCount rightCount : String} {f : Node → Node}
    {base : Node} :
    (do
      let node ← readNode relation file left kind invalid
      let leftNode ← putEntries leftCount (f node) le
      let rightNode ← putEntries rightCount base re
      let file ← applyFullPageImage file left (.node leftNode)
      applyFullPageImage file right (.node rightNode)) = .ok file' ↔
      ∃ node, NodeAt file left kind node ∧ right * pageSize ≤ u64Max ∧
        ∃ (hl : le.length ≤ maxEntries) (hr : re.length ≤ maxEntries),
          file' = file.writeAll
            [(left, .node { f node with entries := le, length_le := hl }),
             (right, .node { base with entries := re, length_le := hr })] := by
  constructor
  · intro h
    obtain ⟨node, hread, h⟩ := bind_eq_ok.mp h
    obtain ⟨leftNode, hleft, h⟩ := bind_eq_ok.mp h
    obtain ⟨rightNode, hright, h⟩ := bind_eq_ok.mp h
    obtain ⟨file₁, hfile₁, h⟩ := bind_eq_ok.mp h
    obtain ⟨hl, rfl⟩ := putEntries_eq_ok hleft
    obtain ⟨hr, rfl⟩ := putEntries_eq_ok hright
    obtain ⟨-, rfl⟩ := applyFullPageImage_eq_ok.mp hfile₁
    obtain ⟨hreach, rfl⟩ := applyFullPageImage_eq_ok.mp h
    exact ⟨node, nodeAt_of_readNode hread, hreach, hl, hr, rfl⟩
  · rintro ⟨node, hat, hreach, hl, hr, rfl⟩
    refine bind_eq_ok.mpr ⟨node, readNode_of_nodeAt hat _, ?_⟩
    refine bind_eq_ok.mpr ⟨_, putEntries_of_le hl, ?_⟩
    refine bind_eq_ok.mpr ⟨_, putEntries_of_le hr, ?_⟩
    exact bind_eq_ok.mpr ⟨_, applyFullPageImage_eq_ok.mpr ⟨hat.1, rfl⟩,
      applyFullPageImage_eq_ok.mpr ⟨hreach, rfl⟩⟩

theorem applyLeafSplit_eq_ok {oldRight : Nat} :
    applyLeafSplit relation file left right oldRight le re = .ok file' ↔
      ∃ node, NodeAt file left .leaf node ∧ right * pageSize ≤ u64Max ∧
        ∃ (hl : le.length ≤ maxEntries) (hr : re.length ≤ maxEntries),
          file' = file.writeAll
            [(left, .node { node with rightSibling := right, entries := le, length_le := hl }),
             (right, .node
               { kind := .leaf, rightSibling := oldRight, entries := re, length_le := hr })] :=
  split_eq_ok

theorem applyInternalSplit_eq_ok {leftFirst rightFirst : Nat} :
    applyInternalSplit relation file left right leftFirst rightFirst le re = .ok file' ↔
      ∃ node, NodeAt file left .internal node ∧ right * pageSize ≤ u64Max ∧
        ∃ (hl : le.length ≤ maxEntries) (hr : re.length ≤ maxEntries),
          file' = file.writeAll
            [(left, .node { node with firstChild := leftFirst, entries := le, length_le := hl }),
             (right, .node
               { kind := .internal, rightSibling := 0, firstChild := rightFirst, entries := re,
                 length_le := hr })] :=
  split_eq_ok

theorem applyMetaUpdate_eq_ok {m : MetaPage} :
    applyMetaUpdate relation file m = .ok file' ↔
      (∃ m', file[0]? = some (.metapage m')) ∧ file' = file.writeAll [(0, .metapage m)] := by
  have hzero : ¬ u64Max < 0 * pageSize := by omega
  cases hget : file[0]? with
  | none => simp [applyMetaUpdate, readDiskIndexPage, hget, bind, Except.bind]
  | some page =>
    simp only [applyMetaUpdate, readDiskIndexPage, if_neg hzero, hget, bind, Except.bind]
    cases page with
    | zero => simp
    | node n => simp
    | metapage m' =>
      simp only [applyFullPageImage_eq_ok, RelationFile.writeAll, foldl_cons,
        foldl_nil, Option.some.injEq, Page.metapage.injEq, exists_eq', true_and,
        and_iff_right_iff_imp]
      omega

theorem exists_redo_of_fits (h : Fits file record) :
    ∃ file', redo relation file record = .ok file' := by
  cases record with
  | metaUpdate rootPage height pageCount freeListHead =>
    exact ⟨_, applyMetaUpdate_eq_ok.mpr ⟨h, rfl⟩⟩
  | leafInsert n key value =>
    obtain ⟨node, hat, hroom⟩ := h
    unfold redo applyLeafInsert
    exact exists_editPage hat (by exact rfl) (length_insertIdx_le hroom _ _) _ _
  | leafDelete n key value =>
    obtain ⟨node, hat, hmem⟩ := h
    exact exists_editPage hat (removeEntry_of_mem hmem) (length_erase_le ..) _ _
  | internalInsert n separator child =>
    obtain ⟨node, hat, hroom⟩ := h
    unfold redo applyInternalInsert
    exact exists_editPage hat (by exact rfl) (length_insertIdx_le hroom _ _) _ _
  | internalDelete n separator child =>
    obtain ⟨node, hat, hmem⟩ := h
    exact exists_editPage hat (removeEntry_of_mem hmem) (length_erase_le ..) _ _
  | leafSplit left right oldRightSibling separator le re =>
    obtain ⟨⟨node, hat⟩, hreach, hl, hr⟩ := h
    exact ⟨_, applyLeafSplit_eq_ok.mpr ⟨node, hat, hreach, hl, hr, rfl⟩⟩
  | internalSplit left right promoted leftFirst rightFirst le re =>
    obtain ⟨⟨node, hat⟩, hreach, hl, hr⟩ := h
    exact ⟨_, applyInternalSplit_eq_ok.mpr ⟨node, hat, hreach, hl, hr, rfl⟩⟩
  | rootGrow n firstChild separator rightChild => exact ⟨_, applyFullPageImage_eq_ok.mpr ⟨h, rfl⟩⟩

/-- What a split of the page, or an update of the metapage, leaves as it is. -/
inductive Frame where
  | zero
  | metapage
  | leaf (firstChild : Nat)
  | internal (rightSibling : Nat)

def Page.frame : Page → Frame
  | .zero => .zero
  | .metapage _ => .metapage
  | .node n =>
    match n.kind with
    | .leaf => .leaf n.firstChild
    | .internal => .internal n.rightSibling

theorem NodeAt.frame (h : NodeAt file n kind node) :
    file[n]?.map Page.frame = some (Page.node node).frame := by
  rw [h.2.1, map_some]

/-- A page with the frame of a node is a node of the same kind. -/
theorem NodeAt.of_frame (h : NodeAt file n kind node)
    (hframe : file'[n]?.map Page.frame = file[n]?.map Page.frame) :
    ∃ node', NodeAt file' n kind node' ∧ (Page.node node').frame = (Page.node node).frame := by
  obtain ⟨page, hget, hframe⟩ := map_eq_some_iff.mp (hframe.trans h.frame)
  obtain ⟨hn, -, hkind⟩ := h
  cases page with
  | zero | metapage m => cases kind <;> simp [Page.frame, hkind] at hframe
  | node node' =>
    refine ⟨node', ⟨hn, hget, ?_⟩, hframe⟩
    cases kind <;> cases hkind' : node'.kind <;> simp [Page.frame, hkind, hkind'] at hframe ⊢

theorem frame_of_mem_split {p q : Page} (h : file[left]?.map Page.frame = some p.frame) :
    ∀ n ∈ [left], ∀ page, (n, page) ∈ [(left, p), (right, q)] → n ∉ [right] →
      file[n]?.map Page.frame = some page.frame := by
  intro n hn page hpage hnew
  cases mem_singleton.mp hn
  rcases mem_cons.mp hpage with heq | hpage
  · cases heq
    exact h
  · cases mem_singleton.mp hpage
    exact absurd (mem_singleton.mpr rfl) hnew

theorem metapage_of_frame (h : file[n]?.map Page.frame = some .metapage) :
    ∃ m, file[n]? = some (.metapage m) := by
  obtain ⟨page, hget, hframe⟩ := map_eq_some_iff.mp h
  cases page with
  | zero => cases hframe
  | metapage m => exact ⟨m, hget⟩
  | node node => cases hkind : node.kind <;> simp [Page.frame, hkind] at hframe

/-- A record that is not an edit in place writes the same images to every file on which the
page it changes has the same frame, and it keeps that frame. -/
theorem redo_congr (hplace : ¬ record.InPlace) (h : redo relation file record = .ok file₁)
    (hframe : ∀ n ∈ record.base, file'[n]?.map Page.frame = file[n]?.map Page.frame) :
    ∃ images : List (Nat × Page), images.map Prod.fst = record.pages ∧
      file₁ = file.writeAll images ∧
      redo relation file' record = .ok (file'.writeAll images) ∧
      ∀ n ∈ record.base, ∀ page, (n, page) ∈ images → n ∉ record.allocated →
        file[n]?.map Page.frame = some page.frame := by
  cases record with
  | leafInsert n key value | leafDelete n key value | internalInsert n separator child =>
    exact absurd trivial hplace
  | internalDelete n separator child => exact absurd trivial hplace
  | metaUpdate rootPage height pageCount freeListHead =>
    obtain ⟨⟨m, hm⟩, rfl⟩ := applyMetaUpdate_eq_ok.mp h
    have hzero : file'[0]?.map Page.frame = some .metapage := by
      rw [hframe 0 (mem_singleton.mpr rfl), hm]
      rfl
    refine ⟨_, rfl, rfl, applyMetaUpdate_eq_ok.mpr ⟨metapage_of_frame hzero, rfl⟩, ?_⟩
    intro n hn page hpage _
    cases mem_singleton.mp hpage
    rw [hm]
    rfl
  | leafSplit left right oldRightSibling separator le re =>
    obtain ⟨node, hat, hreach, hl, hr, rfl⟩ := applyLeafSplit_eq_ok.mp h
    obtain ⟨node', hat', hsame⟩ := hat.of_frame (hframe left (mem_singleton.mpr rfl))
    simp only [Page.frame, hat.2.2, hat'.2.2, Frame.leaf.injEq] at hsame
    refine ⟨_, rfl, rfl, applyLeafSplit_eq_ok.mpr ⟨node', hat', hreach, hl, hr, ?_⟩,
      frame_of_mem_split ?_⟩
    · simp only [hat.2.2, hat'.2.2, hsame]
    · simp only [hat.frame, Page.frame, hat.2.2]
  | internalSplit left right promoted leftFirst rightFirst le re =>
    obtain ⟨node, hat, hreach, hl, hr, rfl⟩ := applyInternalSplit_eq_ok.mp h
    obtain ⟨node', hat', hsame⟩ := hat.of_frame (hframe left (mem_singleton.mpr rfl))
    simp only [Page.frame, hat.2.2, hat'.2.2, Frame.internal.injEq] at hsame
    refine ⟨_, rfl, rfl, applyInternalSplit_eq_ok.mpr ⟨node', hat', hreach, hl, hr, ?_⟩,
      frame_of_mem_split ?_⟩
    · simp only [hat.2.2, hat'.2.2, hsame]
    · simp only [hat.frame, Page.frame, hat.2.2]
  | rootGrow n firstChild separator rightChild =>
    obtain ⟨hreach, rfl⟩ := applyFullPageImage_eq_ok.mp h
    refine ⟨[(n, _)], rfl, rfl, applyFullPageImage_eq_ok.mpr ⟨hreach, rfl⟩, ?_⟩
    intro n hn
    cases hn

theorem lt_length_of_mem_base (hplace : ¬ record.InPlace)
    (h : redo relation file record = .ok file₁) (hn : n ∈ record.base)
    (hnew : n ∉ record.allocated) : n < file.length := by
  obtain ⟨images, hpages, -, -, hkept⟩ := redo_congr hplace h fun _ _ => rfl
  have hmem : n ∈ images.map Prod.fst := by
    rw [hpages]
    exact mem_append_left _ hn
  obtain ⟨⟨_, page⟩, hpage, rfl⟩ := mem_map.mp hmem
  obtain ⟨old, hold, -⟩ := map_eq_some_iff.mp (hkept _ hn page hpage hnew)
  exact (List.getElem?_eq_some_iff.mp hold).1

/-! ## Redo of a log -/

theorem redoAll_cons :
    redoAll relation file (record :: records) = .ok file' ↔
      ∃ file₁, redo relation file record = .ok file₁ ∧ redoAll relation file₁ records = .ok file' :=
  foldlM_cons_eq_ok

theorem exists_redoAll (h : Logged relation file records) :
    ∃ file', redoAll relation file records = .ok file' := by
  induction records generalizing file with
  | nil => exact ⟨file, rfl⟩
  | cons record records ih =>
    obtain ⟨hemits, -, -, hrest⟩ := h
    obtain ⟨file₁, hredo⟩ : ∃ file₁, redo relation file record = .ok file₁ :=
      exists_redo_of_fits (fits_of_emits hemits)
    obtain ⟨file', hall⟩ := ih (hrest file₁ hredo)
    exact ⟨file', redoAll_cons.mpr ⟨file₁, hredo, hall⟩⟩

theorem redoAll_append {records' : List PageRecord}
    (h : redoAll relation file records = .ok file₁) :
    redoAll relation file (records ++ records') = redoAll relation file₁ records' := by
  rw [redoAll, foldlM_append, ← redoAll, h]
  rfl

/-- What a record that is not an edit in place leaves as it is: the pages it does not name, and
the frames of those it does not allocate. -/
theorem redo_keeps (hplace : ¬ record.InPlace) (h : redo relation file record = .ok file₁)
    (hn : n < file.length) :
    (n ∉ record.pages → file₁[n]? = file[n]?) ∧
      (n ∉ record.allocated → file₁[n]?.map Page.frame = file[n]?.map Page.frame) := by
  obtain ⟨images, hpages, rfl, -, hkept⟩ := redo_congr hplace h fun _ _ => rfl
  have hsame : n ∉ record.pages → (file.writeAll images)[n]? = file[n]? := fun hnot =>
    RelationFile.getElem?_writeAll_of_not_mem (by rwa [hpages]) hn
  refine ⟨hsame, fun hnew => ?_⟩
  by_cases hmem : n ∈ record.pages
  · have hbase : n ∈ record.base := (mem_append.mp hmem).resolve_right hnew
    have hmem' : n ∈ images.map Prod.fst := by rwa [hpages]
    obtain ⟨page, hpage, hget⟩ := RelationFile.exists_getElem?_writeAll hmem'
    rw [hget, map_some, hkept n hbase page hpage hnew]
  · rw [hsame hmem]

section

variable (hplace : ∀ r ∈ records, ¬ r.InPlace) (h : redoAll relation file records = .ok file')
include hplace h

theorem length_le_redoAll : file.length ≤ file'.length := by
  refine foldlM_preserves (I := fun f => file.length ≤ f.length) ?_ (Nat.le_refl _) h
  intro r hr f f' hle hredo
  obtain ⟨images, -, rfl, -⟩ := redo_congr (hplace r hr) hredo fun _ _ => rfl
  exact hle.trans (RelationFile.length_le_writeAll ..)

theorem redoAll_keeps (hn : n < file.length) :
    ((∀ r ∈ records, n ∉ r.pages) → file'[n]? = file[n]?) ∧
      ((∀ r ∈ records, n ∉ r.allocated) → file'[n]?.map Page.frame = file[n]?.map Page.frame) := by
  induction records generalizing file with
  | nil =>
    cases foldlM_nil_eq_ok.mp h
    exact ⟨fun _ => rfl, fun _ => rfl⟩
  | cons record records ih =>
    obtain ⟨file₁, hredo, hall⟩ := redoAll_cons.mp h
    have hhead := hplace record (mem_cons_self ..)
    have hkeeps := redo_keeps hhead hredo hn
    obtain ⟨images, -, rfl, -⟩ := redo_congr hhead hredo fun _ _ => rfl
    have hrest := ih (fun r hr => hplace r (mem_cons_of_mem _ hr)) hall
      (Nat.lt_of_lt_of_le hn (RelationFile.length_le_writeAll ..))
    constructor
    · intro hnot
      rw [hrest.1 fun r hr => hnot r (mem_cons_of_mem _ hr)]
      exact hkeeps.1 (hnot record (mem_cons_self ..))
    · intro hnot
      rw [hrest.2 fun r hr => hnot r (mem_cons_of_mem _ hr)]
      exact hkeeps.2 (hnot record (mem_cons_self ..))

end

/-- The pages while a log runs a second time. `file` is where the first run stood, `last` its
result: every page is already as the first run left it in the end, or it is as the first run
had it here and is still to be written. -/
structure Again (records : List PageRecord) (file last file' : RelationFile) : Prop where
  length_eq : file'.length = last.length
  page : ∀ n, file'[n]? = last[n]? ∨ (file'[n]? = file[n]? ∧ ∃ r ∈ records, n ∈ r.pages)

theorem redoAll_again {last : RelationFile} (hlogged : Logged relation file records)
    (hplace : ∀ r ∈ records, ¬ r.InPlace) (h : redoAll relation file records = .ok last)
    (hagain : Again records file last file') :
    redoAll relation file' records = .ok last := by
  induction records generalizing file file' with
  | nil =>
    have heq : file' = last := by
      refine ext_getElem? fun n => ?_
      rcases hagain.page n with hn | ⟨-, r, hr, -⟩
      · exact hn
      · cases hr
    rw [heq]
    rfl
  | cons record records ih =>
    obtain ⟨file₁, hredo, hall⟩ := redoAll_cons.mp h
    obtain ⟨-, hown, hfresh, hrest⟩ := hlogged
    have hhead := hplace record (mem_cons_self ..)
    have htail : ∀ r ∈ records, ¬ r.InPlace := fun r hr => hplace r (mem_cons_of_mem _ hr)
    -- the page that is changed has the frame it had in the first run
    have hframe : ∀ n ∈ record.base, file'[n]?.map Page.frame = file[n]?.map Page.frame := by
      intro n hn
      have hlt : n < file.length := lt_length_of_mem_base hhead hredo hn fun hnew => hown n hnew hn
      rcases hagain.page n with hlast | ⟨hsame, -⟩
      · rw [hlast]
        refine (redoAll_keeps hplace h hlt).2 fun r hr hnew => ?_
        rcases mem_cons.mp hr with rfl | hr
        · exact hown n hnew hn
        · exact hfresh r hr n hnew (mem_append_left _ hn)
      · rw [hsame]
    obtain ⟨images, hpages, rfl, hredo', -⟩ := redo_congr hhead hredo hframe
    have hlen : (file'.writeAll images).length = file'.length := by
      refine RelationFile.length_writeAll fun n hn => ?_
      rw [hagain.length_eq]
      exact Nat.lt_of_lt_of_le (RelationFile.lt_length_writeAll hn) (length_le_redoAll htail hall)
    refine redoAll_cons.mpr ⟨_, hredo', ih (hrest _ hredo) htail hall
      ⟨hlen.trans hagain.length_eq, fun n => ?_⟩⟩
    by_cases hmem : n ∈ record.pages
    · -- written just now, by both runs
      have hmem' : n ∈ images.map Prod.fst := by rwa [hpages]
      have hsame : (file'.writeAll images)[n]? = (file.writeAll images)[n]? :=
        RelationFile.getElem?_writeAll_congr hmem'
      by_cases hlater : ∃ r ∈ records, n ∈ r.pages
      · exact .inr ⟨hsame, hlater⟩
      · refine .inl (hsame.trans (Eq.symm ?_))
        refine (redoAll_keeps htail hall (RelationFile.lt_length_writeAll hmem')).1 ?_
        exact fun r hr hn => hlater ⟨r, hr, hn⟩
    · have hmem' : n ∉ images.map Prod.fst := by rwa [hpages]
      by_cases hn : n < file'.length
      · rw [RelationFile.getElem?_writeAll_of_not_mem hmem' hn]
        rcases hagain.page n with hlast | ⟨hsame, r, hr, hnr⟩
        · exact .inl hlast
        have hlt : n < file.length := by
          rw [getElem?_eq_getElem hn] at hsame
          exact (List.getElem?_eq_some_iff.mp hsame.symm).1
        rw [RelationFile.getElem?_writeAll_of_not_mem hmem' hlt]
        rcases mem_cons.mp hr with rfl | hr
        · exact absurd hnr hmem
        · exact .inr ⟨hsame, r, hr, hnr⟩
      · left
        rw [getElem?_eq_none (by omega), getElem?_eq_none]
        rw [← hagain.length_eq]
        omega

theorem Logged.take (h : Logged relation file records) (k : Nat) :
    Logged relation file (records.take k) := by
  induction records generalizing file k with
  | nil => rw [take_nil]; trivial
  | cons record records ih =>
    cases k with
    | zero => trivial
    | succ k =>
      obtain ⟨hemits, hown, hfresh, hrest⟩ := h
      exact ⟨hemits, hown, fun r hr => hfresh r (mem_of_mem_take hr),
        fun file₁ hredo => ih (hrest file₁ hredo) k⟩

theorem Logged.cons (patch : Bool) (pages : List (Nat × Page)) (changed : Nat × Page)
    (hchanged : changed ∈ pages)
    (hrecord : (priorPages file pages >>= fun prior =>
      pageRecord file patch prior changed.1 changed.2) = .ok (some record))
    (hown : ∀ n ∈ record.allocated, n ∉ record.base)
    (hfresh : ∀ r ∈ records, ∀ n ∈ r.allocated, n ∉ record.pages)
    (hrest : ∀ file₁, redo relation file record = .ok file₁ → Logged relation file₁ records) :
    Logged relation file (record :: records) := by
  obtain ⟨prior, hprior, hrecord⟩ := bind_eq_ok.mp hrecord
  exact ⟨⟨patch, pages, prior, changed.1, changed.2, hprior, hchanged, hrecord⟩, hown, hfresh,
    hrest⟩

end

/-! ## Two logs -/

def leafPage (rightSibling : Nat) (entries : Entries) (h : entries.length ≤ maxEntries) : Page :=
  .node { kind := .leaf, rightSibling, entries, length_le := h }

def fullRoot : RelationFile :=
  [.metapage ⟨1, 1, 2, noPage⟩, leafPage noPage [(1, 10), (2, 20)] (by decide)]

/-- The leaf is split under a new root, then an entry goes to the new leaf. -/
def splitLog : List PageRecord :=
  [.leafSplit 1 2 noPage 2 [(1, 10)] [(2, 20)], .rootGrow 3 1 2 2, .metaUpdate 3 2 4 noPage,
    .leafInsert 2 3 30]

def splitFiles (i : Nat) : RelationFile :=
  ((redoAll 7 fullRoot (splitLog.take i)).toOption).getD []

theorem logged_splitLog : Logged 7 fullRoot splitLog := by
  have hnext : ∀ {i : Nat} {r : PageRecord} {file₁ : RelationFile},
      redo 7 (splitFiles i) r = .ok (splitFiles (i + 1)) →
        redo 7 (splitFiles i) r = .ok file₁ → file₁ = splitFiles (i + 1) :=
    fun h h₁ => Except.ok.inj (h₁.symm.trans h)
  show Logged 7 (splitFiles 0) splitLog
  refine Logged.cons false
    [(1, leafPage 2 [(1, 10)] (by decide)), (2, leafPage noPage [(2, 20)] (by decide))]
    (2, leafPage noPage [(2, 20)] (by decide)) (by decide +kernel) (by decide +kernel) (by decide)
    (by decide) fun file₁ h => ?_
  obtain rfl := hnext (by decide +kernel) h
  refine Logged.cons false [(3, .node ⟨.internal, noPage, 1, [(2, 2)], by decide⟩)] _
    (mem_cons_self ..) (by decide +kernel) (by decide) (by decide) fun file₁ h => ?_
  obtain rfl := hnext (by decide +kernel) h
  refine Logged.cons false [(0, .metapage ⟨3, 2, 4, noPage⟩)] _ (mem_cons_self ..)
    (by decide +kernel) (by decide) (by decide) fun file₁ h => ?_
  obtain rfl := hnext (by decide +kernel) h
  exact Logged.cons false [(2, leafPage noPage [(2, 20), (3, 30)] (by decide))] _
    (mem_cons_self ..) (by decide +kernel) (by decide) (by decide) fun _ _ => trivial

def oneEntry : RelationFile :=
  [.metapage ⟨1, 1, 2, noPage⟩, leafPage noPage [(5, 50)] (by decide)]

end AionDb.Btree
