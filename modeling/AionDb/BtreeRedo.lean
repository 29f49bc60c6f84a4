import AionDb.BtreePage

/-!
# Redo of the disk B-tree

A commit logs how the pages of a disk index changed: each changed page is
compared with its image on disk, and where the difference is one entry, a
split, a new root or the metapage, a record that says so is logged
(`pageRecord`). Recovery applies the records to the pages on disk (`redo`).

Two sorts of records differ in what they do to a page that already holds their
effect. A split, a new root and a metapage update write what they name,
whatever the page held. The other records edit the entries in place, and
nothing tells them that the edit is there already.
-/

namespace AionDb.Btree

open Pages

/-! ## Records -/

inductive PageRecord where
  | metaUpdate (rootPage height pageCount freeListHead : Nat)
  | leafInsert (page key value : Nat)
  | leafDelete (page key value : Nat)
  | leafSplit (left right oldRightSibling separator : Nat) (leftEntries rightEntries : Entries)
  | internalInsert (page separator child : Nat)
  | internalDelete (page separator child : Nat)
  | internalSplit (left right promoted leftFirstChild rightFirstChild : Nat)
      (leftEntries rightEntries : Entries)
  | rootGrow (page firstChild separator rightChild : Nat)
deriving DecidableEq

namespace PageRecord

def allocated : PageRecord → List Nat
  | leafSplit _ r _ _ _ _ | internalSplit _ r _ _ _ _ _ => [r]
  | rootGrow n _ _ _ => [n]
  | _ => []

def base : PageRecord → List Nat
  | metaUpdate .. => [0]
  | leafInsert n _ _ | leafDelete n _ _ | internalInsert n _ _ | internalDelete n _ _ => [n]
  | leafSplit l _ _ _ _ _ | internalSplit l _ _ _ _ _ _ => [l]
  | rootGrow .. => []

def pages (r : PageRecord) : List Nat := r.base ++ r.allocated

def InPlace : PageRecord → Prop
  | leafInsert .. | leafDelete .. | internalInsert .. | internalDelete .. => True
  | _ => False

instance : DecidablePred InPlace := fun r => by cases r <;> unfold InPlace <;> infer_instance

end PageRecord

/-! ## What a commit logs -/

def extractLoop : Entries → Entries → Option (Nat × Nat) → Option (Nat × Nat)
  | o :: old, n :: new, inserted =>
    if o = n then extractLoop old new inserted
    else if inserted.isSome then none
    else extractLoop (o :: old) new (some n)
  | [], [n], none => some n
  | [], [], inserted => inserted
  | _, _, _ => none

def extractSingleInsert (old new : Entries) : Option (Nat × Nat) :=
  if new.length ≠ old.length + 1 then none else extractLoop old new none

def extractSingleDelete (old new : Entries) : Option (Nat × Nat) :=
  if old.length ≠ new.length + 1 then none else extractSingleInsert new old

def parseKind (kind : PageKind) : Page → Option Node
  | .node n => if n.kind = kind then some n else none
  | _ => none

def detectInternalInsert (n : Nat) (old new : Page) : Option PageRecord := do
  let old ← parseKind .internal old
  let new ← parseKind .internal new
  if old.firstChild ≠ new.firstChild then none
  else (extractSingleInsert old.entries new.entries).map fun e => .internalInsert n e.1 e.2

def detectInternalDelete (n : Nat) (old new : Page) : Option PageRecord := do
  let old ← parseKind .internal old
  let new ← parseKind .internal new
  if old.firstChild ≠ new.firstChild then none
  else (extractSingleDelete old.entries new.entries).map fun e => .internalDelete n e.1 e.2

/-- `build_specialized_disk_btree_record`. Two leaves with different right siblings end the
search. -/
def buildSpecialized (n : Nat) (old new : Page) : Option PageRecord :=
  if n = 0 then
    match old, new with
    | .metapage _, .metapage m => some (.metaUpdate m.rootPage m.height m.pageCount m.freeListHead)
    | _, _ => none
  else
    match parseKind .leaf old, parseKind .leaf new with
    | some oldLeaf, some newLeaf =>
      if oldLeaf.rightSibling ≠ newLeaf.rightSibling then none
      else
        match extractSingleInsert oldLeaf.entries newLeaf.entries with
        | some e => some (.leafInsert n e.1 e.2)
        | none =>
          (extractSingleDelete oldLeaf.entries newLeaf.entries).map fun e =>
            .leafDelete n e.1 e.2
    | _, _ =>
      match detectInternalInsert n old new with
      | some record => some record
      | none => detectInternalDelete n old new

structure PriorPage where
  page : Nat
  old : Page
  new : Page

def detectLeafSplit (n : Nat) (right : Page) (prior : List PriorPage) : Option PageRecord := do
  let right ← parseKind .leaf right
  let first ← right.entries.head?
  prior.findSome? fun p => do
    let old ← parseKind .leaf p.old
    let new ← parseKind .leaf p.new
    if old.entries.length ≤ new.entries.length ∨ new.entries = [] then none
    else if old.rightSibling ≠ right.rightSibling ∨ new.rightSibling ≠ n then none
    else if new.entries ++ right.entries = old.entries then
      some (.leafSplit p.page n right.rightSibling first.1 new.entries right.entries)
    else none

def detectInternalSplit (n : Nat) (right : Page) (prior : List PriorPage) : Option PageRecord := do
  let right ← parseKind .internal right
  prior.findSome? fun p => do
    let old ← parseKind .internal p.old
    let new ← parseKind .internal p.new
    if old.entries.length ≠ new.entries.length + right.entries.length + 1 then none
    else do
      let promoted ← old.entries[new.entries.length]?
      if promoted.2 ≠ right.firstChild then none
      else if old.entries.take new.entries.length ≠ new.entries ∨
          old.entries.drop (new.entries.length + 1) ≠ right.entries then none
      else some (.internalSplit p.page n promoted.1 old.firstChild right.firstChild new.entries
        right.entries)

def detectRootGrow (n : Nat) (new : Page) : Option PageRecord := do
  let new ← parseKind .internal new
  match new.entries with
  | [e] => some (.rootGrow n new.firstChild e.1 e.2)
  | _ => none

def pageSize : Nat := 8192

def readRelationPageImage (file : RelationFile) (n : Nat) : DbResult (Option Page) :=
  if u64Max < n * pageSize then .error (.internalMsg "relation page image offset overflow")
  else if u64Max < n * pageSize + pageSize then
    .error (.internalMsg "relation page image end offset overflow")
  else .ok file[n]?

/-- One changed page of `build_disk_index_page_records`. `patch` says whether the bytes that
changed fit a compact page patch; a patch and a full image are records of other kinds. -/
def pageRecord (file : RelationFile) (patch : Bool) (prior : List PriorPage) (n : Nat)
    (new : Page) : DbResult (Option PageRecord) := do
  let old ← readRelationPageImage file n
  let split := (detectLeafSplit n new prior).or (detectInternalSplit n new prior)
  match old with
  | some old =>
    match buildSpecialized n old new with
    | some record => pure (some record)
    | none => if patch ∨ old = new then pure none else pure split
  | none => pure (split.or (detectRootGrow n new))

def priorPages (file : RelationFile) (pages : List (Nat × Page)) : DbResult (List PriorPage) := do
  let images ← pages.mapM fun p => do
    let old ← readRelationPageImage file p.1
    pure (old.map fun old => ⟨p.1, old, p.2⟩)
  pure (images.filterMap id)

/-! ## Redo -/

section
variable (relation : RelationId)

def readDiskIndexPage (file : RelationFile) (n : Nat) : DbResult Page :=
  if u64Max < n * pageSize then .error (.internalMsg "disk index page read offset overflow")
  else
    match file[n]? with
    | some page => .ok page
    | none => .error (.internalMsg s!"disk index page read failed for relation {relation} page {n}")

def applyFullPageImage (file : RelationFile) (n : Nat) (page : Page) : DbResult RelationFile :=
  if u64Max < n * pageSize then .error (.internalMsg "disk index full-page redo offset overflow")
  else .ok (file.write n page)

def readNode (file : RelationFile) (n : Nat) (kind : PageKind) (found : String) :
    DbResult Node := do
  match parseKind kind (← readDiskIndexPage relation file n) with
  | some node => pure node
  | none => .error (.internalMsg s!"disk btree {found} page for relation {relation} page {n}")

def putEntries (context : String) (node : Node) (entries : Entries) : DbResult Node :=
  match node.writeEntries entries with
  | some node => .ok node
  | none =>
    if 65535 < entries.length then .error (.internalMsg s!"{context} exceeds u16")
    else .error (.internalMsg "disk btree u64 write past page boundary")

def editPage (file : RelationFile) (n : Nat) (kind : PageKind) (found context : String)
    (edit : Entries → DbResult Entries) : DbResult RelationFile := do
  let node ← readNode relation file n kind found
  let entries ← edit node.entries
  let node ← putEntries context node entries
  applyFullPageImage file n (.node node)

def removeEntry (missing : String) (e : Nat × Nat) (entries : Entries) : DbResult Entries :=
  if e ∈ entries then .ok (entries.erase e) else .error (.internalMsg missing)

def applyLeafInsert (file : RelationFile) (n key value : Nat) : DbResult RelationFile :=
  editPage relation file n .leaf "leaf insert found invalid leaf"
    "disk btree leaf insert entry count" fun entries =>
      .ok (entries.insertIdx
        (partitionPoint (fun e => e.1 < key ∨ (e.1 = key ∧ e.2 < value)) entries) (key, value))

def applyLeafDelete (file : RelationFile) (n key value : Nat) : DbResult RelationFile :=
  editPage relation file n .leaf "leaf delete found invalid leaf"
    "disk btree leaf delete entry count" (removeEntry
      s!"disk btree leaf delete missing entry ({key}, {value}) on relation {relation} page {n}"
      (key, value))

def applyInternalInsert (file : RelationFile) (n separator child : Nat) : DbResult RelationFile :=
  editPage relation file n .internal "internal insert found invalid internal"
    "disk btree internal insert entry count" fun entries =>
      .ok (entries.insertIdx (partitionPoint (fun e => e.1 ≤ separator) entries) (separator, child))

def applyInternalDelete (file : RelationFile) (n separator child : Nat) : DbResult RelationFile :=
  editPage relation file n .internal "internal delete found invalid internal"
    "disk btree internal delete entry count" (removeEntry
      (s!"disk btree internal delete missing entry ({separator}, {child}) on relation " ++
        s!"{relation} page {n}") (separator, child))

def applyLeafSplit (file : RelationFile) (left right oldRightSibling : Nat)
    (leftEntries rightEntries : Entries) : DbResult RelationFile := do
  let node ← readNode relation file left .leaf "leaf split found invalid left leaf"
  let leftNode ← putEntries "disk btree leaf split left entry count"
    { node with rightSibling := right } leftEntries
  let rightNode ← putEntries "disk btree leaf split right entry count"
    { kind := .leaf, rightSibling := oldRightSibling } rightEntries
  let file ← applyFullPageImage file left (.node leftNode)
  applyFullPageImage file right (.node rightNode)

/-- `apply_disk_btree_internal_split`; the right page keeps zero as its right sibling. -/
def applyInternalSplit (file : RelationFile) (left right leftFirstChild rightFirstChild : Nat)
    (leftEntries rightEntries : Entries) : DbResult RelationFile := do
  let node ← readNode relation file left .internal "internal split found invalid left internal"
  let leftNode ← putEntries "disk btree internal split left entry count"
    { node with firstChild := leftFirstChild } leftEntries
  let rightNode ← putEntries "disk btree internal split right entry count"
    { kind := .internal, rightSibling := 0, firstChild := rightFirstChild } rightEntries
  let file ← applyFullPageImage file left (.node leftNode)
  applyFullPageImage file right (.node rightNode)

def applyRootGrow (file : RelationFile) (n firstChild separator rightChild : Nat) :
    DbResult RelationFile :=
  applyFullPageImage file n (.node
    { kind := .internal, rightSibling := 0, firstChild, entries := [(separator, rightChild)],
      length_le := Nat.le_add_left 1 509 })

def applyMetaUpdate (file : RelationFile) (m : MetaPage) : DbResult RelationFile := do
  match ← readDiskIndexPage relation file 0 with
  | .metapage _ => applyFullPageImage file 0 (.metapage m)
  | _ =>
    .error (.internalMsg
      s!"disk btree meta update found invalid metapage magic for relation {relation}")

def redo (file : RelationFile) : PageRecord → DbResult RelationFile
  | .metaUpdate rootPage height pageCount freeListHead =>
    applyMetaUpdate relation file ⟨rootPage, height, pageCount, freeListHead⟩
  | .leafInsert n key value => applyLeafInsert relation file n key value
  | .leafDelete n key value => applyLeafDelete relation file n key value
  | .leafSplit left right oldRightSibling _ leftEntries rightEntries =>
    applyLeafSplit relation file left right oldRightSibling leftEntries rightEntries
  | .internalInsert n separator child => applyInternalInsert relation file n separator child
  | .internalDelete n separator child => applyInternalDelete relation file n separator child
  | .internalSplit left right _ leftFirstChild rightFirstChild leftEntries rightEntries =>
    applyInternalSplit relation file left right leftFirstChild rightFirstChild leftEntries
      rightEntries
  | .rootGrow n firstChild separator rightChild =>
    applyRootGrow file n firstChild separator rightChild

def redoAll (file : RelationFile) (records : List PageRecord) : DbResult RelationFile :=
  records.foldlM (redo relation) file

/-- The record is one that a commit logs when the pages on disk are those of `file`. -/
def Emits (file : RelationFile) (record : PageRecord) : Prop :=
  ∃ (patch : Bool) (pages : List (Nat × Page)) (prior : List PriorPage) (n : Nat) (new : Page),
    priorPages file pages = .ok prior ∧ (n, new) ∈ pages ∧
      pageRecord file patch prior n new = .ok (some record)

/-- The records are logged one after the other, each against pages that hold the effect of
those before it; a page is taken into the tree before it is used, and once. -/
def Logged (file : RelationFile) : List PageRecord → Prop
  | [] => True
  | record :: records =>
    Emits file record ∧ (∀ n ∈ record.allocated, n ∉ record.base) ∧
      (∀ r ∈ records, ∀ n ∈ r.allocated, n ∉ record.pages) ∧
      ∀ file', redo relation file record = .ok file' → Logged file' records

end

end AionDb.Btree
