import AionDb.Core
import AionDb.LibPages
import AionDb.LibEffect

/-!
# Pages of the disk B-tree

A relation of the disk B-tree is a file of 8 KiB pages. Page 0 is the
metapage; the other pages share one header (kind, entry count, right sibling,
first child) followed by entries of 16 bytes: pairs of a key and a value on a
leaf, of a separator and a child on an internal page. A page is modelled by
what its bytes say; the bound on the number of entries is what fits behind the
header, and a page above it cannot be built.
-/

namespace AionDb.Btree

open Pages Effect

def maxEntries : Nat := 510

def noPage : Nat := u64Max

inductive PageKind where
  | leaf
  | internal
deriving DecidableEq

abbrev Entries := List (Nat × Nat)

theorem length_nil_le : ([] : Entries).length ≤ maxEntries := Nat.zero_le _

structure Node where
  kind : PageKind
  rightSibling : Nat := noPage
  firstChild : Nat := noPage
  entries : Entries := []
  length_le : entries.length ≤ maxEntries := by first | exact length_nil_le | decide
deriving DecidableEq

structure MetaPage where
  rootPage : Nat
  height : Nat
  pageCount : Nat
  freeListHead : Nat
deriving DecidableEq

/-- A page of the file: never written, or with one of the two magics. -/
inductive Page where
  | zero
  | metapage (m : MetaPage)
  | node (n : Node)
deriving DecidableEq

abbrev RelationFile := List Page

namespace RelationFile

def write (file : RelationFile) (n : Nat) (page : Page) : RelationFile :=
  if n < file.length then file.set n page
  else file ++ List.replicate (n - file.length) .zero ++ [page]

theorem length_write (file : RelationFile) (n : Nat) (page : Page) :
    (file.write n page).length = max file.length (n + 1) := by
  unfold write
  split
  · rw [List.length_set]; omega
  · simp only [List.length_append, List.length_replicate, List.length_singleton]; omega

theorem getElem?_write_self (file : RelationFile) (n : Nat) (page : Page) :
    (file.write n page)[n]? = some page := by
  unfold write
  split
  · rename_i h
    exact List.getElem?_set_self h
  · rw [List.getElem?_append_right (by simp; omega)]
    simp only [List.length_append, List.length_replicate]
    rw [show n - (file.length + (n - file.length)) = 0 by omega]
    rfl

theorem getElem?_write_of_ne {file : RelationFile} {m n : Nat} (page : Page) (hne : m ≠ n)
    (hm : m < file.length) : (file.write n page)[m]? = file[m]? := by
  unfold write
  split
  · exact List.getElem?_set_ne (Ne.symm hne)
  · rw [List.append_assoc, List.getElem?_append_left hm]

end RelationFile

def Node.writeEntries (n : Node) (entries : Entries) : Option Node :=
  if h : entries.length ≤ maxEntries then some { n with entries, length_le := h } else none

/-! ## The live tree -/

structure DiskBTreeConfig where
  leafCapacity : Nat := 510
  internalCapacity : Nat := 509

/-- How a call on the tree fails: a page that says something else than expected, a page the
store does not have, or a descent that does not end. -/
inductive TreeError where
  | corrupt (message : String)
  | noSuchPage (n : Nat)
  | endless
deriving DecidableEq

abbrev Tree := Eff RelationFile TreeError

def fetchPage (n : Nat) : Tree Page := do
  match (← get)[n]? with
  | some page => pure page
  | none => throw (.noSuchPage n)

def fetchNode (n : Nat) : Tree Node := do
  match ← fetchPage n with
  | .node node => pure node
  | _ => throw (.corrupt "btree page has invalid magic")

def fetchMeta : Tree MetaPage := do
  match ← fetchPage 0 with
  | .metapage m => pure m
  | _ => throw (.corrupt "btree metapage has invalid magic")

def writeNode (n : Nat) (node : Node) : Tree Unit :=
  modify (·.write n (.node node))

def modifyMeta (f : MetaPage → MetaPage) : Tree Unit := do
  let m ← fetchMeta
  modify (·.write 0 (.metapage (f m)))

def readLeaf (n : Nat) : Tree Node := do
  let node ← fetchNode n
  if node.kind = .leaf then pure node else throw (.corrupt "expected btree leaf page")

def readInternal (n : Nat) : Tree Node := do
  let node ← fetchNode n
  if node.kind = .internal then pure node
  else throw (.corrupt "expected btree internal page")

/-- `write_leaf_entries` and `write_internal_entries`: the header fields are those of `node`. -/
def writeEntries (n : Nat) (node : Node) (entries : Entries) : Tree Unit :=
  match node.writeEntries entries with
  | some node => writeNode n node
  | none => throw (.corrupt "btree write past page boundary")

structure Split where
  separator : Nat
  rightPage : Nat

/-- `pop_free_page`; a free list head of zero is read as no page. -/
def popFreePage : Tree (Option Nat) := do
  let m ← fetchMeta
  if m.freeListHead = 0 ∨ m.freeListHead = noPage then pure none
  else do
    let free ← fetchNode m.freeListHead
    modifyMeta ({ · with freeListHead := free.rightSibling })
    pure (some m.freeListHead)

def allocateInitializedPage (kind : PageKind) : Tree Nat := do
  let n ← (do
    match ← popFreePage with
    | some n => pure n
    | none =>
      let n := (← get).length
      modify (·.write n .zero)
      let m ← fetchMeta
      modifyMeta ({ · with pageCount := max (n + 1) m.pageCount })
      pure n)
  writeNode n { kind }
  pure n

def insertLeaf (cfg : DiskBTreeConfig) (n key value : Nat) : Tree (Option Split) := do
  let node ← readLeaf n
  let entries :=
    match binarySearchBy (fun e => compare e.1 key) node.entries with
    | .ok i => node.entries.modify i fun e => (e.1, value)
    | .error i => node.entries.insertIdx i (key, value)
  if entries.length ≤ cfg.leafCapacity then do
    writeEntries n node entries
    pure none
  else do
    let right ← allocateInitializedPage .leaf
    let splitAt := entries.length / 2
    let left ← fetchNode n
    writeEntries n { left with rightSibling := right } (entries.take splitAt)
    let rightNode ← fetchNode right
    writeEntries right { rightNode with rightSibling := left.rightSibling } (entries.drop splitAt)
    pure ((entries.drop splitAt).head?.map fun e => ⟨e.1, right⟩)

/-- `internal_child_for_key_with_slot` over the entries of an internal page. -/
def childForKey (key : Nat) : Nat → Entries → Nat → Nat × Nat
  | child, [], idx => (child, idx)
  | child, (separator, right) :: entries, idx =>
    if key < separator then (child, idx) else childForKey key right entries (idx + 1)

def insertInternalEntry (cfg : DiskBTreeConfig) (n : Nat) (split : Split) :
    Tree (Option Split) := do
  let node ← readInternal n
  let idx := partitionPoint (fun e => e.1 ≤ split.separator) node.entries
  let entries := node.entries.insertIdx idx (split.separator, split.rightPage)
  if entries.length ≤ cfg.internalCapacity then do
    writeEntries n node entries
    pure none
  else do
    let splitAt := entries.length / 2
    match entries[splitAt]? with
    | none => throw (.corrupt "btree split of an empty page")
    | some promoted => do
      let right ← allocateInitializedPage .internal
      let left ← fetchNode n
      writeEntries n { left with firstChild := node.firstChild } (entries.take splitAt)
      let rightNode ← fetchNode right
      writeEntries right { rightNode with firstChild := promoted.2 } (entries.drop (splitAt + 1))
      pure (some ⟨promoted.1, right⟩)

/-- `insert_recursive`; the fuel bounds the descent. -/
def insertRecursive (cfg : DiskBTreeConfig) (key value : Nat) : Nat → Nat → Tree (Option Split)
  | 0, _ => throw .endless
  | fuel + 1, n => do
    let node ← fetchNode n
    match node.kind with
    | .leaf => insertLeaf cfg n key value
    | .internal =>
      let child := (childForKey key node.firstChild node.entries 0).1
      match ← insertRecursive cfg key value fuel child with
      | none => pure none
      | some split => insertInternalEntry cfg n split

def insert (cfg : DiskBTreeConfig) (fuel key value : Nat) : Tree Unit := do
  let m ← fetchMeta
  match ← insertRecursive cfg key value fuel m.rootPage with
  | none => pure ()
  | some split => do
    let root ← allocateInitializedPage .internal
    let node ← fetchNode root
    writeEntries root { node with firstChild := m.rootPage } [(split.separator, split.rightPage)]
    modifyMeta fun m' => { m' with rootPage := root, height := min (m'.height + 1) (2 ^ 32 - 1) }

def emptyTree : RelationFile :=
  [.metapage ⟨1, 1, 2, noPage⟩, .node { kind := .leaf }]

end AionDb.Btree
