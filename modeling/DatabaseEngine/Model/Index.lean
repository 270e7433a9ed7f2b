import DatabaseEngine.Model.Heap
import DatabaseEngine.Model.Condition

/-!
# `DatabaseEngine.Model.Index`: B+ trees in pages

The index trees of `11_index.c`. A node is a page; `Node` is what its header and its entries
say, `readNode` takes it from the bytes of the page and `storeNode` puts it back. A child's
page id is the payload of an entry, and `lastChild` has no key.

A key in a node has the width that the node's flags name, so a key is stored cut to it. The
walks down a tree and along its leaves take as much fuel as the pool has pages: a walk that
meets no page twice ends before.
-/

set_option autoImplicit false

namespace DatabaseEngine

open Library

/-- How many bytes of a text are kept. -/
def INDEX_KEY_MAX : Nat := 40
/-- The bytes of an entry with an integer. -/
def INDEX_ENTRY_INT : Nat := 8
/-- The bytes of an entry with a double. -/
def INDEX_ENTRY_FLOAT : Nat := 12
/-- The bytes of an entry with a text. -/
def INDEX_ENTRY_TEXT : Nat := 12 + INDEX_KEY_MAX
/-- The bytes before the first entry. -/
def INDEX_HEADER : Nat := 16
/-- No page. -/
def INVALID_PAGE : UInt32 := 0xFFFFFFFF
/-- The flag of a leaf. -/
def NODE_LEAF : UInt32 := 1
/-- The flag of text keys. -/
def NODE_TEXT : UInt32 := 2
/-- The flag of double keys. -/
def NODE_FLOAT : UInt32 := 4
/-- Both flags of keys. -/
def NODE_KEY : UInt32 := 6

/-- A key as it is stored: an int or a double as four or eight bytes that are in order, a
text as its first `INDEX_KEY_MAX` bytes, filled up with zeroes. -/
structure StoredKey where
  type : UInt8
  storedLength : UInt8
  fullLength : UInt32
  key : List UInt8
  deriving DecidableEq

/-- An entry: a row position in a leaf, a child elsewhere, and the key. -/
structure Entry where
  payload : UInt32
  key : StoredKey
  deriving DecidableEq

/-- What a node's page holds. -/
structure Node where
  flags : UInt32
  entries : List Entry
  nextLeaf : UInt32
  lastChild : UInt32
  deriving DecidableEq

/-- Whether a node is a leaf. -/
def Node.isLeaf (node : Node) : Bool := node.flags &&& NODE_LEAF != 0
/-- The flags of its keys. -/
def Node.keyBits (node : Node) : UInt32 := node.flags &&& NODE_KEY

/-- The flags of the keys of a column. -/
def keyBitsFor (type : ColType) : UInt32 :=
  match type with
  | .TYPE_TEXT => NODE_TEXT
  | .TYPE_FLOAT => NODE_FLOAT
  | .TYPE_INT | .TYPE_DATE => 0

/-- The size of every entry of a node. -/
def nodeEntry (flags : UInt32) : Nat :=
  if flags &&& NODE_TEXT ≠ 0 then INDEX_ENTRY_TEXT
  else if flags &&& NODE_FLOAT ≠ 0 then INDEX_ENTRY_FLOAT else INDEX_ENTRY_INT

/-- How many entries make a node full. -/
def nodeOrder (flags : UInt32) : Nat := (PAGE_USABLE - INDEX_HEADER) / nodeEntry flags

/-! ### Keys -/

/-- A double as an unsigned integer that is in order with it. -/
def floatOrder (number : UInt64) : UInt64 :=
  if number &&& 0x8000000000000000 ≠ 0 then ~~~number else number ||| 0x8000000000000000

/-- The key of a value. -/
def makeKey (value : Value) : StoredKey :=
  match value.type with
  | .TYPE_FLOAT =>
    { type := 2, storedLength := 8, fullLength := 8, key := le64 (floatOrder value.floatValue) }
  | .TYPE_INT | .TYPE_DATE =>
    { type := 0, storedLength := 4, fullLength := 4,
      key := le32 (value.intValue.toUInt32 ^^^ 0x80000000) }
  | .TYPE_TEXT =>
    { type := 1, storedLength := UInt8.ofNat (min value.text.length INDEX_KEY_MAX),
      fullLength := UInt32.ofNat value.text.length,
      key := (value.text ++ List.replicate INDEX_KEY_MAX 0).take INDEX_KEY_MAX }

/-- The unsigned number that bytes make, least significant first. -/
def leNumber (bytes : List UInt8) : Nat := bytes.foldr (fun b high => b.toNat + 256 * high) 0

/-- Less, greater or equal. -/
def compareNat (a b : Nat) : Ordering := if a < b then .lt else if b < a then .gt else .eq

/-- `memcmp`, on bytes of one length. -/
def compareBytes : List UInt8 → List UInt8 → Ordering
  | a :: as, b :: bs => if a < b then .lt else if b < a then .gt else compareBytes as bs
  | _, _ => .eq

/-- Orders two stored keys. -/
def compareKeys (a b : StoredKey) : Ordering :=
  if a.type = 2 then compareNat (leNumber (a.key.take 8)) (leNumber (b.key.take 8))
  else if a.type = 0 then compareNat (leNumber (a.key.take 4)) (leNumber (b.key.take 4))
  else
    let shared := min a.storedLength.toNat b.storedLength.toNat
    match compareBytes (a.key.take shared) (b.key.take shared) with
    | .eq =>
      if a.storedLength ≠ b.storedLength then
        if a.storedLength < b.storedLength then .lt else .gt
      -- both cut at the same length: nothing here separates them
      else if a.storedLength.toNat = INDEX_KEY_MAX ∧ a.fullLength ≠ b.fullLength then .eq
      else compareNat a.fullLength.toNat b.fullLength.toNat
    | order => order

/-! ### Nodes in pages -/

/-- The first bytes of a key, which `makeKey` has cleared beyond its own. -/
def StoredKey.bytes (key : StoredKey) (width : Nat) : List UInt8 :=
  (key.key ++ List.replicate width 0).take width

/-- The bytes of an entry, in the width of its node. -/
def entryBytes (flags : UInt32) (entry : Entry) : List UInt8 :=
  if flags &&& NODE_FLOAT ≠ 0 ∧ flags &&& NODE_TEXT = 0 then
    le32 entry.payload ++ entry.key.bytes 8
  else if flags &&& NODE_TEXT = 0 then le32 entry.payload ++ entry.key.bytes 4
  else
    le32 entry.payload ++ le32 entry.key.fullLength
      ++ [entry.key.type, entry.key.storedLength, 0, 0] ++ entry.key.bytes INDEX_KEY_MAX

/-- What a node of the flags says of a key that was written into it. -/
def StoredKey.kept (flags : UInt32) (key : StoredKey) : StoredKey :=
  if flags &&& NODE_FLOAT ≠ 0 ∧ flags &&& NODE_TEXT = 0 then
    { type := 2, storedLength := 8, fullLength := 8, key := key.bytes 8 }
  else if flags &&& NODE_TEXT = 0 then
    { type := 0, storedLength := 4, fullLength := 4, key := key.bytes 4 }
  else { key with key := key.bytes INDEX_KEY_MAX }

/-- The entry at an offset. -/
def readEntry (flags : UInt32) (page : Bytes) (n : Nat) : Entry :=
  if flags &&& NODE_FLOAT ≠ 0 ∧ flags &&& NODE_TEXT = 0 then
    { payload := u32At page n
      key := { type := 2, storedLength := 8, fullLength := 8, key := bytesAt page (n + 4) 8 } }
  else if flags &&& NODE_TEXT = 0 then
    { payload := u32At page n
      key := { type := 0, storedLength := 4, fullLength := 4, key := bytesAt page (n + 4) 4 } }
  else
    { payload := u32At page n
      key :=
        { type := page (n + 8), storedLength := page (n + 9), fullLength := u32At page (n + 4),
          key := bytesAt page (n + 12) INDEX_KEY_MAX } }

/-- The node a page holds. -/
def readNode (page : Bytes) : Node :=
  let flags := u32At page 0
  { flags := flags
    entries := (List.range (u32At page 4).toNat).map fun i =>
      readEntry flags page (INDEX_HEADER + i * nodeEntry flags)
    nextLeaf := u32At page 8
    lastChild := u32At page 12 }

/-- The page with a node's header and entries stored in it. -/
def storeNode (page : Bytes) (node : Node) : Bytes :=
  putBytesAt page 0
    (le32 node.flags ++ le32 (UInt32.ofNat node.entries.length) ++ le32 node.nextLeaf
      ++ le32 node.lastChild ++ node.entries.flatMap (entryBytes node.flags))

/-- The loop of `lowerBound`. -/
def lowerBoundLoop (entries : List Entry) (key : StoredKey) : Nat → Nat → Nat → Nat
  | 0, low, _ => low
  | fuel + 1, low, high =>
    if low < high then
      let middle := low + (high - low) / 2
      match entries[middle]? with
      | none => low
      | some at_ =>
        if compareKeys at_.key key = .lt then lowerBoundLoop entries key fuel (middle + 1) high
        else lowerBoundLoop entries key fuel low middle
    else low

/-- First position in the node whose key is at or above the search key. -/
def lowerBound (entries : List Entry) (key : StoredKey) : Nat :=
  lowerBoundLoop entries key entries.length 0 entries.length

/-- The child at a position among the entries, the last one past them. -/
def Node.child (node : Node) (i : Nat) : UInt32 :=
  match node.entries[i]? with
  | some entry => entry.payload
  | none => node.lastChild

/-- A node with nothing in it. -/
def emptyNode (leaf : Bool) (keyBits : UInt32) : Node :=
  { flags := (if leaf then NODE_LEAF else 0) ||| keyBits, entries := [],
    nextLeaf := INVALID_PAGE, lastChild := INVALID_PAGE }

/-- Puts a node into a page of its own; `page` is what the page held. -/
def writeNode (id : Nat) (page : Bytes) (node : Node) : PageM Bytes Unit :=
  writePage id (storeNode page node)

/-- A fresh page with an empty node. -/
def newNode (leaf : Bool) (keyBits : UInt32) : PageM Bytes Nat := do
  let id ← allocatePage
  writeNode id (fun _ => 0) (emptyNode leaf keyBits)
  return id

/-! ### Growing -/

/-- A separator to promote, and the new right node. -/
abbrev Split := Option (StoredKey × Nat)

/-- The key of a node's first entry. -/
def Node.firstKey (node : Node) : StoredKey :=
  match node.entries with
  | entry :: _ => entry.key
  | [] => { type := 0, storedLength := 0, fullLength := 0, key := [] }

/-- Splits a full leaf in half; every key still appears in a leaf. -/
def splitLeaf (id : Nat) (page : Bytes) (node : Node) : PageM Bytes Split := do
  let half := nodeOrder node.flags / 2
  let rightPage ← newNode true node.keyBits
  let right :=
    { emptyNode true node.keyBits with
      entries := node.entries.drop half, nextLeaf := node.nextLeaf }
  writeNode rightPage (fun _ => 0) right
  writeNode id page
    { node with entries := node.entries.take half, nextLeaf := UInt32.ofNat rightPage }
  return some (right.firstKey.kept right.flags, rightPage)

/-- Splits a full internal node; the middle key moves up. -/
def splitInternal (id : Nat) (page : Bytes) (node : Node) : PageM Bytes Split := do
  let middle := node.entries.length / 2
  let rightPage ← newNode false node.keyBits
  let right := { emptyNode false node.keyBits with
    entries := node.entries.drop (middle + 1), lastChild := node.lastChild }
  writeNode rightPage (fun _ => 0) right
  writeNode id page
    { node with entries := node.entries.take middle, lastChild := node.child middle }
  return some
    ({ node with entries := node.entries.drop middle }.firstKey.kept node.flags, rightPage)

/-- The internal node after the child at `i` has split: entry `i` carries the separator and
keeps pointing at the child, the new right node takes the place just past it. -/
def Node.adopt (node : Node) (i : Nat) (separator : StoredKey) (right : Nat) : Node :=
  let child := node.child i
  let entries := node.entries.insertIdx i { payload := child, key := separator }
  if i < node.entries.length then
    { node with
      entries := entries.modify (i + 1) fun entry => { entry with payload := UInt32.ofNat right } }
  else { node with entries := entries, lastChild := UInt32.ofNat right }

/-- Adds a key below a page. Answers the split of that page, if it split. -/
def insertInto : Nat → Nat → StoredKey → Nat → PageM Bytes (Except ErrorCode Split)
  | 0, _, _, _ => pure (.error .EXEC_OUT_OF_MEMORY)
  | fuel + 1, id, key, position => do
    match ← readPage id with
    | none => return .error .EXEC_OUT_OF_MEMORY
    | some page =>
      let node := readNode page
      let i := lowerBound node.entries key
      if node.isLeaf then
        let node := { node with
          entries := node.entries.insertIdx i { payload := UInt32.ofNat position, key := key } }
        if node.entries.length = nodeOrder node.flags then
          let split ← splitLeaf id page node
          return .ok split
        else
          writeNode id page node
          return .ok none
      else
        match ← insertInto fuel (node.child i).toNat key position with
        | .error code => return .error code
        | .ok none => return .ok none
        | .ok (some (separator, right)) =>
          let node := node.adopt i separator right
          if node.entries.length = nodeOrder node.flags then
            let split ← splitInternal id page node
            return .ok split
          else
            writeNode id page node
            return .ok none

/-- One index: a name, a table, a column, and a tree of nodes. -/
structure Index where
  name : Name
  table : Name
  column : Name
  slot : Nat
  rootPage : Nat
  keyCount : Int

/-- Inserts a value that is not NULL, and grows a root over a split. -/
def indexInsert (value : Value) (position : Nat) : Step Index Unit := do
  if value.isNull then return ()
  else
    let index ← Action.get
    let fuel ← Action.lift poolPageCount
    match ← Action.lift (insertInto fuel index.rootPage (makeKey value) position) with
    | .error code => Action.throw code
    | .ok none => Action.set { index with keyCount := index.keyCount + 1 }
    | .ok (some (separator, right)) =>
      -- the root split, so the tree grew a level
      let rootPage ← Action.lift (newNode false (keyBitsFor value.type))
      Action.lift (writeNode rootPage (fun _ => 0)
        { emptyNode false (keyBitsFor value.type) with
          entries := [{ payload := UInt32.ofNat index.rootPage, key := separator }]
          lastChild := UInt32.ofNat right })
      Action.set { index with keyCount := index.keyCount + 1, rootPage := rootPage }

/-- Adds one freshly stored row to every index on its table. -/
def indexInsertRow (table : Name) (row : Row) (position : Nat) : Step (List Index) Unit
  | [] => .pure (.ok (), [])
  | index :: rest =>
    if index.table.same table then
      (indexInsert (row.value index.slot) position index).bind fun r =>
        match r with
        | (.error code, index) => .pure (.error code, index :: rest)
        | (.ok (), index) =>
          (indexInsertRow table row position rest).bind fun r => .pure (r.1, index :: r.2)
    else (indexInsertRow table row position rest).bind fun r => .pure (r.1, index :: r.2)

/-! ### Releasing -/

/-- The same walk below each of the pages. -/
def descendEach (descend : Nat → PageM Bytes Unit) : List Nat → PageM Bytes Unit
  | [] => pure ()
  | id :: rest => do
    descend id
    descendEach descend rest

/-- The children of an internal node, in order. -/
def Node.children (node : Node) : List Nat :=
  node.entries.map (fun entry => entry.payload.toNat) ++ [node.lastChild.toNat]

/-- Releases every page of a subtree. -/
def freeSubtree : Nat → Nat → PageM Bytes Unit
  | 0, _ => pure ()
  | fuel + 1, id => do
    match ← readPage id with
    | none => return ()
    | some page =>
      let node := readNode page
      if node.isLeaf then freePage id
      else
        descendEach (freeSubtree fuel) node.children
        freePage id

/-- `freeSubtree` of an index's root, with fuel for every page there is. -/
def releaseTree (rootPage : Nat) : PageM Bytes Unit := do
  let fuel ← poolPageCount
  freeSubtree fuel rootPage

/-! ### Scanning -/

/-- Goes down from a page, by what `choose` says of each node, to a leaf. -/
def descendTo (choose : Node → UInt32) : Nat → Nat → PageM Bytes Nat
  | 0, _ => pure INVALID_PAGE.toNat
  | fuel + 1, id => do
    match ← readPage id with
    | none => return INVALID_PAGE.toNat
    | some page =>
      let node := readNode page
      if node.isLeaf then return id else descendTo choose fuel (choose node).toNat

/-- The first leaf of a tree. -/
def leftmostLeaf (fuel id : Nat) : PageM Bytes Nat := descendTo (fun node => node.child 0) fuel id

/-- Descends to the leaf that would hold the first key at or above the search key. -/
def seekLeaf (key : StoredKey) (fuel id : Nat) : PageM Bytes Nat :=
  descendTo (fun node => node.child (lowerBound node.entries key)) fuel id

/-- What a scan makes of an entry: past the range, outside it, or a candidate. -/
inductive Verdict
  | stop
  | skip
  | take
  deriving DecidableEq

/-- The entries of one leaf. Answers the candidates so far and whether the scan is over. -/
def scanEntries (judge : StoredKey → Verdict) (maxRows : Int) :
    List Entry → List Nat → Except ErrorCode (List Nat × Bool)
  | [], rows => .ok (rows, false)
  | entry :: rest, rows =>
    match judge entry.key with
    | .stop => .ok (rows, true)
    | .skip => scanEntries judge maxRows rest rows
    | .take =>
      if (rows.length : Int) = maxRows then .error .EXEC_TABLE_FULL
      else scanEntries judge maxRows rest (rows ++ [entry.payload.toNat])

/-- Walks the leaf chain collecting row positions. -/
def scanLeaves (judge : StoredKey → Verdict) (maxRows : Int) :
    Nat → Nat → List Nat → PageM Bytes (Except ErrorCode (List Nat))
  | 0, _, rows => pure (.ok rows)
  | fuel + 1, id, rows =>
    if id = INVALID_PAGE.toNat then pure (.ok rows)
    else do
      match ← readPage id with
      | none => return .error .EXEC_OUT_OF_MEMORY
      | some page =>
        let leaf := readNode page
        match scanEntries judge maxRows leaf.entries rows with
        | .error code => return .error code
        | .ok (rows, true) => return .ok rows
        | .ok (rows, false) => scanLeaves judge maxRows fuel leaf.nextLeaf.toNat rows

/-- The test of `indexScan`: generous, since a key that was cut compares equal to all that
share its prefix. -/
def scanVerdict (op : CompareOp) (target key : StoredKey) : Verdict :=
  let comparison := compareKeys key target
  if comparison = .gt ∧ (op = .OP_EQ ∨ op = .OP_LT ∨ op = .OP_LTE) then .stop
  else
    match op with
    | .OP_EQ => if comparison = .eq then .take else .skip
    | .OP_LT | .OP_LTE => if comparison ≠ .gt then .take else .skip
    | .OP_GT | .OP_GTE => if comparison ≠ .lt then .take else .skip
    | _ => .skip

/-- The row positions whose keys satisfy the predicate, or cannot be ruled out. -/
def indexScan (index : Index) (op : CompareOp) (value : Value) (maxRows : Int) :
    PageM Bytes (Except ErrorCode (List Nat)) := do
  let target := makeKey value
  let fuel ← poolPageCount
  let leaf ←
    if op = .OP_LT ∨ op = .OP_LTE then leftmostLeaf fuel index.rootPage
    else seekLeaf target fuel index.rootPage
  scanLeaves (scanVerdict op target) maxRows fuel leaf []

/-- The test of `indexPrefixScan` on the bytes a tree stores. -/
def prefixVerdict (target key : StoredKey) : Verdict :=
  let compareLength := target.storedLength.toNat
  let shared := min key.storedLength.toNat compareLength
  match compareBytes (key.key.take shared) (target.key.take shared) with
  | .gt => .stop
  | .lt => .skip
  | .eq => if key.storedLength.toNat < compareLength then .skip else .take

/-- The row positions whose text key starts with the given bytes. -/
def indexPrefixScan (index : Index) (pattern : List UInt8) (maxRows : Int) :
    PageM Bytes (Except ErrorCode (List Nat)) := do
  let target := makeKey (setText pattern)
  let fuel ← poolPageCount
  let leaf ← seekLeaf target fuel index.rootPage
  scanLeaves (prefixVerdict target) maxRows fuel leaf []

/-! ### The list of indexes -/

/-- The index of a name. -/
def findIndexByName (indexes : List Index) (name : Name) : Option Index :=
  indexes.find? fun index => index.name.same name

/-- The index a query on a column finds, by the part of the column's name after its dot. -/
def findIndexOn (indexes : List Index) (table : Name) (column : List UInt8) : Option Index :=
  indexes.find? fun index =>
    index.table.same table && sameText index.column.1 (bareName column)

/-- Equality and ranges can be answered from the tree. -/
def indexableOperator (op : CompareOp) : Bool :=
  match op with
  | .OP_EQ | .OP_LT | .OP_LTE | .OP_GT | .OP_GTE => true
  | _ => false

/-- An index with an empty leaf for root. -/
def createIndex (name table column : Name) (slot : Nat) (keyType : ColType) :
    Step (List Index) Unit := do
  let root ← Action.lift (newNode true (keyBitsFor keyType))
  Action.modify fun indexes =>
    { name := name, table := table, column := column, slot := slot, rootPage := root,
      keyCount := 0 } :: indexes

/-- Attaches an index whose tree is already in the file. -/
def adoptIndex (name table column : Name) (slot rootPage : Nat) (keyCount : Int)
    (indexes : List Index) : List Index :=
  { name := name, table := table, column := column, slot := slot, rootPage := rootPage,
    keyCount := keyCount } :: indexes

/-- A dropped column takes its own indexes with it, and every later column moves down. -/
def indexesColumnDropped (table column : Name) (slot : Nat) : Step (List Index) Unit
  | [] => .pure (.ok (), [])
  | index :: rest =>
    if !index.table.same table then
      (indexesColumnDropped table column slot rest).bind fun r => .pure (r.1, index :: r.2)
    else if index.column.same column then
      (releaseTree index.rootPage).bind fun _ => indexesColumnDropped table column slot rest
    else
      let index := if slot < index.slot then { index with slot := index.slot - 1 } else index
      (indexesColumnDropped table column slot rest).bind fun r => .pure (r.1, index :: r.2)

/-- The indexes on a column go by its new name. -/
def indexesColumnRenamed (table was newName : Name) (indexes : List Index) : List Index :=
  indexes.map fun index =>
    if index.table.same table && index.column.same was then { index with column := newName }
    else index

/-- The indexes on a table go by its new name. -/
def indexesTableRenamed (was newName : Name) (indexes : List Index) : List Index :=
  indexes.map fun index => if index.table.same was then { index with table := newName } else index

/-- The live rows at the positions, into one index. -/
def indexRows (heap : Heap) : List Nat → Step Index Unit
  | [] => return ()
  | position :: rest => do
    match ← Action.lift (heapRead heap position) with
    | none => indexRows heap rest
    | some row =>
      let index ← Action.get
      indexInsert (row.value index.slot) position
      indexRows heap rest

/-- What kind of key the nodes of a tree carry, read from its root. -/
def indexKeyBits (rootPage : Nat) : PageM Bytes UInt32 := do
  match ← readPage rootPage with
  | none => return 0
  | some page => return (readNode page).keyBits

/-- Throws a tree away and builds it again from the live rows. -/
def rebuildIndex (heap : Heap) : Step Index Unit := do
  let index ← Action.get
  let keyBits ← Action.lift (indexKeyBits index.rootPage)
  Action.lift (releaseTree index.rootPage)
  let root ← Action.lift (newNode true keyBits)
  Action.set { index with keyCount := 0, rootPage := root }
  indexRows heap (heapPositions heap)

/-- Rebuilds each index on the table from the live rows. -/
def rebuildIndexes (table : Name) (heap : Heap) : Step (List Index) Unit
  | [] => .pure (.ok (), [])
  | index :: rest =>
    if index.table.same table then
      (rebuildIndex heap index).bind fun r =>
        match r with
        | (.error code, index) => .pure (.error code, index :: rest)
        | (.ok (), index) =>
          (rebuildIndexes table heap rest).bind fun r => .pure (r.1, index :: r.2)
    else (rebuildIndexes table heap rest).bind fun r => .pure (r.1, index :: r.2)

/-- Frees the tree of an index and takes it off the list. -/
def dropIndexByName (name : Name) : Step (List Index) Unit
  | [] => .pure (.error .SEMANTIC_INDEX_NOT_FOUND, [])
  | index :: rest =>
    if index.name.same name then
      (releaseTree index.rootPage).bind fun _ => .pure (.ok (), rest)
    else (dropIndexByName name rest).bind fun r => .pure (r.1, index :: r.2)

/-- Drops every index on a table. -/
def dropIndexesForTable (table : Name) : Step (List Index) Unit
  | [] => .pure (.ok (), [])
  | index :: rest =>
    if index.table.same table then
      (releaseTree index.rootPage).bind fun _ => dropIndexesForTable table rest
    else (dropIndexesForTable table rest).bind fun r => .pure (r.1, index :: r.2)

end DatabaseEngine
