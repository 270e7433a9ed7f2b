import DatabaseEngine.Library.Framing
import DatabaseEngine.Model.Failure

/-!
# `DatabaseEngine.Model.Log`: the log as bytes

`15_wal.c` keeps a file of a header and of frames, each `FRAME_HEADER` bytes and a page, and
appends at the end of whatever is there. The header of a new or emptied log is only buffered: the
first append puts it into the file. Here a commit that fails may have written any number of the
bytes that it had to, and what it still had buffered is dropped. `walRecover` reads the frames back,
up to the first that is short or does not check.

`Logging.pool.wal` holds the frames that went into the file whole since it was last emptied. The
spare bytes of a page's trailer are zero.
-/

set_option autoImplicit false

namespace DatabaseEngine

open Library

/-- `MINIWAL1`. -/
def WAL_MAGIC : List UInt8 := [77, 73, 78, 73, 87, 65, 76, 49]
/-- Its length. -/
def WAL_MAGIC_LEN : Nat := 8
/-- The version of the log. -/
def WAL_VERSION : Nat := 1
/-- The bytes before the first frame. -/
def WAL_HEADER : Nat := 16
/-- The bytes of a frame before its page. -/
def FRAME_HEADER : Nat := 24

/-- A frame in the file. -/
def FRAME_SIZE : Nat := FRAME_HEADER + PAGE_SIZE

/-- The header that `writeWalHeader` lays down. -/
def walHeader : List UInt8 := WAL_MAGIC ++ putU32 WAL_VERSION ++ putU32 PAGE_SIZE

/-- A field of a block of bytes in a file. -/
def getU32At (bytes : List UInt8) (offset : Nat) : UInt32 :=
  u32At (fun i => bytes.getD i 0) offset

/-- All bytes of a page. -/
def pageImage (page : Page Bytes) : List UInt8 :=
  (List.range PAGE_USABLE).map page.body ++ le32 (storedChecksum page) ++ le32 0

/-- FNV-1a over the fields before the checksum and over the page. -/
def walChecksum (header image : List UInt8) : UInt32 :=
  (header.take 16 ++ image).foldl (fun sum byte => (sum ^^^ byte.toUInt32) * 16777619) 2166136261

/-- The fields of a frame before the checksum. -/
def frameFields (frame : LogFrame Bytes) : List UInt8 :=
  putU32 frame.pageId ++ putU32 (if frame.commit then 1 else 0) ++ putU32 frame.pageCount
    ++ le32 frame.catalogRoot

/-- What `walAppend` writes. -/
def frameBytes (frame : LogFrame Bytes) : List UInt8 :=
  frameFields frame ++ le32 (walChecksum (frameFields frame) (pageImage frame.page)) ++ putU32 0
    ++ pageImage frame.page

/-- A frame as `walRecover` reads it. -/
structure WalFrame where
  pageId : UInt32
  commit : UInt32
  pageCount : UInt32
  catalogRoot : UInt32
  image : List UInt8

/-- A frame that was read whole, if it is not a torn write. -/
def readFrame (bytes : List UInt8) : Option WalFrame :=
  let frame := bytes.take FRAME_HEADER
  let image := bytes.drop FRAME_HEADER
  if getU32At frame 16 ≠ walChecksum frame image then none
  else
    some
      { pageId := getU32At frame 0
        commit := getU32At frame 4
        pageCount := getU32At frame 8
        catalogRoot := getU32At frame 12
        image := image }

/-- The frame of the log that a frame in the file stands for. -/
def LogFrame.raw (frame : LogFrame Bytes) : WalFrame where
  pageId := UInt32.ofNat frame.pageId
  commit := if frame.commit then 1 else 0
  pageCount := UInt32.ofNat frame.pageCount
  catalogRoot := frame.catalogRoot
  image := pageImage frame.page

/-- The image of a page has the size of one. -/
theorem pageImage_length (page : Page Bytes) : (pageImage page).length = PAGE_SIZE := by
  simp only [pageImage, List.length_append, List.length_map, List.length_range, le32_length]
  rfl

/-- A frame begins with sixteen bytes of its own. -/
theorem frameFields_length (frame : LogFrame Bytes) : (frameFields frame).length = 16 := rfl

/-- Every frame has the same size. -/
theorem frameBytes_length (frame : LogFrame Bytes) : (frameBytes frame).length = FRAME_SIZE := by
  simp only [frameBytes, List.length_append, frameFields_length, le32_length, pageImage_length,
    putU32]
  rfl

/-- A field is read where it was written. -/
theorem getU32At_le32 {bytes front rest : List UInt8} {value : UInt32}
    (h : bytes = front ++ (le32 value ++ rest)) : getU32At bytes front.length = value := by
  have hat : ∀ k, bytes.getD (front.length + k) 0 = (le32 value ++ rest).getD k 0 := by
    intro k
    rw [h, List.getD_eq_getElem?_getD, List.getElem?_append_right (Nat.le_add_right _ _),
      Nat.add_sub_cancel_left, List.getD_eq_getElem?_getD]
  unfold getU32At u32At
  dsimp only
  rw [hat 1, hat 2, hat 3, show bytes.getD front.length 0 = _ from hat 0]
  exact ofLe32_le32 value

/-- What was written whole is read. -/
theorem readFrame_frameBytes (frame : LogFrame Bytes) :
    readFrame (frameBytes frame) = some frame.raw := by
  have hheader : (frameFields frame
      ++ le32 (walChecksum (frameFields frame) (pageImage frame.page)) ++ putU32 0).length
        = FRAME_HEADER := rfl
  have htake : (frameBytes frame).take FRAME_HEADER = frameFields frame
      ++ le32 (walChecksum (frameFields frame) (pageImage frame.page)) ++ putU32 0 := by
    rw [← hheader]
    exact List.take_left
  have hdrop : (frameBytes frame).drop FRAME_HEADER = pageImage frame.page := by
    rw [← hheader]
    exact List.drop_left
  unfold readFrame
  rw [htake, hdrop]
  generalize hsum : walChecksum (frameFields frame) (pageImage frame.page) = sum
  have hfields : (frameFields frame ++ le32 sum ++ putU32 0).take 16 = frameFields frame := by
    rw [List.append_assoc, ← frameFields_length frame, List.take_left]
  have hsame : walChecksum (frameFields frame ++ le32 sum ++ putU32 0) (pageImage frame.page)
      = sum := by
    unfold walChecksum at hsum ⊢
    rw [hfields, ← hsum, List.take_of_length_le (by rw [frameFields_length])]
  have hsixteen : getU32At (frameFields frame ++ le32 sum ++ putU32 0) 16 = sum :=
    @getU32At_le32 _ (frameFields frame) _ _ (List.append_assoc ..)
  have hfield : ∀ (front rest : List UInt8) (value : UInt32),
      frameFields frame ++ le32 sum ++ putU32 0 = front ++ (le32 value ++ rest) →
      getU32At (frameFields frame ++ le32 sum ++ putU32 0) front.length = value :=
    fun front rest value heq => getU32At_le32 heq
  dsimp only
  rw [if_neg (by rw [hsixteen, hsame]; exact fun h => h rfl)]
  have hid := hfield [] _ (UInt32.ofNat frame.pageId) rfl
  have hcommit := hfield (putU32 frame.pageId) _ (UInt32.ofNat (if frame.commit then 1 else 0)) rfl
  have hcount := hfield (putU32 frame.pageId ++ putU32 (if frame.commit then 1 else 0)) _
    (UInt32.ofNat frame.pageCount) rfl
  have hroot := hfield (putU32 frame.pageId ++ putU32 (if frame.commit then 1 else 0)
    ++ putU32 frame.pageCount) _ frame.catalogRoot rfl
  rw [show getU32At (frameFields frame ++ le32 sum ++ putU32 0) 0 = _ from hid,
    show getU32At (frameFields frame ++ le32 sum ++ putU32 0) 4 = _ from hcommit,
    show getU32At (frameFields frame ++ le32 sum ++ putU32 0) 8 = _ from hcount,
    show getU32At (frameFields frame ++ le32 sum ++ putU32 0) 12 = _ from hroot]
  unfold LogFrame.raw
  cases frame.commit <;> rfl

/-- Frames in a file. -/
def frameFraming : Framing (LogFrame Bytes) WalFrame UInt8 where
  size := FRAME_SIZE
  positive := by decide
  write := frameBytes
  read := readFrame
  image := LogFrame.raw
  write_length := frameBytes_length
  read_write := readFrame_frameBytes

/-- The first pass of `walRecover`: the frames that it is going to replay. A file with another
header is no log. -/
def walFrames (bytes : List UInt8) : List WalFrame :=
  if bytes.length < WAL_HEADER ∨ bytes.take WAL_MAGIC_LEN ≠ WAL_MAGIC
      ∨ getU32At bytes 12 ≠ UInt32.ofNat PAGE_SIZE then []
  else upTo (fun frame => frame.commit ≠ 0) (frameFraming.scan bytes.length (bytes.drop WAL_HEADER))

/-! ### Writing the log -/

/-- What fails of a commit: after how many bytes of what was buffered and of its frames, and after
how many frames have been stamped. -/
structure AppendFault where
  bytes : Nat
  stamped : Nat
  deriving DecidableEq

/-- What fails when the log is emptied: it cannot be opened again, or only a part of its header is
buffered. -/
inductive TruncateFault
  | reopen
  | header (bytes : Nat)
  deriving DecidableEq

/-- The pool, and the log file. -/
structure Logging where
  pool : Pool Bytes
  bytes : List UInt8
  /-- What was handed to the stream and is not in the file. -/
  buffer : List UInt8

namespace Logging

/-- `poolCommit`, with `walAppend` and `walSync`. -/
def commit (fault : Option AppendFault) (l : Logging) : Except ErrorCode Unit × Logging :=
  match l.pool.wal with
  | none => (.ok (), l)
  | some log =>
    let frames := commitFrames l.pool.pageCount l.pool.catalogRootPage l.pool.frames
    if frames.isEmpty then (.ok (), l)
    else
      match fault with
      | none =>
        (.ok (),
          { pool := poolCommit l.pool
            bytes := l.bytes ++ (l.buffer ++ frames.flatMap frameBytes)
            buffer := [] })
      | some fault =>
        (.error .IO_WRITE,
          { pool :=
              l.pool.appended log ((fault.bytes - l.buffer.length) / FRAME_SIZE) fault.stamped
            bytes := l.bytes ++ (l.buffer ++ frames.flatMap frameBytes).take fault.bytes
            buffer := [] })

/-- `poolCheckpoint`, with `walTruncate`. -/
def checkpoint (fault : Option TruncateFault) (l : Logging) : Except ErrorCode Unit × Logging :=
  match l.pool.writable, l.pool.pageFile, l.pool.wal with
  | true, some _, some _ =>
    match fault with
    | none => (.ok (), { pool := poolCheckpoint l.pool, bytes := [], buffer := walHeader })
    | some .reopen =>
      (.error .IO_CANNOT_OPEN,
        { pool := (poolCheckpointUnder (some .truncate) l.pool).2, bytes := [], buffer := [] })
    | some (.header n) =>
      (.error .IO_WRITE,
        { pool := poolCheckpoint l.pool, bytes := [], buffer := walHeader.take n })
  | _, _, _ => (.ok (), { l with pool := poolCheckpoint l.pool })

end Logging

end DatabaseEngine
