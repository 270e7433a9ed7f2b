import DatabaseEngine.Library.Storage
import DatabaseEngine.Model.Log

/-!
# `DatabaseEngine.Model.Recovery`: `walRecover` on the bytes of its files

`walRecover` of `15_wal.c` works on the database file directly, before anything has opened it.
`Model/Session` has it on whole frames and pages; here it is the writes that it makes, the sync
behind them, and the removal of the log. No call fails. `long` has 64 bits.
-/

set_option autoImplicit false

namespace DatabaseEngine

open Library

/-- `isPageFile`, of the bytes of the file. -/
def isPageFileBytes (file : List UInt8) : Bool :=
  decide (12 ≤ file.length) && file.take MAGIC_LENGTH == SAVE_MAGIC
    && ((file.drop 8).take 4 == putU32 SAVE_VERSION)

/-- The page of a frame, at its place in the database file. -/
def pageWrite (frame : WalFrame) : FileWrite where
  offset := PAGE_SIZE * (frame.pageId.toNat + 1)
  bytes := frame.image

/-- `dbHeader`: the header page, read back and with the fields of the last commit. -/
def recoveredHeader (last : WalFrame) (file : List UInt8) : Bytes :=
  putU32At (putU32At (fun i => file.getD i 0) 12 last.pageCount) 16 last.catalogRoot

/-- The header is written when there is a whole page to read. -/
def headerWrite (last : WalFrame) (file : List UInt8) : List FileWrite :=
  if PAGE_SIZE ≤ file.length then
    [{ offset := 0, bytes := (List.range PAGE_SIZE).map (recoveredHeader last file) }]
  else []

/-- What is written of a log that commits to `frames`: their pages, and then the header of the file
that results. -/
def recoveryWrites (frames : List WalFrame) (last : WalFrame) (file : List UInt8) :
    List FileWrite :=
  let pages := frames.map pageWrite
  pages ++ headerWrite last (applyWrites pages file)

/-- What `walRecover` does to the disk. -/
def recoveryOps (disk : Disk) : List DiskOp :=
  match disk.log with
  | none => []
  | some log =>
    match (walFrames log).getLast? with
    -- not usable, or nothing ever committed
    | none => [.removeLog]
    | some last =>
      if isPageFileBytes disk.file = false then [.removeLog]
      else (recoveryWrites (walFrames log) last disk.file).map .write ++ [.sync, .removeLog]

/-- `walRecover`, run to its end. -/
def recoverDisk (disk : Disk) : Disk := runDisk (recoveryOps disk) disk

/-- `walRecover`, stopped somewhere by a crash. -/
def RecoveryStopped (disk disk' : Disk) : Prop := Interrupts (recoveryOps disk) disk disk'

end DatabaseEngine
