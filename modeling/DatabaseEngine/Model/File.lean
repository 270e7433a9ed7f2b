import Mathlib.Algebra.Ring.Nat
import Mathlib.Algebra.Ring.Int.Defs
import DatabaseEngine.Library.Bytes

/-!
# `DatabaseEngine.Model.File`: pages and the files they are kept in

A page is `PAGE_SIZE` bytes. The pool keeps the last of them for a checksum, so a page is a
body, the `PAGE_USABLE` bytes that belong to its holder, and the stamp in its trailer; the
spare bytes of the trailer are never read. The body stays a type of its own: the pool never
looks into it, except to clear it and to sum it (`PageBody`). A stamp that is the checksum of
the body beside it is kept as just that (`Stamp.fresh`), so that nothing has to be summed to
know that it fits; `storedChecksum` is the number it stands for.

A database file is a header page followed by data pages. `readPage` and `writePage` are the
`fseek` and `fread` or `fwrite` pairs of `14_pool.c` at `pageOffset(pageId)`: a read past the
end gives a short count, a write past the end fills the gap with zeroes.
-/

set_option autoImplicit false

namespace DatabaseEngine

open Library

/-- `sql_common.h`: one page on disk and in a frame. -/
def PAGE_SIZE : Nat := 8192

/-- The last bytes of every page belong to the pool: a checksum, and four bytes spare. -/
def PAGE_TRAILER : Nat := 8

/-- What a page's holder may use. -/
def PAGE_USABLE : Nat := PAGE_SIZE - PAGE_TRAILER

/-- What the pool asks of the usable bytes of a page: the cleared page `memset` leaves, and
the FNV-1a sum of `pageChecksum` before it steps round zero. -/
class PageBody (α : Type) where
  zero : α
  fnv : α → UInt32

/-- The pages of a database are byte arrays, read and written at an offset. -/
abbrev Bytes := Nat → UInt8

/-- FNV-1a over the usable bytes, as `pageChecksum` runs it. -/
def fnv1a (bytes : Bytes) : UInt32 :=
  (List.range PAGE_USABLE).foldl (fun sum i => (sum ^^^ (bytes i).toUInt32) * 16777619)
    2166136261

instance : PageBody Bytes := ⟨fun _ => 0, fnv1a⟩

/-- What the trailer of a page holds: nothing yet, the checksum of the body beside it, or some
number. -/
inductive Stamp
  | blank
  | fresh
  | sum (value : UInt32)

/-- A page: the usable bytes, and the stamp in the trailer. -/
structure Page (α : Type) where
  body : α
  stamp : Stamp

section
variable {α : Type} [PageBody α]

/-- All `PAGE_SIZE` bytes zero, as `memset` leaves a frame and a hole in a file reads. -/
def Page.zero : Page α := ⟨PageBody.zero, .blank⟩

/-- Never zero, because zero is what an unstamped page carries. -/
def pageChecksum (page : Page α) : UInt32 :=
  if PageBody.fnv page.body ≠ 0 then PageBody.fnv page.body else 1

/-- Stamps a page on its way out, into the file or into the log. -/
def poolStampPage (page : Page α) : Page α :=
  { page with stamp := .fresh }

/-- Zero when the page was never stamped. -/
def storedChecksum (page : Page α) : UInt32 :=
  match page.stamp with
  | .blank => 0
  | .fresh => pageChecksum page
  | .sum value => value

/-- The test a page read back has to pass when the file carries checksums. -/
def Page.intact (page : Page α) : Bool :=
  match page.stamp with
  | .blank | .fresh => true
  | .sum value => value == 0 || value == pageChecksum page

/-- The page after its holder has changed the usable bytes: the trailer keeps its number. -/
def Page.rewrite (page : Page α) (body : α) : Page α :=
  { body := body
    stamp := match page.stamp with
      | .fresh => .sum (pageChecksum page)
      | stamp => stamp }

/-- A database file: the bytes of its header page, and the whole data pages after it. A file
of a version before 5 keeps its metadata outside of its pages; `tail` is what `readTail` reads
of it, none when there is nothing to read. -/
structure DbFile (α : Type) where
  head : List UInt8
  count : Nat
  page : Nat → Page α
  tail : Option (List UInt8)

/-- The page at `pageOffset(id)`, or a short read. -/
def DbFile.readPage (file : DbFile α) (id : Nat) : Option (Page α) :=
  if id < file.count then some (file.page id) else none

/-- Writes one page at its offset. What lies between the old end and the page reads as
zeroes from then on. -/
def DbFile.writePage (file : DbFile α) (id : Nat) (page : Page α) : DbFile α :=
  { file with
    count := max file.count (id + 1)
    page := fun i => if i = id then page else if i < file.count then file.page i else Page.zero }

/-- Overwrites bytes of the header page from an offset on; what a short header page lacks
before the offset reads as zeroes. -/
def overwrite (bytes : List UInt8) (offset : Nat) (fields : List UInt8) : List UInt8 :=
  bytes.take offset ++ List.replicate (offset - bytes.length) 0 ++ fields
    ++ bytes.drop (offset + fields.length)

/-- Writes the two fields of the header page that move as the database grows. -/
def DbFile.writeFields (file : DbFile α) (pageCount : Nat) (catalogRoot : UInt32) : DbFile α :=
  { file with
    head := overwrite file.head 12 (le32 (UInt32.ofNat pageCount) ++ le32 catalogRoot) }

/-- A cleared page has a cleared body. -/
@[simp] theorem Page.zero_body : (Page.zero : Page α).body = PageBody.zero := rfl

omit [PageBody α] in
/-- A stamp is no part of the body. -/
@[simp] theorem poolStampPage_body (page : Page α) : (poolStampPage page).body = page.body := rfl

/-- A page that was rewritten has the new body. -/
@[simp] theorem Page.rewrite_body (page : Page α) (body : α) : (page.rewrite body).body = body :=
  rfl

omit [PageBody α] in
/-- The fields of the header lie outside the pages. -/
@[simp] theorem DbFile.readPage_writeFields (file : DbFile α) (pageCount id : Nat)
    (root : UInt32) : (file.writeFields pageCount root).readPage id = file.readPage id := rfl

/-- The test as the source makes it, on the number in the trailer. -/
theorem Page.intact_eq (page : Page α) :
    page.intact = (storedChecksum page == 0 || storedChecksum page == pageChecksum page) := by
  unfold Page.intact storedChecksum
  cases page.stamp <;> simp

/-- A page that was stamped is intact. -/
theorem poolStampPage_intact (page : Page α) : (poolStampPage page).intact = true := rfl

/-- A page that was written is read back. -/
theorem DbFile.readPage_writePage_same (file : DbFile α) (id : Nat) (page : Page α) :
    (file.writePage id page).readPage id = some page := by
  have hlt : id < max file.count (id + 1) := by omega
  simp [DbFile.readPage, DbFile.writePage, hlt]

/-- A write can only add pages: what another id read before, it reads after. -/
theorem DbFile.readPage_writePage_of_ne {file : DbFile α} {id other : Nat} {page old : Page α}
    (hne : other ≠ id) (hold : file.readPage other = some old) :
    (file.writePage id page).readPage other = some old := by
  unfold DbFile.readPage at hold ⊢
  by_cases hlt : other < file.count
  · have hmax : other < max file.count (id + 1) := by omega
    simp_all [DbFile.writePage]
  · simp [hlt] at hold

end

end DatabaseEngine
