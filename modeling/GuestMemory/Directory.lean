import GuestMemory.Permission
import GuestMemory.Run
import Std.Data.ExtTreeMap

/-!
Directories: which frame stands behind each page of an address space, and with which permission.
-/

namespace GuestMemory

/-- The frame behind a page. -/
structure Translation where
  address : Nat
  permission : KernelPermission
  deriving DecidableEq

/-- The translations of one address space. -/
structure Directory where
  entries : Std.ExtTreeMap Nat Translation
  deriving DecidableEq

namespace Directory

def empty : Directory := ⟨∅⟩

variable (directory : Directory)

def size : Nat :=
  directory.entries.size

def translate (address : Nat) : Option Translation :=
  directory.entries[pageOf address]?

/-- Maps `count` pages from `page` on to the frames from `physical` on. -/
def insertPages (permission : KernelPermission) :
    (count : Nat) → Nat → Nat → Directory → Checked Directory
  | 0, _, _, directory => .ok directory
  | count + 1, page, physical, directory => do
    let address ← word physical
    if directory.entries.contains page then
      .error (.pageMappedTwice page)
    else
      insertPages permission count (page + 1) (physical + pageSize)
        ⟨directory.entries.insert page ⟨address, permission⟩⟩

/-- Maps as many pages from `address` on to the frames of a run. None may have a translation. -/
def map (address : Nat) (run : Run) (permission : KernelPermission) : Checked Directory :=
  if !isPageAligned address then
    .error .virtualUnaligned
  else if !isPageAligned run.address then
    .error .physicalUnaligned
  else
    insertPages permission run.pages (pageOf address) run.address directory

/-- Forgets the translations of `count` pages from `page` on. -/
def erasePages : (count : Nat) → Nat → Directory → Directory
  | 0, _, directory => directory
  | count + 1, page, directory =>
    erasePages count (page + 1) ⟨directory.entries.erase page⟩

/-- Forgets the translations of `pages` pages from `address` on, where there are any. -/
def unmap (address pages : Nat) : Checked Directory :=
  if isPageAligned address then
    .ok (erasePages pages (pageOf address) directory)
  else
    .error .virtualUnaligned

/-- Gives the mapped pages of a range another permission. -/
def protect (address pages : Nat) (permission : KernelPermission) : Checked Directory := do
  let first := pageOf address
  let stop ← word (first + pages)
  let entries := directory.entries.map fun page translation =>
    if first ≤ page && page < stop then { translation with permission } else translation
  return ⟨entries⟩

/-- Puts the frames behind `count` pages from `page` on a stack of runs. Answers the runs from the
bottom of the stack, or nothing at the first page without a translation. -/
def collectRuns : (count : Nat) → Nat → List Run → Checked (Option (List Run))
  | 0, _, collected => .ok (some collected.reverse)
  | count + 1, page, collected =>
    match directory.entries[page]? with
    | none => .ok none
    | some translation => do
      let collected ← Run.stack ⟨translation.address, 1⟩ collected
      collectRuns count (page + 1) collected

/-- The frames behind a range of pages as runs in the order of the pages, none directly followed
by the next; nothing if some page has no translation. -/
def runs (address pages : Nat) : Checked (Option (List Run)) :=
  directory.collectRuns pages (pageOf address) []

end Directory

end GuestMemory
