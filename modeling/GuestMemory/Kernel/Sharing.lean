import GuestMemory.AddressSpace.Groups
import GuestMemory.Kernel

/-!
Shared memory: the frames behind a range of one process mapped into another, or into the same one.
-/

namespace GuestMemory

/-- An address in the memory of the process at a position. -/
structure Place where
  process : Nat
  address : Nat
  deriving DecidableEq

namespace Kernel

/-- Maps the frames behind the source range at the destination, as shared code that the guest may
read and write. The source's frames are held while that is tried. -/
def mapShared (destination source : Place) (pages : Nat) : Action Kernel Commit := do
  let group ← onSpace source.process
    (AddressSpace.makeHeldGroup source.address pages (.hasFlags .canMapProcess))
  .ensuring (changeResources group.discard)
    (onSpace destination.process
      (AddressSpace.mapGroup destination.address group .sharedCode .userReadWrite))

/-- Takes a range away again that shows the frames behind the source range. -/
def unmapShared (destination source : Place) (size : Nat) : Action Kernel Commit := do
  let pages := size / pageSize
  onSpace destination.process <| AddressSpace.checkRange destination.address size
    ((Check.exactly .sharedCode).withPermission .userReadWrite .userReadWrite)
  onSpace source.process <|
    AddressSpace.checkRange source.address size (.hasFlags .canMapProcess)
  let group ← onSpace source.process (AddressSpace.makeGroup source.address pages)
  .ensuring (changeResources group.discard) <| onSpace destination.process do
    let same ← AddressSpace.isBackedBy group destination.address pages
    .require same (.plain .invalidCurrentMemory)
    AddressSpace.unmapRange destination.address pages
    AddressSpace.commit .unmapShared destination.address pages

end Kernel

end GuestMemory
