import GuestMemory.Handle
import GuestMemory.Record

/-!
Calls: the five requests about memory that a guest process makes to the kernel.
-/

namespace GuestMemory

/-- A request of the current process. Its arguments are whatever words the guest passes. -/
inductive Call where
  /-- Changes the permission of memory of the process that the handle names. -/
  | setPermission (handle : Handle) (address size : UInt64) (permission : UInt32)
  /-- Maps memory of the process that the handle names into the current one. -/
  | mapMemory (destination : UInt64) (handle : Handle) (source size : UInt64)
  /-- Takes away what `mapMemory` mapped. -/
  | unmapMemory (destination : UInt64) (handle : Handle) (source size : UInt64)
  /-- Maps ordinary memory of the process that the handle names a second time, as code. -/
  | mapCode (handle : Handle) (destination source size : UInt64)
  /-- Takes away what `mapCode` mapped. -/
  | unmapCode (handle : Handle) (destination source size : UInt64)
  deriving DecidableEq

namespace Call

def memoryText (destination : UInt64) (handle : Handle) (source size : UInt64) : String :=
  s!"(dst_address={hex destination.toNat}, process={handle.text}, " ++
    s!"src_address={hex source.toNat}, size={hex size.toNat})"

def codeText (handle : Handle) (destination source size : UInt64) : String :=
  s!"(process={handle.text}, dst_address={hex destination.toNat}, " ++
    s!"src_address={hex source.toNat}, size={hex size.toNat})"

def text : Call → String
  | setPermission handle address size permission =>
    s!"set_process_memory_permission(process={handle.text}, address={hex address.toNat}, " ++
      s!"size={hex size.toNat}, permission={hex permission.toNat})"
  | mapMemory destination handle source size =>
    "map_process_memory" ++ memoryText destination handle source size
  | unmapMemory destination handle source size =>
    "unmap_process_memory" ++ memoryText destination handle source size
  | mapCode handle destination source size =>
    "map_process_code_memory" ++ codeText handle destination source size
  | unmapCode handle destination source size =>
    "unmap_process_code_memory" ++ codeText handle destination source size

/-- What a call leaves in the log before anything else. -/
def entry (call : Call) : Record :=
  ⟨.trace, call.text⟩

end Call

end GuestMemory
