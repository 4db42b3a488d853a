import GuestMemory.MemoryState

/-!
Permissions: the four a guest may ask for, and the finer ones the kernel keeps for every page.
-/

namespace GuestMemory

/-- The permissions a guest knows. -/
inductive UserPermission where
  | none
  | read
  | readWrite
  | readExecute
  deriving DecidableEq

/-- A set of rights that guest and kernel have on a page. Bits without a meaning are kept and
compared like the others. -/
structure KernelPermission where
  bits : UInt8
  deriving DecidableEq

namespace KernelPermission

instance : OrOp KernelPermission := ⟨fun left right => ⟨left.bits ||| right.bits⟩⟩

instance : AndOp KernelPermission := ⟨fun left right => ⟨left.bits &&& right.bits⟩⟩

def contains (permission other : KernelPermission) : Bool :=
  permission &&& other == other

def empty : KernelPermission := ⟨0⟩

def read : KernelPermission := ⟨1⟩
def write : KernelPermission := ⟨2⟩
def execute : KernelPermission := ⟨4⟩
def kernelRead : KernelPermission := ⟨8⟩
def kernelWrite : KernelPermission := ⟨16⟩
def kernelExecute : KernelPermission := ⟨32⟩

/-- The page is kept from the guest. -/
def notMapped : KernelPermission := ⟨64⟩

def all : KernelPermission :=
  read ||| write ||| execute ||| kernelRead ||| kernelWrite ||| kernelExecute ||| notMapped

def userMask : KernelPermission := read ||| write ||| execute

/-- What the guest may read, the kernel may read. -/
def userRead : KernelPermission := read ||| kernelRead

/-- What the guest may write, the kernel may write. -/
def userWrite : KernelPermission := write ||| kernelWrite

def userExecute : KernelPermission := execute

def userReadWrite : KernelPermission := userRead ||| userWrite

def userReadExecute : KernelPermission := userRead ||| userExecute

/-- The permission of memory that is lent out: readable by the kernel alone. -/
def hidden : KernelPermission := kernelRead ||| notMapped

/-- The guest may execute the page. -/
def isUserExecutable (permission : KernelPermission) : Bool :=
  permission.contains userExecute

def names : BitNames := [
  (0, "READ"),
  (1, "WRITE"),
  (2, "EXECUTE"),
  (3, "KERNEL_READ"),
  (4, "KERNEL_WRITE"),
  (5, "KERNEL_EXECUTE"),
  (6, "NOT_MAPPED")]

def text (permission : KernelPermission) : String :=
  names.text "KernelPermission" permission.bits.toNat

end KernelPermission

namespace UserPermission

def all : List UserPermission := [none, read, readWrite, readExecute]

/-- The number by which the guest asks for a permission. -/
def raw : UserPermission → Nat
  | none => 0
  | read => 1
  | readWrite => 3
  | readExecute => 5

/-- The permission of that number. There is none to write or to execute alone. -/
def ofRaw? : Nat → Option UserPermission
  | 0 => some none
  | 1 => some read
  | 3 => some readWrite
  | 5 => some readExecute
  | _ => .none

def name : UserPermission → String
  | none => "None"
  | read => "Read"
  | readWrite => "ReadWrite"
  | readExecute => "ReadExecute"

/-- The rights that the kernel sets up for a guest permission. -/
def toKernel : UserPermission → KernelPermission
  | none => .hidden
  | read => .userRead
  | readWrite => .userReadWrite
  | readExecute => .userReadExecute

end UserPermission

/-- The permission as the guest sees it, unless its rights are none that a guest can ask for. -/
def KernelPermission.toUser? (permission : KernelPermission) : Option UserPermission :=
  UserPermission.ofRaw? (permission &&& userMask).bits.toNat

/-- The state of memory after its permission changed: instructions that become writable turn
into data. -/
def MemoryState.afterReprotect (state : MemoryState) (permission : KernelPermission) :
    MemoryState :=
  if permission.contains .userWrite then
    match state with
    | code => codeData
    | aliasCode => aliasCodeData
    | other => other
  else
    state

end GuestMemory
