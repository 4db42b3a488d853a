import GuestMemory.Block

/-!
Checks: what every block of a range must be like before an operation may touch it.
-/

namespace GuestMemory

/-- Two conditions on states are the same if they agree on every state. -/
instance : DecidableEq (MemoryState → Bool) := fun condition other =>
  decidable_of_iff (∀ state ∈ MemoryState.all, condition state = other state)
    ⟨fun agree => funext fun state => agree state state.mem_all, fun same state _ => by rw [same]⟩

/-- The states that a check lets pass. -/
inductive StateRequirement where
  | exactly (state : MemoryState)
  | hasFlags (flags : StateFlags)
  | predicate (condition : MemoryState → Bool)
  deriving DecidableEq

namespace StateRequirement

/-- A process may ask for another permission. -/
def reprotectable : StateRequirement :=
  predicate MemoryState.isReprotectable

def accepts : StateRequirement → MemoryState → Bool
  | exactly expected, state => state = expected
  | hasFlags flags, state => state.has flags
  | predicate condition, state => condition state

def text : StateRequirement → String
  | exactly state => s!"Exactly({state.name})"
  | hasFlags flags => s!"HasFlags({flags.text})"
  | predicate _ => "Predicate(fn)"

end StateRequirement

/-- A requirement on a block. Permission and attributes are compared under a mask. -/
structure Check where
  state : StateRequirement
  permissionMask : KernelPermission
  permission : KernelPermission
  attributesMask : Attributes
  attributes : Attributes
  deriving DecidableEq

namespace Check

/-- The state is required, any permission will do and the block must not be marked. -/
def ofState (state : StateRequirement) : Check :=
  ⟨state, .empty, .empty, .all, .empty⟩

def exactly (state : MemoryState) : Check :=
  .ofState (.exactly state)

def hasFlags (flags : StateFlags) : Check :=
  .ofState (.hasFlags flags)

def withPermission (check : Check) (mask value : KernelPermission) : Check :=
  { check with permissionMask := mask, permission := value }

def withAttributes (check : Check) (mask value : Attributes) : Check :=
  { check with attributesMask := mask, attributes := value }

def accepts (check : Check) (block : Block) : Bool :=
  check.state.accepts block.state &&
    block.permission &&& check.permissionMask == check.permission &&
    block.attributes &&& check.attributesMask == check.attributes

def text (check : Check) : String :=
  let fields := ", ".intercalate [
    "state: " ++ check.state.text,
    "permission_mask: " ++ check.permissionMask.text,
    "permission: " ++ check.permission.text,
    "attribute_mask: " ++ check.attributesMask.text,
    "attribute: " ++ check.attributes.text]
  s!"MemoryCheck \x7b {fields} \x7d"

end Check

end GuestMemory
