import GuestMemory.Action

/-!
Handle tables: what the handles of a process stand for, objects of whatever kind. A slot that is
used again holds another generation, so that the handle of what it held before does not name its new
content.
-/

namespace GuestMemory

structure Slot (Object : Type) where
  generation : Nat
  object : Option Object
  deriving DecidableEq

/-- The handles of one process. -/
structure HandleTable (Object : Type) where
  capacity : Nat
  slots : Array (Slot Object)
  /-- The slots without an object, the one emptied last first. -/
  free : List Nat
  nextGeneration : Nat
  deriving DecidableEq

namespace HandleTable

variable {Object : Type}

/-- A table without handles for at most `capacity` of them. -/
def create (capacity : Nat) : Checked (HandleTable Object) :=
  if capacity ≤ Handle.indexLimit then
    .ok ⟨capacity, #[], [], 1⟩
  else
    .error (.handleTableTooLarge capacity)

variable (table : HandleTable Object)

def size : Nat :=
  table.slots.size - table.free.length

/-- The generation after the given one; the first follows the last. -/
def generationAfter (generation : Nat) : Nat :=
  generation % Handle.lastGeneration + 1

/-- Stores an object and answers a handle for it. The slot emptied last is used first. -/
def add (object : Object) : Action (HandleTable Object) Handle := fun table =>
  let generation := table.nextGeneration
  let nextGeneration := generationAfter generation
  let slot : Slot Object := ⟨generation, some object⟩
  match table.free with
  | index :: free =>
    let slots := table.slots.setIfInBounds index slot
    .done (.ofParts index generation) { table with slots, free, nextGeneration }
  | [] =>
    if table.slots.size < table.capacity then
      let index := table.slots.size
      .done (.ofParts index generation)
        { table with slots := table.slots.push slot, nextGeneration }
    else
      .refused (.handlesExhausted table.capacity) table

/-- The object that a handle names. A handle that stands for the caller names none here. -/
def get? (handle : Handle) : Option Object :=
  if handle.isPseudo then
    none
  else
    match table.slots[handle.index]? with
    | some slot => if slot.generation = handle.generation then slot.object else none
    | none => none

/-- The object that a handle names, as what it is taken for, if it can be taken for that. -/
def getAs? {Target : Type} (downcast : Object → Option Target) (handle : Handle) : Option Target :=
  (table.get? handle).bind downcast

/-- Closes a handle; false if it named no object. -/
def remove (handle : Handle) : Bool × HandleTable Object :=
  match table.get? handle with
  | none => (false, table)
  | some _ =>
    let slots := table.slots.setIfInBounds handle.index ⟨handle.generation, none⟩
    (true, { table with slots, free := handle.index :: table.free })

def text : String :=
  s!"HandleTable \x7b len: {table.size}, capacity: {table.capacity} \x7d"

end HandleTable

end GuestMemory
