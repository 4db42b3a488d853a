import GuestMemory.Address

/-!
The instruction cache: what it is asked to forget.
-/

namespace GuestMemory

/-- A request to forget cached instructions. -/
inductive Invalidation where
  | range (address size : Nat)
  | all
  deriving DecidableEq

/-- Which request is made when a code alias goes away. -/
inductive InvalidationStrategy where
  | range
  | all
  deriving DecidableEq

/-- The request for an alias that was at the given range. -/
def InvalidationStrategy.request (strategy : InvalidationStrategy) (address : Nat)
    (size : Nat) : Invalidation :=
  match strategy with
  | range => .range address size
  | all => .all

/-- An instruction cache: one that ignores requests, or one that lists them in their order. -/
inductive InstructionCache where
  | ignoring
  | recording (requests : List Invalidation)
  deriving DecidableEq

namespace InstructionCache

def requests : InstructionCache → List Invalidation
  | ignoring => []
  | recording requests => requests

def request (cache : InstructionCache) (invalidation : Invalidation) : InstructionCache :=
  match cache with
  | ignoring => ignoring
  | recording requests => recording (requests ++ [invalidation])

end InstructionCache

end GuestMemory
