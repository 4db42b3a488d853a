import GuestMemory.AddressSpace.Backing
import GuestMemory.Proofs.AddressSpace.Comparing
import GuestMemory.Proofs.AddressSpace.RangeChecks
import GuestMemory.Proofs.DescriptorPool.Requests
import GuestMemory.Proofs.HandleTable.Generations
import GuestMemory.Proofs.Kernel.Agreement
import GuestMemory.Proofs.Kernel.Cuts
import GuestMemory.Proofs.Kernel.Enclosure
import GuestMemory.Proofs.Kernel.LockDiscipline
import GuestMemory.Proofs.Kernel.MemoryWalk
import GuestMemory.Proofs.Kernel.PageMapping
import GuestMemory.Proofs.Kernel.PageUnmapping
import GuestMemory.Proofs.Kernel.Placement
import GuestMemory.Proofs.Kernel.Reclaiming
import GuestMemory.Proofs.Kernel.Reprotection
import GuestMemory.Proofs.Kernel.Returning
import GuestMemory.Proofs.Kernel.WriteExecute
import GuestMemory.Proofs.PageGroup.Building
import GuestMemory.Proofs.Partition.Normalising
