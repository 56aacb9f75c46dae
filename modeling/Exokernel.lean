import Exokernel.Abi
import Exokernel.Action
import Exokernel.Device
import Exokernel.Env.Table
import Exokernel.Error
import Exokernel.Flags
import Exokernel.Ipc
import Exokernel.Journal
import Exokernel.Kernel.Boot
import Exokernel.Kernel.Scheduler
import Exokernel.Kernel.State
import Exokernel.Layout
import Exokernel.Memory.FramePool
import Exokernel.Memory.PageTable
import Exokernel.Memory.Space
import Exokernel.Simulation.Machine
import Exokernel.Syscall.Call
import Exokernel.Syscall.Perform
import Exokernel.Trap.Context
import Exokernel.Trap.Route
import Exokernel.User.Library
import Exokernel.User.Program
import Exokernel.User.Script
import Exokernel.Word
import Exokernel.Proofs.Memory.Ascending
import Exokernel.Proofs.Outcome
import Exokernel.Proofs.Tally
import Exokernel.Proofs.Memory.Balance
import Exokernel.Proofs.Memory.Edits
import Exokernel.Proofs.Memory.UserAccess
import Exokernel.Proofs.Memory.Conservation
import Exokernel.Proofs.Env.Id
import Exokernel.Proofs.Env.Table
import Exokernel.Proofs.Env.Occupancy
import Exokernel.Proofs.Kernel.Intact
import Exokernel.Proofs.Kernel.Upkeep
import Exokernel.Proofs.Ipc.Upkeep
import Exokernel.Proofs.Env.Integrity
import Exokernel.Proofs.Env.Waiting
import Exokernel.Proofs.Kernel.Orderly
import Exokernel.Proofs.Kernel.Turn
import Exokernel.Proofs.Trap.Serving
import Exokernel.Proofs.Kernel.Serving
import Exokernel.Proofs.Ipc.Fetching
import Exokernel.Proofs.Kernel.Removal
import Exokernel.Proofs.Syscall.Serving
import Exokernel.Proofs.Trap.Round
import Exokernel.Proofs.Kernel.Entry
import Exokernel.Proofs.Trap.Meddling
import Exokernel.Proofs.System.Run
import Exokernel.Proofs.System.Lapse
import Exokernel.Proofs.Kernel.Rotation
import Exokernel.Proofs.Trap.Passing
import Exokernel.Proofs.Trap.Provoking
import Exokernel.Proofs.System.Crash
import Exokernel.Proofs.Memory.Contents
import Exokernel.Proofs.Memory.Effects
import Exokernel.Proofs.Memory.Attenuation
import Exokernel.Proofs.Kernel.Deeds
import Exokernel.Proofs.Ipc.Deeds
import Exokernel.Proofs.Syscall.Effect
import Exokernel.Proofs.Trap.Effect
import Exokernel.Proofs.System.Demands
import Exokernel.Proofs.Syscall.Answers
import Exokernel.Proofs.Syscall.Bystander
import Exokernel.Proofs.Syscall.Sharing
import Exokernel.Proofs.Syscall.Isolation
import Exokernel.Proofs.Syscall.Coherence
import Exokernel.Proofs.System.Attenuation
import Exokernel.Proofs.System.Coherence
import Exokernel.Proofs.Post.Counting
import Exokernel.Proofs.Post.Delivery
import Exokernel.Proofs.Kernel.Steady
import Exokernel.Proofs.Trap.Running
import Exokernel.Proofs.System.Moves
import Exokernel.Proofs.System.Confinement
import Exokernel.Proofs.System.Anchored
import Exokernel.Proofs.System.Zombie
import Exokernel.Proofs.Memory.Supply
import Exokernel.Proofs.System.Standby
import Exokernel.Proofs.Memory.Bytes
import Exokernel.Proofs.User.Copying
import Exokernel.Proofs.User.Drive
import Exokernel.Proofs.User.Calls
import Exokernel.Proofs.User.Upcalls
import Exokernel.Proofs.User.Mending
import Exokernel.Proofs.User.Private
import Exokernel.Proofs.User.Cloning
import Exokernel.Proofs.User.Forking
import Exokernel.Proofs.User.CopyFork
import Exokernel.Proofs.User.ShareFork
import Exokernel.Proofs.System.Keeping
import Exokernel.Proofs.System.Preemption
import Exokernel.Proofs.Post.Commuting
import Exokernel.Proofs.User.Trampolining
import Exokernel.Proofs.System.Fairness
import Exokernel.Proofs.System.Resuming
import Exokernel.Proofs.Post.Receiving
import Exokernel.Proofs.Post.Destruction
import Exokernel.Proofs.Memory.Storing
import Exokernel.Proofs.Post.Granting
import Exokernel.Proofs.Memory.Fresh
import Exokernel.Proofs.Syscall.Console
import Exokernel.Proofs.User.Resolving
import Exokernel.Proofs.User.Rearing
import Exokernel.Proofs.Trap.Records
import Exokernel.Proofs.Syscall.Words
import Exokernel.Proofs.User.Wrappers
