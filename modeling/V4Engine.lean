import V4Engine.Lib.Outcome
import V4Engine.Lib.Live
import V4Engine.Lib.Ring
import V4Engine.Lib.Runs
import V4Engine.Lib.Align
import V4Engine.Task.Backend
import V4Engine.Task.MsgQueue
import V4Engine.Task.Switch
import V4Engine.Task.Ops
import V4Engine.Task.Frame
import V4Engine.Task.Life
import V4Engine.Task.Heap
import V4Engine.Task.Context
import V4Engine.Task.Blocking
import V4Engine.Task.Alone
import V4Engine.Vm.Machine
import V4Engine.Vm.OpRules
import V4Engine.Vm.HelperRules
import V4Engine.Vm.TrackRules
import V4Engine.Vm.RunRules
import V4Engine.Vm.Sandbox
import V4Engine.Lib.SignedArith
import V4Engine.Vm.HostArith
import V4Engine.Vm.TaskExit
import V4Engine.Vm.Nesting
import V4Engine.Vm.ResumePoint
import V4Engine.Vm.LastingEffects
import V4Engine.Vm.WellFormed
import V4Engine.Vm.CallFrame
import V4Engine.Vm.Lockstep
import V4Engine.Vm.StackFrame
import V4Engine.Vm.PanicOnce
import V4Engine.Vm.Transparent
import V4Engine.Vm.Arena
import V4Engine.Task.Census
import V4Engine.Task.Buffers
import V4Engine.Task.Ownership
import V4Engine.Lib.Cycle
import V4Engine.Task.Choice
import V4Engine.Task.Rotation
import V4Engine.Task.Deadline
import V4Engine.Task.RoundTrip
import V4Engine.Lib.Brackets
import V4Engine.Task.Critical
import V4Engine.Vm.InterruptLock
import V4Engine.Vm.Shield
import V4Engine.Lib.Fifo
import V4Engine.Lib.Purge
import V4Engine.FreeRtos.Backend
import V4Engine.FreeRtos.Isolation
import V4Engine.FreeRtos.Messages
import V4Engine.FreeRtos.Handles
import V4Engine.Vm.Dictionary
import V4Engine.Lib.Elapsed
import V4Engine.Task.Receive
import V4Engine.Vm.Snapshot
import V4Engine.Vm.MmioTable
import V4Engine.Vm.StackRuns
import V4Engine.Vm.Operands
import V4Engine.Lib.Bytes
import V4Engine.Vm.RamRuns
import V4Engine.Vm.Accessors
import V4Engine.Vm.RamBytes
import V4Engine.Vm.CodeBytes
import V4Engine.Vm.Superinstr
import V4Engine.Vm.Indeterminate
import V4Engine.Task.FpBlind
import V4Engine.Vm.FpBlind
import V4Engine.Vm.WordEntry
import V4Engine.Vm.CodeLength
import V4Engine.Vm.StackSnapshot
import V4Engine.Vm.Create
import V4Engine.Vm.MmioDispatch
import V4Engine.Vm.Recursion
import V4Engine.Vm.Termination
import V4Engine.Vm.Relocation
import V4Engine.Vm.ListMachine
import V4Engine.Vm.ListRefinement
import V4Engine.Vm.ListRuns
import V4Engine.Vm.ListLogic
import V4Engine.Vm.FrameRules
import V4Engine.Vm.NoTasks
import V4Engine.Hal.Wrapper
import V4Engine.Hal.Ports
import V4Engine.Vm.Lifetime
import V4Engine.Lib.Tally
import V4Engine.Task.Processor
import V4Engine.Vm.Growth
import V4Engine.Vm.Embedding
