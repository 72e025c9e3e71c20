import P101Filesystem.Effect.Program
import P101Filesystem.Effect.Machine
import P101Filesystem.Effect.Activations
import P101Filesystem.Effect.Numbers
import P101Filesystem.Effect.Settle
import P101Filesystem.Effect.Protocol
import P101Filesystem.Effect.Typestate
import P101Filesystem.Effect.Brackets
import P101Filesystem.Effect.Batches
import P101Filesystem.Effect.Observation
import P101Filesystem.Effect.Drive
import P101Filesystem.Effect.Separation
import P101Filesystem.Effect.Prompt
import P101Filesystem.Effect.Imitation
import P101Filesystem.Source.Operations
import P101Filesystem.Source.Macros
import P101Filesystem.Source.Dirent
import P101Filesystem.Source.Stdlib
import P101Filesystem.Source.Unistd
import P101Filesystem.Source.Stat
import P101Filesystem.Source.Paths
import P101Filesystem.Source.Ftw
import P101Filesystem.Source.Interface
import P101Filesystem.Source.Readings
import P101Filesystem.Source.Footprint
import P101Filesystem.Source.Normal
import P101Filesystem.Walk.Code
import P101Filesystem.Walk.Nest
import P101Filesystem.Walk.Play
import P101Filesystem.Walk.Transparent
import P101Filesystem.Walk.Errors
import P101Filesystem.Walk.Phases
import P101Filesystem.Walk.Stack
import P101Filesystem.Walk.Contexts
import P101Filesystem.Walk.Flags
import P101Filesystem.Walk.Failures
import P101Filesystem.Ledger.Account
import P101Filesystem.Ledger.Marks
import P101Filesystem.Ledger.Handles
import P101Filesystem.Ledger.Concerns
import P101Filesystem.Ledger.Phases
import P101Filesystem.Ledger.Books
import P101Filesystem.Ledger.Balance
import P101Filesystem.Ledger.Globs
import P101Filesystem.Ledger.FailedClose
import P101Filesystem.Ledger.Blocks
import P101Filesystem.Ledger.Threads
import P101Filesystem.Ledger.Arrears
import P101Filesystem.Ledger.Late
import P101Filesystem.Ledger.HeapPhases
import P101Filesystem.Ledger.Heap
import P101Filesystem.Calls.Guards
import P101Filesystem.Calls.Faults
import P101Filesystem.Calls.Errno
import P101Filesystem.Calls.Leftover
import P101Filesystem.Calls.Brackets
import P101Filesystem.Calls.Lists
import P101Filesystem.Bare.Machine
import P101Filesystem.Bare.Stages
import P101Filesystem.Bare.Mirrored
import P101Filesystem.Bare.Realised
import P101Filesystem.Calls.Endings
import P101Filesystem.Calls.Telling
import P101Filesystem.Calls.Failing
import P101Filesystem.Calls.Imitated
import P101Filesystem.Threads.Alone
