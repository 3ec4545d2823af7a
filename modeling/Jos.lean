import Jos.Ledger
import Jos.Boot
import Jos.Trap
import Jos.Cputs
import Jos.PageOps
import Jos.EnvSpace
import Jos.BootPages
import Jos.StaticMap
import Jos.Regions
import Jos.KernelView
import Jos.PageRuns
import Jos.RefWrap
import Jos.EnvIds
import Jos.EnvTable
import Jos.NewEnv
import Jos.EnvSwitch
import Jos.SyscallReturn
import Jos.TrapEntry
import Jos.TrapReturn
import Jos.PrintfChars
import Jos.UserPrintf
import Jos.DirRights
import Jos.UserMemRights
import Jos.UserStores
import Jos.Loading
import Jos.TrapEnds
import Jos.KernelRuns
import Jos.EnvFrames
import Jos.KernelPart
import Jos.Loader
import Jos.HeaderTable
import Jos.Tlb
import Jos.Keyboard
import Jos.WrappedQueue
import Jos.Console
import Jos.Crt
import Jos.BootLoad
import Jos.BootMemory
import Jos.UserMemFault
import Jos.InsertContract
import Jos.RegionContract
import Jos.PageOwners
import Jos.EnvReclaim
import Jos.PageRemains
import Jos.Windows
import Jos.RegionMap
import Jos.PageListCheck
import Jos.EnvStart
import Jos.BackScan
import Jos.Kdebug
import Jos.StabSearch
import Jos.StabBrackets
import Jos.Debuginfo
import Jos.StabReads
import Jos.Numerals
import Jos.PrintfFields
import Jos.Strtol
import Jos.Snprintf
import Jos.PrintfStrings
import Jos.PrintfDirectives
import Jos.PrintfPointer
import Jos.PrintfEscapes
import Jos.PrintfErrors
import Jos.PrintCount
import Jos.PrintfAlike
import Jos.ConsoleDevices
import Jos.Readline
import Jos.Runcmd
import Jos.StringMoves
import Jos.StabBounds
import Jos.FirstDifference
import Jos.StringOrder
import Jos.FreeListChecks
import Jos.InstalledChecks
import Jos.KernelChecks
import Jos.MemInit
import Jos.Startup
import Jos.BitFields
import Jos.Descriptors
import Jos.EntryPgdir
import Jos.Gates
import Jos.Isolation
import Jos.Monitor
import Jos.UserLibrary
import Jos.Backtrace
import Jos.StringCopies
