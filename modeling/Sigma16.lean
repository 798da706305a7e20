import Sigma16.Transition
import Sigma16.TotalCorrectness
import Sigma16.Fallible
import Sigma16.Words
import Sigma16.SignedArithmetic
import Sigma16.UnicodeData
import Sigma16.PyText
import Sigma16.Assembler
import Sigma16.AssemblerOutput
import Sigma16.AssemblerSource
import Sigma16.AssemblerLinking
import Sigma16.AssemblerMain
import Sigma16.AssemblerReferences
import Sigma16.AssemblerErrors
import Sigma16.AssemblerOperands
import Sigma16.InstFormat
import Sigma16.AssemblerObjects
import Sigma16.Disassembler
import Sigma16.DisassemblerRoundTrip
import Sigma16.DisassemblerListing
import Sigma16.VmCore
import Sigma16.VmExec
import Sigma16.VmStep
import Sigma16.VmFrame
import Sigma16.VmComparison
import Sigma16.VmZeroRegister
import Sigma16.VmSafety
import Sigma16.VmOverflow
import Sigma16.ImageExecution
import Sigma16.DisassemblerExecution
import Sigma16.BranchAliases
import Sigma16.VmLinkage
import Sigma16.AssemblerSyntax
import Sigma16.AssemblerLiterals
import Sigma16.AssemblerRange
import Sigma16.AssemblerAtomicity
import Sigma16.VmTracing
import Sigma16.DebuggerCommands
import Sigma16.Debugger
import Sigma16.DebuggerTransparency
import Sigma16.DebuggerPrompts
import Sigma16.DebuggerSessions
import Sigma16.VmArithmetic
import Sigma16.VmAddition
import Sigma16.OrderBranches
import Sigma16.VmRules
import Sigma16.Fibonacci
import Sigma16.AssemblerComments
import Sigma16.VmStopping
import Sigma16.TrapOutput
import Sigma16.VmAddress
import Sigma16.DebuggerRegisters
import Sigma16.DebuggerInput
import Sigma16.MemoryDump
import Sigma16.Simulation
import Sigma16.VmLocality
import Sigma16.ItemMachine
import Sigma16.ItemSimulation
import Sigma16.SourceMachine
import Sigma16.ItemRules
import Sigma16.ArraySum
import Sigma16.StackArray
import Sigma16.TraceProtocol
import Sigma16.ItemCalls
import Sigma16.PythonBindings
import Sigma16.Printing
import Sigma16.TraceListing
import Sigma16.CpuDump
import Sigma16.DisassemblerPrinting
import Sigma16.AssemblerJoining
import Sigma16.ProgramSafety
import Sigma16.DebuggerBreakpoints
import Sigma16.AssemblerCoverage
import Sigma16.AssemblerCase
import Sigma16.AssemblerRenaming
