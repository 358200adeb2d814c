import Numerator.FiniteMap
import Numerator.ByteString
import Numerator.Machine
import Numerator.PartialNumbering
import Numerator.Types
import Numerator.MemoryStorage
import Numerator.DiskStorage
import Numerator.Handler
import Numerator.Rounds
import Numerator.Transitions
import Numerator.Loaded
import Numerator.Coupling
import Numerator.Refinement
import Numerator.Permanence
import Numerator.RoundTrip
import Numerator.Reload
import Numerator.Batching
import Numerator.QuerySteps
import Numerator.Durability
import Numerator.Interleaving
import Numerator.WhileLoop
import Numerator.InputStream
import Numerator.Decimal
import Numerator.Dump
import Numerator.Restore
import Numerator.BinaryDump
import Numerator.TextDump
import Numerator.Iteration
import Numerator.FirstOccurrences
import Numerator.ReferenceNumbering
import Numerator.IdRange
import Numerator.FailedLoads
import Numerator.RestoreFold
import Numerator.BinaryTermination
import Numerator.Truncation
import Numerator.Lines
import Numerator.TextGrammar
import Numerator.LookupReply
import Numerator.Cli
import Numerator.CountedBatches
import Numerator.ExportImport
import Numerator.Completion
import Numerator.Simulation
import Numerator.Linearization
import Numerator.Crashes
import Numerator.Messages
import Numerator.ThriftProtocol
import Numerator.ThriftBinary
import Numerator.ThriftSteady
import Numerator.ThriftTypes
import Numerator.Rpc
import Numerator.Network
import Numerator.Consistency
import Numerator.CliRoundTrip
import Numerator.Framing
import Numerator.Interruption
import Numerator.Backups
import Numerator.GenPy
import Numerator.ClientPy
import Numerator.DisableS2iTest
