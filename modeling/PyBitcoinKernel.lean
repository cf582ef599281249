import PyBitcoinKernel.Lib.Codec
import PyBitcoinKernel.Lib.LittleEndian
import PyBitcoinKernel.Lib.Delimited
import PyBitcoinKernel.Lib.Words
import PyBitcoinKernel.Script.Disassemble
import PyBitcoinKernel.Script.Classify
import PyBitcoinKernel.Binding.Sequence
import PyBitcoinKernel.Binding.Verify
import PyBitcoinKernel.Binding.Serialize
import PyBitcoinKernel.Binding.Callbacks
import PyBitcoinKernel.Binding.Settings
import PyBitcoinKernel.Binding.Pending
import PyBitcoinKernel.Lib.Machine
import PyBitcoinKernel.Lib.RefCount
import PyBitcoinKernel.Lib.Grouping
import PyBitcoinKernel.Trace.Executions
import PyBitcoinKernel.Trace.Report
import PyBitcoinKernel.Trace.Stack
import PyBitcoinKernel.Trace.Format
import PyBitcoinKernel.Trace.Slot
import PyBitcoinKernel.Trace.Concurrent
import PyBitcoinKernel.Trace.Transaction
import PyBitcoinKernel.Manager.Objects
import PyBitcoinKernel.Manager.Views
import PyBitcoinKernel.Manager.Close
import PyBitcoinKernel.Manager.Gil
import PyBitcoinKernel.Manager.Tip
import PyBitcoinKernel.Manager.Wrappers
import PyBitcoinKernel.Manager.Lifetime
import PyBitcoinKernel.Manager.ImportBlocks
import PyBitcoinKernel.Scripts.Command
import PyBitcoinKernel.Lib.Wire
import PyBitcoinKernel.Lib.Merkle
import PyBitcoinKernel.Miner.Pack
import PyBitcoinKernel.Miner.Transaction
import PyBitcoinKernel.Miner.Coinbase
import PyBitcoinKernel.Miner.MerkleRoot
import PyBitcoinKernel.Miner.Block
import PyBitcoinKernel.Miner.Chain
import PyBitcoinKernel.Lib.RefGraph
import PyBitcoinKernel.Lib.HashTable
import PyBitcoinKernel.Primitives.Objects
import PyBitcoinKernel.Primitives.Calls
import PyBitcoinKernel.Primitives.Programs
import PyBitcoinKernel.Primitives.Ownership
import PyBitcoinKernel.Primitives.Values
import PyBitcoinKernel.Primitives.Containers
import PyBitcoinKernel.Primitives.Shared
import PyBitcoinKernel.Primitives.Refinement
import PyBitcoinKernel.Primitives.Lifetime
import PyBitcoinKernel.Primitives.Identity
import PyBitcoinKernel.Manager.Iterate
import PyBitcoinKernel.Manager.Leaks
import PyBitcoinKernel.Manager.LoadChainstate
