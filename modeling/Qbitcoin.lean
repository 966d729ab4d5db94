import Qbitcoin.Lib.Except
import Qbitcoin.Lib.AssocList
import Qbitcoin.Lib.LittleEndian
import Qbitcoin.Lib.FlatFile
import Qbitcoin.Lib.RecordMap
import Qbitcoin.Lib.Decoder
import Qbitcoin.Lib.AListFold
import Qbitcoin.Lib.AListSum
import Qbitcoin.Script.ScriptNum
import Qbitcoin.Script.Interpreter
import Qbitcoin.Script.Run
import Qbitcoin.Script.StaticChecks
import Qbitcoin.Primitives.Transaction
import Qbitcoin.Primitives.Unserialize
import Qbitcoin.Primitives.VarInt
import Qbitcoin.Primitives.Block
import Qbitcoin.Consensus.Merkle
import Qbitcoin.Consensus.TxCheck
import Qbitcoin.Consensus.Pow
import Qbitcoin.Consensus.Compact
import Qbitcoin.Consensus.Retarget
import Qbitcoin.Validation.CheckBlock
import Qbitcoin.Net.V1Transport
import Qbitcoin.Node.BlockStorage
import Qbitcoin.Node.BlockLimits
import Qbitcoin.Key.QKey
import Qbitcoin.Primitives.Compressor
import Qbitcoin.Key.ExtKey
import Qbitcoin.Key.KeyIO
import Qbitcoin.Script.Checker
import Qbitcoin.Chain.BlockIndex
import Qbitcoin.Chain.SkipList
import Qbitcoin.Chain.ActiveChain
import Qbitcoin.Consensus.TxVerify
import Qbitcoin.Coins.Coin
import Qbitcoin.Coins.Cache
import Qbitcoin.Coins.Coherence
import Qbitcoin.Coins.Flush
import Qbitcoin.Coins.Refinement
import Qbitcoin.Coins.View
import Qbitcoin.Script.Verify
import Qbitcoin.Script.Solver
import Qbitcoin.Script.Sign
import Qbitcoin.Policy.Policy
import Qbitcoin.Wallet.Descriptor
import Qbitcoin.Wallet.Psbt
import Qbitcoin.Validation.ConnectBlock
import Qbitcoin.Validation.BlockValue
import Qbitcoin.Validation.DisconnectBlock
import Qbitcoin.Chain.MedianTime
import Qbitcoin.Consensus.VersionBits
import Qbitcoin.MerkleBlock.Soundness
import Qbitcoin.Cluster.CompareChunks
import Qbitcoin.Cluster.DepGraph
import Qbitcoin.Cluster.LinearizationChunking
import Qbitcoin.Script.ConditionStack
import Qbitcoin.Cluster.FixLinearization
import Qbitcoin.Script.FindAndDelete
import Qbitcoin.Arith.BaseUint
import Qbitcoin.Lib.MsbBits
import Qbitcoin.Primitives.BitStream
import Qbitcoin.BlockFilter.GCSFilter
import Qbitcoin.Lib.MachineInt
import Qbitcoin.Cluster.FeeFracFallback
import Qbitcoin.Lib.FieldSum
import Qbitcoin.Lib.BoundedSet
import Qbitcoin.Lib.VectorLoop
import Qbitcoin.Util.Bits
import Qbitcoin.Util.IntBitSet
import Qbitcoin.Util.MultiIntBitSet
import Qbitcoin.Util.BitSet
import Qbitcoin.Lib.Memory
import Qbitcoin.Lib.SeqOps
import Qbitcoin.Lib.Simulation
import Qbitcoin.Util.VecDeque
import Qbitcoin.Util.Prevector
import Qbitcoin.Lib.Transducer
import Qbitcoin.Net.Send
import Qbitcoin.Net.Receive
import Qbitcoin.Net.Link
import Qbitcoin.Lib.XorLinear
import Qbitcoin.Key.Bech32
import Qbitcoin.Key.Bech32Codec
import Qbitcoin.Lib.MsbDigits
import Qbitcoin.Util.ConvertBits
import Qbitcoin.Key.Destination
import Qbitcoin.Key.QuantumAddress
import Qbitcoin.Lib.Numeral
import Qbitcoin.Key.Base58
import Qbitcoin.Key.Base58Address
