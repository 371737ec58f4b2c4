import Ostracon.Lib.MerkleTree
import Ostracon.Lib.MerkleLevels
import Ostracon.Lib.IdealHash
import Ostracon.Crypto.Merkle
import Ostracon.Crypto.MerkleProof
import Ostracon.Crypto.MerkleIterative
import Ostracon.Lib.ByteCodec
import Ostracon.Crypto.KeyPath
import Ostracon.Crypto.ProofOp
import Ostracon.Types.PartSet
import Ostracon.Types.PartSetRead
import Ostracon.Types.PartSetReassembly
import Ostracon.Crypto.Keys
import Ostracon.Types.Vote
import Ostracon.Lib.GoInt
import Ostracon.Types.VoterSet
import Ostracon.Crypto.IdealSignatures
import Ostracon.Types.CommitVerification
import Ostracon.Types.VoteSet
import Ostracon.Lib.WeightedSet
import Ostracon.Types.VoteSetInvariant
import Ostracon.Types.VoteSetRun
import Ostracon.Types.CommitCompleteness
import Ostracon.Types.VoteSetOrder
import Ostracon.Consensus.State
import Ostracon.Consensus.Steps
import Ostracon.Consensus.Locking
import Ostracon.Lib.Knapsack
import Ostracon.Types.VoterElection
import Ostracon.Types.ElectionTolerance
import Ostracon.Privval.FilePV
import Ostracon.Privval.DoubleSign
import Ostracon.Evidence.Pool
import Ostracon.Evidence.PoolInvariant
import Ostracon.Lib.Traced
import Ostracon.Store.BlockStore
import Ostracon.Store.Consistency
import Ostracon.Lib.GoSlice
import Ostracon.Bits.BitArray
import Ostracon.Bits.Shape
import Ostracon.Bits.BoolList
import Ostracon.Consensus.Msgs
import Ostracon.Consensus.PeerState
import Ostracon.Consensus.PeerBitArrays
import Ostracon.Lib.WeightedPick
import Ostracon.Types.Time
import Ostracon.State.Validation
import Ostracon.State.BlockTime
import Ostracon.Mempool.Reap
import Ostracon.Lib.GoMap
import Ostracon.Blockchain.Pool
import Ostracon.Blockchain.PoolInvariant
import Ostracon.Types.ProposerSelection
import Ostracon.Light.Verifier
import Ostracon.Light.Skipping
import Ostracon.Lib.SortedMap
import Ostracon.Light.Store
import Ostracon.Types.ElectionWellFormed
import Ostracon.P2p.AddrBook
import Ostracon.Mempool.CheckTx
import Ostracon.Mempool.CheckTxInvariant
import Ostracon.Blockchain.Scheduler
import Ostracon.Blockchain.SchedulerInvariant
import Ostracon.Statesync.Chunks
import Ostracon.Statesync.ChunksInvariant
import Ostracon.P2p.Connection
import Ostracon.P2p.ConnectionRoundTrip
import Ostracon.Lib.ByteOrder
import Ostracon.Lib.IdealAead
import Ostracon.P2p.SecretConnection
import Ostracon.Lib.GoList
import Ostracon.Mempool.TxCache
import Ostracon.P2p.SecretConnectionStream
import Ostracon.Consensus.Wal
import Ostracon.Consensus.WalRoundTrip
import Ostracon.Types.CommitToVoteSet
import Ostracon.Blockchain.Routine
import Ostracon.Blockchain.Processor
import Ostracon.Blockchain.Reactor
import Ostracon.Consensus.Replay
import Ostracon.Consensus.Recovery
import Ostracon.Evidence.LightClientAttack
import Ostracon.Lib.IntWindow
import Ostracon.Lib.KeyedList
import Ostracon.Types.ValidatorSetUpdate
import Ostracon.Types.ValidatorSetInvariant
import Ostracon.Types.ProposerPriority
import Ostracon.State.ValidatorHistory
import Ostracon.State.PruneStates
