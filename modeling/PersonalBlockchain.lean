import PersonalBlockchain.Codec.HeaderString
import PersonalBlockchain.Codec.Hex
import PersonalBlockchain.Codec.JsonDump
import PersonalBlockchain.Codec.MerkleRoot
import PersonalBlockchain.Codec.SignedString
import PersonalBlockchain.Codec.Transport
import PersonalBlockchain.Http.Delivery
import PersonalBlockchain.Http.MiningResponse
import PersonalBlockchain.Http.WalletRows
import PersonalBlockchain.Ledger.ChangeStamp
import PersonalBlockchain.Ledger.LocalMining
import PersonalBlockchain.Ledger.Solvency
import PersonalBlockchain.Network.BlockPaths
import PersonalBlockchain.Network.DifficultyRange
import PersonalBlockchain.Network.Genesis
import PersonalBlockchain.Network.Incremental
import PersonalBlockchain.Network.Issuance
import PersonalBlockchain.Network.MinedBlocks
import PersonalBlockchain.Network.NextDifficulty
import PersonalBlockchain.Network.Overdraft
import PersonalBlockchain.Network.Ownership
import PersonalBlockchain.Network.Pruning
import PersonalBlockchain.Network.Reorganisation
import PersonalBlockchain.Network.Retargeting
import PersonalBlockchain.Network.Schedule
import PersonalBlockchain.Network.TamperEvidence
import PersonalBlockchain.P2P.Backoff
import PersonalBlockchain.P2P.Broadcasts
import PersonalBlockchain.P2P.ChainSync
import PersonalBlockchain.P2P.Charges
import PersonalBlockchain.P2P.ConnectionLimits
import PersonalBlockchain.P2P.Discovery
import PersonalBlockchain.P2P.Eviction
import PersonalBlockchain.P2P.Interference
import PersonalBlockchain.P2P.LedgerRuns
import PersonalBlockchain.P2P.LongestChain
import PersonalBlockchain.P2P.RateLimit
import PersonalBlockchain.P2P.Reputation
import PersonalBlockchain.P2P.SeenCache
import PersonalBlockchain.P2P.SelfDeadlock
import PersonalBlockchain.P2P.Silence
import PersonalBlockchain.P2P.SingleMiner
import PersonalBlockchain.P2P.SlotLeaks
import PersonalBlockchain.P2P.Suppression
import PersonalBlockchain.P2P.Waiting
import PersonalBlockchain.P2P.Wire
import PersonalBlockchain.P2P.WriteQueue
import PersonalBlockchain.Storage.Appending
import PersonalBlockchain.Storage.CrashSafety
import PersonalBlockchain.Storage.Restart
import PersonalBlockchain.Wallet.LoginChallenges
