import Benzene.Consensus.SenderRecord
import Benzene.Consensus.LeaderMember
import Benzene.Consensus.VerifiedBlocks
import Benzene.Consensus.PrepareUnique
import Benzene.Consensus.FaultFree
import Benzene.Consensus.Finality
import Benzene.Consensus.Certificates
import Benzene.Consensus.CatchUpOrder
import Benzene.Quorum.Aggregation
import Benzene.Consensus.LogCache
import Benzene.Consensus.RejectedCommitted
import Benzene.Consensus.RoundVotes
import Benzene.Bnz.Gossip
import Benzene.Bnz.Submit
import Benzene.Core.CommitSig
import Benzene.Core.BatchImport
import Benzene.Bnz.Intake
import Benzene.Consensus.SyncMode
import Benzene.Consensus.Construction
import Benzene.Quorum.Rotation
import Benzene.Consensus.DoubleSign
import Benzene.Consensus.AggregatedSigs
import Benzene.Consensus.RetrySupersession
import Benzene.Core.FairTruncation
import Benzene.Core.RemoteSlots
import Benzene.Consensus.CommitteeRefresh
import Benzene.Votepower.PowerRange
import Benzene.Core.PriceBump
import Benzene.Types.TxJson
import Benzene.Bnz.SendTxArgs
import Benzene.Core.LocalAccounts
import Benzene.Core.Reinject
import Benzene.Core.HeadState
import Benzene.Configs.Epochs
import Benzene.Core.CachedMap
import Benzene.Types.DeriveSha
import Benzene.Core.Schema
import Benzene.Accounts.Hd
import Benzene.Core.Restart
import Benzene.Core.Turns
