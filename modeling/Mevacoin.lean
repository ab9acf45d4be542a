import Mevacoin.Difficulty.Positive
import Mevacoin.Penalty
import Mevacoin.CheckDifficulty
import Mevacoin.Cache.TimestampHeight
import Mevacoin.Pool.Priority
import Mevacoin.Mining.TemplateTimestamp
import Mevacoin.Mining.ExtraFields
import Mevacoin.Decomposition
import Mevacoin.Mining.MinedBlock
import Mevacoin.Core.LookupAgreement
import Mevacoin.Core.AncestorsOnly
import Mevacoin.Protocol.BeforeHandshake
import Mevacoin.Wallet.SyncStart
import Mevacoin.Wallet.Reset
import Mevacoin.Wallet.Operations
import Mevacoin.Wallet.Checkpoints
import Mevacoin.WalletGreen.FusionInputs
import Mevacoin.Mnemonics.RoundTrip
import Mevacoin.Common.CrashAtomic
import Mevacoin.Transfers.Visibility
import Mevacoin.Core.ChainSlices
import Mevacoin.Core.Save
import Mevacoin.Core.MixinLimits
import Mevacoin.Core.Histories
import Mevacoin.Protocol.Peerlist
import Mevacoin.Transfers.SynchronizationState
