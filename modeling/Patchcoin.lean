import Patchcoin.Chain.Addresses
import Patchcoin.Chain.ClaimShape
import Patchcoin.Chain.GenesisCoins
import Patchcoin.Chain.Local
import Patchcoin.Chain.Variants
import Patchcoin.Chain.CrashReplay
import Patchcoin.Stake.Flags
import Patchcoin.Net.Assertion
import Patchcoin.Net.NullPointer
import Patchcoin.Net.Signature
import Patchcoin.Stake.Duplicate
import Patchcoin.Claim.Disseminate
import Patchcoin.Chain.Queue
import Patchcoin.Chain.Verdict
import Patchcoin.Claim.Import
import Patchcoin.Mint.Credit
import Patchcoin.Mint.BlockTime
import Patchcoin.Mint.Termination
import Patchcoin.Mint.Kernel
import Patchcoin.Consensus.TxTimes
import Patchcoin.Claim.BtcBalance
import Patchcoin.Claim.NullSource
import Patchcoin.Claim.Authorised
import Patchcoin.Stake.Selection
import Patchcoin.Stake.KernelChoice
import Patchcoin.Mint.Imported
import Patchcoin.Primitives.BigNum
import Patchcoin.Chain.SkipList
import Patchcoin.Claim.ApplySet
import Patchcoin.Stake.BlockTree
