import SealedStellar.CircuitStatement
import SealedStellar.Sac
import SealedStellar.Payments
import SealedStellar.Solvency
import SealedStellar.Payout
import SealedStellar.PublicVector
import SealedStellar.Settlement
import SealedStellar.Funds
import SealedStellar.Refund
import SealedStellar.Commitments
import SealedStellar.Settleability
import SealedStellar.WhitelistTree
import SealedStellar.StrKey
import SealedStellar.Operator
import SealedStellar.ProverCompleteness
import SealedStellar.BidLog
import SealedStellar.SealedBid
import SealedStellar.Reveal
import SealedStellar.RevealCompleteness
import SealedStellar.RevealedBids
import SealedStellar.SealedUntilClose
import SealedStellar.LifecycleInvariant
import SealedStellar.Registration
import SealedStellar.RentLifetime
import SealedStellar.RegistryLifetime
import SealedStellar.MerkleMembership
import SealedStellar.ClosingClocks
import SealedStellar.Lib.Base64Url
import SealedStellar.Lib.Keyset
import SealedStellar.Lib.NumberText
import SealedStellar.Lib.Table
import SealedStellar.Store
import SealedStellar.Pagination
import SealedStellar.AuctionLog
import SealedStellar.IndexerChain
import SealedStellar.Ingest
import SealedStellar.IndexerEvents
import SealedStellar.IndexerCoverage
import SealedStellar.StoreRows
import SealedStellar.IndexerRows
import SealedStellar.IndexerReads
import SealedStellar.IndexerRefinement
import SealedStellar.IndexerTicks
import SealedStellar.IndexerRetry
import SealedStellar.Lib.Hex
import SealedStellar.SealedBidCodecs
import SealedStellar.Lib.Slots
import SealedStellar.SettleCli
import SealedStellar.SettleAgreement
import SealedStellar.ProvableOutcome
import SealedStellar.AddressLeaf
import SealedStellar.ProofBytes
import SealedStellar.ProofPacking
import SealedStellar.IndexerReplay
import SealedStellar.AuctionApi
import SealedStellar.LikePattern
import SealedStellar.QueryFilter
import SealedStellar.ClosingOrder
import SealedStellar.WebChain
import SealedStellar.ListView
import SealedStellar.ListQuery
import SealedStellar.ListAgreement
import SealedStellar.AuctionProbes
import SealedStellar.Lib.TokenBucket
import SealedStellar.RateLimit
import SealedStellar.Groth16
import SealedStellar.SettlementInfo
import SealedStellar.Lib.Cooldown
import SealedStellar.Faucet
import SealedStellar.FaucetCooldown
import SealedStellar.Submission
import SealedStellar.SubmissionNetwork
import SealedStellar.SubmissionSafety
import SealedStellar.SafeRetry
import SealedStellar.ClosedAuctions
import SealedStellar.TruthfulBidding
import SealedStellar.BlockedSettlement
import SealedStellar.DeployedKey
import SealedStellar.HonestSettlement
import SealedStellar.DrainedEscrow
import SealedStellar.FetchBidEvents
import SealedStellar.SubmissionRuns
import SealedStellar.BidDialog
import SealedStellar.AuctionRoom
import SealedStellar.Lib.Double
import SealedStellar.CreateAuctionForm
import SealedStellar.Refusals
import SealedStellar.RefusalMessages
import SealedStellar.OperatorStepper
import SealedStellar.Lib.FormUrlEncoded
import SealedStellar.ListViewUrl
