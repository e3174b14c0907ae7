import ReckonFlow.Lib.Lts
import ReckonFlow.Lib.Progress
import ReckonFlow.Lib.Table
import ReckonFlow.Lib.Decimal
import ReckonFlow.Lib.Ranking
import ReckonFlow.Lib.Fallible
import ReckonFlow.Lib.Books
import ReckonFlow.Lib.Window
import ReckonFlow.Spec.Models
import ReckonFlow.Proofs.Ledger
import ReckonFlow.Proofs.Matching
import ReckonFlow.Proofs.MatchSessions
import ReckonFlow.Proofs.TrialBalance
import ReckonFlow.Proofs.TravelSessions
import ReckonFlow.Proofs.Idempotency
import ReckonFlow.Proofs.CorruptEntries
import ReckonFlow.Spec.RateLimit
import ReckonFlow.Proofs.RateLimit
import ReckonFlow.Proofs.RateCounters
import ReckonFlow.Proofs.RankFusion
import ReckonFlow.Proofs.EmbeddingRanking
import ReckonFlow.Proofs.RowOrder
import ReckonFlow.Lib.RunningTotal
import ReckonFlow.Spec.LedgerSchema
import ReckonFlow.Proofs.LedgerSchema
import ReckonFlow.Lib.Effects
import ReckonFlow.Spec.UnitOfWork
import ReckonFlow.Proofs.UnitOfWork
import ReckonFlow.Proofs.Disclosure
import ReckonFlow.Proofs.Influence
import ReckonFlow.Proofs.ReceiptUploads
import ReckonFlow.Proofs.Backstop
import ReckonFlow.Proofs.StoredBalance
import ReckonFlow.Proofs.Payments
import ReckonFlow.Proofs.TravelExpenses
import ReckonFlow.Proofs.PaidExpenses
import ReckonFlow.Proofs.Confirmations
import ReckonFlow.Proofs.Extractions
import ReckonFlow.Proofs.Commits
import ReckonFlow.Spec.CsvReader
import ReckonFlow.Spec.BankCsv
import ReckonFlow.Proofs.BankRows
import ReckonFlow.Proofs.BankImport
import ReckonFlow.Spec.ImportSessions
import ReckonFlow.Proofs.ImportSessions
import ReckonFlow.Proofs.ImportDeadlocks
import ReckonFlow.Lib.DecimalText
import ReckonFlow.Spec.MoneyText
import ReckonFlow.Proofs.MoneyText
import ReckonFlow.Lib.Groups
import ReckonFlow.Spec.Printed
import ReckonFlow.Proofs.BankAmounts
import ReckonFlow.Spec.SqliteImport
import ReckonFlow.Proofs.ImportPaths
import ReckonFlow.Lib.Joined
import ReckonFlow.Proofs.CacheKeys
import ReckonFlow.Lib.PyText
import ReckonFlow.Spec.StoredValues
import ReckonFlow.Proofs.StoredValues
import ReckonFlow.Spec.ExtractionRuns
import ReckonFlow.Proofs.ExtractionRuns
import ReckonFlow.Spec.ReceiptSchema
import ReckonFlow.Proofs.StoredExtractions
import ReckonFlow.Lib.Regex
import ReckonFlow.Spec.StubExtractor
import ReckonFlow.Proofs.StubTokens
import ReckonFlow.Proofs.StubAmounts
import ReckonFlow.Proofs.StubDecimals
import ReckonFlow.Proofs.StubContract
import ReckonFlow.Proofs.DateLayouts
import ReckonFlow.Lib.PyPath
import ReckonFlow.Spec.StoragePaths
import ReckonFlow.Proofs.StoragePaths
import ReckonFlow.Spec.MatchingEvals
import ReckonFlow.Proofs.EvalPrefilter
import ReckonFlow.Proofs.EvalRanking
import ReckonFlow.Lib.Numbering
import ReckonFlow.Proofs.ImportReport
import ReckonFlow.Spec.StoreUploads
import ReckonFlow.Proofs.StoreUploads
import ReckonFlow.Proofs.MatchLiveness
import ReckonFlow.Proofs.TravelLiveness
import ReckonFlow.Proofs.LedgerSessions
import ReckonFlow.Lib.Growth
import ReckonFlow.Lib.Paging
import ReckonFlow.Spec.Queries
import ReckonFlow.Proofs.History
import ReckonFlow.Proofs.Paging
import ReckonFlow.Proofs.AutoMatches
import ReckonFlow.Lib.FixedWindow
import ReckonFlow.Spec.RateDispatch
import ReckonFlow.Proofs.RateDispatch
import ReckonFlow.Lib.Utf8
import ReckonFlow.Lib.RealPath
import ReckonFlow.Spec.ReceiptFiles
import ReckonFlow.Proofs.ReceiptTexts
import ReckonFlow.Lib.Retries
import ReckonFlow.Lib.Simulation
import ReckonFlow.Spec.Worker
import ReckonFlow.Proofs.Worker
import ReckonFlow.Spec.Suggestions
import ReckonFlow.Proofs.Suggestions
import ReckonFlow.Spec.StubPipeline
import ReckonFlow.Proofs.StubPipeline
import ReckonFlow.Proofs.SessionCalls
