import PoolLedger.Batch.Check
import PoolLedger.Batch.Run
import PoolLedger.Json.Actions
import PoolLedger.Json.Configs
import PoolLedger.Json.Records
import PoolLedger.Telemetry.Exposition
import PoolLedger.Proofs.LedgerRuns
import PoolLedger.Proofs.GroupMembers
import PoolLedger.Proofs.RaceFreedom
import PoolLedger.Proofs.HaltedBatch
import PoolLedger.Proofs.Books
import PoolLedger.Proofs.RecordRoundTrip
import PoolLedger.Proofs.StoredBooks
import PoolLedger.Proofs.BooksRefinement
import PoolLedger.Proofs.RegistryBooks
import PoolLedger.Proofs.SerialRuns
import PoolLedger.Proofs.RegistryIntegrity
import PoolLedger.Proofs.EarlyFailure
import PoolLedger.Proofs.ScopedRuns
import PoolLedger.Proofs.ExecutionFrame
import PoolLedger.Proofs.WriteOnce
import PoolLedger.Proofs.WireForm
import PoolLedger.Proofs.ViewRefinement
import PoolLedger.Proofs.CheckedSchedules
import PoolLedger.Proofs.CoinOwnership
import PoolLedger.Proofs.ViewEnforcement
import PoolLedger.Proofs.CounterTotals
import PoolLedger.Proofs.TokenLookup
import PoolLedger.Proofs.GraphAdditions
import PoolLedger.Proofs.LongestPaths
import PoolLedger.Proofs.CanonicalConflicts
import PoolLedger.Proofs.ConflictRelation
import PoolLedger.Proofs.ArrivalOrder
import PoolLedger.Proofs.TokenCodec
import PoolLedger.Proofs.RecordLayout
import PoolLedger.Proofs.RecordNames
import PoolLedger.Proofs.RecordIsolation
import PoolLedger.Proofs.RecordedChanges
import PoolLedger.Proofs.WireEnds
import PoolLedger.Proofs.PoolPairs
import PoolLedger.Proofs.FallbackThreshold
import PoolLedger.Proofs.StrongerDeclarations
import PoolLedger.Proofs.AddressText
import PoolLedger.Proofs.GenesisRecords
import PoolLedger.Proofs.KeyAddresses
import PoolLedger.Proofs.BoundedRounds
import PoolLedger.Proofs.JsonText
import PoolLedger.Proofs.JsonForms
