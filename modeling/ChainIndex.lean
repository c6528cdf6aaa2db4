import ChainIndex.Main
import ChainIndex.Pool
import ChainIndex.Proofs.AminoEnvelope
import ChainIndex.Proofs.Barrier
import ChainIndex.Proofs.CarriedFields
import ChainIndex.Proofs.Completeness
import ChainIndex.Proofs.DecodeOutcome
import ChainIndex.Proofs.EncodingIndependence
import ChainIndex.Proofs.ExactDelivery
import ChainIndex.Proofs.LatestCoverage
import ChainIndex.Proofs.Layouts
import ChainIndex.Proofs.LogEntries
import ChainIndex.Proofs.MessageLayouts
import ChainIndex.Proofs.ProtobufEnvelope
import ChainIndex.Proofs.RegisteredNames
import ChainIndex.Proofs.Responses
import ChainIndex.Proofs.SearchFailures
import ChainIndex.Proofs.UniformMessages
import ChainIndex.Proofs.Storing
import ChainIndex.Proofs.ConfirmedHeights
import ChainIndex.Proofs.FetchPaths
import ChainIndex.Proofs.SilentMappings
import ChainIndex.Proofs.FailedEntries
import ChainIndex.Proofs.CacheWindow
import ChainIndex.Proofs.CacheCoherence
import ChainIndex.Proofs.EncodingOverlap
import ChainIndex.Proofs.MergedBatches
import ChainIndex.Proofs.RateLimit
import ChainIndex.Proofs.StreamProgress
import ChainIndex.Proofs.WorkerPools
import ChainIndex.Proofs.WireForms
import ChainIndex.Proofs.PairedAmounts
import ChainIndex.Proofs.Wrappers
import ChainIndex.Proofs.Repetitions
import ChainIndex.Proofs.Partitions
import ChainIndex.Proofs.BoundedQuestions
import ChainIndex.Proofs.StampedHeights
import ChainIndex.Proofs.OfflineDecoding
import ChainIndex.Proofs.DecimalGrammar
import ChainIndex.Proofs.DecimalValues
import ChainIndex.Proofs.ShuffledLogs
import ChainIndex.Proofs.AnsweredRequests
import ChainIndex.Proofs.PagedSearch
import ChainIndex.Proofs.CoinLists
import ChainIndex.Proofs.Confirmations
import ChainIndex.Proofs.AddressTexts
import ChainIndex.Proofs.ToldBounds
import ChainIndex.Proofs.GroupedAttributes
import ChainIndex.Proofs.NumberedCoins
import ChainIndex.Proofs.SearchedPages
import ChainIndex.Proofs.JsonNumbers
import ChainIndex.Proofs.JsonReading
