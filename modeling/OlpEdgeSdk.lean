import OlpEdgeSdk.Analysis.AutoFlushShutdown
import OlpEdgeSdk.Analysis.Base64Codec
import OlpEdgeSdk.Analysis.BatchPublishing
import OlpEdgeSdk.Analysis.BoundedQueue
import OlpEdgeSdk.Analysis.CacheUpdate
import OlpEdgeSdk.Analysis.CancellationContextRuns
import OlpEdgeSdk.Analysis.CatalogIsolation
import OlpEdgeSdk.Analysis.CensoredUrls
import OlpEdgeSdk.Analysis.ContextDestruction
import OlpEdgeSdk.Analysis.CurlCancellation
import OlpEdgeSdk.Analysis.CurlSlots
import OlpEdgeSdk.Analysis.DataRevoked
import OlpEdgeSdk.Analysis.DefaultCacheLifetime
import OlpEdgeSdk.Analysis.DeliveredPartitions
import OlpEdgeSdk.Analysis.FailedPuts
import OlpEdgeSdk.Analysis.FetchOptions
import OlpEdgeSdk.Analysis.FilterFiles
import OlpEdgeSdk.Analysis.FlushCancellation
import OlpEdgeSdk.Analysis.GeoRectangles
import OlpEdgeSdk.Analysis.HeaderLines
import OlpEdgeSdk.Analysis.InMemoryCacheConsistency
import OlpEdgeSdk.Analysis.InitLock
import OlpEdgeSdk.Analysis.InitRelease
import OlpEdgeSdk.Analysis.InsensitiveSearch
import OlpEdgeSdk.Analysis.JsonRoundTrips
import OlpEdgeSdk.Analysis.KeyInterference
import OlpEdgeSdk.Analysis.LayerListings
import OlpEdgeSdk.Analysis.LruCacheInsertions
import OlpEdgeSdk.Analysis.LruCacheMoves
import OlpEdgeSdk.Analysis.LruCacheRuns
import OlpEdgeSdk.Analysis.MessageDigests
import OlpEdgeSdk.Analysis.NearestLevels
import OlpEdgeSdk.Analysis.NetworkClientRuns
import OlpEdgeSdk.Analysis.OAuthHeaders
import OlpEdgeSdk.Analysis.OldestEventTracking
import OlpEdgeSdk.Analysis.OlpClientCancellation
import OlpEdgeSdk.Analysis.OperationSteps
import OlpEdgeSdk.Analysis.OperationTokens
import OlpEdgeSdk.Analysis.PartitionsCleared
import OlpEdgeSdk.Analysis.PendingRequestsRuns
import OlpEdgeSdk.Analysis.PointLocation
import OlpEdgeSdk.Analysis.PrefetchCancellation
import OlpEdgeSdk.Analysis.PrefetchCoverage
import OlpEdgeSdk.Analysis.PrefetchEntries
import OlpEdgeSdk.Analysis.PrefetchRequests
import OlpEdgeSdk.Analysis.PrefixRemoval
import OlpEdgeSdk.Analysis.PublishingTransactions
import OlpEdgeSdk.Analysis.RectangleTiling
import OlpEdgeSdk.Analysis.RectangleUnions
import OlpEdgeSdk.Analysis.RepositoryCallbacks
import OlpEdgeSdk.Analysis.RequestDelivery
import OlpEdgeSdk.Analysis.RequestKeys
import OlpEdgeSdk.Analysis.RequestQueueOrder
import OlpEdgeSdk.Analysis.ResourceNames
import OlpEdgeSdk.Analysis.RetriedDownloads
import OlpEdgeSdk.Analysis.ServiceRequests
import OlpEdgeSdk.Analysis.SizeLimitRuns
import OlpEdgeSdk.Analysis.StreamBufRuns
import OlpEdgeSdk.Analysis.SubKeys
import OlpEdgeSdk.Analysis.SubTileEnumeration
import OlpEdgeSdk.Analysis.ThreadPoolRuns
import OlpEdgeSdk.Analysis.TierExpiry
import OlpEdgeSdk.Analysis.TileTreeOrder
import OlpEdgeSdk.Analysis.TimeFormatting
import OlpEdgeSdk.Analysis.TokenListRuns
import OlpEdgeSdk.Analysis.TokenOwners
import OlpEdgeSdk.Analysis.TokenValidity
import OlpEdgeSdk.Analysis.UrlCoding
import OlpEdgeSdk.Analysis.VolatileBatches
import OlpEdgeSdk.Analysis.WrapIntervals
import OlpEdgeSdk.Analysis.WrittenDocuments
import OlpEdgeSdk.Base.Circle
import OlpEdgeSdk.Base.Grid
import OlpEdgeSdk.Base.Obligations
import OlpEdgeSdk.Base.Overwrite
import OlpEdgeSdk.Base.Parameters
import OlpEdgeSdk.Base.Resources
import OlpEdgeSdk.Base.Sha256
import OlpEdgeSdk.Interface.ServiceRequests
import OlpEdgeSdk.Model.ContextDestruction
import OlpEdgeSdk.Model.Crypto
import OlpEdgeSdk.Model.GeoRectangle
import OlpEdgeSdk.Model.NetworkClients
import OlpEdgeSdk.Model.NetworkCurl
import OlpEdgeSdk.Model.NetworkCurlHandle
import OlpEdgeSdk.Model.NetworkUtils
import OlpEdgeSdk.Model.OAuthHeader
import OlpEdgeSdk.Model.PublishingCalls
import OlpEdgeSdk.Model.ServiceApis
import OlpEdgeSdk.Model.SubTiles
import OlpEdgeSdk.Model.SubdivisionSchemes
import OlpEdgeSdk.Model.TileKeyLevels
import OlpEdgeSdk.Model.TileKeyUtils
