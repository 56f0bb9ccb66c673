import FastMcp.CodecAgreement
import FastMcp.DocketDeliveries
import FastMcp.DocketLocks
import FastMcp.DocketMembers
import FastMcp.DocketPriorities
import FastMcp.EventStoreReplay
import FastMcp.ExactDecimalDivision
import FastMcp.FilesystemProviderRouting
import FastMcp.FilesystemReading
import FastMcp.FinalResultCacheAccounting
import FastMcp.HttpSseResponses
import FastMcp.LruCacheRuns
import FastMcp.NdjsonDecoding
import FastMcp.OAuthGrants
import FastMcp.OAuthParameters
import FastMcp.PartitionStores
import FastMcp.PendingRequests
import FastMcp.ResourceEndpoints
import FastMcp.SseSessions
import FastMcp.StdioFrames
import FastMcp.TransformedSchemas
import FastMcp.UriReferences
import FastMcp.UriTemplateConformance
