import WarpApi.Library.Runs
import WarpApi.Chunking
import WarpApi.UpgradeHandover
import WarpApi.ResponseFormat
import WarpApi.OneResponse
import WarpApi.ClientFrames
import WarpApi.CloseFrames
import WarpApi.CloseHonoured
import WarpApi.CloseDrain
import WarpApi.SendOrder
import WarpApi.Orphans
import WarpApi.EdgeTriggered
import WarpApi.WakeUps
import WarpApi.LiveDispatch
import WarpApi.Timeouts
import WarpApi.BufferSizes
import WarpApi.Isolation
import WarpApi.HeaderTable
import WarpApi.WholeMessages
import WarpApi.Callbacks
import WarpApi.EndpointRouting
import WarpApi.FailedAttempts
import WarpApi.HeaderNames
import WarpApi.ContentLength
import WarpApi.RequestRoundTrip
import WarpApi.ParseProgress
import WarpApi.QueryParams
import WarpApi.SettingsUpdates
import WarpApi.SizeSums
import WarpApi.FrameStream
import WarpApi.ControlFrames
import WarpApi.UpgradeCopies
import WarpApi.CompletionTags
import WarpApi.PinnedRegions
import WarpApi.Base64Encode
import WarpApi.LetterCase
import WarpApi.FrameMachine
import WarpApi.Services
import WarpApi.EchoService
import WarpApi.Backends
import WarpApi.Pipelining
import WarpApi.Connections
import WarpApi.Stopping
import WarpApi.Forms
import WarpApi.SettingsLife
import WarpApi.SessionPhases
import WarpApi.SessionRules
import WarpApi.HttpOnly
import WarpApi.ServedConnections
import WarpApi.EchoedPosts
