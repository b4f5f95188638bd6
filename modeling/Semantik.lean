import Semantik.Lib.Transducer
import Semantik.Lib.LineSplit
import Semantik.Lib.Utf8
import Semantik.Lib.JsonText
import Semantik.Lib.JsonReading
import Semantik.Lib.RetryLoop
import Semantik.Lib.RetryAnswers
import Semantik.Lib.PollScript
import Semantik.Lib.Calendar
import Semantik.Lib.OrderedRules
import Semantik.Limits
import Semantik.RustStd
import Semantik.RustParse
import Semantik.Sse
import Semantik.SseLines
import Semantik.SseCarriedCr
import Semantik.SseChunking
import Semantik.SseFrames
import Semantik.SseCap
import Semantik.SseJoining
import Semantik.SseTrailingCr
import Semantik.SseWriting
import Semantik.SseRetention
import Semantik.SseFrameSize
import Semantik.Http
import Semantik.Error
import Semantik.RetryAfter
import Semantik.HttpDateDays
import Semantik.HttpDateOrder
import Semantik.HttpDateFields
import Semantik.HttpDateTemplate
import Semantik.HttpDateExact
import Semantik.Wire
import Semantik.ErrorResponse
import Semantik.Retry
import Semantik.ClientBuilder
import Semantik.Validate
import Semantik.Requests
import Semantik.RequestText
import Semantik.BodySize
import Semantik.PublishPreflight
import Semantik.PreflightErrors
import Semantik.Transport
import Semantik.ErrorPrecedence
import Semantik.HintLaw
import Semantik.RetryLaw
import Semantik.Subscribe
import Semantik.RetryHint
import Semantik.NoRepeat
import Semantik.ErrorPaths
import Semantik.MalformedMeaning
import Semantik.RetryBudget
import Semantik.SubscribeDelivery
import Semantik.SseReading
import Semantik.SubscribeCutting
import Semantik.SubscribeRefinement
import Semantik.ClientRequests
import Semantik.RequestWire
import Semantik.CallTermination
import Semantik.ServedOnce
import Semantik.ConcurrentCalls
import Semantik.NetworkCutting
import Semantik.SubscribeSession
import Semantik.CallOutcome
