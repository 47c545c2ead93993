import ZeroDds.Rtps.NothingDropped
import ZeroDds.Rtps.CoherentSets
import ZeroDds.Rtps.ChangeStatus
import ZeroDds.Qos.PartitionLanguage
import ZeroDds.Rtps.DirectHandOut
import ZeroDds.Rtps.RefusedWrites
import ZeroDds.Rtps.NackFragIsolation
import ZeroDds.Rtps.RejectedFragments
import ZeroDds.Rtps.SourceTimestamps
import ZeroDds.Rtps.ReturningWriters
import ZeroDds.Rtps.ForwardedOnce
import ZeroDds.Rtps.CursorSums
import ZeroDds.Dcps.CoherentHold
import ZeroDds.Dcps.FailingIngest
import ZeroDds.Dcps.LiveWriters
import ZeroDds.Dcps.Ranks
import ZeroDds.Dcps.LatestValue
import ZeroDds.Dcps.LivelinessChanged
import ZeroDds.Security.AccessControl
import ZeroDds.Xrce.LossyStreams
import ZeroDds.Xrce.HighestAcked
import ZeroDds.Discovery.DeliveredFold
import ZeroDds.Types.Relaxation
import ZeroDds.Types.Termination
import ZeroDds.Types.Resolvable
import ZeroDds.Durability.Abandoned
import ZeroDds.Durability.Tiered
import ZeroDds.Durability.Restart
import ZeroDds.Durability.FileRefinement
import ZeroDds.Hpack.HuffmanImage
import ZeroDds.Hpack.TableBound
import ZeroDds.Hpack.InStep
import ZeroDds.Transactions.Atomicity
import ZeroDds.Flatdata.NewestSample
import ZeroDds.MultiTopic.ResultLives
import ZeroDds.MultiTopic.FailedTake
import ZeroDds.MultiTopic.Join
import ZeroDds.Wire.LateHeaders
import ZeroDds.Wire.WideText
import ZeroDds.Wire.FixedRoundTrip
import ZeroDds.SqlFilter.Parameters
import ZeroDds.Rtps.NumberSets
import ZeroDds.Float128.Integers
import ZeroDds.Rtps.CommittedRuns
import ZeroDds.Qos.Duration
import ZeroDds.SqlFilter.Like
import ZeroDds.Rtps.DataBody
import ZeroDds.Discovery.EndpointIndex
