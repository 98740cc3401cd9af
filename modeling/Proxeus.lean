import Proxeus.Promhttputil.GapFillSpec
import Proxeus.Promclient.MergedTimes
import Proxeus.Promclient.CrossGroupDedupSpec
import Proxeus.Promclient.MultiAPISpec
import Proxeus.Promclient.LabelNamesSpec
import Proxeus.Promclient.MetricRelabelPushdown
import Proxeus.Proxystorage.DataTimes
import Proxeus.Proxystorage.Lookback
import Proxeus.Proxystorage.StepInvariant
import Proxeus.Proxystorage.AggregatePushdown
import Proxeus.Proxystorage.Fidelity
import Proxeus.Proxystorage.GroupPushdown
import Proxeus.Promclient.EmptyBackend
import Proxeus.Promclient.GapFillWinner
import Proxeus.Promclient.LabelSets
import Proxeus.Proxystorage.ApplyConfigSpec
import Proxeus.Servergroup.LoadTargets
import Proxeus.Promclient.InjectMatchers
import Proxeus.Promclient.LabelFilter
import Proxeus.Federate.FederateSpec
import Proxeus.Federate.ReferenceSpec
import Proxeus.Promhttputil.GapFillPriority
import Proxeus.Auth.AuthSpec
import Proxeus.Proxystorage.StaleNaNGaps
import Proxeus.Proxystorage.SubqueryGrid
import Proxeus.Proxystorage.PartialCollisions
import Proxeus.Proxystorage.LabelFunctions
import Proxeus.Proxystorage.TargetAverages
import Proxeus.Promclient.LabelSetsOrder
import Proxeus.Promclient.Exemplars
import Proxeus.Promclient.RewrittenMatchers
import Proxeus.Promclient.UncompiledMatchers
import Proxeus.Promclient.RelabelledValues
import Proxeus.Promclient.TimeFilter
import Proxeus.Promclient.StepAlign
import Proxeus.Promapi.DecodeSpec
import Proxeus.Promclient.VmExport
import Proxeus.Querystats.RecorderSpec
import Proxeus.Auth.BasicSpec
import Proxeus.Expfmt.Lines
import Proxeus.Promclient.RelabelledNames
import Proxeus.Proxystorage.Termination
import Proxeus.Servergroup.Sync
import Proxeus.Promclient.ErrorChain
import Proxeus.Proxystorage.Sendable
import Proxeus.Proxystorage.CountingSeriesSet
import Proxeus.Promql.Orderless
import Proxeus.Proxystorage.SeriesContext
import Proxeus.Proxystorage.WholeQuery
import Proxeus.Promclient.FanOut
import Proxeus.Proxystorage.TwoLevels
import Proxeus.Servergroup.HistogramCache
