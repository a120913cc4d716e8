import P4Benchmarks.P4xos.Agreement
import P4Benchmarks.Marple.GroupbyCorrect
import P4Benchmarks.Marple.HistorySound
import P4Benchmarks.R2p2.HovercraftRoundTrip
import P4Benchmarks.R2p2.RouterBound
import P4Benchmarks.Ndp.Delivery
import P4Benchmarks.Elastic.Estimate
import P4Benchmarks.LossRadar.Agreement
import P4Benchmarks.Protect.Delivery
import P4Benchmarks.P4Sync.Migration
import P4Benchmarks.Ipsec.Safety
import P4Benchmarks.Macsec.Nonce
import P4Benchmarks.Macsec.Authenticity
import P4Benchmarks.Cheetah.Cookies
import P4Benchmarks.P4sc.Compose
import P4Benchmarks.Bier.Delivery
import P4Benchmarks.P4xos.Promises
import P4Benchmarks.Marple.Affine
import P4Benchmarks.Marple.Division
import P4Benchmarks.Marple.LexicalSymbolTable
import P4Benchmarks.Marple.GroupbyStore
import P4Benchmarks.Marple.PipelineText
import P4Benchmarks.AquaFlow.Recovery
import P4Benchmarks.AesTofino.Correct
import P4Benchmarks.IntSight.Exact
import P4Benchmarks.Marple.SwitchSetsSound
import P4Benchmarks.P4xos.Leader
import P4Benchmarks.P4rtOvs.Bloom
import P4Benchmarks.P4rtOvs.Countmin
import P4Benchmarks.P4rtOvs.HashmapRefines
import P4Benchmarks.R2p2.RoundTrip
import P4Benchmarks.Ndp.Pull
import P4Benchmarks.Ndp.SendWindowRuns
import P4Benchmarks.P4rtOvs.UbpfTermination
import P4Benchmarks.P4rtOvs.UbpfJumpSound
import P4Benchmarks.P4rtOvs.UbpfRangeSound
import P4Benchmarks.StarFlow.LongVectors
import P4Benchmarks.SipHash.Ingress
import P4Benchmarks.HashPipe.Tracker
import P4Benchmarks.MvSketch.Switch
import P4Benchmarks.Elastic.Conservative
import P4Benchmarks.SpPifo.Bounds
import P4Benchmarks.Elastic.Compress
import P4Benchmarks.Blink.Bookkeeping
import P4Benchmarks.Precision.MinStage
import P4Benchmarks.SynProxy.Translation
import P4Benchmarks.Spine.SipRound
import P4Benchmarks.P4Entropy.Logarithm
import P4Benchmarks.DSketch.Decay
import P4Benchmarks.Ddosd.Alarm
import P4Benchmarks.Pie.Egress
import P4Benchmarks.Macsec.RoundTrip
import P4Benchmarks.Lib.Span
import P4Benchmarks.Ipsec.RoundTrip
