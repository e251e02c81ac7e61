import HandlerChain.Scenario.Run
import HandlerChain.Settings.Reader
import HandlerChain.Proofs.ChannelFlags
import HandlerChain.Proofs.CombinatorLife
import HandlerChain.Proofs.Course
import HandlerChain.Proofs.StageRemoval
import HandlerChain.Proofs.HalfSilence
import HandlerChain.Proofs.StageSilence
import HandlerChain.Proofs.Closing
import HandlerChain.Proofs.Greeting
import HandlerChain.Proofs.Refusal
import HandlerChain.Proofs.SettlementKept
import HandlerChain.Proofs.WriteLedgerKept
import HandlerChain.Proofs.PackagingKept
import HandlerChain.Proofs.ModelTracking
import HandlerChain.Proofs.Mirror
import HandlerChain.Proofs.Lockstep
import HandlerChain.Proofs.LockstepKept
import HandlerChain.Proofs.SinglePosition
import HandlerChain.Proofs.DeliveryOrder
import HandlerChain.Proofs.Aftermath
import HandlerChain.Proofs.AftermathKept
import HandlerChain.Proofs.ErrorDelivery
import HandlerChain.Proofs.FirstResolution
import HandlerChain.Proofs.Duties
import HandlerChain.Proofs.Hops
import HandlerChain.Proofs.Disconnect
import HandlerChain.Proofs.FailureReports
import HandlerChain.Proofs.DirectionIndependence
import HandlerChain.Proofs.OutboundRouting
import HandlerChain.Proofs.ChainEdits
import HandlerChain.Proofs.Addition
import HandlerChain.Proofs.TailRecordKept
import HandlerChain.Proofs.Bystanders
import HandlerChain.Proofs.Clearing
import HandlerChain.Proofs.HalfDeparture
import HandlerChain.Proofs.FaultChain
import HandlerChain.Proofs.SettingsOrder
import HandlerChain.Proofs.DefaultHalf
import HandlerChain.Proofs.Cascade
import HandlerChain.Proofs.ShortName
