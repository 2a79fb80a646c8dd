import HyLisp.ControlPlane.SiteIsolation
import HyLisp.ControlPlane.RequestBounds
import HyLisp.ControlPlane.RegisterMessage
import HyLisp.ControlPlane.RetryLimit
import HyLisp.ControlPlane.PacketCustody
import HyLisp.Hypervisor.Distinct
import HyLisp.Hypervisor.Locking
import HyLisp.Hypervisor.ReceiveBuffer
import HyLisp.Interop.RequestAgreement
import HyLisp.Interop.RequestRouting
import HyLisp.Interop.EidRoundTrip
import HyLisp.Interop.RlocDelivery
import HyLisp.ControlPlane.NegativePrefix
import HyLisp.Hypervisor.Deregistering
import HyLisp.Hypervisor.RejectedMessages
import HyLisp.Interop.MaskClamping
import HyLisp.ControlPlane.RecordBoundaries
import HyLisp.ControlPlane.ReferralSearch
import HyLisp.ControlPlane.PollDescriptors
import HyLisp.ControlPlane.ReferralOffsets
import HyLisp.ControlPlane.LoopFreedom
import HyLisp.Hypervisor.NestedHeaders
import HyLisp.ControlPlane.LocatorMerging
import HyLisp.ControlPlane.LocatorOrder
import HyLisp.ControlPlane.RangeOverlap
import HyLisp.ControlPlane.DelegationHoles
import HyLisp.ControlPlane.HopChoice
import HyLisp.ControlPlane.PathReplies
import HyLisp.ControlPlane.SubtreeReply
import HyLisp.Interop.RequestEncoding
import HyLisp.Hypervisor.MaskLength
import HyLisp.Hypervisor.AssigneeRemoval
import HyLisp.ControlPlane.TimeDifference
import HyLisp.Hypervisor.PollSet
import HyLisp.Hypervisor.InjectedDatagram
import HyLisp.ControlPlane.InnerHeaders
import HyLisp.ControlPlane.ReferralRoundTrip
import HyLisp.Interop.MissRouting
import HyLisp.ControlPlane.RlocCursor
import HyLisp.ControlPlane.ThreadPoolRuns
import HyLisp.ControlPlane.HmacSha1
import HyLisp.DataPlane.LocatorChoice
import HyLisp.DataPlane.MapVersions
import HyLisp.DataPlane.MapReferenceRuns
import HyLisp.DataPlane.Tunnel
import HyLisp.ControlPlane.SearchPath
import HyLisp.ControlPlane.RegisteredAnswers
import HyLisp.ControlPlane.Registration
import HyLisp.ControlPlane.RegisteredReplies
