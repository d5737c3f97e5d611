import Radiata.ForStd.FileSystem
import Radiata.ForStd.Sha256
import Radiata.ForStd.SortedMap
import Radiata.Native.Identity
import Radiata.Native.Pending
import Radiata.Native.Provider
import Radiata.Native.Reference
import Radiata.Native.SerdeJson
import Radiata.Spec.AdmissionCorrect
import Radiata.Spec.AdmissionRateCorrect
import Radiata.Spec.ApplyCorrect
import Radiata.Spec.CborGrammar
import Radiata.Spec.CredentialCorrect
import Radiata.Spec.DeliveryCorrect
import Radiata.Spec.DriverCorrect
import Radiata.Spec.HandshakeAgreement
import Radiata.Spec.HandshakeInvariant
import Radiata.Spec.IdentityCreation
import Radiata.Spec.JournalFreeze
import Radiata.Spec.JsonReconcile
import Radiata.Spec.LeaveHandle
import Radiata.Spec.OfferCanonical
import Radiata.Spec.OutboundCorrect
import Radiata.Spec.PagingCorrect
import Radiata.Spec.PendingCorrect
import Radiata.Spec.ReceiptAudit
import Radiata.Spec.ReceiptIndex
import Radiata.Spec.RecoveryCorrect
import Radiata.Spec.RedbCommitUnknown
import Radiata.Spec.RedbCorrect
import Radiata.Spec.RegisterCluster
import Radiata.Spec.RegistryGraph
import Radiata.Spec.Retention
import Radiata.Spec.RevocationCorrect
import Radiata.Spec.RotationCorrect
import Radiata.Spec.RouteCorrect
import Radiata.Spec.SelectionGreatest
import Radiata.Spec.SessionTableCorrect
import Radiata.Spec.StreamEnd
import Radiata.Spec.TagCorrect
import Radiata.Native.LocalDescriptor
import Radiata.Native.Migration
import Radiata.Spec.LocalDescriptorCorrect
import Radiata.Spec.MigrationCorrect
import Radiata.Spec.MigrationResume
import Radiata.ForStd.Trace
import Radiata.Spec.WriterDurable
import Radiata.Spec.MetadataPatch
import Radiata.Spec.NeighborCorrect
import Radiata.Spec.PurposeCorrect
import Radiata.Spec.OpeningCorrect
import Radiata.Spec.IntentCorrect
import Radiata.Spec.LivenessCorrect
import Radiata.Spec.ReadLoopCorrect
import Radiata.Spec.EndpointCorrect
import Radiata.Spec.LeaveCrash
import Radiata.Spec.LabelSelector
import Radiata.Spec.AdmissionFairness
import Radiata.Spec.OperationDigest
import Radiata.Spec.OperationOrder
import Radiata.Spec.RemovalSweep
import Radiata.Spec.TraceSweep
import Radiata.Spec.TraceCounter
import Radiata.Native.RouteTable
import Radiata.Spec.ResourceEncoding
import Radiata.Spec.RouteTableCorrect
import Radiata.Spec.OpenWireCorrect
import Radiata.Spec.ConnectionCorrect
import Radiata.ForStd.Rounds
import Radiata.Native.SyncLane
import Radiata.Spec.SyncPageCorrect
import Radiata.Spec.SyncWalk
import Radiata.Spec.SyncLaneCorrect
import Radiata.Native.Forward
import Radiata.Spec.ForwardCorrect
