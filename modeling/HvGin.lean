import HvGin.Outgoing
import HvGin.Incoming
import HvGin.Indices
import HvGin.Tcp2Vmbus
import HvGin.Vmbus2Tcp
import HvGin.VersionExchange
import HvGin.Session
import HvGin.ServiceMain
import HvGin.DeclaredSize
import HvGin.MaximumPushSize
import HvGin.Rotation
import HvGin.PopBounds
import HvGin.PushFrame
import HvGin.RoundTrip
import HvGin.PushAtomic
import HvGin.BackLinks
import HvGin.PartialHeader
import HvGin.SynthRdpVersion
import HvGin.UioRead
import HvGin.UioLifetime
import HvGin.ReceiveRead
import HvGin.UioMap
import HvGin.HvUioProbe
import HvGin.UioInformation
import HvGin.Bridge
import HvGin.Standstill
import HvGin.Unjoined
import HvGin.Descriptor
import HvGin.Native
