import Bridgething.Sched.Fairness
import Bridgething.Delivery.Window
import Bridgething.Delivery.NetFidelity
import Bridgething.Bundle.Store
import Bridgething.Webapp.Lifetime
import Bridgething.Ota.Activation
import Bridgething.Ota.Truthful
import Bridgething.Iap2.Framing
import Bridgething.Peers.Presentation
import Bridgething.Cache.Revalidate
import Bridgething.Mic.Turns
import Bridgething.NowPlaying.Mirror
import Bridgething.Iap2.Timeouts
import Bridgething.Ota.OnePerDevice
import Bridgething.Iap2.Accessory
import Bridgething.Iap2.FileBodies
import Bridgething.Transfer.Accounting
import Bridgething.Delivery.Fragments
import Bridgething.Iap2.CsmFields
import Bridgething.Sched.Admission
import Bridgething.RangeProxy.Appends
import Bridgething.Asset.Events
import Bridgething.Ota.Settled
import Bridgething.Bundle.Install
import Bridgething.Ota.Pinning
import Bridgething.Webapp.Ledger
import Bridgething.Webapp.Canonical
import Bridgething.Swupdate.Archive
import Bridgething.Delivery.NetSockets
import Bridgething.Webapp.Recovery
import Bridgething.Cache.DiskLru
import Bridgething.Cache.DiskRaces
import Bridgething.Media.Animated
import Bridgething.Peers.Converging
import Bridgething.Log.Tap
import Bridgething.Asset.Wait
import Bridgething.NowPlaying.Isolation
import Bridgething.Log.ReadBack
import Bridgething.Log.Retention
import Bridgething.Delivery.Preregistration
import Bridgething.Input.PressWindow
import Bridgething.Playback.Demux
import Bridgething.Playback.Relay
import Bridgething.Iap2.Windows
import Bridgething.RangeProxy.Arithmetic
import Bridgething.Ota.WakewordKept
import Bridgething.Extensions.Truthful
import Bridgething.Store.Spellings
import Bridgething.Webapp.Segments
import Bridgething.Telephony.CallSet
import Bridgething.Tunnel.FlowControl
import Bridgething.Ota.Orphans
import Bridgething.Sched.Arrivals
