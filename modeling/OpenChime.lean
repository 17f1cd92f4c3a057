import OpenChime.Client.Badge
import OpenChime.Client.NoHole
import OpenChime.Client.PrivateDmChannel
import OpenChime.Crypto.NoiseAgreement
import OpenChime.Crypto.RatchetDelivery
import OpenChime.Crypto.SframeReplay
import OpenChime.Daemon.CallRosters
import OpenChime.Daemon.NeverCut
import OpenChime.Daemon.WebSocketStream
import OpenChime.Wire.RoundTrip
import OpenChime.Daemon.DeviceCodes
import OpenChime.Daemon.Unfurl
import OpenChime.Daemon.Receipts
import OpenChime.Daemon.Scheduled
import OpenChime.Daemon.SumParse
import OpenChime.Daemon.SumSpan
import OpenChime.Crypto.SframeHeader
import OpenChime.Client.ShareReassembly
import OpenChime.Shared.Mp4RoundTrip
import OpenChime.Shared.RichTextNested
import OpenChime.Client.CallSending
import OpenChime.Daemon.Owners
import OpenChime.Daemon.SearchText
import OpenChime.Shared.SearchDescribe
import OpenChime.Client.JitterTarget
import OpenChime.Daemon.SeenTokens
import OpenChime.Daemon.ProxyProto
import OpenChime.Daemon.SumFold
import OpenChime.Daemon.SumSplit
