import FreeRDP.Interleaved.Equiv.Source
import FreeRDP.Interleaved.Equiv.RoundTrip
import FreeRDP.Mppc.Equiv.Bounds
import FreeRDP.Region.Equiv.Intersect
import FreeRDP.Rlgr.Equiv.Pairs
import FreeRDP.Zgfx.Equiv.Bounds
import FreeRDP.Zgfx.Equiv.Multipart
import FreeRDP.Zgfx.Equiv.Ring
import FreeRDP.ClearCodec.Equiv.Runs
import FreeRDP.ClearCodec.Equiv.Rlex
import FreeRDP.Progressive.Equiv.Batch
import FreeRDP.Progressive.Equiv.History
import FreeRDP.Collections.Equiv.Contains
import FreeRDP.Collections.Equiv.MessageQueue
import FreeRDP.Buffers.Equiv.RingBuffer
import FreeRDP.Buffers.Equiv.BipBuffer
import FreeRDP.Collections.Equiv.Foreach
import FreeRDP.Collections.Equiv.BufferPool
import FreeRDP.Collections.Equiv.StreamPool
import FreeRDP.Per.Basic
import FreeRDP.Orders.Equiv.Primary
import FreeRDP.Cache.Equiv.Glyph
import FreeRDP.Cache.Equiv.Clip
import FreeRDP.Core.Equiv.Attempts
import FreeRDP.Core.Equiv.Request
import FreeRDP.Core.Mcs
import FreeRDP.Core.Equiv.Transport
import FreeRDP.Core.Equiv.Surface
import FreeRDP.Channels.Equiv.Create
import FreeRDP.Channels.Equiv.Accesses
import FreeRDP.Channels.Send
import FreeRDP.Dsp.Equiv.Ms
import FreeRDP.Dsp.Mix
import FreeRDP.Dsp.Equiv.Decode
import FreeRDP.Gateway.Equiv.Closed
import FreeRDP.Gateway.Equiv.Reply
import FreeRDP.Gateway.Equiv.Packets
import FreeRDP.Orders.Equiv.Brushes
import FreeRDP.Orders.Equiv.Rail
import FreeRDP.Orders.Equiv.Bounds
import FreeRDP.Orders.Equiv.Altsec
import FreeRDP.Crypto.Base64
import FreeRDP.Nsc.Equiv.RoundTrip
import FreeRDP.Planar.Equiv.RoundTrip
import FreeRDP.Xcrush.Equiv
import FreeRDP.Streams.Basic
import FreeRDP.Collections.Equiv.ArrayList
import FreeRDP.Client.Equiv.Options
import FreeRDP.Cmdline.Equiv.CommaSeparated
import FreeRDP.Cmdline.Equiv.Arguments
import FreeRDP.FastPath.Equiv.Session
import FreeRDP.Synch.Equiv.Critical
import FreeRDP.Channels.Equiv.Sessions
import FreeRDP.Shadow.Equiv.MultiClient
import FreeRDP.Core.Equiv.Connection
import FreeRDP.Core.Equiv.Server
