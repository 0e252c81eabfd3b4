import Aiomsg.Lib.BigEndian
import Aiomsg.Lib.Deframe
import Aiomsg.Lib.LengthPrefix
import Aiomsg.Lib.Reader
import Aiomsg.Lib.System
import Aiomsg.Lib.AssocList
import Aiomsg.Protocol.Envelope
import Aiomsg.Protocol.FrameDecoder
import Aiomsg.CLib.Protocol
import Aiomsg.Protocol.RoundTrip
import Aiomsg.Protocol.PayloadOpacity
import Aiomsg.Broker.Basic
import Aiomsg.Broker.Lemmas
import Aiomsg.Broker.Trace
import Aiomsg.Broker.AtMostOnce
import Aiomsg.Broker.Labels
import Aiomsg.Session.Basic
import Aiomsg.Broker.Retries
import Aiomsg.Session.Table
import Aiomsg.Session.SameConnection
import Aiomsg.Conn.PlainSession
import Aiomsg.Broker.Ids
import Aiomsg.ResendTimers.Basic
import Aiomsg.Broker.Provenance
import Aiomsg.Network.Basic
import Aiomsg.ResendTimers.Conservation
import Aiomsg.Network.AckSafety
import Aiomsg.Ws.Frame
import Aiomsg.Ws.Grammar
import Aiomsg.Ws.Parse
import Aiomsg.Ws.Front
import Aiomsg.Ws.Stream
import Aiomsg.CLib.Ws
import Aiomsg.Ws.AsyncStream
import Aiomsg.Ws.Outbound
import Aiomsg.Ws.Agreement
import Aiomsg.AsyncBroker.Basic
import Aiomsg.AsyncBroker.Refinement
import Aiomsg.Lib.Machine
import Aiomsg.Lib.Relay
import Aiomsg.Python.Basic
import Aiomsg.Python.Blocking
import Aiomsg.Python.Wakeup
import Aiomsg.Python.AckDelivery
import Aiomsg.Python.Asyncio
import Aiomsg.Python.SendOrder
import Aiomsg.Python.AckConnection
import Aiomsg.Python.Retry
import Aiomsg.AsyncBroker.Buffer
import Aiomsg.GoLib.Broker
import Aiomsg.GoLib.Socket
import Aiomsg.GoLib.Flush
import Aiomsg.GoLib.Teardown
import Aiomsg.CppAsync.Transport
import Aiomsg.Ws.Session
import Aiomsg.CLib.Session
import Aiomsg.ZigLib.Protocol
import Aiomsg.ZigLib.Ws
import Aiomsg.ZigLib.Session
import Aiomsg.CppSync.Ws
import Aiomsg.ArrayBroker.Basic
import Aiomsg.CLib.Broker
import Aiomsg.CppSync.Broker
import Aiomsg.ZigLib.Broker
import Aiomsg.ArrayBroker.Sweep
import Aiomsg.Broker.RoundRobin
import Aiomsg.CLib.RoundRobin
import Aiomsg.CLib.Ownership
import Aiomsg.Conn.TlsWritePath
import Aiomsg.ResendTimers.TimerLoop
import Aiomsg.Lib.CyclicIter
import Aiomsg.Python.RoundRobin
import Aiomsg.Ws.AfterClose
import Aiomsg.Python.Codec
import Aiomsg.Python.Reader
import Aiomsg.Lib.Utf8
import Aiomsg.Lib.Split
import Aiomsg.Ws.Http
import Aiomsg.Lib.Gather
import Aiomsg.Ws.Accept
import Aiomsg.Ws.Upgrade
import Aiomsg.CppSync.Upgrade
import Aiomsg.Ws.FixedBuffer
import Aiomsg.CLib.Sniff
import Aiomsg.ZigLib.Sniff
import Aiomsg.Ws.Sniff
import Aiomsg.Conn.Sniff
import Aiomsg.Lib.Effect
import Aiomsg.Python.Upgrade
import Aiomsg.Python.Handshake
import Aiomsg.Python.IoLock
import Aiomsg.Python.OnTime
import Aiomsg.Python.Readiness
import Aiomsg.JavaLib.Protocol
import Aiomsg.CsharpLib.Protocol
import Aiomsg.CppSync.Protocol
import Aiomsg.Lib.Blocking
import Aiomsg.Ws.ReadHead
import Aiomsg.ZigLib.Slices
import Aiomsg.GoLib.WsRead
import Aiomsg.JavaLib.Request
import Aiomsg.JavaLib.Ws
import Aiomsg.LuaLib.Base
import Aiomsg.LuaLib.Ws
import Aiomsg.Lib.Traversal
import Aiomsg.LuaLib.Sweep
import Aiomsg.Lib.Blocks
import Aiomsg.Ws.Base64
import Aiomsg.Ws.Sha1
import Aiomsg.Lib.PartialWrite
import Aiomsg.Python.SendMsg
import Aiomsg.CLib.Decoder
import Aiomsg.Lib.Traced
import Aiomsg.LuaLib.Arith
import Aiomsg.LuaLib.Sha1
import Aiomsg.Broker.Messages
import Aiomsg.Session.Ledger
import Aiomsg.Network.InOrder
import Aiomsg.ListBroker.Basic
import Aiomsg.ListBroker.Conservation
import Aiomsg.ListBroker.Outgoing
import Aiomsg.ListBroker.InOrder
import Aiomsg.ListBroker.Attempts
import Aiomsg.JsLib.Inbox
import Aiomsg.JsLib.Protocol
import Aiomsg.JsLib.Socket
import Aiomsg.JsLib.Lifecycle
import Aiomsg.JsLib.Teardown
import Aiomsg.JsLib.Delivery
import Aiomsg.JsLib.Trace
import Aiomsg.JsLib.Output
import Aiomsg.JsLib.Conversation
