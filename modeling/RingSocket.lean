import RingSocket.Bytes
import RingSocket.App
import RingSocket.Record
import RingSocket.Send
import RingSocket.FanOut
import RingSocket.Routing
import RingSocket.Tcp
import RingSocket.Mortality
import RingSocket.Scratch
import RingSocket.InitRings
import RingSocket.Outbound
import RingSocket.Session
