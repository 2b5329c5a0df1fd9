import MultiplayerCars.Lib.Machine
import MultiplayerCars.Lib.Halting
import MultiplayerCars.Lib.WaitGraph
import MultiplayerCars.Lib.Feed
import MultiplayerCars.Lib.SplitFeed
import MultiplayerCars.Lib.SplitStream
import MultiplayerCars.Lib.Fifo
import MultiplayerCars.Lib.Meeting
import MultiplayerCars.Lib.Occupancy
import MultiplayerCars.Lib.Brackets
import MultiplayerCars.Lib.SharedObject
import MultiplayerCars.Lib.Json.Lexical
import MultiplayerCars.Lib.Json.Object
import MultiplayerCars.Lib.Json.Literals
import MultiplayerCars.Lib.Query
import MultiplayerCars.GoServer.Event
import MultiplayerCars.GoServer.Manager
import MultiplayerCars.GoServer.Invariant
import MultiplayerCars.GoServer.Goroutine
import MultiplayerCars.GoServer.Setup
import MultiplayerCars.GoServer.Teardown
import MultiplayerCars.GoServer.ExitNotice
import MultiplayerCars.GoServer.Writers
import MultiplayerCars.GoServer.PairOrder
import MultiplayerCars.GoServer.Routing
import MultiplayerCars.GoServer.OneExit
import MultiplayerCars.GoServer.Identity
import MultiplayerCars.GoServer.Colors
import MultiplayerCars.GoServer.Otp
import MultiplayerCars.GoServer.Lifetime
import MultiplayerCars.GoServer.Admission
import MultiplayerCars.GoServer.Process
import MultiplayerCars.GoServer.MapAccess
import MultiplayerCars.GoServer.Keepalive
import MultiplayerCars.CPPClient.Frames
import MultiplayerCars.CPPClient.UuidGenerator
import MultiplayerCars.CPPClient.Session
import MultiplayerCars.CPPClient.Connection
import MultiplayerCars.CPPClient.Stream
import MultiplayerCars.CPPClient.Simdjson
import MultiplayerCars.CPPClient.MainLoop
import MultiplayerCars.CPPClient.Updates
import MultiplayerCars.CPPClient.Client
import MultiplayerCars.CPPClient.Keyboard
import MultiplayerCars.CPPClient.Queues
import MultiplayerCars.CPPClient.QueueCalls
import MultiplayerCars.CPPClient.Relay
import MultiplayerCars.CPPClient.Ghosts
import MultiplayerCars.CPPClient.Converge
import MultiplayerCars.CPPClient.Paint
import MultiplayerCars.CPPClient.App
import MultiplayerCars.CPPClient.Shutdown
import MultiplayerCars.CPPClient.Calls
import MultiplayerCars.CPPClient.Replies
import MultiplayerCars.CPPClient.Batch
import MultiplayerCars.CPPClient.Drawing
import MultiplayerCars.CPPClient.ChatLine
import MultiplayerCars.CPPClient.ChatWindow
import MultiplayerCars.CPPClient.ThreadSafeQueue
import MultiplayerCars.CPPClient.Driving
import MultiplayerCars.CPPClient.Palette
import MultiplayerCars.Wire.Delivery
import MultiplayerCars.Wire.Messages
import MultiplayerCars.Wire.Login
import MultiplayerCars.Wire.Handshake
import MultiplayerCars.Wire.Reading
import MultiplayerCars.Wire.Codec
import MultiplayerCars.Wire.Bounds
import MultiplayerCars.Wire.Authenticity
import MultiplayerCars.Wire.Chat
import MultiplayerCars.Wire.Honest
import MultiplayerCars.Wire.Intents
import MultiplayerCars.Wire.World
import MultiplayerCars.Wire.Discovery
import MultiplayerCars.Wire.Replies
import MultiplayerCars.Wire.Passage
import MultiplayerCars.Wire.Stated
import MultiplayerCars.Wire.Agreement
import MultiplayerCars.Wire.Courtesy
import MultiplayerCars.Wire.Hospitality
import MultiplayerCars.Wire.Utterance
import MultiplayerCars.Wire.ChatOrder
import MultiplayerCars.Wire.Sightings
