import MatrixBin.Library.TransitionRuns
import MatrixBin.Library.PiecewiseLinear
import MatrixBin.Library.Deframer
import MatrixBin.Library.DecimalText
import MatrixBin.Library.FloatValue
import MatrixBin.Library.FloatFormat
import MatrixBin.Library.FloatMean
import MatrixBin.Library.ByteBuffer
import MatrixBin.Library.SelfDelimiting
import MatrixBin.Library.SqlSession
import MatrixBin.Library.Filler
import MatrixBin.Library.JsonDocument
import MatrixBin.Library.SortedTable
import MatrixBin.Library.OccupancyCount
import MatrixBin.Library.NumberEnd
import MatrixBin.Library.MemoryBlocks
import MatrixBin.Library.SampleRange
import MatrixBin.Library.DispatchTable
import MatrixBin.Library.SqlLiteral
import MatrixBin.Library.TableLookup
import MatrixBin.Library.JsonText
import MatrixBin.Library.NumberText
import MatrixBin.Library.PairedLists
import MatrixBin.Libpack.ParseBuffer
import MatrixBin.Libpack.PackUnpack
import MatrixBin.Libpack.ParseBounds
import MatrixBin.Libpack.ErrorPacket
import MatrixBin.Libpack.PackSize
import MatrixBin.Cjson.ParseString
import MatrixBin.Cjson.StringLiteral
import MatrixBin.Cjson.Parse
import MatrixBin.Cjson.ParseDocument
import MatrixBin.Cjson.ParseResult
import MatrixBin.Cjson.Print
import MatrixBin.Cjson.Render
import MatrixBin.Cjson.RoundTrip
import MatrixBin.Scaled.ScaleTable
import MatrixBin.Scaled.Commands
import MatrixBin.Scaled.CommandMailbox
import MatrixBin.Scaled.CalibrationSession
import MatrixBin.Scaled.LduLoop
import MatrixBin.Scaled.LduReader
import MatrixBin.Scaled.Dis4Loop
import MatrixBin.Scaled.Dis4Frames
import MatrixBin.Scaled.PacketClients
import MatrixBin.Scaled.PacketFeed
import MatrixBin.Scaled.StartBarrier
import MatrixBin.Scaled.RunPacket
import MatrixBin.Scaled.LocbufCalls
import MatrixBin.Scaled.LocbufDrain
import MatrixBin.Scaled.GetResp
import MatrixBin.Scaled.DistributeWeight
import MatrixBin.Scaled.LduStatus
import MatrixBin.Scaled.Dis4Bounds
import MatrixBin.Scaled.ReplyBuffer
import MatrixBin.Scaled.CatchReply
import MatrixBin.Scaled.ReplyTermination
import MatrixBin.Scaled.CalibrationNumber
import MatrixBin.Scaled.InitLdu
import MatrixBin.Scaled.Dis2Commands
import MatrixBin.Scaled.MqttBuffers
import MatrixBin.Scaled.LoadConfig
import MatrixBin.Scaled.ConfigSlots
import MatrixBin.Scaled.ScaleSearch
import MatrixBin.Scaled.Readnbytes
import MatrixBin.Scaled.LocbufMoves
import MatrixBin.Scaled.LocbufRounds
import MatrixBin.Scaled.BarcodeScan
import MatrixBin.Scaled.SerialSettings
import MatrixBin.Scaled.WeightPacket
import MatrixBin.Scaled.WeightPath
import MatrixBin.Scaled.CalibrationText
import MatrixBin.Modbus.Database
import MatrixBin.Modbus.Server
import MatrixBin.Modbus.Client
import MatrixBin.Modbus.Connection
import MatrixBin.Modbus.TcpLoop
import MatrixBin.Modbus.MessageBounds
import MatrixBin.Modbus.ReplyFrames
import MatrixBin.Modbus.WeightMessage
import MatrixBin.Modbus.WeightReads
import MatrixBin.Devdrvd.ClientPool
import MatrixBin.Devdrvd.Dispatch
import MatrixBin.Devdrvd.DispatchFrames
import MatrixBin.Devdrvd.GpioConfig
import MatrixBin.Devdrvd.StaticEmulation
import MatrixBin.Devdrvd.ConnectClient
import MatrixBin.Metrology.Configuration
import MatrixBin.Metrology.Calibration
import MatrixBin.Metrology.CurMeasurement
import MatrixBin.Metrology.SystemRecord
import MatrixBin.Metrology.LoadAcceptance
import MatrixBin.Metrology.LoadFailure
import MatrixBin.Metrology.LoadLeftovers
import MatrixBin.Metrology.LoadedTable
import MatrixBin.Metrology.VpiHandlers
import MatrixBin.Metrology.HandlerGuards
import MatrixBin.Metrology.ChannelRuns
import MatrixBin.Metrology.RatioDivision
import MatrixBin.Metrology.ZeroPoint
import MatrixBin.Metrology.MaximumBound
import MatrixBin.Metrology.CallBlock
import MatrixBin.Metrology.UnitIndex
import MatrixBin.Metrology.AverageRange
import MatrixBin.Metrology.VpiDispatch
import MatrixBin.Postgres.WriteTrain
import MatrixBin.Postgres.TrainRows
import MatrixBin.Postgres.InsertText
import MatrixBin.Webapps.CalibrationPage
import MatrixBin.Webapps.CalibrationLink
import MatrixBin.Webapps.DaemonSurvival
