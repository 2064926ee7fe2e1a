import Uniset.Lib.GuardedRun
import Uniset.Lib.Bytes
import Uniset.Lib.Word64
import Uniset.Lib.Writes
import Uniset.Lib.Forest
import Uniset.Lib.Hysteresis
import Uniset.Lib.BoundedQueue
import Uniset.Lib.SortedMap
import Uniset.Lib.Acyclic
import Uniset.Lib.ListCursor
import Uniset.Core
import Uniset.UNetUDP.UDPPacket
import Uniset.UNetUDP.UNetReceiver
import Uniset.UNetUDP.UNetReceiverLaws
import Uniset.UNetUDP.Session
import Uniset.UNetUDP.Delivery
import Uniset.UNetUDP.LostPackets
import Uniset.UNetUDP.MessageImage
import Uniset.UNetUDP.Robustness
import Uniset.UNetUDP.UNetExchange
import Uniset.UNetUDP.ChannelSwitch
import Uniset.UNetUDP.CrcShortcut
import Uniset.UNetUDP.DuplicatedChannels
import Uniset.Processes.USensorInfo
import Uniset.Processes.USensorInfoLaws
import Uniset.Processes.VisibleValue
import Uniset.Processes.IOController
import Uniset.Processes.IOControllerLaws
import Uniset.Processes.Dependencies
import Uniset.Processes.IONotifyController
import Uniset.Processes.Thresholds
import Uniset.Processes.Consumers
import Uniset.Processes.ConsumersLaws
import Uniset.Processes.Notification
import Uniset.Processes.NotificationLaws
import Uniset.Processes.Requests
import Uniset.Processes.Rights
import Uniset.Processes.WriteAccess
import Uniset.Processes.AccessControl
import Uniset.Various.MQAtomic
import Uniset.Various.MQAtomicLaws
import Uniset.Various.LostMessages
import Uniset.LogicProcessor.Element
import Uniset.LogicProcessor.Schema
import Uniset.LogicProcessor.Acyclicity
import Uniset.LogicProcessor.ElementLaws
import Uniset.LogicProcessor.Propagation
import Uniset.LogicProcessor.Settled
import Uniset.LogicProcessor.TDelay
import Uniset.Launcher.DependencyOrder
import Uniset.Launcher.ProcessInfo
import Uniset.Launcher.Backoff
import Uniset.Launcher.ExpandEnvVar
import Uniset.Launcher.ParseArgs
import Uniset.Launcher.ProcessManager
import Uniset.Launcher.Operations
import Uniset.Launcher.OperationsLaws
import Uniset.Launcher.Children
import Uniset.Launcher.StopRequest
import Uniset.Launcher.Supervision
import Uniset.Lib.Window
import Uniset.Launcher.RestartHistory
import Uniset.Launcher.RestartLimits
import Uniset.Launcher.StopAll
import Uniset.Lib.Checked
import Uniset.Modbus.ModbusMessage
import Uniset.Modbus.ModbusTypes
import Uniset.Modbus.Carries
import Uniset.Modbus.RoundTrip
import Uniset.Modbus.CountedRoundTrip
import Uniset.Modbus.DeviceIdentification
import Uniset.Modbus.Codec
import Uniset.Modbus.ReceiveRobustness
import Uniset.Modbus.Processing
import Uniset.Modbus.Query
import Uniset.Modbus.Exchange
import Uniset.Modbus.Calls
import Uniset.ModbusSlave.RemoteRegisters
import Uniset.ModbusMaster.QueryOptimization
import Uniset.ModbusMaster.ChannelSelection
import Uniset.ModbusMaster.PollCycle
import Uniset.ModbusMaster.MBExchange
import Uniset.ModbusMaster.Modes
import Uniset.ModbusMaster.Preinit
import Uniset.ModbusMaster.WriteOnChange
import Uniset.ModbusMaster.RespondState
import Uniset.SharedMemory.Watchdog
import Uniset.SharedMemory.Renewals
import Uniset.OPCUAExchange.MaskedVariable
import Uniset.OPCUAExchange.ModeControl
import Uniset.ModbusSlave.RegisterMap
import Uniset.ModbusSlave.MuchWrite
import Uniset.IOControl.Lamps
import Uniset.UWebSocketGate.Isolation
import Uniset.Backends.BackendOpenTSDB
import Uniset.Log.Delivery
import Uniset.St2js.ControlFlow
import Uniset.St2js.NameResolution
import Uniset.Lib.Crc
import Uniset.Modbus.CheckCRC
import Uniset.ModbusSlave.Ranges
import Uniset.Modbus.BitsBuffer
import Uniset.Lib.TimedSignal
import Uniset.JScript.IEC61131
import Uniset.St2js.StructuredText
import Uniset.St2js.IoByPrefix
import Uniset.St2js.Arrays
import Uniset.St2js.TypeSystem
import Uniset.St2js.Coercions
import Uniset.St2js.JsSyntax
import Uniset.St2js.Values
import Uniset.Lib.Substitution
import Uniset.St2js.Preprocess
import Uniset.St2js.FBCalls
import Uniset.Timers.DelayedSignal
import Uniset.DBServer.InsertBuffer
import Uniset.DBServer.QueryBuffer
import Uniset.ModbusSlave.ForceCoils
import Uniset.Lib.FloatFormat
import Uniset.Lib.Floats
import Uniset.Lib.FloatRounding
import Uniset.ModbusSlave.MBSlave
import Uniset.ModbusSlave.RangeReads
import Uniset.Extensions.IOBase
import Uniset.ModbusSlave.WriteThenRead
import Uniset.Lib.Rescan
import Uniset.Backends.ClickHouseTags
import Uniset.Backends.ClickHouseTagsLaws
import Uniset.Lib.EveryNth
import Uniset.OPCUAExchange.PollingPeriod
import Uniset.JScript.PID
import Uniset.Explode
import Uniset.Various.UniXML
import Uniset.Processes.AccessConfig
import Uniset.IOControl.TestMode
import Uniset.IOControl.PriorityList
import Uniset.Log.LogSession
import Uniset.Lib.BigEndian
import Uniset.Communications.Http.NetworkRules
import Uniset.UNetUDP.UNetSender
import Uniset.UNetUDP.StartUp
import Uniset.Processes.CascadeLaws
import Uniset.SharedMemory.InitFromSM
import Uniset.UniNetwork.UniExchange
import Uniset.ModbusMaster.Reload
import Uniset.ModbusMaster.MBConfig
import Uniset.ModbusMaster.WriteOwnership
import Uniset.UNetUDP.Payload
import Uniset.Processes.ChangeReports
import Uniset.Processes.FirstNotification
import Uniset.Lib.Scaling
import Uniset.Processes.RawValue
import Uniset.Timers.TimedObject
import Uniset.Timers.TimerCounts
import Uniset.Timers.SleepTime
import Uniset.Extensions.InputDelays
import Uniset.Extensions.DelayChain
import Uniset.Extensions.Calibration
import Uniset.Extensions.CalibrationCache
import Uniset.Extensions.CalibrationValues
import Uniset.Extensions.CalibrationInverse
import Uniset.Lib.LastValues
import Uniset.Extensions.DigitalFilter
import Uniset.UniAtoi
import Uniset.Core.UniSetObject
import Uniset.Timers.HourGlass
import Uniset.JScript.Counters
import Uniset.JScript.DelayTimer
import Uniset.Various.TriggerOUT
import Uniset.Lib.Emplace
import Uniset.ObjectRepository.ObjectIndex
import Uniset.Core.UInterface
import Uniset.UNetUDP.PacketCrc
import Uniset.UNetUDP.Replication
