import FMITerminalBlock.Base.ApplicationContext
import FMITerminalBlock.Base.CommandLine
import FMITerminalBlock.Base.Properties
import FMITerminalBlock.Library.LabelledRun
import FMITerminalBlock.Library.NearlySorted
import FMITerminalBlock.Library.QuotedFields
import FMITerminalBlock.Model.DataFileOrder
import FMITerminalBlock.Model.DefaultInputs
import FMITerminalBlock.Model.DelayedInputs
import FMITerminalBlock.Model.DirectOutput
import FMITerminalBlock.Model.InputImages
import FMITerminalBlock.Model.PeriodicPoints
import FMITerminalBlock.Model.RunTermination
import FMITerminalBlock.Model.SynchronizationPoints
import FMITerminalBlock.Network.CompactASN1TCPClientSubscriber
import FMITerminalBlock.Network.Cosimulation
import FMITerminalBlock.Network.FailureReporting
import FMITerminalBlock.Network.ListenerAgreement
import FMITerminalBlock.Network.LongStrings
import FMITerminalBlock.Network.NetworkManager
import FMITerminalBlock.Network.PacketTimeout
import FMITerminalBlock.Network.PortSeparation
import FMITerminalBlock.Network.PublishedMessages
import FMITerminalBlock.Network.Reconnection
import FMITerminalBlock.Network.Reinitialization
import FMITerminalBlock.Network.Shutdown
import FMITerminalBlock.Network.Transmission
import FMITerminalBlock.Network.TruthValues
import FMITerminalBlock.Network.TypeCoverage
import FMITerminalBlock.Scripts.AxisCleaning
import FMITerminalBlock.Scripts.ConvertedFile
import FMITerminalBlock.Scripts.DefaultOptions
import FMITerminalBlock.Scripts.TimeFields
import FMITerminalBlock.Timing.CSVDataLogger
import FMITerminalBlock.Timing.DispatcherCycle
import FMITerminalBlock.Timing.EventLedger
import FMITerminalBlock.Timing.PredictionDistance
import FMITerminalBlock.Timing.PredictionSlot
import FMITerminalBlock.Timing.QueueOperations
import FMITerminalBlock.Timing.QueueOrder
import FMITerminalBlock.Timing.SimulationTime
import FMITerminalBlock.Timing.ThreadRefinement
import FMITerminalBlock.Timing.Variable
