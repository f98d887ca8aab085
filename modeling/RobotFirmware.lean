import RobotFirmware.Library.Path
import RobotFirmware.Library.Log
import RobotFirmware.Library.Resource
import RobotFirmware.Library.WrapCounter
import RobotFirmware.Library.Framing
import RobotFirmware.Library.Numeral
import RobotFirmware.Library.Endian
import RobotFirmware.Library.Rounding
import RobotFirmware.Library.EarlyReturn
import RobotFirmware.Drive.Refinement
import RobotFirmware.Drive.Targets
import RobotFirmware.Chassis.Stall
import RobotFirmware.Chassis.Provenance
import RobotFirmware.Chassis.TargetLimit
import RobotFirmware.Chassis.Latch
import RobotFirmware.Chassis.Actuation
import RobotFirmware.Chassis.RemoteStop
import RobotFirmware.Chassis.Kinematics
import RobotFirmware.Chassis.CountDelta
import RobotFirmware.Chassis.Encoders
import RobotFirmware.Chassis.EncoderLines
import RobotFirmware.Chassis.Uart
import RobotFirmware.Chassis.CommandLines
import RobotFirmware.Imu.Sample
import RobotFirmware.Imu.Registers
import RobotFirmware.Imu.Icm42670p
import RobotFirmware.Wifi.Station
import RobotFirmware.Microros.CmdVel
import RobotFirmware.Microros.Publisher
import RobotFirmware.Microros.Motion
import RobotFirmware.Microros.ImuStream
import RobotFirmware.Microros.ImuPipeline
import RobotFirmware.Microros.Task
import RobotFirmware.Microros.Lifecycle
import RobotFirmware.Microros.Session
import RobotFirmware.Chassis.OdometryPath
import RobotFirmware.Chassis.OdomZero
import RobotFirmware.Chassis.Symmetry
import RobotFirmware.Chassis.OdomStamps
import RobotFirmware.Microros.OdomStream
import RobotFirmware.Imu.Acquisition
import RobotFirmware.Chassis.PulseUnits
import RobotFirmware.App.Startup
import RobotFirmware.Chassis.LaggingWheel
import RobotFirmware.Microros.AgentLoss
import RobotFirmware.Microros.CommandFlow
import RobotFirmware.Chassis.TestPause
import RobotFirmware.Chassis.BatteryGate
import RobotFirmware.Chassis.OdometryDrift
import RobotFirmware.Chassis.OdometryAccuracy
import RobotFirmware.Chassis.Heading
