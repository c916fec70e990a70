import Thermometer.Binary32
import Thermometer.InplaceVector

namespace Thermometer

def maxSensors : Nat := 2

structure SensorReading where
  temperature : Binary32
  address : BitVec 64
  deriving DecidableEq, Inhabited

/-- The readings of one round. The timestamp counts the microseconds since the
epoch of `rtc_clock`. -/
structure SensorReadings where
  readings : InplaceVector SensorReading maxSensors
  timestamp : Int
  deriving DecidableEq

end Thermometer
