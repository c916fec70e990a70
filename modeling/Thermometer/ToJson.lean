import Thermometer.SensorReadings

namespace Thermometer.PosterTask

/-- A `std::stringstream` with the base that it writes integers in. -/
structure Stream where
  base : Nat
  text : List Char

namespace Stream

def empty : Stream where
  base := 10
  text := []

def str (s : Stream) (text : String) : Stream := { s with text := s.text ++ text.toList }

def float (s : Stream) (showFloat : Binary32 → List Char) (value : Binary32) : Stream :=
  { s with text := s.text ++ showFloat value }

def integer (s : Stream) (value : BitVec 64) : Stream :=
  { s with text := s.text ++ Nat.toDigits s.base value.toNat }

def hex (s : Stream) : Stream := { s with base := 16 }

def dec (s : Stream) : Stream := { s with base := 10 }

end Stream

variable (showFloat : Binary32 → List Char)

def readingToJson (json : Stream) (reading : SensorReading) : Stream :=
  let json := json.str "\x7b"
  let json := ((json.str "\"temperature\": ").float showFloat reading.temperature).str ","
  let json := ((json.str "\"address\": \"").hex.integer reading.address).dec.str "\""
  json.str "\x7d"

def readingsToJson (json : Stream) (first : Bool) : List SensorReading → Stream
  | [] => json
  | reading :: rest =>
      let json := if first then json else json.str ", "
      readingsToJson (readingToJson showFloat json reading) false rest

/-- The payload of a post. How `operator<<` writes a `float` is a parameter. -/
def toJson (readings : SensorReadings) : List Char :=
  let json := ((Stream.empty.str "\x7b").str "\"sensor_readings\": ").str "["
  let json := readingsToJson showFloat json true readings.readings.toList
  ((json.str "]").str "\x7d").text

end Thermometer.PosterTask
