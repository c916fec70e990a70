import Thermometer.SequenceReturn
import Thermometer.Pipeline
import Thermometer.QueueMirror
import Thermometer.QueueLifetime
import Thermometer.Notification
import Thermometer.OtaUpdates
import Thermometer.PosterThrottle
import Thermometer.SensorPipeline
import Thermometer.Ticks
import Thermometer.DottedVersion
import Thermometer.VectorObjects
import Thermometer.InplaceFilling
import Thermometer.InplaceString
import Thermometer.SequenceWriters
import Thermometer.QueueDelivery
import Thermometer.OwnParts
import Thermometer.DiscoverSensors
import Thermometer.PostedJson
import Thermometer.SequenceAtomic
import Thermometer.SequenceFields
import Thermometer.SequenceProgress
import Thermometer.DeviceInvariant
import Thermometer.DevicePosts
import Thermometer.DevicePacing
import Thermometer.DevicePipeline
import Thermometer.DeviceProgress
import Thermometer.DeviceReadings
import Thermometer.PublisherProgress
import Thermometer.OtaSessions
import Thermometer.GoogleSheets
import Thermometer.DeviceRest
