import Mathlib.Data.Int.Notation

namespace Thermometer

/-- `esp_err_t`. -/
abbrev EspErr := Int

def espOk : EspErr := 0

def espErrNotFound : EspErr := 0x105

def espErrInvalidCrc : EspErr := 0x109

end Thermometer
