import Backwash.Counters.Balance
import Backwash.Counters.Stored
import Backwash.Firmware.Texts
import Backwash.Gui.Bounds
import Backwash.Gui.Picture
import Backwash.Gui.Refresh
import Backwash.Keypad.Press
import Backwash.Keypad.Waking
import Backwash.Lcd.Bottom
import Backwash.Lcd.Editors
import Backwash.Lcd.Hardware
import Backwash.Lcd.Index
import Backwash.Lcd.Outcomes
import Backwash.Lcd.Overflow
import Backwash.Lcd.Path
import Backwash.Lcd.Reset
import Backwash.Lcd.Redraw
import Backwash.Motor.Commands
import Backwash.Motor.Duration
import Backwash.Motor.Interlock
import Backwash.Motor.Limits
import Backwash.Motor.Outcome
import Backwash.Motor.Travel
import Backwash.Rtc.Elapsed
import Backwash.Rtc.Periods
import Backwash.Sensor.Buffer
import Backwash.Settings.Change
import Backwash.Settings.Chip
import Backwash.Settings.Keys
import Backwash.Sleep.Awake
import Backwash.Sleep.Flash
import Backwash.Sleep.Return
