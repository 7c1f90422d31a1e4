/-
# `X50.GestureEvents` — what the gesture board brings about

`gesture_uart_parse_msg` keeps three static variables to tell news from what it has
heard before.  Over any run of reads they make of the frames:

    alarm       an `Alarm` event for every change of the flag, none twice
    fault 0x15  reported for every frame that says so, and taken back once when a
                frame says otherwise
    bad frames  the clock sent again for every fifth one in a row

None of this depends on the hood or on how the frames were cut into reads.
-/
import X50.GestureStream
import X50.Lib.Stretch
import Mathlib.Data.List.Destutter

namespace X50

open X50.Lib

/-! ## Frames and actions -/

namespace GestureFrame

/-- The clock of the board needs the time. -/
def bad (f : GestureFrame) : Bool := decide (f.data1 &&& 0x02 ≠ 0)

def alarm (f : GestureFrame) : Bool := decide (f.data1 &&& 0x40 ≠ 0)

def broken (f : GestureFrame) : Bool := decide (f.data2 = 0x15)

end GestureFrame

namespace GestureAction

end GestureAction

section Act

variable (f : GestureFrame) (speed : UInt8) (s : GestureState)

end Act

/-! ## All frames -/

section Acts

variable (fs : List (GestureFrame × UInt8)) (s : GestureState)

end Acts

/-! ## Runs -/

end X50
