import OpenAisg.Basic

/-!
# RETAP procedure and return codes

The two tables of `openaisg/retap.py`: the procedure codes a primary sends, and
`RETURN_CODES`, which doubles as the alarm name table (`rcName`).

A procedure has one code for a device with a single antenna and, for some, another
for a device with several (`ant…`), whose messages carry the antenna number first.
An indication is told from a response by its procedure code alone.
-/

namespace OpenAisg.Retap

/-! ## Procedure codes -/

def resetSoftware : Byte := 0x03
def getAlarmStatus : Byte := 0x04
def getInformation : Byte := 0x05
def clearActiveAlarms : Byte := 0x06
def alarmIndication : Byte := 0x07
def selfTest : Byte := 0x0A
def getDeviceData : Byte := 0x0F
def alarmSubscribe : Byte := 0x12
def calibrate : Byte := 0x31
def sendConfigData : Byte := 0x32
def setTilt : Byte := 0x33
def getTilt : Byte := 0x34
def antCalibrate : Byte := 0x80
def antSetTilt : Byte := 0x81
def antGetTilt : Byte := 0x82
def antGetDeviceData : Byte := 0x84
def antAlarmIndication : Byte := 0x85
def antClearActiveAlarms : Byte := 0x86
def antGetAlarmStatus : Byte := 0x87
def antGetNumAntennas : Byte := 0x88
def antSendConfigData : Byte := 0x89

/-! ## Return codes -/

/-- `RETURN_CODES`. -/
def returnCodes : List (Byte × String) :=
  [(0x00, "OK"), (0x02, "MotorJam"), (0x03, "ActuatorJam"), (0x05, "Busy"),
   (0x06, "ChecksumError"), (0x0B, "FAIL"), (0x0E, "NotCalibrated"), (0x0F, "NotConfigured"),
   (0x11, "HardwareError"), (0x13, "OutOfRange"), (0x19, "UnknownProcedure"),
   (0x1A, "MinorTMAFault"), (0x1B, "MajorTMAFault"), (0x1C, "UnsupportedValue"),
   (0x1D, "ReadOnly"), (0x1E, "UnknownParameter"), (0x21, "WorkingSoftwareMissing"),
   (0x22, "InvalidFileContent"), (0x24, "FormatError"), (0x25, "UnsupportedProcedure"),
   (0x26, "InvalidProcedureSequence"), (0x27, "ActuatorInterference")]

/-- `rc_name`: the name of a return code, or its number when it has none. -/
def rcName (code : Byte) : String := (returnCodes.lookup code).getD (hex2 code)

end OpenAisg.Retap
