import BlockCompiler.Blocks.Expression

/-!
# Hardware blocks

Pins, servos, the serial line, interrupts and the clock.  On the Arduino a pin's
mode is a line of the setup; in MicroPython a pin is an object that is declared
once, together with the imports its declaration needs.
-/

namespace BlockCompiler.Blocks

/-- Declares the import of pins. -/
def importPin : Script Unit :=
  Script.declare "import_pin" "from machine import Pin"

/-- Declares the import of pulse width modulation. -/
def importPwm : Script Unit :=
  Script.declare "import_pwm" "from machine import PWM"

/-- Declares the import of the clock. -/
def importTime : Script Unit :=
  Script.declare "import_time" "import time"

/-- The two directions of a pin. -/
inductive PinMode where
  | input
  | output
deriving DecidableEq, Repr

namespace PinMode

/-- The other direction. -/
def other : PinMode → PinMode
  | input => output
  | output => input

/-- The word for a direction. -/
def label : PinMode → String
  | input => "INPUT"
  | output => "OUTPUT"

/-- The symbol of a pin's setup line. -/
def symbol (m : PinMode) (pin : String) : String :=
  "pin_mode_" ++ pin ++ "_" ++ m.label

end PinMode

/-- Sets up a pin for a direction.  A pin used both ways is set up twice, in the order of first
use, and noticed. -/
def setPinMode (pin : String) (mode : PinMode) : Script Unit :=
  Script.setupBeside (mode.symbol pin) ("pinMode(" ++ pin ++ ", " ++ mode.label ++ ");")
    (mode.other.symbol pin) (.pinUsedBothWays pin)

/-- Sets a pin high or low. -/
def digitalWrite (t : Target) (j : Job) (n : Node) : Script Code :=
  match t with
  | .arduino => do
    let pin := n.fieldOr "PIN" "13"
    setPinMode pin .output
    let state ← j.valueCode n "STATE" Order.loosest "LOW"
    return .statement (j.line ("digitalWrite(" ++ pin ++ ", " ++ state ++ ")"))
  | .microPython => do
    let pin := n.fieldOr "PIN" "2"
    let name := "pin_out_" ++ Text.suffix pin
    importPin
    Script.declare name (name ++ " = Pin(" ++ pin ++ ", Pin.OUT)")
    let state ← j.valueCode n "STATE" Order.loosest "0"
    return .statement (j.line (name ++ ".value(" ++ state ++ ")"))

/-- Sets a pin to a level between low and high. -/
def analogWrite (t : Target) (j : Job) (n : Node) : Script Code :=
  match t with
  | .arduino => do
    let pin := n.fieldOr "PIN" "3"
    setPinMode pin .output
    let value ← j.valueCode n "NUM" Order.loosest "0"
    return .statement (j.line ("analogWrite(" ++ pin ++ ", " ++ value ++ ")"))
  | .microPython => do
    let pin := n.fieldOr "PIN" "4"
    let name := "pwm_" ++ Text.suffix pin
    importPin
    importPwm
    Script.declare name (name ++ " = PWM(Pin(" ++ pin ++ "))")
    let value ← j.valueCode n "NUM" Order.loosest "0"
    return .statement (j.line (name ++ ".duty(" ++ value ++ ")"))

/-- Whether a pin is high. -/
def digitalRead (t : Target) (n : Node) : Script Code :=
  match t with
  | .arduino => do
    let pin := n.fieldOr "PIN" "2"
    setPinMode pin .input
    return .expression ("digitalRead(" ++ pin ++ ")") (t.order .call)
  | .microPython => do
    let pin := n.fieldOr "PIN" "0"
    let name := "pin_in_" ++ Text.suffix pin
    importPin
    Script.declare name (name ++ " = Pin(" ++ pin ++ ", Pin.IN)")
    return .expression (name ++ ".value()") (t.order .call)

/-- The level of a pin. -/
def analogRead (t : Target) (n : Node) : Script Code :=
  match t with
  | .arduino =>
    return .expression ("analogRead(" ++ n.fieldOr "PIN" "A0" ++ ")") (t.order .call)
  | .microPython => do
    let pin := n.fieldOr "PIN" "34"
    let name := "adc_" ++ Text.suffix pin
    importPin
    Script.declare "import_adc" "from machine import ADC"
    Script.declare name (name ++ " = ADC(Pin(" ++ pin ++ "))")
    return .expression (name ++ ".read()") (t.order .call)

/-- The time since the start. -/
def milliseconds (t : Target) : Script Code :=
  match t with
  | .arduino => return .expression "millis()" (t.order .call)
  | .microPython => do
    importTime
    return .expression "time.ticks_ms()" (t.order .call)

/-- Waits. -/
def delay (t : Target) (j : Job) (n : Node) : Script Code :=
  match t with
  | .arduino => do
    let time ← j.valueCode n "DELAY_TIME" Order.loosest "1000"
    return .statement (j.line ("delay(" ++ time ++ ")"))
  | .microPython => do
    importTime
    let time ← j.valueCode n "DELAY_TIME" Order.loosest "1000"
    return .statement (j.line ("time.sleep_ms(" ++ time ++ ")"))

/-- Writes to the serial line, with or without a line end. -/
def serialPrint (t : Target) (j : Job) (n : Node) : Script Code :=
  match t with
  | .arduino => do
    let content ← j.valueCode n "CONTENT" Order.loosest "\"\""
    let function := if n.flag "NEWLINE" true then "println" else "print"
    return .statement (j.line ("Serial." ++ function ++ "(" ++ content ++ ")"))
  | .microPython => do
    let content ← j.valueCode n "CONTENT" Order.loosest "''"
    let ending := if n.flag "NEWLINE" true then "" else ", end=''"
    return .statement (j.line ("print(" ++ content ++ ending ++ ")"))

/-- Turns a servo. -/
def servoWrite (t : Target) (j : Job) (n : Node) : Script Code :=
  let name := nameField n "NAME" "servo"
  match t with
  | .arduino => do
    let degrees ← j.valueCode n "DEGREE" Order.loosest "90"
    return .statement (j.line (name ++ ".write(" ++ degrees ++ ")"))
  | .microPython => do
    Script.declare "servo_angle_fn"
      "def servo_angle(servo, degrees):\n    servo.duty(int(40 + degrees * 75 / 180))"
    let degrees ← j.valueCode n "DEGREE" Order.loosest "90"
    return .statement (j.line ("servo_angle(" ++ name ++ ", " ++ degrees ++ ")"))

/-- Opens the serial line in the setup. -/
def serialSetup (t : Target) (n : Node) : Script Code :=
  match t with
  | .arduino => do
    Script.setup "serial_begin" ("Serial.begin(" ++ n.fieldOr "BAUD" "9600" ++ ");")
    return Code.empty
  | .microPython => do
    Script.declare "import_uart" "from machine import UART"
    Script.setup "serial_begin" ("uart = UART(0, baudrate=" ++ n.fieldOr "BAUD" "115200" ++ ")")
    return Code.empty

/-- Attaches a servo in the setup. -/
def servoAttach (t : Target) (n : Node) : Script Code :=
  let name := nameField n "NAME" "servo"
  match t with
  | .arduino => do
    let pin := n.fieldOr "PIN" "9"
    Script.declare "include_servo" "#include <Servo.h>"
    Script.declare ("servo_" ++ name) ("Servo " ++ name ++ ";")
    Script.setup ("servo_attach_" ++ name) (name ++ ".attach(" ++ pin ++ ");")
    return Code.empty
  | .microPython => do
    let pin := n.fieldOr "PIN" "15"
    importPin
    importPwm
    Script.setup ("servo_attach_" ++ name) (name ++ " = PWM(Pin(" ++ pin ++ "), freq=50)")
    return Code.empty

/-- The trigger that a field names, if the target knows it. -/
def interruptTrigger? : Target → String → Option String
  | .arduino, "RISING" => some "RISING"
  | .arduino, "FALLING" => some "FALLING"
  | .arduino, "CHANGE" => some "CHANGE"
  | .arduino, "LOW" => some "LOW"
  | .microPython, "RISING" => some "Pin.IRQ_RISING"
  | .microPython, "FALLING" => some "Pin.IRQ_FALLING"
  | .microPython, "CHANGE" => some "Pin.IRQ_RISING | Pin.IRQ_FALLING"
  | _, _ => none

/-- The trigger of an interrupt; an unknown one is noticed and taken for a rising edge. -/
def interruptTrigger (t : Target) (n : Node) : Script String :=
  let mode := n.fieldOr "MODE" "RISING"
  match interruptTrigger? t mode with
  | some trigger => return trigger
  | none => do
    Script.notice (.unknownInterruptMode mode n.key)
    return (interruptTrigger? t "RISING").getD ""

/-- Attaches a handler to a pin's interrupt in the setup. -/
def interruptAttach (t : Target) (n : Node) : Script Code := do
  let pin := n.fieldOr "PIN" "2"
  let trigger ← interruptTrigger t n
  let handler := nameField n "HANDLER" "on_interrupt"
  match t with
  | .arduino => do
    Script.declare ("proto_" ++ handler) ("void " ++ handler ++ "();")
    Script.setup ("interrupt_" ++ pin)
      ("attachInterrupt(digitalPinToInterrupt(" ++ pin ++ "), " ++ handler ++ ", " ++ trigger ++
        ");")
    return Code.empty
  | .microPython => do
    let name := "pin_irq_" ++ Text.suffix pin
    importPin
    Script.setup name (name ++ " = Pin(" ++ pin ++ ", Pin.IN)")
    Script.setup ("interrupt_" ++ pin)
      (name ++ ".irq(trigger=" ++ trigger ++ ", handler=lambda p: " ++ handler ++ "())")
    return Code.empty

end BlockCompiler.Blocks
