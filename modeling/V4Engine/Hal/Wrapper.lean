/-
  V4Engine.Hal.Wrapper

  `hal_wrapper.cpp`: the `v4_hal_*` functions on top of the `hal_*` functions.

  The `hal_*` functions come from outside, so they are a parameter (`Driver`), any
  functions of the types of `hal.h` on a state of their own.  The wrapper itself
  keeps one thing: the handles of four UART ports.
-/
import V4Engine.Vm.Types
import Mathlib.Logic.Function.Basic

namespace V4Engine
namespace Hal

/-! ## Types -/

/-- `hal_errors.def`. -/
inductive HalErr where
  | ok | param | busy | timeout | nodev | nomem | notsup | io
  deriving DecidableEq, Repr

/-- `HAL_ERR_name`. -/
def HalErr.code : HalErr → V4Err
  | .ok => 0
  | .param => -1
  | .busy => -2
  | .timeout => -3
  | .nodev => -4
  | .nomem => -5
  | .notsup => -6
  | .io => -7

/-- `hal_gpio_mode_t`. -/
inductive HalGpioMode where
  | input | inputPullup | inputPulldown | output | outputOd
  deriving DecidableEq, Repr

/-- `hal_gpio_value_t`. -/
inductive HalGpioValue where
  | low | high
  deriving DecidableEq, Repr

/-- `hal_uart_config_t`. -/
structure HalUartConfig where
  baudrate : Int
  dataBits : Int
  stopBits : Int
  parity : Int
  deriving DecidableEq, Repr

/-- The functions of `hal.h` the wrapper calls, on a state `S`, with handles `Hd`.  A read
    takes what the buffer holds and gives back what it holds afterwards. -/
structure Driver (S Hd : Type) where
  gpioMode : Int → HalGpioMode → S → V4Err × S
  gpioWrite : Int → HalGpioValue → S → V4Err × S
  gpioRead : Int → S → (V4Err × HalGpioValue) × S
  uartOpen : Int → HalUartConfig → S → Option Hd × S
  uartClose : Hd → S → V4Err × S
  uartWrite : Hd → List Byte → S → Int × S
  uartRead : Hd → (Nat → Byte) → Nat → S → (Int × (Nat → Byte)) × S
  millis : S → BitVec 32 × S
  micros : S → BitVec 64 × S
  delayMs : BitVec 32 → S → S
  delayUs : BitVec 32 → S → S
  consoleWrite : List Byte → S → Int × S
  consoleRead : (Nat → Byte) → Nat → S → (Int × (Nat → Byte)) × S
  deinit : S → S
  init : S → V4Err × S

/-- The state of the drivers and the table `uart_handles`. -/
structure Board (S Hd : Type) where
  hal : S
  uartHandles : Fin 4 → Option Hd

variable {S Hd : Type}

namespace Board

/-- No port is open. -/
def boot (s : S) : Board S Hd := ⟨s, fun _ => none⟩

/-- The result of a driver, which has left its state. -/
def after {α : Type} (b : Board S Hd) (r : α × S) : α × Board S Hd := (r.1, { b with hal := r.2 })

end Board

/-! ## GPIO -/

/-- The mapping of `v4_hal_gpio_mode`; other values of the enumeration type have no mode. -/
def gpioModeOf (mode : Int) : Option HalGpioMode :=
  if mode = 0 then some .input
  else if mode = 1 then some .output
  else if mode = 2 then some .inputPullup
  else if mode = 3 then some .inputPulldown
  else none

def v4HalGpioInit (hal : Driver S Hd) (pin mode : Int) (b : Board S Hd) : V4Err × Board S Hd :=
  match gpioModeOf mode with
  | none => (HalErr.param.code, b)
  | some halMode => b.after (hal.gpioMode pin halMode b.hal)

def v4HalGpioWrite (hal : Driver S Hd) (pin value : Int) (b : Board S Hd) : V4Err × Board S Hd :=
  b.after (hal.gpioWrite pin (if value ≠ 0 then .high else .low) b.hal)

/-- `outValue` says whether the pointer is there; the second component is what is stored. -/
def v4HalGpioRead (hal : Driver S Hd) (pin : Int) (outValue : Bool) (b : Board S Hd) :
    (V4Err × Option Int) × Board S Hd :=
  if outValue then
    let r := hal.gpioRead pin b.hal
    b.after ((r.1.1, if r.1.1 = 0 then some (if r.1.2 = .high then 1 else 0) else none), r.2)
  else ((HalErr.param.code, none), b)

/-! ## UART -/

/-- `port < 0 || port >= 4` is refused. -/
def portIndex (port : Int) : Option (Fin 4) :=
  if h : port < 0 ∨ port ≥ 4 then none else some ⟨port.toNat, by omega⟩

/-- The handle of a port that is open. -/
def openHandle (port : Int) (b : Board S Hd) : Option Hd := (portIndex port).bind b.uartHandles

/-- Close the handle of a port, if there is one. -/
def closeExisting (hal : Driver S Hd) (p : Fin 4) (b : Board S Hd) : Board S Hd :=
  match b.uartHandles p with
  | none => b
  | some h =>
      { hal := (hal.uartClose h b.hal).2
        uartHandles := Function.update b.uartHandles p none }

def v4HalUartInit (hal : Driver S Hd) (port baudrate : Int) (b : Board S Hd) :
    V4Err × Board S Hd :=
  match portIndex port with
  | none => (HalErr.param.code, b)
  | some p =>
      let b := closeExisting hal p b
      -- 8N1
      let r := hal.uartOpen port ⟨baudrate, 8, 1, 0⟩ b.hal
      (if r.1.isSome then HalErr.ok.code else HalErr.nodev.code,
        { hal := r.2, uartHandles := Function.update b.uartHandles p r.1 })

def v4HalUartPutc (hal : Driver S Hd) (port : Int) (c : Byte) (b : Board S Hd) :
    V4Err × Board S Hd :=
  match openHandle port b with
  | none => (HalErr.param.code, b)
  | some h =>
      let r := hal.uartWrite h [c] b.hal
      b.after (if r.1 = 1 then HalErr.ok.code else HalErr.io.code, r.2)

/-- `byte` is what the local variable holds before it is read into. -/
def v4HalUartGetc (hal : Driver S Hd) (port : Int) (outC : Bool) (byte : Byte) (b : Board S Hd) :
    (V4Err × Option Byte) × Board S Hd :=
  match openHandle port b, outC with
  | some h, true =>
      let r := hal.uartRead h (fun _ => byte) 1 b.hal
      b.after (if r.1.1 = 1 then (HalErr.ok.code, some (r.1.2 0)) else (HalErr.io.code, none), r.2)
  | _, _ => ((HalErr.param.code, none), b)

def v4HalUartWrite (hal : Driver S Hd) (port : Int) (buf : Option (Nat → Byte)) (len : Int)
    (b : Board S Hd) : V4Err × Board S Hd :=
  match openHandle port b, buf with
  | some h, some buf =>
      if len < 0 then (HalErr.param.code, b)
      else
        let r := hal.uartWrite h ((List.range len.toNat).map buf) b.hal
        b.after (if r.1 = len then HalErr.ok.code else HalErr.io.code, r.2)
  | _, _ => (HalErr.param.code, b)

/-- What a read leaves behind: the code, the caller's buffer and `*out_len`. -/
structure ReadResult where
  code : V4Err
  buf : Option (Nat → Byte)
  outLen : Option Int

def v4HalUartRead (hal : Driver S Hd) (port : Int) (buf : Option (Nat → Byte)) (maxLen : Int)
    (outLen : Bool) (b : Board S Hd) : ReadResult × Board S Hd :=
  match openHandle port b, buf with
  | some h, some data =>
      if maxLen < 0 ∨ outLen = false then (⟨HalErr.param.code, buf, none⟩, b)
      else
        let r := hal.uartRead h data maxLen.toNat b.hal
        b.after (if r.1.1 ≥ 0 then ⟨HalErr.ok.code, some r.1.2, some r.1.1⟩
          else ⟨HalErr.io.code, some r.1.2, none⟩, r.2)
  | _, _ => (⟨HalErr.param.code, buf, none⟩, b)

/-! ## Timer -/

def v4HalMillis (hal : Driver S Hd) (b : Board S Hd) : BitVec 32 × Board S Hd :=
  b.after (hal.millis b.hal)

def v4HalMicros (hal : Driver S Hd) (b : Board S Hd) : BitVec 64 × Board S Hd :=
  b.after (hal.micros b.hal)

def v4HalDelayMs (hal : Driver S Hd) (ms : BitVec 32) (b : Board S Hd) : Board S Hd :=
  { b with hal := hal.delayMs ms b.hal }

def v4HalDelayUs (hal : Driver S Hd) (us : BitVec 32) (b : Board S Hd) : Board S Hd :=
  { b with hal := hal.delayUs us b.hal }

/-! ## Console -/

def v4HalPutc (hal : Driver S Hd) (c : Byte) (b : Board S Hd) : V4Err × Board S Hd :=
  let r := hal.consoleWrite [c] b.hal
  b.after (if r.1 = 1 then HalErr.ok.code else HalErr.io.code, r.2)

def v4HalGetc (hal : Driver S Hd) (outC : Bool) (byte : Byte) (b : Board S Hd) :
    (V4Err × Option Byte) × Board S Hd :=
  if outC then
    let r := hal.consoleRead (fun _ => byte) 1 b.hal
    b.after (if r.1.1 = 1 then (HalErr.ok.code, some (r.1.2 0)) else (HalErr.io.code, none), r.2)
  else ((HalErr.param.code, none), b)

/-! ## System -/

/-- The table of handles is left as it is, and the answer of `hal_init` is ignored. -/
def v4HalSystemReset (hal : Driver S Hd) (b : Board S Hd) : Board S Hd :=
  { b with hal := (hal.init (hal.deinit b.hal)).2 }

/-! ## Calls -/

/-- A call of the API, with its arguments. -/
inductive HalOp where
  | gpioInit (pin mode : Int)
  | gpioWrite (pin value : Int)
  | gpioRead (pin : Int) (outValue : Bool)
  | uartInit (port baudrate : Int)
  | uartPutc (port : Int) (c : Byte)
  | uartGetc (port : Int) (outC : Bool) (byte : Byte)
  | uartWrite (port : Int) (buf : Option (Nat → Byte)) (len : Int)
  | uartRead (port : Int) (buf : Option (Nat → Byte)) (maxLen : Int) (outLen : Bool)
  | millis
  | micros
  | delayMs (ms : BitVec 32)
  | delayUs (us : BitVec 32)
  | putc (c : Byte)
  | getc (outC : Bool) (byte : Byte)
  | systemReset

/-- What a call hands back. -/
inductive Answer where
  | code (e : V4Err)
  | level (e : V4Err) (value : Option Int)
  | char (e : V4Err) (c : Option Byte)
  | data (r : ReadResult)
  | millis (t : BitVec 32)
  | micros (t : BitVec 64)
  | done

/-- The error code of an answer that has one. -/
def Answer.err : Answer → Option V4Err
  | .code e => some e
  | .level e _ => some e
  | .char e _ => some e
  | .data r => some r.code
  | _ => none

/-- Wrap up the result of a call. -/
def answered {α : Type} (f : α → Answer) (r : α × Board S Hd) : Answer × Board S Hd := (f r.1, r.2)

def HalOp.run (hal : Driver S Hd) (b : Board S Hd) : HalOp → Answer × Board S Hd
  | .gpioInit pin mode => answered .code (v4HalGpioInit hal pin mode b)
  | .gpioWrite pin value => answered .code (v4HalGpioWrite hal pin value b)
  | .gpioRead pin out => answered (fun r => .level r.1 r.2) (v4HalGpioRead hal pin out b)
  | .uartInit port baudrate => answered .code (v4HalUartInit hal port baudrate b)
  | .uartPutc port c => answered .code (v4HalUartPutc hal port c b)
  | .uartGetc port out byte =>
      answered (fun r => .char r.1 r.2) (v4HalUartGetc hal port out byte b)
  | .uartWrite port buf len => answered .code (v4HalUartWrite hal port buf len b)
  | .uartRead port buf maxLen out => answered .data (v4HalUartRead hal port buf maxLen out b)
  | .millis => answered .millis (v4HalMillis hal b)
  | .micros => answered .micros (v4HalMicros hal b)
  | .delayMs ms => (.done, v4HalDelayMs hal ms b)
  | .delayUs us => (.done, v4HalDelayUs hal us b)
  | .putc c => answered .code (v4HalPutc hal c b)
  | .getc out byte => answered (fun r => .char r.1 r.2) (v4HalGetc hal out byte b)
  | .systemReset => (.done, v4HalSystemReset hal b)

end Hal
end V4Engine
