import Sg200x.Ipc.Shm

/-!
# The application commands

`sg2002_rtos_app.c` and the GPIO functions it calls.  The registers are a
function from addresses to the values a read returns; the register writes of a
command are returned with its result.
-/

namespace Sg200x.Ipc.App

open Shm

abbrev Mmio := U32 → U32

abbrev MmioWrites := List (U32 × U32)

def cmdFirst : U8 := 0x60#8
def cmdLast : U8 := 0x7e#8
def cmdPing : U8 := 0x60#8
def cmdGpioSet : U8 := 0x61#8
def cmdGpioGet : U8 := 0x62#8
def cmdGetInfo : U8 := 0x63#8
def cmdEcho : U8 := 0x64#8

def pingXor : U32 := 0xa5a55a5a#32
def infoMagic : U32 := 0xa5#32
def protocolMajor : U32 := 1#32
def protocolMinor : U32 := 0#32
def capGpio : U32 := 1#32 <<< 0
def capEcho : U32 := 1#32 <<< 1
def capabilities : U32 := capGpio ||| capEcho

def infoEncode (major minor capabilities : U32) : U32 :=
  (infoMagic <<< 24) ||| ((major &&& 0xff#32) <<< 16) ||| ((minor &&& 0xff#32) <<< 8) |||
    (capabilities &&& 0xff#32)

def infoValue : U32 := infoEncode protocolMajor protocolMinor capabilities

def responseInvalidArgument : U32 := 0xfffffffe#32
def responseUnsupported : U32 := 0xffffffff#32

abbrev valueMessageSize : ℕ := 5

inductive Result
  | unhandled
  | handled
  deriving DecidableEq

/-! ## GPIO -/

/-- `SG2002_RTOS_GPIO_PIN`. -/
def gpioPin (value : U32) : U32 := (value >>> 16) &&& 0xffff#32

/-- `SG2002_RTOS_GPIO_VALUE`. -/
def gpioValue (value : U32) : U32 := value &&& 1#32

def gpioBaseFromPin (pin : U32) : U32 :=
  match (pin >>> 8).toNat with
  | 0xA => 0x03020000#32
  | 0xB => 0x03021000#32
  | 0xC => 0x03022000#32
  | 0xD => 0x03023000#32
  | _ => 0#32

/-- A pin of a command has 16 bits, so the check for a negative one never fails. -/
def gpioIsValid (pin : U32) : Bool :=
  (pin &&& 0xff#32).toNat < 32 && gpioBaseFromPin pin != 0#32

def gpioMask (pin : U32) : U32 := 1#32 <<< (pin &&& 0xff#32).toNat

def gpioGetValue (mmio : Mmio) (pin : U32) : U32 :=
  if gpioIsValid pin then
    if mmio (gpioBaseFromPin pin + 0x50#32) &&& gpioMask pin != 0#32 then 1#32 else 0#32
  else 0#32

def gpioDirectionOutput (mmio : Mmio) (pin : U32) (val : Bool) : MmioWrites :=
  if gpioIsValid pin then
    let base := gpioBaseFromPin pin
    let output := if val then mmio base ||| gpioMask pin else mmio base &&& ~~~ gpioMask pin
    [(base, output), (base + 4#32, mmio (base + 4#32) ||| gpioMask pin)]
  else []

/-! ## Commands and messages -/

/-- `sg2002_rtos_app_handle`: the result, the value and the register writes. -/
def appHandle (mmio : Mmio) (command : U8) (value : U32) : Result × U32 × MmioWrites :=
  if command = cmdPing then (.handled, value ^^^ pingXor, [])
  else if command = cmdGpioSet then
    if gpioIsValid (gpioPin value) then
      (.handled, gpioValue value,
        gpioDirectionOutput mmio (gpioPin value) (gpioValue value != 0#32))
    else (.handled, responseInvalidArgument, [])
  else if command = cmdGpioGet then
    if gpioIsValid (gpioPin value) then
      (.handled, gpioGetValue mmio (gpioPin value) &&& 1#32, [])
    else (.handled, responseInvalidArgument, [])
  else if command = cmdGetInfo then (.handled, infoValue, [])
  else if command = cmdEcho then (.handled, value, [])
  else if cmdFirst ≤ command ∧ command ≤ cmdLast then (.handled, responseUnsupported, [])
  else (.unhandled, value, [])

abbrev Payload := Vector U8 payloadSize

/-- `memcpy` of the first `count` bytes. -/
def Payload.copyFrom (response request : Payload) (count : ℕ) : Payload :=
  Vector.ofFn fun i => if i.val < count then request[i] else response[i]

/-- The value of a message, little endian from byte 1. -/
def messageValue (request : Payload) : U32 :=
  request[4] ++ request[3] ++ request[2] ++ request[1]

def Payload.writeValue (response : Payload) (command : U8) (value : U32) : Payload :=
  ((((response.set 0 command).set 1 (value.extractLsb' 0 8)).set 2
    (value.extractLsb' 8 8)).set 3 (value.extractLsb' 16 8)).set 4 (value.extractLsb' 24 8)

/-- What `sg2002_rtos_app_handle_message` returns and writes through its pointers. -/
structure Reply where
  result : Result
  response : Payload
  responseLength : U16
  writes : MmioWrites

/-- `sg2002_rtos_app_handle_message`.  `capacity` is what `*response_length` holds
on entry; the transport passes no null pointer. -/
def appHandleMessage (mmio : Mmio) (request : Payload) (requestLength : U16)
    (response : Payload) (capacity : U16) : Reply :=
  if requestLength = 0#16 then ⟨.unhandled, response, 0#16, []⟩
  else
    let command := request[0]
    if command < cmdFirst ∨ cmdLast < command then ⟨.unhandled, response, 0#16, []⟩
    else if command = cmdEcho then
      if capacity < requestLength then ⟨.unhandled, response, 0#16, []⟩
      else ⟨.handled, response.copyFrom request requestLength.toNat, requestLength, []⟩
    else if capacity.toNat < valueMessageSize then ⟨.unhandled, response, 0#16, []⟩
    else
      let (result, value, writes) :=
        if requestLength.toNat = valueMessageSize then
          appHandle mmio command (messageValue request)
        else (.handled, responseInvalidArgument, [])
      match result with
      | .unhandled => ⟨.unhandled, response, 0#16, writes⟩
      | .handled => ⟨.handled, response.writeValue command value, 5#16, writes⟩

/-- The body of the loop of `sg2002_rtos_shm_process` between the pop and the
push: the response to a request. -/
def respond (mmio : Mmio) (request : Slot) : Slot :=
  let reply := appHandleMessage mmio request.payload request.length
    (Vector.replicate payloadSize 0#8) (BitVec.ofNat 16 payloadSize)
  { sequence := request.sequence
    length := if reply.result = .handled then reply.responseLength else 0#16
    payload := reply.response }

/-! ## What a response is -/

@[simp] theorem respond_sequence (mmio : Mmio) (request : Slot) :
    (respond mmio request).sequence = request.sequence := rfl

/-- The length a message reports never exceeds the capacity it was given. -/
theorem appHandleMessage_length_le (mmio : Mmio) (request : Payload) (requestLength : U16)
    (response : Payload) (capacity : U16) :
    (appHandleMessage mmio request requestLength response capacity).responseLength.toNat ≤
      capacity.toNat := by
  unfold appHandleMessage
  dsimp only
  split_ifs with _ _ _ hecho hcapacity
  all_goals try exact Nat.zero_le _
  · rw [← BitVec.le_def]
    exact BitVec.not_lt.mp hecho
  all_goals
    split
    · exact Nat.zero_le _
    · exact Nat.not_lt.mp hcapacity

theorem respond_fits (mmio : Mmio) (request : Slot) : (respond mmio request).Fits := by
  unfold Slot.Fits respond
  dsimp only
  split_ifs
  · exact appHandleMessage_length_le ..
  · exact Nat.zero_le _

end Sg200x.Ipc.App
