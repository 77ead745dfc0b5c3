import Sg200x.Ipc.Client
import Sg200x.Ipc.Cmdqu

/-!
# One application protocol, two transports

`sg2002_rtos_call` sends a command as a message of five bytes or as a command-queue entry.
Each transport carries its request and its reply as they are.
-/

namespace Sg200x.Ipc.Call

open Shm App Driver Cmdqu
open Client (carried carried_getElem)

/-- What a call returns, or the response, and the registers that it has the firmware write. -/
abbrev Outcome := Except Errno U32 × MmioWrites

/-! ## Over shared memory -/

/-- `request_message`. -/
def requestMessage (command : U8) (request : U32) : Slot :=
  { sequence := 0#32
    length := BitVec.ofNat 16 valueMessageSize
    payload := (Payload.writeValue (Vector.replicate payloadSize 0#8) command request) }

/-- `copy_message`: the errno and `*response_length`. -/
def copyMessage (message : Slot) (capacity : ℕ) : Errno × U16 :=
  (if capacity < message.length.toNat then .emsgsize else .ok, message.length)

/-- `sg2002_rtos_message_call`: the kernel gives the request its sequence, and the response
with that sequence is the firmware's. -/
def messageCall (mmio : Mmio) (sequence : U32) (request : Slot) : Slot × MmioWrites :=
  let request := { carried request with sequence := sequence }
  (respond mmio request,
    (appHandleMessage mmio request.payload request.length (Vector.replicate payloadSize 0#8)
      (BitVec.ofNat 16 payloadSize)).writes)

/-- The checks of `sg2002_rtos_call`, and its use of a message transport. -/
def callShared (mmio : Mmio) (sequence : U32) (command : U8) (request : U32) (timeoutMs : U16) :
    Outcome :=
  if timeoutMs = 0#16 then (.error .einval, [])
  else if command < cmdFirst ∨ cmdLast < command then (.error .einval, [])
  else
    let (response, writes) := messageCall mmio sequence (requestMessage command request)
    let (ret, responseLength) := copyMessage response valueMessageSize
    if ret ≠ .ok then (.error ret, writes)
    else if responseLength.toNat ≠ valueMessageSize ∨
        response.payload.get ⟨0, payloadSize_pos⟩ ≠ command then
      (.error .eproto, writes)
    else (.ok (messageValue response.payload), writes)

/-! ## Over the command queue -/

/-- `RTOS_CMDQU_SEND_WAIT`: the reply for which the interrupt handler finds the waiter. -/
def sendWait (mmio : Mmio) (command : Command) : Except Errno Command × MmioWrites :=
  let waiter := { command with block := 1#1 }
  match runTask mmio waiter.fromLinux with
  | (.reply reply, writes) =>
      if irqAction reply.fromRtos = .dewait ∧ reply.fromRtos.answers waiter then
        (.ok reply.fromRtos, writes)
      else (.error .etimedout, writes)
  | (_, writes) => (.error .etimedout, writes)

def callCmdqu (mmio : Mmio) (command : U8) (request : U32) (timeoutMs : U16) : Outcome :=
  if timeoutMs = 0#16 then (.error .einval, [])
  else if command < cmdFirst ∨ cmdLast < command then (.error .einval, [])
  else
    let cmdq : Command := Command.withMstime
      { ipId := ipSystem, cmdId := command.setWidth 7, block := 1#1, linuxValid := 0#8
        rtosValid := 0#8, paramPtr := request } timeoutMs
    match sendWait mmio cmdq with
    | (.error ret, writes) => (.error ret, writes)
    | (.ok reply, writes) =>
        if reply.ipId ≠ ipSystem ∨ reply.cmdId.setWidth 8 ≠ command ∨ reply.linuxValid ≠ 0#8 ∨
            reply.rtosValid ≠ 1#8 then (.error .eproto, writes)
        else (.ok reply.paramPtr, writes)

/-! ## The functions over a call -/

inductive Selected
  | sharedMemory (sequence : U32)
  | cmdqu

/-- `sg2002_rtos_call` over the transport that `open` selected. -/
def call (selected : Selected) (mmio : Mmio) (command : U8) (request : U32) (timeoutMs : U16) :
    Outcome :=
  match selected with
  | .sharedMemory sequence => callShared mmio sequence command request timeoutMs
  | .cmdqu => callCmdqu mmio command request timeoutMs

/-- `SG2002_RTOS_DEFAULT_TIMEOUT_MS`. -/
def defaultTimeoutMs : U16 := 3000#16

section Functions

variable (selected : Selected) (mmio : Mmio)

/-- `sg2002_rtos_get_info`. -/
def getInfo : Outcome :=
  match call selected mmio cmdGetInfo 0#32 defaultTimeoutMs with
  | (.error ret, writes) => (.error ret, writes)
  | (.ok response, writes) =>
      if (response >>> 24) &&& 0xff#32 ≠ infoMagic then (.error .eproto, writes)
      else (.ok response, writes)

/-- `sg2002_rtos_ping`. -/
def ping (input : U32) : Outcome := call selected mmio cmdPing input defaultTimeoutMs

/-- `SG2002_RTOS_GPIO_ENCODE`. -/
def gpioEncode (pin : U16) (value : U32) : U32 :=
  (pin.setWidth 32 <<< 16) ||| (value &&& 1#32)

/-- `sg2002_rtos_gpio_set`. -/
def gpioSet (pin : U16) (value : ℤ) : Errno × MmioWrites :=
  if value ≠ 0 ∧ value ≠ 1 then (.einval, [])
  else
    match call selected mmio cmdGpioSet (gpioEncode pin (BitVec.ofInt 32 value))
        defaultTimeoutMs with
    | (.error ret, writes) => (ret, writes)
    | (.ok response, writes) =>
        if response = responseInvalidArgument then (.einval, writes)
        else if response = BitVec.ofInt 32 value then (.ok, writes)
        else (.eproto, writes)

/-- `sg2002_rtos_gpio_get`. -/
def gpioGet (pin : U16) : Outcome :=
  match call selected mmio cmdGpioGet (gpioEncode pin 0#32) defaultTimeoutMs with
  | (.error ret, writes) => (.error ret, writes)
  | (.ok response, writes) =>
      if response = responseInvalidArgument then (.error .einval, writes)
      else if 1#32 < response then (.error .eproto, writes)
      else (.ok response, writes)

end Functions

/-! ## What a command comes to -/

section Command

variable {mmio : Mmio} {command : U8} {request : U32}

/-- Every command of the application protocol is answered. -/
theorem appHandle_handled (hrange : ¬ (command < cmdFirst ∨ cmdLast < command)) :
    (appHandle mmio command request).1 = .handled := by
  have hlow : cmdFirst ≤ command := BitVec.not_lt.mp fun h => hrange (.inl h)
  have hhigh : command ≤ cmdLast := BitVec.not_lt.mp fun h => hrange (.inr h)
  unfold appHandle
  rw [if_pos (show cmdFirst ≤ command ∧ command ≤ cmdLast from ⟨hlow, hhigh⟩)]
  split_ifs <;> rfl

theorem value_bytes (value : U32) :
    value.extractLsb' 24 8 ++ value.extractLsb' 16 8 ++ value.extractLsb' 8 8 ++
      value.extractLsb' 0 8 = value := by
  rw [BitVec.extractLsb'_append_extractLsb'_eq_extractLsb' (by rfl),
    BitVec.extractLsb'_append_extractLsb'_eq_extractLsb' (by rfl),
    BitVec.extractLsb'_append_extractLsb'_eq_extractLsb' (by rfl)]
  exact BitVec.extractLsb'_eq_self

/-- What is written to a message is read from it. -/
theorem messageValue_writeValue (payload : Payload) (command : U8) (value : U32) :
    messageValue (payload.writeValue command value) = value ∧
      (payload.writeValue command value)[0] = command := by
  refine ⟨?_, ?_⟩
  · have hbytes : messageValue (payload.writeValue command value) =
        value.extractLsb' 24 8 ++ value.extractLsb' 16 8 ++ value.extractLsb' 8 8 ++
          value.extractLsb' 0 8 := by
      simp [messageValue, Payload.writeValue]
    rw [hbytes, value_bytes]
  · simp [Payload.writeValue]

/-- Only the first five bytes of a message matter for its value. -/
theorem messageValue_congr {payload payload' : Payload}
    (h : ∀ i (hi : i < payloadSize), i < valueMessageSize → payload[i] = payload'[i]) :
    messageValue payload = messageValue payload' := by
  unfold messageValue
  rw [h 1 (by decide) (by decide), h 2 (by decide) (by decide), h 3 (by decide) (by decide),
    h 4 (by decide) (by decide)]

/-- The request as the firmware finds it. -/
theorem carried_requestMessage (sequence : U32) :
    let sent := { carried (requestMessage command request) with sequence := sequence }
    sent.length = 5#16 ∧ sent.payload[0] = command ∧ messageValue sent.payload = request := by
  obtain ⟨hvalue, hcommand⟩ :=
    messageValue_writeValue (Vector.replicate payloadSize 0#8) command request
  have hbyte : ∀ i (hi : i < payloadSize), i < valueMessageSize →
      (carried (requestMessage command request)).payload[i] =
        (Payload.writeValue (Vector.replicate payloadSize 0#8) command request)[i] := by
    intro i hi hlt
    exact (carried_getElem (requestMessage command request) hi).trans (if_pos hlt)
  refine ⟨rfl, ?_, ?_⟩
  · exact (hbyte 0 (by decide) (by decide)).trans hcommand
  · exact (messageValue_congr hbyte).trans hvalue

/-- What the firmware answers to a request of five bytes. -/
structure Answers (mmio : Mmio) (command : U8) (request : U32) (reply : Reply) : Prop where
  result : reply.result = .handled
  length : reply.responseLength = 5#16
  first : reply.response[0] = command
  value : messageValue reply.response = (appHandle mmio command request).2.1
  writes : reply.writes = (appHandle mmio command request).2.2

theorem appHandleMessage_answers {payload response : Payload} {length : U16}
    (hrange : ¬ (command < cmdFirst ∨ cmdLast < command)) (hlength : length = 5#16)
    (hcommand : payload[0] = command) (hvalue : messageValue payload = request) :
    Answers mmio command request
      (appHandleMessage mmio payload length response (BitVec.ofNat 16 payloadSize)) := by
  subst hlength
  have hhandled := @appHandle_handled mmio command request hrange
  unfold appHandleMessage
  rw [if_neg (by decide)]
  simp only [hcommand]
  rw [if_neg hrange]
  by_cases hecho : command = cmdEcho
  · -- the whole message goes back, and with it the value
    rw [if_pos hecho, if_neg (by decide)]
    have hbyte : ∀ i (hi : i < payloadSize), i < valueMessageSize →
        (response.copyFrom payload 5)[i] = payload[i] := by
      intro i hi hlt
      simp only [Payload.copyFrom, Vector.getElem_ofFn]
      exact if_pos hlt
    subst hecho
    exact ⟨rfl, rfl, (hbyte 0 (by decide) (by decide)).trans hcommand,
      (messageValue_congr hbyte).trans hvalue, rfl⟩
  · rw [if_neg hecho, if_neg (by decide), if_pos (by rfl), hvalue]
    obtain ⟨hwritten, hfirst⟩ :=
      messageValue_writeValue response command (appHandle mmio command request).2.1
    rcases happ : appHandle mmio command request with ⟨result, value, writes⟩
    rw [happ] at hhandled hwritten hfirst
    subst hhandled
    refine ⟨rfl, rfl, hfirst, ?_, ?_⟩
    · rw [happ]
      exact hwritten
    · rw [happ]

/-- The message that comes back, and the registers that it was answered with. -/
theorem messageCall_spec (sequence : U32) (hrange : ¬ (command < cmdFirst ∨ cmdLast < command)) :
    (messageCall mmio sequence (requestMessage command request)).1.length = 5#16 ∧
      (messageCall mmio sequence (requestMessage command request)).1.payload[0] = command ∧
      messageValue (messageCall mmio sequence (requestMessage command request)).1.payload =
        (appHandle mmio command request).2.1 ∧
      (messageCall mmio sequence (requestMessage command request)).2 =
        (appHandle mmio command request).2.2 := by
  obtain ⟨hlength, hcommand, hvalue⟩ := @carried_requestMessage command request sequence
  unfold messageCall respond
  generalize ({ carried (requestMessage command request) with sequence := sequence } : Slot) =
    sent at hlength hcommand hvalue ⊢
  have hanswers := @appHandleMessage_answers mmio command request _
    (Vector.replicate payloadSize 0#8) _ hrange hlength hcommand hvalue
  dsimp only
  generalize appHandleMessage mmio sent.payload sent.length (Vector.replicate payloadSize 0#8)
    (BitVec.ofNat 16 payloadSize) = reply at hanswers ⊢
  refine ⟨?_, hanswers.first, hanswers.value, hanswers.writes⟩
  exact (if_pos hanswers.result).trans hanswers.length

theorem callShared_eq (sequence : U32) {timeoutMs : U16} (htimeout : timeoutMs ≠ 0#16)
    (hrange : ¬ (command < cmdFirst ∨ cmdLast < command)) :
    callShared mmio sequence command request timeoutMs =
      (.ok (appHandle mmio command request).2.1, (appHandle mmio command request).2.2) := by
  obtain ⟨hlength, hcommand, hvalue, hwrites⟩ := @messageCall_spec mmio command request sequence hrange
  have hfirst : (messageCall mmio sequence (requestMessage command request)).1.payload.get
      ⟨0, payloadSize_pos⟩ = command := hcommand
  unfold callShared copyMessage
  rw [if_neg htimeout, if_neg hrange]
  simp only [hlength, hfirst, hvalue, hwrites]
  simp

theorem callCmdqu_eq {timeoutMs : U16} (htimeout : timeoutMs ≠ 0#16)
    (hrange : ¬ (command < cmdFirst ∨ cmdLast < command)) :
    callCmdqu mmio command request timeoutMs =
      (.ok (appHandle mmio command request).2.1, (appHandle mmio command request).2.2) := by
  have hhandled := @appHandle_handled mmio command request hrange
  have hhigh : command ≤ cmdLast := BitVec.not_lt.mp fun h => hrange (.inr h)
  have hwidth : (command.setWidth 7).setWidth 8 = command := by
    apply BitVec.eq_of_toNat_eq
    have hle : command.toNat ≤ 0x7e := hhigh
    simp only [BitVec.toNat_setWidth]
    omega
  have hdoorbell : command.setWidth 7 ≠ doorbellCommand := by
    intro h
    rw [h] at hwidth
    rw [← hwidth] at hhigh
    exact absurd hhigh (by decide)
  rcases happ : appHandle mmio command request with ⟨result, value, writes⟩
  rw [happ] at hhandled
  subst hhandled
  have htask : ∀ sent : Command, sent.ipId = ipSystem → sent.cmdId = command.setWidth 7 →
      sent.paramPtr = request →
      runTask mmio sent = (.reply { sent with paramPtr := value, ipId := ipSystem }, writes) := by
    intro sent hip hcmd hparam
    unfold runTask
    rw [if_neg (fun h => hdoorbell (hcmd.symm.trans h.2)), if_pos hip, hcmd, hwidth, hparam, happ]
  unfold callCmdqu sendWait
  rw [if_neg htimeout, if_neg hrange]
  simp only []
  rw [htask _ rfl rfl rfl]
  have hdewait : ∀ reply : Command, reply.rtosValid = 1#8 → reply.linuxValid = 0#8 →
      reply.ipId = ipSystem → reply.block = 1#1 → irqAction reply = .dewait := by
    intro reply hrtos hlinux hip hblock
    have hle := reply.cmdId.isLt
    unfold irqAction
    rw [if_neg (by rw [hblock]; rintro ⟨-, -, -, -, h⟩; exact absurd h (by decide)),
      if_pos ⟨hrtos, hlinux, by unfold nrRtosCmd; omega, by rw [hip]; decide, hblock⟩]
  simp only []
  rw [if_pos ⟨hdewait _ rfl rfl rfl rfl, rfl, rfl⟩]
  simp [Command.fromRtos, Command.fromLinux, Command.withMstime, hwidth]

/-- The transports agree on every command, also on one that is not of the protocol. -/
theorem call_eq (selected selected' : Selected) (mmio : Mmio) (command : U8) (request : U32)
    (timeoutMs : U16) :
    call selected mmio command request timeoutMs = call selected' mmio command request timeoutMs := by
  have hcmdqu : ∀ selected, call selected mmio command request timeoutMs =
      callCmdqu mmio command request timeoutMs := by
    intro selected
    cases selected with
    | cmdqu => rfl
    | sharedMemory sequence =>
        change callShared mmio sequence command request timeoutMs = _
        by_cases htimeout : timeoutMs = 0#16
        · rw [callShared, callCmdqu, if_pos htimeout, if_pos htimeout]
        · by_cases hrange : command < cmdFirst ∨ cmdLast < command
          · rw [callShared, callCmdqu, if_neg htimeout, if_neg htimeout, if_pos hrange,
              if_pos hrange]
          · rw [callShared_eq sequence htimeout hrange, callCmdqu_eq htimeout hrange]
  rw [hcmdqu, hcmdqu]

end Command

end Sg200x.Ipc.Call
