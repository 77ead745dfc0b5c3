import Sg200x.Isp.Requests
import Sg200x.Library.Transition

/-!
# Control sessions

The server of `isp_control.c`, which the stream polls once in each frame, and any number of client
processes with one command each.  Both sides send datagrams, which wait in the queue of the socket
that they are sent to.
-/

namespace Sg200x.Isp.Session

open Library.Transition

variable {n : ℕ}

/-- `CONTROL_MAX_REQUESTS_PER_FRAME` -/
def controlMaxRequestsPerFrame : ℕ := 8

/-- The size of `sun_path`. -/
def sunPathSize : ℕ := 108

/-! ## `maixcam_isp_control_client` -/

/-- What an argument and its index add to the command. -/
def piece (argument : Text × ℕ) : Text :=
  (if argument.2 ≠ 0 then " ".toList else []) ++ argument.1

/-- One round of the loop over `argv`; `none` when the command is too long. -/
def appendArgument (used : Text) (argument : Text × ℕ) : Option Text :=
  if controlCommandSize - used.length ≤ (piece argument).length then none
  else some (used ++ piece argument)

def clientCommand (argv : List Text) : Option Text := argv.zipIdx.foldlM appendArgument []

/-- The abstract address of a client, without the null byte in front. -/
def clientName (pid : ℕ) : Text := "maixcam-ispctl-".toList ++ decimal pid

inductive ClientPc
  | send
  | poll
  | receive
  /-- The exit status, and the response that was printed. -/
  | exited (status : ℕ) (response : Option Text)
  deriving DecidableEq

/-- The socket is open. -/
def ClientPc.bound : ClientPc → Bool
  | .exited _ _ => false
  | _ => true

structure Client where
  argv : List Text
  name : Text
  command : Text
  /-- The queue of its socket. -/
  inbox : List Text
  pc : ClientPc
  deriving DecidableEq

/-- The client up to its `bind`; `bound` unless `socket` or `bind` fails. -/
def startClient (argv : List Text) (pid : ℕ) (bound : Bool) : Client :=
  ⟨argv, clientName pid, (clientCommand argv).getD [], [],
    if argv = [] ∨ clientCommand argv = none then .exited 2 none
    else if sunPathSize - 1 ≤ (clientName pid).length ∨ bound = false then .exited 1 none
    else .send⟩

/-- `strncmp(response, "OK ", 3) ? 1 : 0` -/
def exitStatus (response : Text) : ℕ := if response.take 3 = "OK ".toList then 0 else 1

/-! ## Both sides -/

/-- A datagram in the queue of the server's socket: the address of its sender, when it has one, and
the client that sent it, when it is one of them. -/
structure Datagram where
  client : Option ℕ
  sender : Option Text
  text : Text
  deriving DecidableEq

inductive ServerPc
  /-- The stream is between two calls. -/
  | frame
  | receive (processed : ℕ)
  | reply (processed : ℕ) (client : Option ℕ) (peer response : Text)
  deriving DecidableEq

/-- A request that has been handled, and the state it was handled in. -/
structure Served (n : ℕ) where
  client : Option ℕ
  text : Text
  answers : Answers
  before : Isp.State n

def Served.after (served : Served n) : Isp.State n :=
  (handleDatagram served.answers served.before served.text).1

/-- `strlen(response)` bytes are sent. -/
def Served.response (served : Served n) : Text :=
  cString (handleDatagram served.answers served.before served.text).2

structure State (n : ℕ) where
  isp : Isp.State n
  queue : List Datagram
  server : ServerPc
  clients : List Client
  /-- What has been sent to the server, and what it has handled, in order. -/
  sent : List Datagram
  served : List (Served n)

/-- How a system call ends; the time is up in `poll` only. -/
inductive Outcome
  | done
  | interrupted
  | timedOut
  | failed
  deriving DecidableEq

inductive ServerLabel
  | call
  /-- `recvfrom`, and the answers of the library while the request is handled. -/
  | receive (answers : Answers)
  | reply
  | interrupted
  | failed

inductive Label
  | start (argv : List Text) (pid : ℕ) (bound : Bool)
  | client (i : ℕ) (outcome : Outcome)
  | server (l : ServerLabel)
  /-- Another process sends a datagram. -/
  | outside (sender : Option Text) (text : Text)

def State.inUse (s : State n) (name : Text) : Bool :=
  s.clients.any fun client => client.pc.bound && client.name == name

def State.send (s : State n) (datagram : Datagram) : State n :=
  { s with queue := s.queue ++ [datagram], sent := s.sent ++ [datagram] }

def State.setClient (s : State n) (i : ℕ) (client : Client) : State n :=
  { s with clients := s.clients.set i client }

def clientStep (s : State n) (i : ℕ) (client : Client) : ClientPc → Outcome → Option (State n)
  | .send, .done =>
      some ((s.send ⟨some i, some client.name, client.command⟩).setClient i
        { client with pc := .poll })
  | .send, .failed => some (s.setClient i { client with pc := .exited 1 none })
  | .poll, .done =>
      if client.inbox = [] then none else some (s.setClient i { client with pc := .receive })
  | .poll, .timedOut =>
      if client.inbox = [] then some (s.setClient i { client with pc := .exited 1 none }) else none
  | .poll, .failed => some (s.setClient i { client with pc := .exited 1 none })
  | .receive, .done =>
      match client.inbox with
      | [] => none
      | datagram :: inbox =>
          let response := datagram.take (controlResponseSize - 1)
          some (s.setClient i
            { client with inbox := inbox, pc := .exited (exitStatus response) (some response) })
  | .receive, .failed => some (s.setClient i { client with pc := .exited 1 none })
  | .send, .interrupted => some s
  | .poll, .interrupted => some s
  | .receive, .interrupted => some s
  | _, _ => none

/-! ## `maixcam_isp_control_server_poll` -/

def Client.deliver (peer response : Text) (client : Client) : Client :=
  if client.pc.bound ∧ client.name = peer then
    { client with inbox := client.inbox ++ [response] }
  else client

/-- `command` holds what fits of the datagram. -/
def serve (s : State n) (processed : ℕ) (answers : Answers) : State n :=
  match s.queue with
  | [] => { s with server := .frame }
  | datagram :: queue =>
      match datagram.sender with
      | none => { s with queue := queue, server := .receive (processed + 1) }
      | some peer =>
          let served : Served n :=
            ⟨datagram.client, datagram.text.take controlCommandSize, answers, s.isp⟩
          { s with
            isp := served.after
            queue := queue
            server := .reply (processed + 1) datagram.client peer served.response
            served := s.served ++ [served] }

def serverStep (s : State n) : ServerPc → ServerLabel → Option (State n)
  | .frame, .call => some { s with server := .receive 0 }
  | .receive processed, .receive answers =>
      if processed < controlMaxRequestsPerFrame then some (serve s processed answers)
      else some { s with server := .frame }
  | .receive _, .failed => some { s with server := .frame }
  | .reply processed _ peer response, .reply =>
      some { s with
        clients := s.clients.map (Client.deliver peer response)
        server := .receive processed }
  | .reply _ _ _ _, .interrupted => some s
  | .reply _ _ _ _, .failed => some { s with server := .frame }
  | _, _ => none

/-- An address is bound by one socket at a time. -/
def step : Label → State n → Option (State n)
  | .start argv pid bound, s =>
      if bound = true ∧ s.inUse (clientName pid) then none
      else some { s with clients := s.clients ++ [startClient argv pid bound] }
  | .client i outcome, s => do
      let client ← s.clients[i]?
      clientStep s i client client.pc outcome
  | .server l, s => serverStep s s.server l
  | .outside sender text, s =>
      if sender.any s.inUse then none else some (s.send ⟨none, sender, text⟩)

def State.initial (isp : Isp.State n) : State n := ⟨isp, [], .frame, [], [], []⟩

def control (isp : Isp.State n) : System (State n) Label where
  start s := s = State.initial isp
  step := step

end Sg200x.Isp.Session
