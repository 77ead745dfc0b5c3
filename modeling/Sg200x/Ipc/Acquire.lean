import Sg200x.Ipc.Driver

/-!
# Acquiring and releasing the channel

`acquire` with `initialize_generation`, and `sg2002_rtos_shm_linux_release`.  The part
that holds `owner_lock` is a program counter whose steps make one access each; after it
has unlocked, an ACQUIRE waits for the firmware outside the lock.
-/

namespace Sg200x.Ipc

open Shm RingCore

def Ring.cleared : Ring := ⟨0#32, 0#32, fun _ => Slot.zero⟩

def Region.cleared : Region where
  layout := ⟨0#32, 0#16, 0#16, 0#32, 0#16, 0#16, 0#32, 0#32, 0#32, 0#32⟩
  linuxPeer := ⟨0#32, 0#32⟩
  rtosPeer := ⟨0#32, 0#32⟩
  request := Ring.cleared
  response := Ring.cleared

namespace Driver

/-! ## `initialize_generation` -/

/-- What `memset_io` clears at a time: a doubleword of the layout line, another line
or a slot. -/
inductive Piece
  | magic
  | regionSize
  | requestOffset
  | generation
  | linuxPeer
  | rtosPeer
  | requestProducer
  | requestConsumer
  | responseProducer
  | responseConsumer
  | requestSlot (i : Fin slotCount)
  | responseSlot (i : Fin slotCount)
  deriving DecidableEq

def Piece.clear (region : Region) : Piece → Region
  | .magic =>
      { region with
        layout := { region.layout with magic := 0#32, abiVersion := 0#16, controlSize := 0#16 } }
  | .regionSize =>
      { region with
        layout := { region.layout with regionSize := 0#32, slotSize := 0#16, slotCount := 0#16 } }
  | .requestOffset =>
      { region with
        layout := { region.layout with requestOffset := 0#32, responseOffset := 0#32 } }
  | .generation =>
      { region with layout := { region.layout with generation := 0#32, features := 0#32 } }
  | .linuxPeer => { region with linuxPeer := ⟨0#32, 0#32⟩ }
  | .rtosPeer => { region with rtosPeer := ⟨0#32, 0#32⟩ }
  | .requestProducer => { region with request := { region.request with producer := 0#32 } }
  | .requestConsumer => { region with request := { region.request with consumer := 0#32 } }
  | .responseProducer => { region with response := { region.response with producer := 0#32 } }
  | .responseConsumer => { region with response := { region.response with consumer := 0#32 } }
  | .requestSlot i => { region with request := region.request.writeSlot i Slot.zero }
  | .responseSlot i => { region with response := region.response.writeSlot i Slot.zero }

/-- The pieces in the order of their addresses. -/
def pieces : List Piece :=
  [.magic, .regionSize, .requestOffset, .generation, .linuxPeer, .rtosPeer, .requestProducer,
    .requestConsumer, .responseProducer, .responseConsumer] ++
    (List.finRange slotCount).map .requestSlot ++ (List.finRange slotCount).map .responseSlot

def clearAll (pieces : List Piece) (region : Region) : Region := pieces.foldl Piece.clear region

theorem clearAll_requestSlots (indices : List (Fin slotCount)) (region : Region) :
    clearAll (indices.map .requestSlot) region =
      { region with
        request :=
          { region.request with
            slots := fun i => if i ∈ indices then Slot.zero else region.request.slots i } } := by
  induction indices generalizing region with
  | nil => simp [clearAll]
  | cons index indices ih =>
      change clearAll (indices.map .requestSlot) (Piece.clear region (.requestSlot index)) = _
      rw [ih]
      simp only [Piece.clear, Ring.writeSlot_producer, Ring.writeSlot_consumer,
        Ring.writeSlot_slots, Function.update_apply, List.mem_cons]
      grind

theorem clearAll_responseSlots (indices : List (Fin slotCount)) (region : Region) :
    clearAll (indices.map .responseSlot) region =
      { region with
        response :=
          { region.response with
            slots := fun i => if i ∈ indices then Slot.zero else region.response.slots i } } := by
  induction indices generalizing region with
  | nil => simp [clearAll]
  | cons index indices ih =>
      change clearAll (indices.map .responseSlot) (Piece.clear region (.responseSlot index)) = _
      rw [ih]
      simp only [Piece.clear, Ring.writeSlot_producer, Ring.writeSlot_consumer,
        Ring.writeSlot_slots, Function.update_apply, List.mem_cons]
      grind

/-- The pieces make up the whole region. -/
theorem clearAll_pieces (region : Region) : clearAll pieces region = Region.cleared := by
  unfold pieces
  rw [clearAll, List.foldl_append, List.foldl_append, ← clearAll, ← clearAll, ← clearAll,
    clearAll_responseSlots, clearAll_requestSlots]
  simp only [List.mem_finRange, if_true]
  rfl

/-- The stores of `initialize_generation` after the `memset_io`. -/
inductive InitWrite
  | abiVersion
  | controlSize
  | regionSize
  | slotSize
  | slotCount
  | requestOffset
  | responseOffset
  | layoutGeneration
  | features
  | magic
  | linuxGeneration
  | linuxState
  | generation
  | nextSequence
  deriving DecidableEq

def initWrites : List InitWrite :=
  [.abiVersion, .controlSize, .regionSize, .slotSize, .slotCount, .requestOffset,
    .responseOffset, .layoutGeneration, .features, .magic, .linuxGeneration, .linuxState,
    .generation, .nextSequence]

def InitWrite.layout (generation : U32) (layout : LayoutLine) : InitWrite → LayoutLine
  | .abiVersion => { layout with abiVersion := Shm.abiVersion }
  | .controlSize => { layout with controlSize := Shm.controlSize }
  | .regionSize => { layout with regionSize := Shm.regionSize }
  | .slotSize => { layout with slotSize := Shm.slotSize }
  | .slotCount => { layout with slotCount := BitVec.ofNat 16 Shm.slotCount }
  | .requestOffset => { layout with requestOffset := Shm.requestOffset }
  | .responseOffset => { layout with responseOffset := Shm.responseOffset }
  | .layoutGeneration => { layout with generation := generation }
  | .features => { layout with features := Shm.features }
  | .magic => { layout with magic := Shm.magic }
  | _ => layout

def InitWrite.peer (generation : U32) (peer : PeerLine) : InitWrite → PeerLine
  | .linuxGeneration => { peer with generation := generation }
  | .linuxState => { peer with state := stateReady }
  | _ => peer

def InitWrite.transport (generation : U32) (transport : Transport) : InitWrite → Transport
  | .generation => { transport with generation := generation }
  | .nextSequence => { transport with nextSequence := 1#32 }
  | _ => transport

/-- The generation after `previous_generation`; it is never zero. -/
def nextGeneration (previous : U32) : U32 :=
  if previous + 1#32 = 0#32 then 1#32 else previous + 1#32

/-! ## `acquire` under `owner_lock` -/

/-- `previous` is `previous_generation`. -/
inductive AcquirePc
  | shuttingDown
  | owner
  | layoutValid (reads : List LayoutRead)
  | layoutGeneration
  | rtosState (previous : U32)
  | rtosGeneration (previous : U32)
  | setOwner (previous : U32) (quiesce : Bool)
  | offline (previous : U32)
  | clearMagic (previous : U32)
  | clearGeneration (previous : U32)
  /-- Reads the number of notifications. -/
  | snapshot (previous : U32)
  | quiesceKick (previous notification : U32) (pc : KickPc)
  | wait (previous notification : U32)
  /-- After the wait, which ended with `answer`. -/
  | awake (previous : U32) (answer : Answer)
  | clear (previous : U32) (quiesce : Bool) (pieces : List Piece)
  | init (generation : U32) (writes : List InitWrite)
  | kick (pc : KickPc)

/-- How `acquire` leaves the part that holds `owner_lock`. -/
inductive AcquireExit
  | failed (ret : Errno)
  /-- It goes on to release the channel. -/
  | release (ret : Errno)
  /-- It goes on to wait for the firmware. -/
  | ready

def acquireStep (file : File) (answer : Answer) (transport : Transport) (region : Region) :
    AcquirePc → Outcome AcquirePc AcquireExit × Transport × Region
  | .shuttingDown =>
      (if transport.shuttingDown then .returned (.failed .enodev) else .running .owner,
        transport, region)
  | .owner =>
      (match transport.owner with
        | none => .running (.layoutValid layoutValid)
        | some other => .returned (if other = file then .ready else .failed .ebusy),
        transport, region)
  | .layoutValid [] => (.running .layoutGeneration, transport, region)
  | .layoutValid (read :: reads) =>
      (if read.passes region.layout 0#32 then .running (.layoutValid reads)
        else .running (.setOwner 0#32 false), transport, region)
  | .layoutGeneration =>
      (if region.layout.generation = 0#32 then .running (.setOwner 0#32 false)
        else .running (.rtosState region.layout.generation), transport, region)
  | .rtosState previous =>
      (if region.rtosPeer.state = stateReady then .running (.rtosGeneration previous)
        else .running (.setOwner previous false), transport, region)
  | .rtosGeneration previous =>
      (.running (.setOwner previous (region.rtosPeer.generation = previous)), transport, region)
  | .setOwner previous quiesce =>
      (.running (if quiesce then .offline previous else .clear previous false pieces),
        { transport with owner := some file }, region)
  | .offline previous =>
      (.running (.clearMagic previous), transport,
        { region with linuxPeer := { region.linuxPeer with state := stateOffline } })
  | .clearMagic previous =>
      (.running (.clearGeneration previous), transport,
        { region with layout := { region.layout with magic := 0#32 } })
  | .clearGeneration previous =>
      (.running (.snapshot previous), { transport with generation := 0#32 }, region)
  | .snapshot previous =>
      (.running (.quiesceKick previous transport.notifications .shuttingDown), transport, region)
  | .quiesceKick previous notification pc =>
      match kickStep answer transport pc with
      | (.running pc', transport) =>
          (.running (.quiesceKick previous notification pc'), transport, region)
      | (.returned _, transport) => (.running (.wait previous notification), transport, region)
  | .wait previous notification =>
      (if transport.shuttingDown ∨ transport.notifications ≠ notification then
          .running (.awake previous .done)
        else if answer = .expired ∨ answer = .interrupted then .running (.awake previous answer)
        else .running (.wait previous notification), transport, region)
  | .awake previous answer =>
      (if transport.shuttingDown then .returned (.failed .enodev)
        else match answer with
          | .expired => .returned (.release .etimedout)
          | .interrupted => .returned (.release .erestartsys)
          | _ => .running (.clear previous true pieces), transport, region)
  | .clear previous _ [] =>
      (.running (.init (nextGeneration previous) initWrites), transport, region)
  | .clear previous quiesce (piece :: pieces) =>
      (.running (.clear previous quiesce pieces), transport, piece.clear region)
  | .init _ [] => (.running (.kick .shuttingDown), transport, region)
  | .init generation (write :: writes) =>
      (.running (.init generation writes), write.transport generation transport,
        { region with
          layout := write.layout generation region.layout
          linuxPeer := write.peer generation region.linuxPeer })
  | .kick pc =>
      match kickStep answer transport pc with
      | (.running pc', transport) => (.running (.kick pc'), transport, region)
      | (.returned _, transport) => (.returned .ready, transport, region)

/-! ## `acquire` after the unlock -/

inductive OutsidePc
  /-- Tests the condition of the wait; `ended` says how the sleep before it ended. -/
  | ready (ended : Answer) (pc : ReadyPc)
  | asleep
  | copy
  /-- Waits for `owner_lock` to release the channel. -/
  | release

/-- A wait that is over gives the channel back, unless the driver shuts down. -/
def outsideStep (answer : Answer) (transport : Transport) (region : Region) :
    OutsidePc → Outcome OutsidePc Errno
  | .ready ended pc =>
      match readyStep transport region pc with
      | .running pc' => .running (.ready ended pc')
      | .returned true => if transport.shuttingDown then .returned .enodev else .running .copy
      | .returned false =>
          if transport.shuttingDown then .returned .enodev
          else if ended = .expired ∨ ended = .interrupted then .running .release
          else .running .asleep
  | .asleep => .running (.ready answer .start)
  | .copy => if answer = .fault then .running .release else .returned .ok
  | .release => .running .release

/-! ## `sg2002_rtos_shm_linux_release` -/

inductive ReleasePc
  | owner
  | shuttingDown
  | offline
  | clearOwner

def releaseStep (file : File) (transport : Transport) (region : Region) :
    ReleasePc → Outcome ReleasePc Unit × Transport × Region
  | .owner =>
      (if transport.owner = some file then .running .shuttingDown else .returned (),
        transport, region)
  | .shuttingDown =>
      (.running (if transport.shuttingDown then .clearOwner else .offline), transport, region)
  | .offline =>
      (.running .clearOwner, transport,
        { region with linuxPeer := { region.linuxPeer with state := stateOffline } })
  | .clearOwner => (.returned (), { transport with owner := none }, region)

end Driver

end Sg200x.Ipc
