import Sg200x.Ipc.Acquire
import Sg200x.Ipc.FirmwareFacts
import Sg200x.Library.Transition

/-!
# The hand-over of the channel between files

Any number of threads acquire, use and close any number of files, while the firmware
handles doorbells and its replies wait in the mailbox.  A call that has passed its
ownership check waits for its lock in a queue; the part of a call that holds a lock goes
on access by access.  A doorbell may reach the command task at any time, and nothing
here reads what `kick_work` writes, so that it has no step.
-/

namespace Sg200x.Ipc.Handover

open Shm RingCore App Firmware Driver Library.Transition

inductive Holder
  | acquire (pc : AcquirePc)
  | release (pc : ReleasePc)

structure State where
  transport : Transport
  region : Region
  /-- The call that holds `owner_lock`. -/
  holder : Option (File × Holder)
  /-- The ACQUIREs after their unlock and the closes that wait for the lock. -/
  outside : List (File × OutsidePc)
  /-- The calls that have passed `is_owner` and wait for `tx_lock` or `rx_lock`. -/
  txQueue : List (File × TxCall)
  rxQueue : List (File × RxCall)
  tx : Option (File × TxCall × TxPc)
  rx : Option (File × RxCall × RxPc)
  shutdownComplete : Bool
  firmware : Option ProcessPc
  statics : Statics
  /-- The command task is about to post the reply to a doorbell. -/
  replying : Bool
  /-- The doorbell replies that Linux has not handled yet. -/
  replies : ℕ
  /-- The file whose ACQUIRE cleared the region last. -/
  acquirer : Option File
  /-- The region has been cleared, and the firmware has not published READY since. -/
  pristine : Bool
  /-- The process call goes on with values it read before the region was cleared. -/
  stale : Bool
  /-- The generation published last. -/
  current : U32
  /-- The generations published since the firmware attached. -/
  age : ℕ

inductive Label
  | acquire (file : File)
  | holder (answer : Answer)
  | outside (i : ℕ) (answer : Answer)
  | close (file : File)
  | admitTx (file : File) (call : TxCall)
  /-- A signal ends the wait for the lock. -/
  | leaveTx (i : ℕ)
  | lockTx (i : ℕ)
  | tx (answer : Answer)
  | admitRx (file : File) (call : RxCall)
  | leaveRx (i : ℕ)
  | lockRx (i : ℕ)
  | rx (answer : Answer)
  | process
  | firmware (mmio : Mmio)
  | reply (sent : Bool)
  /-- `rtos_irq_handler` takes a doorbell reply. -/
  | irq
  | shutdown
  /-- `sg2002_rtos_shm_linux_shutdown` has got the three locks. -/
  | finishShutdown
  | create

/-! ## What is recorded -/

/-- The next step takes or uses a value of the rings. -/
def holdsValues : ProcessPc → Bool
  | .canPush _ (.readConsumer _) | .tryPop _ _ | .handle _ | .tryPush _ _ => true
  | _ => false

def recordAcquire (s : State) (file : File) : AcquirePc → State
  | .clear _ _ (_ :: _) =>
      { s with
        acquirer := some file
        pristine := false
        stale := s.stale || s.firmware.any holdsValues }
  | .clear _ _ [] => { s with pristine := true }
  | .init generation (.layoutGeneration :: _) =>
      { s with current := generation, age := s.age + 1 }
  | _ => s

/-! ## The calls -/

def holderStep (s : State) (answer : Answer) : Option State :=
  match s.holder with
  | none => none
  | some (file, .acquire pc) =>
      let (out, transport, region) := acquireStep file answer s.transport s.region pc
      let t := { recordAcquire s file pc with transport, region }
      match out with
      | .running pc' => some { t with holder := some (file, .acquire pc') }
      | .returned (.failed _) => some { t with holder := none }
      | .returned (.release _) =>
          some { t with holder := none, outside := t.outside ++ [(file, .release)] }
      | .returned .ready =>
          some { t with holder := none, outside := t.outside ++ [(file, .ready .done .start)] }
  | some (file, .release pc) =>
      let (out, transport, region) := releaseStep file s.transport s.region pc
      some { s with transport, region, holder := out.pc?.map fun pc' => (file, .release pc') }

def outsideStep (s : State) (i : ℕ) (answer : Answer) : Option State :=
  match s.outside[i]? with
  | none => none
  | some (file, .release) =>
      match s.holder with
      | none =>
          some { s with holder := some (file, .release .owner), outside := s.outside.eraseIdx i }
      | some _ => none
  | some (file, pc) =>
      match Driver.outsideStep answer s.transport s.region pc with
      | .running pc' => some { s with outside := s.outside.set i (file, pc') }
      | .returned _ => some { s with outside := s.outside.eraseIdx i }

def txStep (s : State) (answer : Answer) : Option State :=
  match s.tx with
  | none => none
  | some (file, call, pc) =>
      let (out, transport, region) := Driver.txStep call answer s.transport s.region pc
      some { s with transport, region, tx := out.pc?.map fun pc' => (file, call, pc') }

def rxStep (s : State) (answer : Answer) : Option State :=
  match s.rx with
  | none => none
  | some (file, call, pc) =>
      let (out, transport, region) := Driver.rxStep call answer s.transport s.region pc
      some { s with transport, region, rx := out.pc?.map fun pc' => (file, call, pc') }

/-- A close comes after every call on the file, since a call holds a reference to it. -/
def inFlight (s : State) (file : File) : Bool :=
  s.holder.any (·.1 == file) || s.outside.any (·.1 == file) || s.txQueue.any (·.1 == file) ||
    s.rxQueue.any (·.1 == file) || s.tx.any (·.1 == file) || s.rx.any (·.1 == file)

/-! ## The firmware -/

def firmwareStep (s : State) (mmio : Mmio) : Option State :=
  match s.firmware with
  | none => none
  | some pc =>
      let (out, region, statics) := processStep mmio s.region s.statics pc
      some { s with
        region
        statics
        firmware := out.pc?
        replying := out.pc?.isNone
        stale := s.stale && out.pc?.any holdsValues
        pristine := s.pristine && !(pc matches .attachState _)
        age := if statics.activeGeneration = s.statics.activeGeneration then s.age else 0 }

/-! ## The driver's life -/

/-- The transport `sg2002_rtos_shm_linux_create` returns. -/
def created : Transport := ⟨none, 0#32, 0#32, 0#32, 0, false, false⟩

def finishShutdown (s : State) : Option State :=
  if s.transport.shuttingDown ∧ s.shutdownComplete = false ∧ s.holder.isNone ∧ s.tx.isNone ∧
      s.rx.isNone then
    some { s with
      transport := { s.transport with owner := none, generation := 0#32, kickScheduled := false }
      region := { s.region with linuxPeer := { s.region.linuxPeer with state := stateOffline } }
      shutdownComplete := true }
  else none

def create (s : State) : Option State :=
  if s.shutdownComplete ∧ s.holder.isNone ∧ s.outside.isEmpty ∧ s.txQueue.isEmpty ∧
      s.rxQueue.isEmpty ∧ s.tx.isNone ∧ s.rx.isNone then
    some { s with transport := created, shutdownComplete := false }
  else none

def step : Label → State → Option State
  | .acquire file, s =>
      match s.holder with
      | none => some { s with holder := some (file, .acquire .shuttingDown) }
      | some _ => none
  | .holder answer, s => holderStep s answer
  | .outside i answer, s => outsideStep s i answer
  | .close file, s =>
      if inFlight s file then none else some { s with outside := s.outside ++ [(file, .release)] }
  | .admitTx file call, s =>
      if isOwner s.transport file then some { s with txQueue := s.txQueue ++ [(file, call)] }
      else none
  | .leaveTx i, s => some { s with txQueue := s.txQueue.eraseIdx i }
  | .lockTx i, s =>
      match s.tx, s.txQueue[i]? with
      | none, some (file, call) =>
          some { s with
            tx := call.enter.pc?.map fun pc => (file, call, pc)
            txQueue := s.txQueue.eraseIdx i }
      | _, _ => none
  | .tx answer, s => txStep s answer
  | .admitRx file call, s =>
      if isOwner s.transport file then some { s with rxQueue := s.rxQueue ++ [(file, call)] }
      else none
  | .leaveRx i, s => some { s with rxQueue := s.rxQueue.eraseIdx i }
  | .lockRx i, s =>
      match s.rx, s.rxQueue[i]? with
      | none, some (file, call) =>
          some { s with
            rx := call.enter.pc?.map fun pc => (file, call, pc)
            rxQueue := s.rxQueue.eraseIdx i }
      | _, _ => none
  | .rx answer, s => rxStep s answer
  | .process, s =>
      if s.firmware.isNone ∧ s.replying = false then some { s with firmware := some .readGeneration }
      else none
  | .firmware mmio, s => firmwareStep s mmio
  | .reply sent, s =>
      if s.replying then
        some { s with replying := false, replies := if sent then s.replies + 1 else s.replies }
      else none
  | .irq, s =>
      if s.replies = 0 then none
      else if s.transport.shuttingDown then some { s with replies := s.replies - 1 }
      else some { s with
        replies := s.replies - 1
        transport := { s.transport with notifications := s.transport.notifications + 1#32 } }
  | .shutdown, s => some { s with transport := { s.transport with shuttingDown := true } }
  | .finishShutdown, s => finishShutdown s
  | .create, s => create s

/-- The driver has been created, and the firmware is not attached; nothing is known about
the region. -/
structure Start (s : State) : Prop where
  transport : s.transport = created
  holder : s.holder = none
  outside : s.outside = []
  txQueue : s.txQueue = []
  rxQueue : s.rxQueue = []
  tx : s.tx = none
  rx : s.rx = none
  shutdownComplete : s.shutdownComplete = false
  firmware : s.firmware = none
  active : s.statics.activeGeneration = 0#32
  replying : s.replying = false
  pristine : s.pristine = false
  stale : s.stale = false
  acquirer : s.acquirer = none
  current : s.current = s.region.layout.generation

def system : System State Label := ⟨Start, step⟩

/-! ## What a call has read of the region

Before a call uses a ring it reads, one after the other, the fields that `rtos_ready`
tests. -/

/-- The reads that are left between the call and the ring. -/
def txPending : TxPc → Option (List ReadyRead)
  | .stale _ => some rtosReady
  | .ready _ pc => some pc.reads
  | _ => none

def rxPending : RxPc → Option (List ReadyRead)
  | .stale _ => some rtosReady
  | .ready _ pc => some pc.reads
  | _ => none

/-- The call has made this read, and the test that comes with it. -/
def Past (read : ReadyRead) (pending : Option (List ReadyRead)) : Prop :=
  ∀ reads, pending = some reads → read ∉ reads

instance (read : ReadyRead) : (pending : Option (List ReadyRead)) → Decidable (Past read pending)
  | none => isTrue nofun
  | some reads =>
      decidable_of_iff (read ∉ reads)
        ⟨fun h _ heq => Option.some.inj heq ▸ h, fun h => h reads rfl⟩

/-- What is left to read after a step of a call that had `reads` left. -/
def ReadsOn (transport : Transport) (region : Region) (reads : List ReadyRead)
    (pending : Option (List ReadyRead)) : Prop :=
  pending = some rtosReady ∨
    (∃ read rest generation, reads = read :: rest ∧
      read.passes transport region generation = true ∧ pending = some rest) ∨
    reads = [] ∧ pending = none

theorem readyStep_running {transport : Transport} {region : Region} {pc pc' : ReadyPc}
    (h : readyStep transport region pc = .running pc') :
    ∃ read rest, pc.reads = read :: rest ∧ read.passes transport region pc.generation = true ∧
      pc'.reads = rest := by
  unfold readyStep at h
  split at h
  · cases h
  · rename_i read rest hreads
    by_cases hpasses : read.passes transport region pc.generation = true
    · rw [if_pos hpasses] at h
      cases h
      exact ⟨read, rest, hreads, hpasses, rfl⟩
    · rw [if_neg hpasses] at h
      cases h

theorem readyStep_true {transport : Transport} {region : Region} {pc : ReadyPc}
    (h : readyStep transport region pc = .returned true) : pc.reads = [] := by
  unfold readyStep at h
  split at h
  · assumption
  · rename_i read rest _
    by_cases hpasses : read.passes transport region pc.generation = true
    · rw [if_pos hpasses] at h
      cases h
    · rw [if_neg hpasses] at h
      cases h

theorem txPending_loop (call : TxCall) (expired : Bool) :
    txPending (call.loop expired) = some rtosReady := by
  unfold TxCall.loop
  split_ifs <;> rfl

theorem rxPending_loop (call : RxCall) (expired : Bool) :
    rxPending (call.loop expired) = some rtosReady := by
  unfold RxCall.loop
  split_ifs <;> rfl

/-- A call that still reads leaves the region alone. -/
theorem txStep_pending (call : TxCall) (answer : Answer) (transport : Transport) (region : Region)
    {pc : TxPc} {reads : List ReadyRead} (hpending : txPending pc = some reads) :
    (Driver.txStep call answer transport region pc).2 = (transport, region) ∧
      ∀ pc', (Driver.txStep call answer transport region pc).1 = .running pc' →
        ReadsOn transport region reads (txPending pc') := by
  cases pc with
  | stale expired =>
      refine ⟨rfl, fun pc' hout => ?_⟩
      simp only [Driver.txStep] at hout
      split_ifs at hout
      cases hout
      exact .inl rfl
  | ready expired pc =>
      obtain rfl : pc.reads = reads := Option.some.inj hpending
      refine ⟨rfl, fun pc' hout => ?_⟩
      simp only [Driver.txStep] at hout
      split at hout
      · rename_i next hnext
        cases hout
        obtain ⟨read, rest, hreads, hpasses, hrest⟩ := readyStep_running hnext
        exact .inr (.inl ⟨read, rest, pc.generation, hreads, hpasses, congrArg some hrest⟩)
      · rename_i hnext
        cases hout
        exact .inr (.inr ⟨readyStep_true hnext, rfl⟩)
      · cases hout
  | _ => cases hpending

theorem rxStep_pending (call : RxCall) (answer : Answer) (transport : Transport) (region : Region)
    {pc : RxPc} {reads : List ReadyRead} (hpending : rxPending pc = some reads) :
    (Driver.rxStep call answer transport region pc).2 = (transport, region) ∧
      ∀ pc', (Driver.rxStep call answer transport region pc).1 = .running pc' →
        ReadsOn transport region reads (rxPending pc') := by
  cases pc with
  | stale expired =>
      refine ⟨rfl, fun pc' hout => ?_⟩
      simp only [Driver.rxStep] at hout
      split_ifs at hout
      cases hout
      exact .inl rfl
  | ready expired pc =>
      obtain rfl : pc.reads = reads := Option.some.inj hpending
      refine ⟨rfl, fun pc' hout => ?_⟩
      simp only [Driver.rxStep] at hout
      split at hout
      · rename_i next hnext
        cases hout
        obtain ⟨read, rest, hreads, hpasses, hrest⟩ := readyStep_running hnext
        exact .inr (.inl ⟨read, rest, pc.generation, hreads, hpasses, congrArg some hrest⟩)
      · rename_i hnext
        cases hout
        exact .inr (.inr ⟨readyStep_true hnext, rfl⟩)
      · cases hout
  | _ => cases hpending

/-- A call that is through with its reads reads again only from the start. -/
theorem txStep_through {call : TxCall} {answer : Answer} {transport : Transport}
    {region : Region} {pc pc' : TxPc} (hpending : txPending pc = none)
    (hout : (Driver.txStep call answer transport region pc).1 = .running pc') :
    txPending pc' = none ∨ txPending pc' = some rtosReady := by
  cases pc with
  | stale | ready => cases hpending
  | wait =>
      simp only [Driver.txStep, waitEnd] at hout
      split_ifs at hout
      cases hout
      exact .inr (txPending_loop call _)
  | readConsumer expired producer =>
      simp only [Driver.txStep] at hout
      split at hout
      · cases hout
      · split_ifs at hout <;> cases hout <;> exact .inl rfl
  | copyOut | restale | copySlot =>
      simp only [Driver.txStep] at hout
      split_ifs at hout <;> cases hout <;> exact .inl rfl
  | reready producer stamped pc =>
      simp only [Driver.txStep] at hout
      split at hout <;> cases hout <;> exact .inl rfl
  | kick pc =>
      simp only [Driver.txStep] at hout
      split at hout <;> cases hout
      exact .inl rfl
  | readProducer | sequence | publish => cases hout; exact .inl rfl

theorem rxStep_through {call : RxCall} {answer : Answer} {transport : Transport}
    {region : Region} {pc pc' : RxPc} (hpending : rxPending pc = none)
    (hout : (Driver.rxStep call answer transport region pc).1 = .running pc') :
    rxPending pc' = none ∨ rxPending pc' = some rtosReady := by
  cases pc with
  | stale | ready => cases hpending
  | wait =>
      simp only [Driver.rxStep, waitEnd] at hout
      split_ifs at hout
      cases hout
      exact .inr (rxPending_loop call _)
  | readConsumer expired producer | peekConsumer ret producer =>
      simp only [Driver.rxStep] at hout
      split at hout
      · cases hout
      · split_ifs at hout <;> cases hout <;> exact .inl rfl
  | copySlot | copyOut | restale =>
      simp only [Driver.rxStep] at hout
      split_ifs at hout <;> cases hout <;> exact .inl rfl
  | reready consumer batch pc =>
      simp only [Driver.rxStep] at hout
      split at hout <;> cases hout <;> exact .inl rfl
  | kick ret pc =>
      simp only [Driver.rxStep] at hout
      split at hout <;> cases hout
      exact .inl rfl
  | readProducer | publish | peekProducer => cases hout; exact .inl rfl

/-- The reads of a call come in the order of `rtos_ready`. -/
def Ordered (pending : Option (List ReadyRead)) : Prop :=
  ∀ reads, pending = some reads → reads ∈ rtosReady.tails

theorem ordered_start : Ordered (some rtosReady) := by
  rintro _ ⟨⟩
  decide

theorem ReadsOn.ordered {transport : Transport} {region : Region} {reads : List ReadyRead}
    {pending : Option (List ReadyRead)} (h : ReadsOn transport region reads pending)
    (hordered : Ordered (some reads)) : Ordered pending := by
  rcases h with rfl | ⟨read, rest, generation, rfl, -, rfl⟩ | ⟨-, rfl⟩
  · exact ordered_start
  · rintro _ ⟨⟩
    have htails := hordered _ rfl
    rw [List.mem_tails] at htails ⊢
    exact (List.suffix_cons read rest).trans htails
  · rintro _ ⟨⟩

/-- A test that fails is not passed. -/
theorem ReadsOn.not_past {transport : Transport} {region : Region} {reads : List ReadyRead}
    {pending : Option (List ReadyRead)} (h : ReadsOn transport region reads pending)
    {read : ReadyRead} (hread : read ∈ rtosReady) (hpast : ¬ Past read (some reads))
    (hfails : ∀ generation, read.passes transport region generation = false) :
    ¬ Past read pending := by
  have hmem : read ∈ reads := by
    by_contra hnot
    exact hpast fun reads' heq => Option.some.inj heq ▸ hnot
  rcases h with rfl | ⟨head, rest, generation, rfl, hpasses, rfl⟩ | ⟨rfl, -⟩
  · exact fun hnot => hnot _ rfl hread
  · intro hnot
    rcases List.mem_cons.mp hmem with rfl | hrest
    · rw [hfails generation] at hpasses
      cases hpasses
    · exact hnot _ rfl hrest
  · cases hmem

/-- The reads before a read that has been made have been made. -/
theorem Past.earlier {pending : Option (List ReadyRead)} (h : Past .rtosState pending)
    (hordered : Ordered pending) : Past (.layout .magic) pending := by
  have horder : ∀ reads ∈ rtosReady.tails, .rtosState ∉ reads → .layout .magic ∉ reads := by decide
  exact fun reads heq => horder reads (hordered reads heq) (h reads heq)

/-- What a step of a call does to the reads it has left: `pending` before the step and
`next` after it, unless the call returns. -/
structure CallStep (transport transport' : Transport) (region region' : Region)
    (pending : Option (List ReadyRead)) (next : Option (Option (List ReadyRead))) : Prop where
  reading : ∀ reads, pending = some reads →
    (transport', region') = (transport, region) ∧
      ∀ after, next = some after → ReadsOn transport region reads after
  through : pending = none → ∀ after, next = some after → after = none ∨ after = some rtosReady

theorem txStep_callStep (call : TxCall) (answer : Answer) (transport : Transport) (region : Region)
    (pc : TxPc) :
    CallStep transport (Driver.txStep call answer transport region pc).2.1 region
      (Driver.txStep call answer transport region pc).2.2 (txPending pc)
      ((Driver.txStep call answer transport region pc).1.pc?.map txPending) := by
  have hrunning : ∀ {out : Outcome TxPc Errno} {after},
      out.pc?.map txPending = some after → ∃ pc', out = .running pc' ∧ txPending pc' = after := by
    rintro (pc' | ret) after heq
    · exact ⟨pc', rfl, Option.some.inj heq⟩
    · cases heq
  refine ⟨fun reads hpending => ?_, fun hpending after heq => ?_⟩
  · obtain ⟨hquiet, hreads⟩ := txStep_pending call answer transport region hpending
    refine ⟨hquiet, fun after heq => ?_⟩
    obtain ⟨pc', hout, rfl⟩ := hrunning heq
    exact hreads pc' hout
  · obtain ⟨pc', hout, rfl⟩ := hrunning heq
    exact txStep_through hpending hout

theorem rxStep_callStep (call : RxCall) (answer : Answer) (transport : Transport) (region : Region)
    (pc : RxPc) :
    CallStep transport (Driver.rxStep call answer transport region pc).2.1 region
      (Driver.rxStep call answer transport region pc).2.2 (rxPending pc)
      ((Driver.rxStep call answer transport region pc).1.pc?.map rxPending) := by
  have hrunning : ∀ {out : Outcome RxPc Errno} {after},
      out.pc?.map rxPending = some after → ∃ pc', out = .running pc' ∧ rxPending pc' = after := by
    rintro (pc' | ret) after heq
    · exact ⟨pc', rfl, Option.some.inj heq⟩
    · cases heq
  refine ⟨fun reads hpending => ?_, fun hpending after heq => ?_⟩
  · obtain ⟨hquiet, hreads⟩ := rxStep_pending call answer transport region hpending
    refine ⟨hquiet, fun after heq => ?_⟩
    obtain ⟨pc', hout, rfl⟩ := hrunning heq
    exact hreads pc' hout
  · obtain ⟨pc', hout, rfl⟩ := hrunning heq
    exact rxStep_through hpending hout

theorem CallStep.ordered {transport transport' : Transport} {region region' : Region}
    {pending : Option (List ReadyRead)} {next : Option (Option (List ReadyRead))}
    (h : CallStep transport transport' region region' pending next) (hordered : Ordered pending)
    {after : Option (List ReadyRead)} (hnext : next = some after) : Ordered after := by
  cases hpending : pending with
  | none =>
      rcases h.through hpending after hnext with rfl | rfl
      · exact nofun
      · exact ordered_start
  | some reads => exact ((h.reading reads hpending).2 after hnext).ordered (hpending ▸ hordered)

/-- A call that has not made a read cannot make it while it fails, and leaves the state
alone. -/
theorem CallStep.not_past {transport transport' : Transport} {region region' : Region}
    {pending : Option (List ReadyRead)} {next : Option (Option (List ReadyRead))}
    (h : CallStep transport transport' region region' pending next) {read : ReadyRead}
    (hread : read ∈ rtosReady) (hpast : ¬ Past read pending)
    (hfails : ∀ generation, read.passes transport region generation = false) :
    (transport', region') = (transport, region) ∧
      ∀ after, next = some after → ¬ Past read after := by
  cases hpending : pending with
  | none => exact absurd (hpending ▸ nofun) hpast
  | some reads =>
      obtain ⟨hquiet, hreads⟩ := h.reading reads hpending
      exact ⟨hquiet, fun after hnext =>
        (hreads after hnext).not_past hread (hpending ▸ hpast) hfails⟩

/-- A call that holds `tx_lock` or `rx_lock` has made this read. -/
def State.callPast (s : State) (read : ReadyRead) : Bool :=
  s.tx.any (fun call => Past read (txPending call.2.2)) ||
    s.rx.any fun call => Past read (rxPending call.2.2)

theorem callPast_eq_false {s : State} {read : ReadyRead} :
    s.callPast read = false ↔
      (∀ file call pc, s.tx = some (file, call, pc) → ¬ Past read (txPending pc)) ∧
        ∀ file call pc, s.rx = some (file, call, pc) → ¬ Past read (rxPending pc) := by
  unfold State.callPast
  rw [Bool.or_eq_false_iff]
  refine and_congr ?_ ?_
  · rcases s.tx with - | ⟨file, call, pc⟩
    · simp
    · simp only [Option.any_some, decide_eq_false_iff_not]
      exact ⟨fun h _ _ _ heq => by cases heq; exact h, fun h => h file call pc rfl⟩
  · rcases s.rx with - | ⟨file, call, pc⟩
    · simp
    · simp only [Option.any_some, decide_eq_false_iff_not]
      exact ⟨fun h _ _ _ heq => by cases heq; exact h, fun h => h file call pc rfl⟩

/-- The process call has read the magic of the layout. -/
def processPast : ProcessPc → Bool
  | .readGeneration => false
  | .layoutIsValid _ reads => .magic ∉ reads
  | _ => true

def State.firmwarePast (s : State) : Bool := s.firmware.any processPast

theorem callPast_congr {s t : State} {read : ReadyRead} (htx : t.tx = s.tx) (hrx : t.rx = s.rx) :
    t.callPast read = s.callPast read := by
  unfold State.callPast
  rw [htx, hrx]

theorem firmwarePast_congr {s t : State} (hfirmware : t.firmware = s.firmware) :
    t.firmwarePast = s.firmwarePast := by
  unfold State.firmwarePast
  rw [hfirmware]

theorem firmwarePast_eq_false {s : State} :
    s.firmwarePast = false ↔ ∀ pc, s.firmware = some pc → processPast pc = false := by
  unfold State.firmwarePast
  cases s.firmware <;> simp

theorem clear_magic {region : Region} {piece : Piece} (h : region.layout.magic ≠ Shm.magic) :
    (piece.clear region).layout.magic ≠ Shm.magic := by
  cases piece with
  | magic => exact (by decide : (0#32 : U32) ≠ Shm.magic)
  | _ => exact h

/-- While the magic is wrong, a process call does not get past it. -/
theorem processStep_early (mmio : Mmio) {region : Region} (statics : Statics) {pc : ProcessPc}
    (hmagic : region.layout.magic ≠ Shm.magic) (hpast : processPast pc = false) :
    (processStep mmio region statics pc).2 = (region, statics) ∧
      (processStep mmio region statics pc).1.pc?.any processPast = false := by
  cases pc with
  | readGeneration =>
      simp only [processStep]
      split_ifs
      · exact ⟨rfl, rfl⟩
      · exact ⟨rfl, rfl⟩
  | layoutIsValid generation reads =>
      have hmem : .magic ∈ reads := by simpa [processPast] using hpast
      cases reads with
      | nil => cases hmem
      | cons read reads =>
          simp only [processStep]
          split_ifs with hpasses
          · have hne : LayoutRead.magic ≠ read := by
              rintro rfl
              exact hmagic (by simpa [LayoutRead.passes] using hpasses)
            have hrest : .magic ∈ reads := (List.mem_cons.mp hmem).resolve_left hne
            exact ⟨rfl, by simp [Outcome.pc?, processPast, hrest]⟩
          · exact ⟨rfl, rfl⟩
  | _ => cases hpast

/-! ## Some runs -/

def State.initial : State where
  transport := created
  region := Region.cleared
  holder := none
  outside := []
  txQueue := []
  rxQueue := []
  tx := none
  rx := none
  shutdownComplete := false
  firmware := none
  statics := ⟨0#32, Slot.zero, Slot.zero⟩
  replying := false
  replies := 0
  acquirer := none
  pristine := false
  stale := false
  current := 0#32
  age := 0

theorem start_initial : system.start State.initial := by
  constructor <;> rfl

def holderSteps (n : ℕ) : List Label := List.replicate n (.holder .done)

def firmwareSteps (n : ℕ) : List Label := List.replicate n (.firmware fun _ => 0#32)

/-- An ACQUIRE of an unused region, up to its unlock. -/
def firstAcquire (file : File) : List Label := .acquire file :: holderSteps 161

/-- The firmware attaches and finds no request; its reply stays in the mailbox. -/
def attachFirmware : List Label := .process :: firmwareSteps 20 ++ [.reply true]

/-- The ACQUIRE sees the firmware and returns. -/
def finishAcquire : List Label := List.replicate 17 (.outside 0 .done)

def closeFile (file : File) : List Label := [.close file, .outside 0 .done] ++ holderSteps 4

/-- An ACQUIRE with a handshake, up to its wait. -/
def quiesceFirmware (file : File) : List Label := .acquire file :: holderSteps 22

/-- The ACQUIRE goes on after its wait. -/
def initializeRegion : List Label := holderSteps 159

end Sg200x.Ipc.Handover
