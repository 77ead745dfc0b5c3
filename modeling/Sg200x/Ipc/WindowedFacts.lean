import Sg200x.Ipc.Call
import Sg200x.Ipc.Windowed
import Sg200x.Library.Roll

/-!
# What a phase of the windowed benchmark keeps

The requests of a phase carry the sequences of the kernel's counter one after the other, so that
those in flight have different ones, and the responses come in the order of the requests.
-/

namespace Sg200x.Ipc.Windowed

open Shm App Driver Threads Library Library.Transition
open Bench (Timespec Answered U64 elapsedNanoseconds buildRequest validateResponse)

variable {arguments : Arguments} {s t : State arguments} {base : ℕ}

/-! ## A request and its response -/

theorem buildRequest_length {echoDataBytes : ℕ} (h : echoDataBytes ≤ maxEchoDataBytes)
    (hecho : echoDataBytes ≠ 0) (seed : U32) :
    (buildRequest echoDataBytes seed).length.toNat = echoDataBytes + 1 := by
  have hlt : echoDataBytes + 1 < 2 ^ 16 := by
    have : maxEchoDataBytes = 1017 := rfl
    omega
  rw [buildRequest, if_neg hecho]
  exact (BitVec.toNat_ofNat ..).trans (Nat.mod_eq_of_lt hlt)

theorem buildRequest_echo {echoDataBytes : ℕ} (hecho : echoDataBytes ≠ 0) (seed : U32)
    (i : Fin payloadSize) :
    (buildRequest echoDataBytes seed).payload.get i =
      if i.val = 0 then cmdEcho
      else if i.val < echoDataBytes + 1 then (seed + BitVec.ofNat 32 (i.val * 17)).setWidth 8
      else 0#8 := by
  rw [buildRequest, if_neg hecho]
  exact Vector.getElem_ofFn ..

theorem respond_length {mmio : Mmio} {request : Slot}
    (h : (appHandleMessage mmio request.payload request.length (Vector.replicate payloadSize 0#8)
      (BitVec.ofNat 16 payloadSize)).result = .handled) :
    (respond mmio request).length = (appHandleMessage mmio request.payload request.length
      (Vector.replicate payloadSize 0#8) (BitVec.ofNat 16 payloadSize)).responseLength := by
  unfold respond
  exact if_pos h

theorem validateResponse_ping (mmio : Mmio) (seed sequence : U32) :
    validateResponse (respond mmio { buildRequest 0 seed with sequence := sequence }) 0 seed = 0 := by
  obtain ⟨hvalue, hcommand⟩ := Call.messageValue_writeValue Slot.zero.payload cmdPing seed
  have hanswers := @Call.appHandleMessage_answers mmio cmdPing seed _
    (Vector.replicate payloadSize 0#8) (BitVec.ofNat 16 valueMessageSize) (by decide) rfl hcommand
    hvalue
  have hlength : (respond mmio { buildRequest 0 seed with sequence := sequence }).length = 5#16 := by
    rw [← hanswers.length]
    exact respond_length hanswers.result
  have hfirst : (respond mmio { buildRequest 0 seed with sequence := sequence }).payload.get
      ⟨0, payloadSize_pos⟩ = cmdPing := hanswers.first
  have hpong : messageValue (respond mmio { buildRequest 0 seed with sequence := sequence }).payload =
      seed ^^^ pingXor := hanswers.value
  rw [validateResponse, if_pos rfl, if_neg (by rw [hlength, hfirst]; decide), if_pos hpong]

/-- The response to an echo is the request. -/
theorem respond_echo (mmio : Mmio) (request : Slot) (hlength : request.length ≠ 0#16)
    (hfits : request.Fits) (hecho : request.payload[0] = cmdEcho) :
    (respond mmio request).length = request.length ∧
      ∀ i : Fin payloadSize, i.val < request.length.toNat →
        (respond mmio request).payload.get i = request.payload.get i := by
  have hcapacity : ¬ BitVec.ofNat 16 payloadSize < request.length := by
    rw [BitVec.lt_def]
    exact Nat.not_lt.mpr hfits
  have happ : appHandleMessage mmio request.payload request.length
      (Vector.replicate payloadSize 0#8) (BitVec.ofNat 16 payloadSize) =
        ⟨.handled, Payload.copyFrom (Vector.replicate payloadSize 0#8) request.payload
          request.length.toNat, request.length, []⟩ := by
    unfold appHandleMessage
    rw [if_neg hlength]
    simp only [hecho]
    rw [if_neg (by decide), if_pos trivial, if_neg hcapacity]
  unfold respond
  simp only [happ]
  refine ⟨if_pos trivial, fun i hi => ?_⟩
  have hcopied : (Payload.copyFrom (Vector.replicate payloadSize 0#8) request.payload
      request.length.toNat).get i = _ := Vector.getElem_ofFn ..
  exact hcopied.trans (if_pos hi)

theorem validateResponse_echo {echoDataBytes : ℕ} (h : echoDataBytes ≤ maxEchoDataBytes)
    (hecho : echoDataBytes ≠ 0) (mmio : Mmio) (seed sequence : U32) :
    validateResponse (respond mmio { buildRequest echoDataBytes seed with sequence := sequence })
      echoDataBytes seed = 0 := by
  have hlength := buildRequest_length h hecho seed
  have hmax : echoDataBytes + 1 ≤ payloadSize := Nat.succ_le_of_lt (Nat.lt_of_le_of_lt h (by decide))
  have hpayload := buildRequest_echo hecho seed
  obtain ⟨hsame, hbytes⟩ := respond_echo mmio
    { buildRequest echoDataBytes seed with sequence := sequence }
    (fun hzero => by
      have hzero' := congrArg BitVec.toNat hzero
      rw [hlength] at hzero'
      exact Nat.succ_ne_zero _ hzero')
    (hlength.trans_le hmax) ((hpayload ⟨0, payloadSize_pos⟩).trans (if_pos rfl))
  generalize respond mmio { buildRequest echoDataBytes seed with sequence := sequence } =
    response at hsame hbytes ⊢
  have hlength' : response.length = BitVec.ofNat 16 (echoDataBytes + 1) := by
    rw [hsame, buildRequest, if_neg hecho]
  have hbyte : ∀ i : Fin payloadSize, i.val < echoDataBytes + 1 →
      response.payload.get i = (buildRequest echoDataBytes seed).payload.get i := by
    intro i hi
    exact hbytes i (hlength ▸ hi)
  have hfirst : response.payload.get ⟨0, payloadSize_pos⟩ = cmdEcho :=
    (hbyte _ (Nat.succ_pos _)).trans ((hpayload _).trans (if_pos rfl))
  have hrest : ∀ i : Fin payloadSize, 1 ≤ i.val ∧ i.val < echoDataBytes + 1 →
      response.payload.get i = (seed + BitVec.ofNat 32 (i.val * 17)).setWidth 8 := by
    rintro i ⟨hone, hlt⟩
    rw [hbyte i hlt, hpayload, if_neg (by omega), if_pos hlt]
  rw [validateResponse, if_neg hecho, if_neg (by rw [hlength', hfirst]; simp), if_pos hrest]

/-- The firmware's response passes the check. -/
theorem validateResponse_respond {echoDataBytes : ℕ} (h : echoDataBytes ≤ maxEchoDataBytes)
    (mmio : Mmio) (seed sequence : U32) :
    validateResponse (respond mmio { buildRequest echoDataBytes seed with sequence := sequence })
      echoDataBytes seed = 0 := by
  by_cases hecho : echoDataBytes = 0
  · subst hecho
    exact validateResponse_ping mmio seed sequence
  · exact validateResponse_echo h hecho mmio seed sequence

/-! ## Tickets -/

def held (tickets : Tickets) (i : Fin slotCount) : Option (U32 × U32) :=
  if (tickets i).active then some ((tickets i).sequence, (tickets i).seed) else none

theorem held_eq_some {tickets : Tickets} {i : Fin slotCount} {entry : U32 × U32} :
    held tickets i = some entry ↔
      (tickets i).active = true ∧ (tickets i).sequence = entry.1 ∧ (tickets i).seed = entry.2 := by
  unfold held
  split_ifs with hactive
  · simp [hactive, Prod.ext_iff]
  · simp [hactive]

theorem held_update (tickets : Tickets) (i : Fin slotCount) (t : Ticket) :
    held (Function.update tickets i t) =
      Function.update (held tickets) i (if t.active then some (t.sequence, t.seed) else none) := by
  funext j
  by_cases hj : j = i
  · subst hj
    simp [held]
  · simp [held, hj]

theorem findTicket_eq_some {tickets : Tickets} {sequence : U32} {i : Fin slotCount}
    (h : findTicket tickets sequence = some i) :
    held tickets i = some (sequence, (tickets i).seed) := by
  have hfound := List.find?_some h
  simp only [decide_eq_true_eq] at hfound
  exact held_eq_some.mpr ⟨hfound.1, hfound.2, rfl⟩

theorem findTicket_eq_none {tickets : Tickets} {sequence : U32}
    (h : ∀ entry ∈ roll (held tickets), entry.1 ≠ sequence) : findTicket tickets sequence = none := by
  apply List.find?_eq_none.mpr
  intro i _ hfound
  simp only [decide_eq_true_eq] at hfound
  exact h (sequence, (tickets i).seed)
    (mem_roll.mpr ⟨i, held_eq_some.mpr ⟨hfound.1, hfound.2, rfl⟩⟩) rfl

theorem exists_findTicket {tickets : Tickets} {entry : U32 × U32}
    (h : entry ∈ roll (held tickets)) : ∃ i, findTicket tickets entry.1 = some i := by
  obtain ⟨i, hi⟩ := mem_roll.mp h
  obtain ⟨hactive, hsequence, -⟩ := held_eq_some.mp hi
  apply Option.isSome_iff_exists.mp
  apply List.find?_isSome.mpr
  exact ⟨i, List.mem_finRange i, by simp [hactive, hsequence]⟩

theorem exists_findFreeTicket {tickets : Tickets} (h : (roll (held tickets)).length < slotCount) :
    ∃ i, findFreeTicket tickets = some i ∧ held tickets i = none := by
  have hnone : ∀ i, held tickets i = none ↔ (tickets i).active = false := by
    intro i
    unfold held
    split_ifs with hactive <;> simp [hactive]
  obtain ⟨j, hj⟩ := exists_none_of_length_lt h
  have hsome : (findFreeTicket tickets).isSome := by
    apply List.find?_isSome.mpr
    exact ⟨j, List.mem_finRange j, by simpa using (hnone j).mp hj⟩
  obtain ⟨i, hi⟩ := Option.isSome_iff_exists.mp hsome
  have hfree := List.find?_some hi
  exact ⟨i, hi, (hnone i).mpr (by simpa using hfree)⟩

/-- The sequence and the seed of the `k`-th request of a phase. -/
def expected (seedBase : U32) (base k : ℕ) : U32 × U32 :=
  (ticket (base + k), seedBase + BitVec.ofNat 32 k)

/-- The tickets are those of the requests from `first` on. -/
def Holds (seedBase : U32) (base first count : ℕ) (tickets : Tickets) : Prop :=
  (roll (held tickets)).Perm
    ((List.range count).map fun j => expected seedBase base (first + j))

theorem ticket_eq_iff {base k k' : ℕ} (h : k < k' + 128) (h' : k' < k + 128) :
    ticket (base + k) = ticket (base + k') ↔ k = k' := by
  have hperiod : NonzeroCounter.period 32 = 4294967295 := rfl
  constructor
  · intro heq
    rcases Nat.le_total k k' with hle | hle
    · have := ticket_inj (show base + k ≤ base + k' by omega) (by omega) heq
      omega
    · have := ticket_inj (show base + k' ≤ base + k by omega) (by omega) heq.symm
      omega
  · rintro rfl
    rfl

section Tickets

variable {seedBase : U32} {first count : ℕ} {tickets : Tickets}

/-- The request after those in flight gets a ticket. -/
theorem Holds.take (h : Holds seedBase base first count tickets) (hcount : count < slotCount) :
    findTicket tickets (ticket (base + (first + count))) = none ∧
      ∃ i, findFreeTicket tickets = some i ∧ ∀ start,
        Holds seedBase base first (count + 1)
          (Function.update tickets i ⟨ticket (base + (first + count)),
            seedBase + BitVec.ofNat 32 (first + count), start, true⟩) := by
  have hlength : (roll (held tickets)).length = count := by
    rw [h.length_eq, List.length_map, List.length_range]
  have hslots : slotCount = 64 := rfl
  refine ⟨findTicket_eq_none fun entry hentry heq => ?_, ?_⟩
  · obtain ⟨j, hj, rfl⟩ := List.mem_map.mp (h.mem_iff.mp hentry)
    have hj := List.mem_range.mp hj
    have := (ticket_eq_iff (by omega) (by omega)).mp heq
    omega
  · obtain ⟨i, hi, hnone⟩ := exists_findFreeTicket (hlength.trans_lt hcount)
    refine ⟨i, hi, fun start => ?_⟩
    unfold Holds
    rw [held_update, List.range_succ, List.map_append]
    refine (roll_update_some hnone _).trans ((h.cons _).trans ?_)
    exact (List.perm_append_singleton _ _).symm

/-- The request that is next finds its ticket and gives it back. -/
theorem Holds.give (h : Holds seedBase base first (count + 1) tickets) (hcount : count < slotCount) :
    ∃ i, findTicket tickets (ticket (base + first)) = some i ∧
      (tickets i).seed = seedBase + BitVec.ofNat 32 first ∧
      Holds seedBase base (first + 1) count
        (Function.update tickets i { tickets i with active := false }) := by
  have hrange : (List.range (count + 1)).map (fun j => expected seedBase base (first + j)) =
      expected seedBase base first ::
        (List.range count).map fun j => expected seedBase base (first + 1 + j) := by
    rw [List.range_succ_eq_map, List.map_cons, List.map_map, Nat.add_zero]
    congr 1
    apply List.map_congr_left
    intro j _
    rw [Function.comp_apply, Nat.succ_eq_add_one, Nat.add_comm j 1, Nat.add_assoc]
  have hslots : slotCount = 64 := rfl
  unfold Holds at h
  rw [hrange] at h
  obtain ⟨i, hi⟩ := exists_findTicket (h.mem_iff.mpr List.mem_cons_self)
  have hheld := findTicket_eq_some hi
  have hentry := h.mem_iff.mp (mem_roll.mpr ⟨i, hheld⟩)
  have hseed : (tickets i).seed = seedBase + BitVec.ofNat 32 first := by
    rcases List.mem_cons.mp hentry with heq | hrest
    · exact congrArg Prod.snd heq
    · obtain ⟨j, hj, heq⟩ := List.mem_map.mp hrest
      have hj := List.mem_range.mp hj
      have := (ticket_eq_iff (by omega) (by omega)).mp (congrArg Prod.fst heq)
      omega
  refine ⟨i, hi, hseed, ?_⟩
  unfold Holds
  rw [held_update]
  have hroll := roll_update_none hheld
  rw [hseed] at hroll
  exact (hroll.symm.trans h).cons_inv

end Tickets

end Sg200x.Ipc.Windowed
