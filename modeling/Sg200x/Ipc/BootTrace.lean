import Sg200x.Ipc.Shm
import Sg200x.Library.Transition

/-!
# The boot trace page

The firmware publishes an event record and a diagnostics record in two cache lines of the
page, and `boot_trace_show` reads the page word by word on the other core.  Every value
lies beside its inverse.
-/

namespace Sg200x.Ipc.BootTrace

open Shm Library.Transition

/-- A word of the page, with the number of the publication that wrote it; 0 stands for
the initial values. -/
structure Word where
  value : U32
  writer : ℕ
  deriving DecidableEq

/-- `struct cvitek_boot_trace`, by the offset of its words. -/
abbrev Page := ℕ → Word

def pageWords : ℕ := 32

def eventSequence : ℕ := 8
def eventField : ℕ := 10
def eventArg : ℕ := 12
def eventSeen : ℕ := 14
def diagSequence : ℕ := 16
def diagReason : ℕ := 18
def mailboxInitial : ℕ := 20
def mailboxState : ℕ := 22
def plicState : ℕ := 24
def csrState : ℕ := 26
def irqCount : ℕ := 28
def recoveryCount : ℕ := 30

def traceMagic : U32 := 0x43565452#32
def traceVersion : U32 := 3#32
def hostCookie : U32 := 0x48535431#32
/-- `CVITEK_BOOT_TRACE_EVENT_MAX`. -/
def eventMax : ℕ := 13

inductive Record
  | event
  | diag
  deriving DecidableEq

def Record.base : Record → ℕ
  | .event => eventSequence
  | .diag => diagSequence

def Record.size : Record → ℕ
  | .event => 8
  | .diag => 16

def Record.Holds (record : Record) (i : ℕ) : Prop :=
  record.base ≤ i ∧ i < record.base + record.size

/-- The cache line that is cleaned after a publication. -/
def Record.Line : Record → ℕ → Prop
  | .event, i => i < 16
  | .diag, i => 16 ≤ i ∧ i < 32

instance (record : Record) (i : ℕ) : Decidable (record.Line i) := by
  cases record <;> unfold Record.Line <;> infer_instance

/-! ## The firmware -/

/-- `(value ^ inverse) == ~0U`. -/
def matched (value inverse : U32) : Bool := value ^^^ inverse = BitVec.allOnes 32

/-- A value the firmware left in the page, or zero. -/
def lastValue (page : Page) (i : ℕ) : U32 :=
  if matched (page i).value (page (i + 1)).value then (page i).value else 0#32

/-- Each value is stored before its inverse. -/
def withInverses (stores : List (ℕ × U32)) : List (ℕ × U32) :=
  stores.flatMap fun store => [store, (store.1 + 1, ~~~store.2)]

/-- `cvitek_boot_trace_event`. -/
def eventStores (page : Page) (event arg : U32) : List (ℕ × U32) :=
  let seen := lastValue page eventSeen
  let seen :=
    if 0 < event.toNat ∧ event.toNat ≤ eventMax then seen ||| 1#32 <<< (event.toNat - 1)
    else seen
  withInverses [(eventArg, arg), (eventSeen, seen), (eventField, event),
    (eventSequence, lastValue page eventSequence + 1)]

structure Diagnostics where
  reason : U32
  mailboxInitial : U32
  mailboxState : U32
  plicState : U32
  csrState : U32
  irqCount : U32
  recoveryCount : U32

/-- `cvitek_boot_trace_irq_diagnostics`. -/
def diagStores (page : Page) (values : Diagnostics) : List (ℕ × U32) :=
  withInverses [(diagReason, values.reason), (mailboxInitial, values.mailboxInitial),
    (mailboxState, values.mailboxState), (plicState, values.plicState),
    (csrState, values.csrState), (irqCount, values.irqCount),
    (recoveryCount, values.recoveryCount), (diagSequence, lastValue page diagSequence + 1)]

/-! ## The reader -/

def wordAt (reads : List Word) (i : ℕ) : Word := reads.getD i ⟨0#32, 0⟩

def valueAt (reads : List Word) (i : ℕ) : U32 := (wordAt reads i).value

/-- A pair that has been read does not match. -/
def mismatch (reads : List Word) : Bool :=
  ∃ k < 15, 2 * k + 3 < reads.length ∧
    ¬matched (valueAt reads (2 * k + 2)) (valueAt reads (2 * k + 3))

/-- `valid` of `boot_trace_show`. -/
def valid (reads : List Word) : Bool :=
  reads.length = pageWords ∧ valueAt reads 0 = traceMagic ∧ valueAt reads 1 = traceVersion ∧
    ∀ k < 15, matched (valueAt reads (2 * k + 2)) (valueAt reads (2 * k + 3))

/-- The words of a record among those that have been read. -/
def Record.printed (record : Record) (reads : List Word) : List Word :=
  (reads.drop record.base).take record.size

/-! ## The system -/

inductive PublisherPc
  | idle
  /-- The stores that are left; the line is cleaned after them. -/
  | storing (record : Record) (stores : List (ℕ × U32))

structure State where
  /-- What the firmware sees. -/
  cache : Page
  /-- What the reader sees. -/
  memory : Page
  /-- Stores become visible one by one, and not with the cleaned line. -/
  immediate : Bool
  publisher : PublisherPc
  publications : ℕ
  reads : List Word

inductive Label
  | event (event arg : U32)
  | diagnostics (values : Diagnostics)
  | store
  | clean
  /-- `boot_trace_show` is called. -/
  | call
  | read

def State.publish (s : State) (record : Record) (stores : List (ℕ × U32)) : State :=
  { s with publisher := .storing record stores, publications := s.publications + 1 }

/-- Publications exclude each other, as the interrupts are off. -/
def step : Label → State → Option State
  | .event event arg, s =>
      match s.publisher with
      | .idle => some (s.publish .event (eventStores s.cache event arg))
      | _ => none
  | .diagnostics values, s =>
      match s.publisher with
      | .idle => some (s.publish .diag (diagStores s.cache values))
      | _ => none
  | .store, s =>
      match s.publisher with
      | .storing record ((i, value) :: stores) =>
          some { s with
            cache := Function.update s.cache i ⟨value, s.publications⟩
            memory :=
              if s.immediate then Function.update s.memory i ⟨value, s.publications⟩
              else s.memory
            publisher := .storing record stores }
      | _ => none
  | .clean, s =>
      match s.publisher with
      | .storing record [] =>
          some { s with
            memory := fun i => if record.Line i then s.cache i else s.memory i
            publisher := .idle }
      | _ => none
  | .call, s => some { s with reads := [] }
  | .read, s =>
      if s.reads.length < pageWords then
        some { s with reads := s.reads ++ [s.memory s.reads.length] }
      else none

def system : System State Label where
  start s := s.cache = s.memory ∧ (∀ i, (s.memory i).writer = 0) ∧ s.publisher = .idle ∧
    s.publications = 0 ∧ s.reads = []
  step := step

/-- What is printed as valid comes from one publication of each record. -/
def NotTorn (s : State) : Prop :=
  valid s.reads = true → ∀ record : Record, ∃ n, ∀ word ∈ record.printed s.reads, word.writer = n

/-! ## When the reader is disturbed -/

/-- The reader is between the first and the last word of the record. -/
def inside (record : Record) (reads : List Word) : Bool :=
  record.base < reads.length ∧ reads.length < record.base + record.size

/-- The value that was read last does not match the inverse that lies in memory. -/
def pending (memory : Page) (reads : List Word) : Bool :=
  reads.length % 2 = 1 ∧ ¬matched (valueAt reads (reads.length - 1)) (memory reads.length).value

/-- Some of the stores of a publication are visible and some are not. -/
def partlyVisible (s : State) (record : Record) : Bool :=
  match s.publisher with
  | .storing stored stores =>
      s.immediate ∧ stored = record ∧ 0 < stores.length ∧ stores.length < record.size
  | .idle => false

/-- The record changes in memory with the step. -/
def changes (s t : State) (record : Record) : Bool :=
  ∃ k < record.size, t.memory (record.base + k) ≠ s.memory (record.base + k)

/-- While the reader is in a record, nothing of the record becomes visible, and it has
not begun with a record that is partly visible, unless it sees a pair that does not
match. -/
def undisturbed (l : Label) (s : State) : Bool :=
  match l, step l s with
  | .call, _ | _, none => true
  | .read, _ =>
      mismatch s.reads ∨ ∀ record ∈ [Record.event, .diag],
        s.reads.length = record.base → ¬partlyVisible s record
  | _, some t =>
      ∀ record ∈ [Record.event, .diag], inside record s.reads → mismatch s.reads ∨
        pending t.memory s.reads ∨ ¬changes s t record

/-! ## The records in memory -/

/-- The words of the record were written by one publication. -/
def Single (page : Page) (record : Record) : Prop :=
  ∃ n, ∀ i, record.Holds i → (page i).writer = n

structure Storing (cache : Page) (publications : ℕ) (record : Record)
    (stores : List (ℕ × U32)) : Prop where
  within : ∀ store ∈ stores, record.Holds store.1
  length : stores.length ≤ record.size
  /-- Nothing is stored yet. -/
  whole : stores.length = record.size → Single cache record
  written : ∀ i, record.Holds i → i ∉ stores.map Prod.fst → (cache i).writer = publications
  others : ∀ other, other ≠ record → Single cache other

def CacheFacts (cache : Page) (publications : ℕ) : PublisherPc → Prop
  | .idle => ∀ record, Single cache record
  | .storing record stores => Storing cache publications record stores

/-- Unless a pair did not match, the words that were read of a record are of one
publication, which is the one in memory as long as the reader is in the record. -/
def ReaderFacts (memory : Page) (reads : List Word) (record : Record) : Prop :=
  mismatch reads = true ∨
    (inside record reads = true → pending memory reads = true ∨
      ∃ n, (∀ i, record.Holds i → i < reads.length → (wordAt reads i).writer = n) ∧
        ∀ i, record.Holds i → (memory i).writer = n) ∧
    (record.base + record.size ≤ reads.length →
      ∃ n, ∀ i, record.Holds i → (wordAt reads i).writer = n)

structure Inv (s : State) : Prop where
  cache : CacheFacts s.cache s.publications s.publisher
  immediate : s.immediate = true → s.memory = s.cache
  memory : s.immediate = false → ∀ record, Single s.memory record
  reader : ∀ record, ReaderFacts s.memory s.reads record

variable {page memory : Page} {record other : Record} {reads : List Word} {word : Word}
  {stores : List (ℕ × U32)} {publications i : ℕ}

theorem Record.Holds.line (h : record.Holds i) : record.Line i := by
  cases record <;> simp only [Holds, base, size, Line, eventSequence, diagSequence] at h ⊢ <;> omega

theorem Record.Holds.not_line (h : record.Holds i) (hne : record ≠ other) : ¬other.Line i := by
  cases record <;> cases other <;>
    simp only [Holds, base, size, Line, eventSequence, diagSequence] at h ⊢
  · exact absurd rfl hne
  · omega
  · omega
  · exact absurd rfl hne

theorem Record.Holds.not_holds (h : record.Holds i) (hne : record ≠ other) : ¬other.Holds i :=
  fun hother => h.not_line hne hother.line

theorem holds_event_iff {event arg : U32} :
    Record.event.Holds i ↔ i ∈ (eventStores page event arg).map Prod.fst := by
  rw [show (eventStores page event arg).map Prod.fst = [12, 13, 14, 15, 10, 11, 8, 9] from rfl]
  simp only [Record.Holds, Record.base, Record.size, eventSequence, List.mem_cons,
    List.not_mem_nil, or_false]
  omega

theorem holds_diag_iff {values : Diagnostics} :
    Record.diag.Holds i ↔ i ∈ (diagStores page values).map Prod.fst := by
  rw [show (diagStores page values).map Prod.fst =
    [18, 19, 20, 21, 22, 23, 24, 25, 26, 27, 28, 29, 30, 31, 16, 17] from rfl]
  simp only [Record.Holds, Record.base, Record.size, diagSequence, List.mem_cons,
    List.not_mem_nil, or_false]
  omega

/-- A publication stores every word of its record. -/
theorem Storing.start (hstores : ∀ i, record.Holds i ↔ i ∈ stores.map Prod.fst)
    (hlength : stores.length = record.size) (hsingle : ∀ record, Single page record) :
    Storing page publications record stores where
  within store hstore := (hstores store.1).mpr (List.mem_map_of_mem hstore)
  length := hlength.le
  whole _ := hsingle record
  written i hi hnot := absurd ((hstores i).mp hi) hnot
  others other _ := hsingle other

theorem Storing.store {store : ℕ × U32}
    (h : Storing page publications record (store :: stores)) :
    Storing (Function.update page store.1 ⟨store.2, publications⟩) publications record stores := by
  have hlength := h.length
  rw [List.length_cons] at hlength
  refine ⟨fun s hs => h.within s (List.mem_cons_of_mem _ hs), by omega, fun _ => by omega, ?_, ?_⟩
  · intro i hi hnot
    by_cases heq : i = store.1
    · rw [heq, Function.update_self]
    · rw [Function.update_of_ne heq]
      apply h.written i hi
      rw [List.map_cons, List.mem_cons, not_or]
      exact ⟨heq, hnot⟩
  · intro other hother
    obtain ⟨n, hn⟩ := h.others other hother
    refine ⟨n, ?_⟩
    intro i hi
    rw [Function.update_of_ne, hn i hi]
    intro heq
    exact hi.not_holds hother (heq ▸ h.within store List.mem_cons_self)

theorem Storing.single (h : Storing page publications record []) (other : Record) :
    Single page other := by
  by_cases hother : other = record
  · rw [hother]
    exact ⟨publications, fun i hi => h.written i hi (List.not_mem_nil)⟩
  · exact h.others other hother

theorem Inv.single {s : State} (h : Inv s) (hpartly : partlyVisible s record = false) :
    Single s.memory record := by
  cases himmediate : s.immediate with
  | false => exact h.memory himmediate record
  | true =>
      rw [h.immediate himmediate]
      have hcache := h.cache
      unfold partlyVisible at hpartly
      cases hpublisher : s.publisher with
      | idle =>
          rw [hpublisher] at hcache
          exact hcache record
      | storing stored stores =>
          rw [hpublisher] at hcache hpartly
          by_cases hrecord : stored = record
          · subst hrecord
            rw [decide_eq_false_iff_not] at hpartly
            cases hstores : stores with
            | nil =>
                rw [hstores] at hcache
                exact hcache.single stored
            | cons store rest =>
                apply hcache.whole
                have hpos : 0 < stores.length := by
                  rw [hstores]
                  exact Nat.succ_pos _
                have hle := hcache.length
                by_contra hne
                exact hpartly ⟨himmediate, rfl, hpos, by omega⟩
          · exact hcache.others record (Ne.symm hrecord)

/-! ## What has been read -/

theorem wordAt_append (h : i < reads.length) : wordAt (reads ++ [word]) i = wordAt reads i := by
  rw [wordAt, wordAt, List.getD_eq_getElem?_getD, List.getD_eq_getElem?_getD,
    List.getElem?_append_left h]

theorem wordAt_last : wordAt (reads ++ [word]) reads.length = word := by
  rw [wordAt, List.getD_eq_getElem?_getD, List.getElem?_concat_length]
  rfl

theorem mismatch_iff : mismatch reads = true ↔ ∃ k < 15, 2 * k + 3 < reads.length ∧
    ¬matched (valueAt reads (2 * k + 2)) (valueAt reads (2 * k + 3)) = true := by
  rw [mismatch, decide_eq_true_iff]

theorem mismatch_append (h : mismatch reads = true) : mismatch (reads ++ [word]) = true := by
  obtain ⟨k, hk, hlength, hne⟩ := mismatch_iff.mp h
  refine mismatch_iff.mpr ⟨k, hk, ?_, ?_⟩
  · rw [List.length_append]
    omega
  · rw [valueAt, valueAt, wordAt_append (by omega), wordAt_append hlength]
    exact hne

theorem inside_iff : inside record reads = true ↔
    record.base < reads.length ∧ reads.length < record.base + record.size := by
  rw [inside, decide_eq_true_iff]

theorem pending_iff : pending memory reads = true ↔ reads.length % 2 = 1 ∧
    ¬matched (valueAt reads (reads.length - 1)) (memory reads.length).value = true := by
  rw [pending, decide_eq_true_iff]

theorem Record.bounds (record : Record) : 8 ≤ record.base ∧ record.base % 2 = 0 ∧
    0 < record.size ∧ record.size % 2 = 0 ∧ record.base + record.size ≤ pageWords := by
  cases record <;> decide

/-- The inverse that is read does not match. -/
theorem mismatch_of_pending (hinside : inside record reads = true)
    (h : pending memory reads = true) : mismatch (reads ++ [memory reads.length]) = true := by
  obtain ⟨hbase, hend⟩ := inside_iff.mp hinside
  obtain ⟨hodd, hne⟩ := pending_iff.mp h
  obtain ⟨hfirst, -, -, -, hlast⟩ := record.bounds
  have hlength : reads.length = 2 * ((reads.length - 3) / 2) + 3 := by omega
  rw [pageWords] at hlast
  refine mismatch_iff.mpr ⟨(reads.length - 3) / 2, by omega, ?_, ?_⟩
  · rw [List.length_append, List.length_singleton]
    omega
  · rw [← hlength, show 2 * ((reads.length - 3) / 2) + 2 = reads.length - 1 by omega, valueAt,
      valueAt, wordAt_append (by omega), wordAt_last]
    exact hne

theorem ReaderFacts.read (h : ReaderFacts memory reads record)
    (hfirst : mismatch reads = true ∨ (reads.length = record.base → Single memory record)) :
    ReaderFacts memory (reads ++ [memory reads.length]) record := by
  rcases h with hmismatch | ⟨hinside, hpassed⟩
  · exact .inl (mismatch_append hmismatch)
  rcases hfirst with hmismatch | hfirst
  · exact .inl (mismatch_append hmismatch)
  have hlength : (reads ++ [memory reads.length]).length = reads.length + 1 := by
    rw [List.length_append, List.length_singleton]
  obtain ⟨-, -, hsize, -⟩ := record.bounds
  by_cases hbefore : reads.length < record.base
  · refine .inr ⟨fun hin => ?_, fun hlen => ?_⟩
    · have hin := inside_iff.mp hin
      omega
    · omega
  by_cases hafter : record.base + record.size ≤ reads.length
  · obtain ⟨n, hn⟩ := hpassed hafter
    refine .inr ⟨fun hin => ?_, fun _ => ⟨n, fun i hi => ?_⟩⟩
    · have hin := inside_iff.mp hin
      omega
    · rw [wordAt_append (by have := hi.2; omega)]
      exact hn i hi
  -- the word that is read is one of the record
  have hlast : record.Holds reads.length := ⟨by omega, by omega⟩
  have hsettled : mismatch (reads ++ [memory reads.length]) = true ∨
      ∃ n, (∀ i, record.Holds i → i < reads.length → (wordAt reads i).writer = n) ∧
        ∀ i, record.Holds i → (memory i).writer = n := by
    by_cases hbase : reads.length = record.base
    · obtain ⟨n, hn⟩ := hfirst hbase
      exact .inr ⟨n, fun i hi hlt => absurd hi.1 (by omega), hn⟩
    · have hin : inside record reads = true := inside_iff.mpr ⟨by omega, by omega⟩
      exact (hinside hin).imp_left (mismatch_of_pending hin)
  rcases hsettled with hmismatch | ⟨n, hread, hmemory⟩
  · exact .inl hmismatch
  have hread' : ∀ i, record.Holds i → i < reads.length + 1 →
      (wordAt (reads ++ [memory reads.length]) i).writer = n := by
    intro i hi hlt
    by_cases heq : i = reads.length
    · rw [heq, wordAt_last]
      exact hmemory _ hlast
    · rw [wordAt_append (by omega)]
      exact hread i hi (by omega)
  refine .inr ⟨fun _ => .inr ⟨n, ?_, hmemory⟩, fun hlen => ⟨n, fun i hi => hread' i hi ?_⟩⟩
  · intro i hi hlt
    exact hread' i hi (by omega)
  · have := hi.2
    omega

/-- The publisher leaves the record alone, or the reader is not in it. -/
theorem ReaderFacts.publish {memory' : Page} (h : ReaderFacts memory reads record)
    (hsame : inside record reads = true → mismatch reads = true ∨
      pending memory' reads = true ∨ ∀ i, record.Holds i → memory' i = memory i) :
    ReaderFacts memory' reads record := by
  rcases h with hmismatch | ⟨hinside, hpassed⟩
  · exact .inl hmismatch
  by_cases hin : inside record reads = true
  · rcases hsame hin with hmismatch | hpending | hsame
    · exact .inl hmismatch
    · exact .inr ⟨fun _ => .inl hpending, hpassed⟩
    · obtain ⟨hbase, hend⟩ := inside_iff.mp hin
      refine .inr ⟨fun _ => (hinside hin).imp ?_ ?_, hpassed⟩
      · intro hpending
        rw [pending_iff] at hpending ⊢
        rw [hsame reads.length ⟨by omega, hend⟩]
        exact hpending
      · intro ⟨n, hread, hmemory⟩
        refine ⟨n, hread, fun i hi => ?_⟩
        rw [hsame i hi]
        exact hmemory i hi
  · exact .inr ⟨fun h => absurd h hin, hpassed⟩

theorem not_changes {s t : State} (h : changes s t record = false) (hi : record.Holds i) :
    t.memory i = s.memory i := by
  rw [changes, decide_eq_false_iff_not] at h
  by_contra hne
  obtain ⟨hbase, hend⟩ := hi
  have hoffset : record.base + (i - record.base) = i := by omega
  exact h ⟨i - record.base, by omega, by rw [hoffset]; exact hne⟩

theorem Record.mem_all (record : Record) : record ∈ [Record.event, .diag] := by
  cases record <;> decide

/-- A step of the publisher keeps what the reader has. -/
theorem Inv.reader_publish {s t : State} {l : Label} (h : Inv s) (hstep : step l s = some t)
    (hl : l ≠ .call ∧ l ≠ .read) (hundisturbed : undisturbed l s = true)
    (hreads : t.reads = s.reads) (record : Record) :
    ReaderFacts t.memory t.reads record := by
  rw [hreads]
  apply (h.reader record).publish
  intro hinside
  have hcheck : inside record s.reads = true → mismatch s.reads = true ∨
      pending t.memory s.reads = true ∨ ¬changes s t record = true := by
    unfold undisturbed at hundisturbed
    rw [hstep] at hundisturbed
    cases l with
    | call => exact absurd rfl hl.1
    | read => exact absurd rfl hl.2
    | event => exact decide_eq_true_iff.mp hundisturbed record record.mem_all
    | diagnostics => exact decide_eq_true_iff.mp hundisturbed record record.mem_all
    | store => exact decide_eq_true_iff.mp hundisturbed record record.mem_all
    | clean => exact decide_eq_true_iff.mp hundisturbed record record.mem_all
  refine (hcheck hinside).imp_right (Or.imp_right ?_)
  intro hsame i hi
  exact not_changes (Bool.eq_false_iff.mpr hsame) hi

theorem readerFacts_nil : ReaderFacts memory [] record := by
  obtain ⟨-, -, hsize, -⟩ := record.bounds
  refine .inr ⟨fun hin => ?_, fun hlen => ?_⟩
  · exact absurd (inside_iff.mp hin).1 (Nat.not_lt_zero _)
  · exact absurd hlen (by rw [List.length_nil]; omega)

theorem Inv.publish {s : State} (h : Inv s) (hidle : s.publisher = .idle)
    (hstores : ∀ i, record.Holds i ↔ i ∈ stores.map Prod.fst)
    (hlength : stores.length = record.size) : Inv (s.publish record stores) where
  cache := by
    have hcache := h.cache
    rw [hidle] at hcache
    exact .start hstores hlength hcache
  immediate := h.immediate
  memory := h.memory
  reader := h.reader

theorem Inv.step {s t : State} {l : Label} (h : Inv s) (hundisturbed : undisturbed l s = true)
    (hstep : BootTrace.step l s = some t) : Inv t := by
  have hstep' := hstep
  cases l with
  | event event arg =>
      simp only [BootTrace.step] at hstep
      split at hstep
      · rename_i hidle
        cases hstep
        exact h.publish hidle (fun _ => holds_event_iff) rfl
      · cases hstep
  | diagnostics values =>
      simp only [BootTrace.step] at hstep
      split at hstep
      · rename_i hidle
        cases hstep
        exact h.publish hidle (fun _ => holds_diag_iff) rfl
      · cases hstep
  | store =>
      simp only [BootTrace.step] at hstep
      split at hstep
      · rename_i record i value stores hpublisher
        cases hstep
        have hcache := h.cache
        rw [hpublisher] at hcache
        refine ⟨hcache.store, ?_, ?_, h.reader_publish hstep' ⟨nofun, nofun⟩ hundisturbed rfl⟩
        · intro himmediate
          show (if s.immediate then _ else _) = Function.update s.cache i ⟨value, s.publications⟩
          rw [if_pos himmediate, h.immediate himmediate]
        · intro himmediate
          show ∀ record, Single (if s.immediate then _ else _) record
          rw [if_neg (ne_true_of_eq_false himmediate)]
          exact h.memory himmediate
      · cases hstep
  | clean =>
      simp only [BootTrace.step] at hstep
      split at hstep
      · rename_i record hpublisher
        cases hstep
        have hcache := h.cache
        rw [hpublisher] at hcache
        refine ⟨hcache.single, ?_, ?_, h.reader_publish hstep' ⟨nofun, nofun⟩ hundisturbed rfl⟩
        · intro himmediate
          funext i
          show (if record.Line i then s.cache i else s.memory i) = s.cache i
          rw [h.immediate himmediate, ite_self]
        · intro himmediate other
          by_cases hother : other = record
          · obtain ⟨n, hn⟩ := hcache.single record
            refine ⟨n, fun i hi => ?_⟩
            rw [hother] at hi
            show (if record.Line i then s.cache i else s.memory i).writer = n
            rw [if_pos hi.line, hn i hi]
          · obtain ⟨n, hn⟩ := h.memory himmediate other
            refine ⟨n, fun i hi => ?_⟩
            show (if record.Line i then s.cache i else s.memory i).writer = n
            rw [if_neg (hi.not_line hother), hn i hi]
      · cases hstep
  | call =>
      cases hstep
      exact ⟨h.cache, h.immediate, h.memory, fun _ => readerFacts_nil⟩
  | read =>
      simp only [BootTrace.step] at hstep
      split_ifs at hstep
      cases hstep
      refine ⟨h.cache, h.immediate, h.memory, fun record => (h.reader record).read ?_⟩
      unfold undisturbed at hundisturbed
      rw [hstep'] at hundisturbed
      refine (decide_eq_true_iff.mp hundisturbed).imp_right ?_
      intro hfirst hbase
      exact h.single (Bool.eq_false_iff.mpr (hfirst record record.mem_all hbase))

theorem inv {s : State} (h : ReachableBy system (fun l s => undisturbed l s = true) s) : Inv s := by
  apply h.invariant
  · intro s ⟨hcache, hwriter, hpublisher, _, hreads⟩
    have hsingle : ∀ record, Single s.memory record :=
      fun record => ⟨0, fun i _ => hwriter i⟩
    refine ⟨?_, fun _ => hcache.symm, fun _ => hsingle, fun record => ?_⟩
    · rw [hpublisher, hcache]
      exact hsingle
    · rw [hreads]
      exact readerFacts_nil
  · intro s t l hs hundisturbed hstep
    exact hs.step hundisturbed hstep

theorem valid_iff : valid reads = true ↔ reads.length = pageWords ∧
    valueAt reads 0 = traceMagic ∧ valueAt reads 1 = traceVersion ∧
      ∀ k < 15, matched (valueAt reads (2 * k + 2)) (valueAt reads (2 * k + 3)) = true := by
  rw [valid, decide_eq_true_iff]

/-- A page printed as valid shows one publication of each record, as long as none becomes
visible while the reader is in the record. -/
theorem boot_trace_not_torn {s : State}
    (h : ReachableBy system (fun l s => undisturbed l s = true) s) : NotTorn s := by
  intro hvalid record
  obtain ⟨hlength, -, -, hmatched⟩ := valid_iff.mp hvalid
  obtain ⟨-, -, -, -, hlast⟩ := record.bounds
  have hpassed : ∃ n, ∀ i, record.Holds i → (wordAt s.reads i).writer = n := by
    rcases (inv h).reader record with hmismatch | ⟨-, hpassed⟩
    · obtain ⟨k, hk, -, hne⟩ := mismatch_iff.mp hmismatch
      exact absurd (hmatched k hk) hne
    · exact hpassed (by omega)
  obtain ⟨n, hn⟩ := hpassed
  refine ⟨n, fun word hword => ?_⟩
  obtain ⟨k, hk, heq⟩ := List.mem_iff_getElem.mp hword
  rw [Record.printed, List.length_take, List.length_drop] at hk
  have hwriter := hn (record.base + k) ⟨by omega, by omega⟩
  rw [wordAt, List.getD_eq_getElem?_getD, List.getElem?_eq_getElem (by omega),
    Option.getD_some] at hwriter
  rw [← heq, ← hwriter]
  simp only [Record.printed, List.getElem_take, List.getElem_drop]

/-! ### An event that becomes visible between two reads -/

/-- `cvitek_boot_trace_init`. -/
def initialPage : Page := fun i =>
  ⟨[traceMagic, traceVersion, hostCookie, ~~~hostCookie, 0#32, ~~~0#32, ~~~0#32, 0#32].getD i
    (if i % 2 = 0 then 0#32 else ~~~0#32), 0⟩

def State.initial (immediate : Bool) : State :=
  ⟨initialPage, initialPage, immediate, .idle, 0, []⟩

theorem start_initial (immediate : Bool) : system.start (State.initial immediate) :=
  ⟨rfl, fun _ => rfl, rfl, rfl, rfl⟩

def publishEvent (event arg : U32) : List Label :=
  .event event arg :: List.replicate 8 .store ++ [.clean]

theorem boot_trace_not_torn_event : ∃ s, valid s.reads = true ∧ s.publications = 1 ∧
    NotTorn s := by
  have hrun : (exec (guarded undisturbed step)
      (publishEvent 3#32 0#32 ++ List.replicate 32 .read) (State.initial false)).map
        (fun s => (valid s.reads, s.publications)) = some (true, 1) := by
    decide +kernel
  obtain ⟨s, hexec, hs⟩ := Option.map_eq_some_iff.mp hrun
  rw [Prod.mk.injEq] at hs
  exact ⟨s, hs.1, hs.2,
    boot_trace_not_torn ((ReachableBy.start (start_initial false)).execGuarded hexec)⟩

/-- The sequence number is read before the event is cleaned, and the event after it. -/
theorem event_torn : ¬∀ s, Reachable system s → NotTorn s := by
  intro hall
  have hrun : (exec step (List.replicate 10 .read ++ publishEvent 3#32 0#32 ++
      List.replicate 22 .read) (State.initial false)).map
        (fun s => (valid s.reads, (Record.printed .event s.reads).map Word.writer)) =
          some (true, [0, 0, 1, 1, 1, 1, 1, 1]) := by
    decide +kernel
  obtain ⟨s, hexec, hs⟩ := Option.map_eq_some_iff.mp hrun
  rw [Prod.mk.injEq] at hs
  obtain ⟨n, hn⟩ := hall s (Reachable.exec (Reachable.start (start_initial false)) hexec) hs.1 .event
  have hwriters : ∀ m ∈ [0, 0, 1, 1, 1, 1, 1, 1], m = n := by
    intro m hm
    rw [← hs.2] at hm
    obtain ⟨word, hword, heq⟩ := List.mem_map.mp hm
    rw [← heq, hn word hword]
  have hzero := hwriters 0 (by decide)
  have hone := hwriters 1 (by decide)
  omega

end Sg200x.Ipc.BootTrace
