import Sg200x.Ipc.DispatchRuns

/-!
# The answer to `SYS_CMD_INFO_STOP_ISR_DONE`

`stop_ip` remembers which of the two drivers has stopped since the last stop.
-/

namespace Sg200x.Ipc.Dispatch

open Shm App Cmdqu Library Library.Transition
open Mailbox (Entry LinuxLabel)

variable {vendor : Vendor} {s t : State}

/-- The command comes to the label of the `switch`. -/
def switched (cmdId : BitVec 7) (next : Inputs × Item) : Bool :=
  (runTask next.1.mmio next.2.command).1 = .vendor ∧ next.2.command.cmdId = cmdId

/-- The commands handled since the last stop, the last one first. -/
def sinceStop (vendor : Vendor) (handled : List (Inputs × Item)) : List (Inputs × Item) :=
  handled.reverse.takeWhile fun next => ! switched vendor.stopIsr next

/-- The driver has reported that it has stopped. -/
def reported (vendor : Vendor) (ipId : U8) (handled : List (Inputs × Item)) : Bool :=
  (sinceStop vendor handled).any fun next =>
    switched vendor.stopIsrDone next && next.2.command.ipId = ipId

theorem reported_append (ipId : U8) (handled : List (Inputs × Item)) (next : Inputs × Item) :
    reported vendor ipId (handled ++ [next]) =
      (!switched vendor.stopIsr next &&
        (switched vendor.stopIsrDone next && next.2.command.ipId = ipId ||
          reported vendor ipId handled)) := by
  rw [reported, sinceStop, List.reverse_append, List.reverse_singleton, List.singleton_append]
  cases hstop : switched vendor.stopIsr next with
  | true => rw [List.takeWhile_cons_of_neg (by rw [hstop]; decide)]; rfl
  | false =>
      rw [List.takeWhile_cons_of_pos (by rw [hstop]; rfl), List.any_cons]
      rfl

/-- The labels above the two of the stop are others. -/
theorem Vendor.labels_ne (vendor : Vendor) {cmdId : BitVec 7}
    (h : cmdId = vendor.stopIsr ∨ cmdId = vendor.stopIsrDone) :
    vendor.trace.map Prod.fst ≠ some cmdId ∧ vendor.trace.map Prod.snd ≠ some cmdId ∧
      ¬(cmdId = vendor.dumpJpg ∨ cmdId = vendor.dumpEn ∨ cmdId = vendor.dumpDis) ∧
      cmdId ≠ vendor.dumpMsg ∧ cmdId ≠ vendor.linuxInitDone := by
  obtain ⟨-, hlabels, htrace⟩ := List.nodup_append.mp vendor.distinct
  have hmem : cmdId ∈ [vendor.dumpJpg, vendor.dumpEn, vendor.dumpDis, vendor.dumpMsg,
      vendor.linuxInitDone, vendor.stopIsr, vendor.stopIsrDone] := by
    rcases h with rfl | rfl <;> simp
  have htrace' : ∀ labels, vendor.trace = some labels → labels.1 ≠ cmdId ∧ labels.2 ≠ cmdId := by
    intro labels hlabels
    rw [hlabels] at htrace
    exact ⟨htrace _ (by simp) cmdId hmem, htrace _ (by simp) cmdId hmem⟩
  refine ⟨?_, ?_, ?_⟩
  · intro hfst
    obtain ⟨labels, hlabels, heq⟩ := Option.map_eq_some_iff.mp hfst
    exact (htrace' labels hlabels).1 heq
  · intro hsnd
    obtain ⟨labels, hlabels, heq⟩ := Option.map_eq_some_iff.mp hsnd
    exact (htrace' labels hlabels).2 heq
  · rcases h with rfl | rfl <;> grind

theorem Vendor.stopIsr_ne (vendor : Vendor) : vendor.stopIsr ≠ vendor.stopIsrDone := by
  obtain ⟨-, hlabels, -⟩ := List.nodup_append.mp vendor.distinct
  grind

/-! ## The commands of the stop -/

variable {inputs : Inputs} {stopIp : StopIp} {command : Command}

theorem vendorCommand_stopIsr (h : command.cmdId = vendor.stopIsr) :
    vendorCommand vendor inputs stopIp command =
      ⟨⟨false, false⟩, some (.vi, { command with ipId := ipVi }), none⟩ := by
  obtain ⟨hstart, hstop, hdump, hmsg, hinit⟩ := vendor.labels_ne (.inl h)
  rw [vendorCommand, if_neg hstart, if_neg hstop, if_neg hdump, if_neg hmsg, if_neg hinit, if_pos h]

theorem vendorCommand_stopIsrDone (h : command.cmdId = vendor.stopIsrDone) :
    vendorCommand vendor inputs stopIp command =
      if command.ipId = ipVi then
        ⟨{ stopIp with vi := true },
          some (.vcodec, { command with ipId := ipVcodec, cmdId := vendor.stopIsr }), none⟩
      else
        ⟨⟨stopIp.vi, command.ipId = ipVcodec || stopIp.vcode⟩, none,
          if stopIp.vi && (command.ipId = ipVcodec || stopIp.vcode) then
            some { command with ipId := ipSystem }
          else none⟩ := by
  obtain ⟨hstart, hstop, hdump, hmsg, hinit⟩ := vendor.labels_ne (.inr h)
  have hne : command.cmdId ≠ vendor.stopIsr := h ▸ vendor.stopIsr_ne.symm
  rw [vendorCommand, if_neg hstart, if_neg hstop, if_neg hdump, if_neg hmsg, if_neg hinit,
    if_neg hne, if_pos h]
  by_cases hvi : command.ipId = ipVi
  · rw [if_pos hvi, if_pos hvi]
  · rw [if_neg hvi, if_neg hvi]
    obtain ⟨vi, vcode⟩ := stopIp
    by_cases hvcodec : command.ipId = ipVcodec <;> cases vi <;> cases vcode <;> simp [hvcodec]

theorem vendorCommand_stopIp (hstop : command.cmdId ≠ vendor.stopIsr)
    (hdone : command.cmdId ≠ vendor.stopIsrDone) :
    (vendorCommand vendor inputs stopIp command).stopIp = stopIp := by
  rw [vendorCommand]
  split_ifs <;> rfl

theorem handle_stopIp (next : Inputs × Item) :
    (handle vendor next.1 stopIp next.2.command).stopIp =
      ⟨!switched vendor.stopIsr next &&
          (switched vendor.stopIsrDone next && next.2.command.ipId = ipVi || stopIp.vi),
        !switched vendor.stopIsr next &&
          (switched vendor.stopIsrDone next && next.2.command.ipId = ipVcodec ||
            stopIp.vcode)⟩ := by
  unfold switched handle
  cases (runTask next.1.mmio next.2.command).1 with
  | doorbell => rfl
  | reply reply => rfl
  | vendor =>
      by_cases hstop : next.2.command.cmdId = vendor.stopIsr
      · simp [vendorCommand_stopIsr hstop, hstop]
      · by_cases hdone : next.2.command.cmdId = vendor.stopIsrDone
        · simp only [vendorCommand_stopIsrDone hdone]
          have hne := vendor.stopIsr_ne.symm
          by_cases hvi : next.2.command.ipId = ipVi
          · simp [hvi, hdone, hne, ipVi, ipVcodec]
          · simp [hvi, hdone, hne]
        · simp [vendorCommand_stopIp hstop hdone, hstop, hdone]

theorem handle_cases {item : Item} (htask : s.task = .handling item)
    (hstep : step vendor (.handle inputs) s = some t) :
    t.task = (handle vendor inputs s.stopIp item.command).reply.elim .idle .replying ∧
      t.handled = s.handled ++ [(inputs, item)] := by
  simp only [step] at hstep
  split_ifs at hstep
  simp only [taskStep, htask] at hstep
  cases hforward : (handle vendor inputs s.stopIp item.command).forward with
  | none =>
      rw [hforward] at hstep
      cases hstep
      exact ⟨rfl, rfl⟩
  | some forward =>
      rw [hforward] at hstep
      rw [← Option.some.inj hstep]
      constructor <;> (unfold sendCommand; dsimp only [Option.elim_some]; split <;> rfl)

/-- `stop_ip` after any commands. -/
theorem replay_stopIp (handled : List (Inputs × Item)) :
    (replay vendor handled).1 =
      ⟨reported vendor ipVi handled, reported vendor ipVcodec handled⟩ := by
  induction handled using List.reverseRecOn with
  | nil => rfl
  | append_singleton handled next ih =>
      rw [replay_append, replayStep, handle_stopIp, ih, reported_append, reported_append]

/-- A `SYS_CMD_INFO_STOP_ISR_DONE` is answered exactly when both drivers have reported since the
last stop, unless it is the report of VI, which is passed on to VCODEC. -/
theorem stopIsrDone_answered {item : Item} (h : Reachable (system vendor) s)
    (htask : s.task = .handling item) (hdone : switched vendor.stopIsrDone (inputs, item) = true)
    (hstep : step vendor (.handle inputs) s = some t) :
    t.task =
      if item.command.ipId ≠ ipVi ∧ reported vendor ipVi t.handled = true ∧
        reported vendor ipVcodec t.handled = true then
        .replying { item.command with ipId := ipSystem }
      else .idle := by
  obtain ⟨hvendor, hcmd⟩ := of_decide_eq_true hdone
  have hinv := inv h
  have hstopIp : s.stopIp = ⟨reported vendor ipVi s.handled, reported vendor ipVcodec s.handled⟩ := by
    rw [← replay_stopIp, hinv.replied]
  have hnot : switched vendor.stopIsr (inputs, item) = false := by
    apply decide_eq_false
    exact fun hstop => vendor.stopIsr_ne (hstop.2.symm.trans hcmd)
  obtain ⟨ht, hhandled⟩ := handle_cases htask hstep
  have hhandle : handle vendor inputs s.stopIp item.command =
      vendorCommand vendor inputs s.stopIp item.command := by
    rw [handle, hvendor]
  rw [ht, hhandled, reported_append, reported_append, hnot, hdone, hhandle,
    vendorCommand_stopIsrDone hcmd, hstopIp]
  have hne : ipVcodec ≠ ipVi := by decide
  by_cases hvi : item.command.ipId = ipVi
  · simp [hvi]
  · by_cases hvcodec : item.command.ipId = ipVcodec <;>
      cases reported vendor ipVi s.handled <;> cases reported vendor ipVcodec s.handled <;>
      simp [hvi, hvcodec, hne]


/-! ### Both drivers report -/

def stopIsrDone (ipId : U8) : Command := ⟨ipId, 0x54#7, 0#1, 0#8, 0#8, 0#32⟩

def noInputs : Inputs := ⟨fun _ => 0#32, 0#32, 0#32⟩

def reportRun : List Label :=
  [.post .cmdqu (stopIsrDone ipVi), .dequeue, .handle noInputs,
    .post .cmdqu (stopIsrDone ipVcodec), .dequeue]

theorem stopIsrDone_answered_vcodec : ∃ s t, step sysCmd (.handle noInputs) s = some t ∧
    t.task = .replying (stopIsrDone ipSystem) := by
  have hrun : (exec (step sysCmd) reportRun State.initial).map State.task =
      some (.handling (.sent (stopIsrDone ipVcodec))) := by
    decide
  obtain ⟨s, hexec, htask⟩ := Option.map_eq_some_iff.mp hrun
  have hnext : (exec (step sysCmd) (reportRun ++ [.handle noInputs]) State.initial).map
      (fun t => (reported sysCmd ipVi t.handled, reported sysCmd ipVcodec t.handled)) =
        some (true, true) := by
    decide
  obtain ⟨t, hboth, ht⟩ := Option.map_eq_some_iff.mp hnext
  rw [Prod.mk.injEq] at ht
  rw [exec_append, hexec, Option.bind_some, exec_cons, Option.bind_eq_some_iff] at hboth
  obtain ⟨t', hstep, ht'⟩ := hboth
  cases ht'
  refine ⟨s, t, hstep, ?_⟩
  rw [stopIsrDone_answered (Reachable.exec (.start rfl) hexec) htask (by decide) hstep]
  exact if_pos ⟨by decide, ht⟩

end Sg200x.Ipc.Dispatch
