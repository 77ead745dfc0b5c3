import Sg200x.Library.Transition
import Sg200x.Isp.Requests

/-!
# The manual exposure

`set_manual_iso`, `set_manual_value` and `set_manual_gains` each write some of the operation
types of the exposure and leave the others.  The operation types stay coherent as long as no
`iso` is applied while a gain is set by hand: `iso` alone does not hand the gains back.
-/

namespace Sg200x.Isp

open Library.Transition

variable {n : ℕ} {answers : Answers} {s : State n} {datagram : Text}

/-! ## What a command writes -/

theorem parseU32_bounds {text : Text} {minimum maximum : ℕ} {value : UInt32}
    (hmaximum : maximum < 2 ^ 32) (h : parseU32 text minimum maximum = .ok value) :
    minimum ≤ value.toNat ∧ value.toNat ≤ maximum := by
  unfold parseU32 at h
  split at h
  · cases h
  dsimp only at h
  split at h
  · cases h
  next hrange =>
    obtain rfl := Except.ok.inj h
    rw [UInt32.toNat_ofNat_of_lt' (by unfold UInt32.size; omega)]
    omega

/-- What an applied command makes of the exposure. -/
inductive Writes (e : ExposureAttr) : Command → ExposureAttr → Prop
  | auto : Writes e .auto (autoExposure e)
  | manual (us value : UInt32) : Writes e (.manual us value) (manualIso us value e)
  | exptime (value : UInt32) {m : ManualExposure} : e.opType = .manual →
      manualValue 0 value e.manual = .ok m → Writes e (.exptime value) { e with manual := m }
  | iso (value : UInt32) {m : ManualExposure} : e.opType = .manual →
      manualValue 1 value e.manual = .ok m → Writes e (.iso value) { e with manual := m }
  | again (value : UInt32) {m : ManualExposure} : e.opType = .manual →
      manualValue 2 value e.manual = .ok m → Writes e (.again value) { e with manual := m }
  | dgain (value : UInt32) {m : ManualExposure} : e.opType = .manual →
      manualValue 3 value e.manual = .ok m → Writes e (.dgain value) { e with manual := m }
  | ispdgain (value : UInt32) {m : ManualExposure} : e.opType = .manual →
      manualValue 4 value e.manual = .ok m → Writes e (.ispdgain value) { e with manual := m }
  | gains (a d i : UInt32) : e.opType = .manual →
      Writes e (.gains a d i) { e with manual := manualGains a d i e.manual }

/-- The vendor's library reads and writes the exposure while a command is handled. -/
structure Answers.Exposes (answers : Answers) : Prop where
  get : answers.succeeds (.get .exposure) = true
  set : answers.succeeds (.set .exposure) = true

/-- A command is applied, or the exposure stays as it is. -/
theorem setResult_updateExposure (answers : Answers) (s : State n)
    (update : ExposureAttr → Except ℤ ExposureAttr) :
    (setResult (updateExposure answers s update)).1.exposure = s.exposure ∨
    ∃ e, answers.Exposes ∧ update s.exposure = .ok e ∧
      setResult (updateExposure answers s update) =
        ({ s with exposure := e }, reply "OK applied".toList) := by
  unfold updateExposure getExposureAttr setExposureAttr
  cases hget : answers.succeeds (.get .exposure) with
  | false => exact .inl rfl
  | true =>
      simp only [if_true]
      cases hupdate : update s.exposure with
      | error ret => exact .inl rfl
      | ok e =>
          cases hset : answers.succeeds (.set .exposure) with
          | false => exact .inl rfl
          | true => exact .inr ⟨e, ⟨hget, hset⟩, rfl, rfl⟩

theorem setManualValue_cases (answers : Answers) (s : State n) (valueIndex : ℕ) (value : UInt32) :
    (setResult (setManualValue answers s valueIndex value)).1.exposure = s.exposure ∨
    ∃ m, answers.Exposes ∧ s.exposure.opType = .manual ∧
      manualValue valueIndex value s.exposure.manual = .ok m ∧
      setResult (setManualValue answers s valueIndex value) =
        ({ s with exposure := { s.exposure with manual := m } }, reply "OK applied".toList) := by
  refine (setResult_updateExposure answers s _).imp_right ?_
  rintro ⟨e, hexposes, hupdate, hresult⟩
  split at hupdate
  · cases hupdate
  next hmanual =>
    cases hvalue : manualValue valueIndex value s.exposure.manual with
    | error ret => rw [hvalue] at hupdate; cases hupdate
    | ok m =>
        rw [hvalue] at hupdate
        obtain rfl := Except.ok.inj hupdate
        exact ⟨m, hexposes, not_not.mp hmanual, rfl, hresult⟩

/-- The noise commands leave the exposure alone. -/
theorem run_noise_exposure (command : Command)
    (h : command = .noiseSave ∨ command = .noiseRestore ∨
      ∃ moduleName isoIndex value, command = .noiseSet moduleName isoIndex value) :
    (command.run answers s).1.exposure = s.exposure := by
  rcases h with rfl | rfl | ⟨moduleName, isoIndex, value, rfl⟩
  · simp only [Command.run, replyResult, saveNoiseSnapshot]
    split <;> rfl
  · simp only [Command.run, replyResult, restoreNoiseSnapshot]
    split
    · rfl
    split
    · rfl
    split <;> rfl
  · simp only [Command.run, replyResult, setNoiseValue]
    split
    · rfl
    split
    · split
      · rfl
      split
      · rfl
      split
      · rfl
      split <;> rfl
    · rfl

theorem run_exposure (answers : Answers) (s : State n) (command : Command) :
    (command.run answers s).1.exposure = s.exposure ∨
    ∃ e, answers.Exposes ∧ Writes s.exposure command e ∧
      command.run answers s = ({ s with exposure := e }, reply "OK applied".toList) := by
  have hvalue : ∀ {valueIndex value}, (∀ {m}, s.exposure.opType = .manual →
      manualValue valueIndex value s.exposure.manual = .ok m →
      Writes s.exposure command { s.exposure with manual := m }) →
      command.run answers s = setResult (setManualValue answers s valueIndex value) →
      (command.run answers s).1.exposure = s.exposure ∨
      ∃ e, answers.Exposes ∧ Writes s.exposure command e ∧
        command.run answers s = ({ s with exposure := e }, reply "OK applied".toList) := by
    intro valueIndex value hwrites hrun
    rw [hrun]
    refine (setManualValue_cases answers s valueIndex value).imp_right ?_
    rintro ⟨m, hexposes, hmanual, hm, hresult⟩
    exact ⟨_, hexposes, hwrites hmanual hm, hresult⟩
  cases command with
  | auto =>
      refine (setResult_updateExposure answers s _).imp_right ?_
      rintro ⟨e, hexposes, hupdate, hresult⟩
      obtain rfl := Except.ok.inj hupdate
      exact ⟨_, hexposes, .auto, hresult⟩
  | manual us value =>
      refine (setResult_updateExposure answers s _).imp_right ?_
      rintro ⟨e, hexposes, hupdate, hresult⟩
      obtain rfl := Except.ok.inj hupdate
      exact ⟨_, hexposes, .manual us value, hresult⟩
  | exptime value => exact hvalue (.exptime value) rfl
  | iso value => exact hvalue (.iso value) rfl
  | again value => exact hvalue (.again value) rfl
  | dgain value => exact hvalue (.dgain value) rfl
  | ispdgain value => exact hvalue (.ispdgain value) rfl
  | gains a d i =>
      refine (setResult_updateExposure answers s _).imp_right ?_
      rintro ⟨e, hexposes, hupdate, hresult⟩
      split at hupdate
      · cases hupdate
      next hmanual =>
        obtain rfl := Except.ok.inj hupdate
        exact ⟨_, hexposes, .gains a d i (not_not.mp hmanual), hresult⟩
  | noiseSave => exact .inl (run_noise_exposure _ (.inl rfl))
  | noiseRestore => exact .inl (run_noise_exposure _ (.inr (.inl rfl)))
  | noiseSet moduleName isoIndex value =>
      exact .inl (run_noise_exposure _ (.inr (.inr ⟨moduleName, isoIndex, value, rfl⟩)))

/-- A datagram leaves the exposure alone, or it is a command that is applied. -/
theorem handleDatagram_exposure (answers : Answers) (s : State n) (datagram : Text) :
    (handleDatagram answers s datagram).1.exposure = s.exposure ∨
    ∃ command e, Asks n datagram command ∧ answers.Exposes ∧ Writes s.exposure command e ∧
      handleDatagram answers s datagram =
        ({ s with exposure := e }, reply "OK applied".toList) := by
  rcases handleDatagram_cases answers s datagram with hsame | ⟨command, hasks⟩
  · exact .inl (by rw [hsame])
  · rw [handleDatagram_of_asks hasks]
    refine (run_exposure answers s command).imp_right ?_
    rintro ⟨e, hexposes, hwrites, hrun⟩
    exact ⟨command, e, hasks, hexposes, hwrites, hrun⟩

/-! ## Coherence -/

/-- The gains are left to the library. -/
structure GainsAuto (m : ManualExposure) : Prop where
  aGain : m.aGainOpType = .auto
  dGain : m.dGainOpType = .auto
  ispDGain : m.ispDGainOpType = .auto

/-- In manual mode the operation types say what the gain type says. -/
structure Coherent (e : ExposureAttr) : Prop where
  isoNum : e.opType = .manual → e.manual.gainType = .iso → e.manual.isoNumOpType = .manual
  gains : e.opType = .manual → e.manual.gainType = .iso → GainsAuto e.manual
  gainType : e.opType = .manual → e.manual.gainType = .gain → e.manual.isoNumOpType = .auto

/-- What decides the gain: everything of the manual exposure but the exposure time and the
gains themselves. -/
structure SameGain (m m' : ManualExposure) : Prop where
  gainType : m.gainType = m'.gainType
  isoNumOpType : m.isoNumOpType = m'.isoNumOpType
  isoNum : m.isoNum = m'.isoNum
  aGainOpType : m.aGainOpType = m'.aGainOpType
  dGainOpType : m.dGainOpType = m'.dGainOpType
  ispDGainOpType : m.ispDGainOpType = m'.ispDGainOpType

/-- The datagram is an `iso` that is applied. -/
structure AppliesIso (answers : Answers) (s : State n) (datagram : Text) (value : UInt32) : Prop
    where
  asks : Asks n datagram (.iso value)
  exposes : answers.Exposes
  manual : s.exposure.opType = .manual

/-- An `iso` is applied only while the gains are left to the library. -/
def KeepsGains (command : Answers × Text) (s : State n) : Prop :=
  ∀ value, AppliesIso command.1 s command.2 value → GainsAuto s.exposure.manual

theorem AppliesIso.result {value : UInt32} (h : AppliesIso answers s datagram value) :
    handleDatagram answers s datagram =
      ({ s with exposure := { s.exposure with manual := { s.exposure.manual with
        gainType := .iso, isoNumOpType := .manual, isoNum := value } } },
        reply "OK applied".toList) := by
  rw [handleDatagram_of_asks h.asks]
  simp [Command.run, setManualValue, updateExposure, getExposureAttr, setExposureAttr,
    h.exposes.get, h.exposes.set, h.manual, manualValue, Except.map, setResult, formatSetResult,
    eperm]

theorem Writes.coherent {e e' : ExposureAttr} {command : Command} (h : Coherent e)
    (hwrites : Writes e command e') (hiso : ∀ value, command = .iso value → GainsAuto e.manual) :
    Coherent e' := by
  cases hwrites with
  | auto => exact ⟨nofun, nofun, nofun⟩
  | manual us value => exact ⟨fun _ _ => rfl, fun _ _ => ⟨rfl, rfl, rfl⟩, nofun⟩
  | exptime value hmanual hm =>
      obtain rfl := Except.ok.inj hm
      exact ⟨h.isoNum, fun hmode hgain =>
        let gains := h.gains hmode hgain
        ⟨gains.aGain, gains.dGain, gains.ispDGain⟩, h.gainType⟩
  | iso value hmanual hm =>
      obtain rfl := Except.ok.inj hm
      have hgains := hiso value rfl
      exact ⟨fun _ _ => rfl, fun _ _ => ⟨hgains.aGain, hgains.dGain, hgains.ispDGain⟩, nofun⟩
  | again value hmanual hm =>
      obtain rfl := Except.ok.inj hm
      exact ⟨nofun, nofun, fun _ _ => rfl⟩
  | dgain value hmanual hm =>
      obtain rfl := Except.ok.inj hm
      exact ⟨nofun, nofun, fun _ _ => rfl⟩
  | ispdgain value hmanual hm =>
      obtain rfl := Except.ok.inj hm
      exact ⟨nofun, nofun, fun _ _ => rfl⟩
  | gains a d i => exact ⟨nofun, nofun, fun _ _ => rfl⟩

/-- One datagram keeps the exposure coherent exactly when it applies no `iso` over a gain that
is set by hand. -/
theorem coherent_step_iff (h : Coherent s.exposure) (answers : Answers) (datagram : Text) :
    Coherent (handleDatagram answers s datagram).1.exposure ↔
      KeepsGains (answers, datagram) s := by
  constructor
  · intro hnext value hiso
    rw [hiso.result] at hnext
    have hgains := hnext.gains hiso.manual rfl
    exact ⟨hgains.aGain, hgains.dGain, hgains.ispDGain⟩
  · intro hkeeps
    rcases handleDatagram_exposure answers s datagram with
      hsame | ⟨command, e, hasks, hexposes, hwrites, hresult⟩
    · rwa [hsame]
    · rw [hresult]
      refine hwrites.coherent h ?_
      rintro value rfl
      cases hwrites with
      | iso _ hmanual => exact hkeeps value ⟨hasks, hexposes, hmanual⟩

/-! ## Ranges -/

/-- A value that is kept, or written within bounds. -/
def Written (minimum maximum : ℕ) (value value' : UInt32) : Prop :=
  value' = value ∨ (minimum ≤ value'.toNat ∧ value'.toNat ≤ maximum)

structure InRange (m m' : ManualExposure) : Prop where
  expTime : Written 1 exposureTimeMaxUs m.expTime m'.expTime
  isoNum : Written manualIsoMin manualIsoMax m.isoNum m'.isoNum
  aGain : Written manualGainMin manualGainMax m.aGain m'.aGain
  dGain : Written manualGainMin manualGainMax m.dGain m'.dGain
  ispDGain : Written manualGainMin manualIspDGainMax m.ispDGain m'.ispDGain

theorem Writes.inRange {e e' : ExposureAttr} {command : Command} (hwrites : Writes e command e')
    (hspells : Spells n (tokens datagram) command) : InRange e.manual e'.manual := by
  generalize tokens datagram = arguments at hspells
  cases hwrites with
  | auto => exact ⟨.inl rfl, .inl rfl, .inl rfl, .inl rfl, .inl rfl⟩
  | manual us value =>
      cases hspells with
      | manual ha hb =>
          exact ⟨.inr (parseU32_bounds (by decide) ha), .inr (parseU32_bounds (by decide) hb),
            .inl rfl, .inl rfl, .inl rfl⟩
  | exptime value hmanual hm =>
      obtain rfl := Except.ok.inj hm
      cases hspells with
      | exptime ha =>
          exact ⟨.inr (parseU32_bounds (by decide) ha), .inl rfl, .inl rfl, .inl rfl, .inl rfl⟩
  | iso value hmanual hm =>
      obtain rfl := Except.ok.inj hm
      cases hspells with
      | iso ha =>
          exact ⟨.inl rfl, .inr (parseU32_bounds (by decide) ha), .inl rfl, .inl rfl, .inl rfl⟩
  | again value hmanual hm =>
      obtain rfl := Except.ok.inj hm
      cases hspells with
      | again ha =>
          exact ⟨.inl rfl, .inl rfl, .inr (parseU32_bounds (by decide) ha), .inl rfl, .inl rfl⟩
  | dgain value hmanual hm =>
      obtain rfl := Except.ok.inj hm
      cases hspells with
      | dgain ha =>
          exact ⟨.inl rfl, .inl rfl, .inl rfl, .inr (parseU32_bounds (by decide) ha), .inl rfl⟩
  | ispdgain value hmanual hm =>
      obtain rfl := Except.ok.inj hm
      cases hspells with
      | ispdgain ha =>
          exact ⟨.inl rfl, .inl rfl, .inl rfl, .inl rfl, .inr (parseU32_bounds (by decide) ha)⟩
  | gains a d i hmanual =>
      cases hspells with
      | gains ha hb hc =>
          exact ⟨.inl rfl, .inl rfl, .inr (parseU32_bounds (by decide) ha),
            .inr (parseU32_bounds (by decide) hb), .inr (parseU32_bounds (by decide) hc)⟩

theorem handleDatagram_inRange (answers : Answers) (s : State n) (datagram : Text) :
    InRange s.exposure.manual (handleDatagram answers s datagram).1.exposure.manual := by
  rcases handleDatagram_exposure answers s datagram with
    hsame | ⟨command, e, hasks, hexposes, hwrites, hresult⟩
  · rw [hsame]
    exact ⟨.inl rfl, .inl rfl, .inl rfl, .inl rfl, .inl rfl⟩
  · rw [hresult]
    exact hwrites.inRange hasks.spells

/-- A command that is refused leaves the exposure as it is. -/
theorem handleDatagram_refused
    (h : "ERR".toList <+: (handleDatagram answers s datagram).2) :
    (handleDatagram answers s datagram).1.exposure = s.exposure := by
  rcases handleDatagram_exposure answers s datagram with
    hsame | ⟨command, e, hasks, hexposes, hwrites, hresult⟩
  · exact hsame
  · rw [hresult] at h
    have herr : ¬ "ERR".toList <+: reply "OK applied".toList := by decide
    exact absurd h herr

/-! ## Runs -/

/-- The datagram is an `auto` or a `manual`. -/
def SetsMode (n : ℕ) (datagram : Text) : Prop :=
  Asks n datagram .auto ∨ ∃ us value, Asks n datagram (.manual us value)

/-- The control from the first `auto` or `manual` on that is applied. -/
def exposureControl (n : ℕ) : System (State n) (Answers × Text) where
  start s := ∃ answers s₀ datagram, SetsMode n datagram ∧
    handleDatagram answers s₀ datagram = (s, reply "OK applied".toList)
  step command s := some (handleDatagram command.1 s command.2).1

theorem exposure_of_applied {s₀ : State n} {f : ExposureAttr → ExposureAttr}
    (h : setResult (updateExposure answers s₀ fun e => .ok (f e)) =
      (s, reply "OK applied".toList)) : s.exposure = f s₀.exposure := by
  have hfailed : formatSetResult (-eio) ≠ reply "OK applied".toList := by decide
  unfold updateExposure getExposureAttr setExposureAttr at h
  cases hget : answers.succeeds (.get .exposure) with
  | false =>
      rw [hget] at h
      exact absurd (congrArg Prod.snd h) hfailed
  | true =>
      cases hset : answers.succeeds (.set .exposure) with
      | false =>
          rw [hget, hset] at h
          exact absurd (congrArg Prod.snd h) hfailed
      | true =>
          rw [hget, hset] at h
          exact (congrArg (fun result => result.1.exposure) h).symm

theorem SetsMode.coherent {s₀ : State n} (h : SetsMode n datagram)
    (hresult : handleDatagram answers s₀ datagram = (s, reply "OK applied".toList)) :
    Coherent s.exposure := by
  rcases h with hasks | ⟨us, value, hasks⟩
  · rw [handleDatagram_of_asks hasks] at hresult
    rw [exposure_of_applied hresult]
    exact ⟨nofun, nofun, nofun⟩
  · rw [handleDatagram_of_asks hasks] at hresult
    rw [exposure_of_applied hresult]
    exact ⟨fun _ _ => rfl, fun _ _ => ⟨rfl, rfl, rfl⟩, nofun⟩

theorem coherent_of_reachableBy (h : ReachableBy (exposureControl n) KeepsGains s) :
    Coherent s.exposure := by
  induction h with
  | start hstart =>
      obtain ⟨answers, s₀, datagram, hmode, hresult⟩ := hstart
      exact hmode.coherent hresult
  | @step s t command _ hkeeps hstep ih =>
      obtain rfl := Option.some.inj hstep
      exact (coherent_step_iff ih command.1 command.2).mpr hkeeps

/-- What `iso` leaves of the gain is what `manual` leaves of it. -/
theorem AppliesIso.sameGain_iff {value us : UInt32} (h : AppliesIso answers s datagram value) :
    SameGain (handleDatagram answers s datagram).1.exposure.manual
      (manualIso us value s.exposure).manual ↔ GainsAuto s.exposure.manual := by
  rw [h.result]
  constructor
  · intro hsame
    exact ⟨hsame.aGainOpType, hsame.dGainOpType, hsame.ispDGainOpType⟩
  · intro hgains
    exact ⟨rfl, rfl, rfl, hgains.aGain, hgains.dGain, hgains.ispDGain⟩

/-- The exposure stays coherent in every run that applies no `iso` over a gain that is set by
hand; what is refused changes nothing and what is written is in range. -/
theorem exposure_coherent (h : ReachableBy (exposureControl n) KeepsGains s) :
    Coherent s.exposure ∧
    ∀ answers datagram,
      (Coherent (handleDatagram answers s datagram).1.exposure ↔
        KeepsGains (answers, datagram) s) ∧
      ("ERR".toList <+: (handleDatagram answers s datagram).2 →
        (handleDatagram answers s datagram).1.exposure = s.exposure) ∧
      InRange s.exposure.manual (handleDatagram answers s datagram).1.exposure.manual ∧
      ∀ value us answers' datagram', AppliesIso answers s datagram value →
        KeepsGains (answers, datagram) s → Asks n datagram' (.manual us value) →
        answers'.Exposes →
        SameGain (handleDatagram answers s datagram).1.exposure.manual
          (handleDatagram answers' s datagram').1.exposure.manual := by
  have hcoherent := coherent_of_reachableBy h
  refine ⟨hcoherent, fun answers datagram => ⟨coherent_step_iff hcoherent answers datagram,
    handleDatagram_refused, handleDatagram_inRange answers s datagram, ?_⟩⟩
  intro value us answers' datagram' hiso hkeeps hasks hexposes
  have hmanual : (handleDatagram answers' s datagram').1.exposure =
      manualIso us value s.exposure := by
    rw [handleDatagram_of_asks hasks]
    simp [Command.run, setManualIso, updateExposure, getExposureAttr, setExposureAttr,
      hexposes.get, hexposes.set, setResult]
  rw [hmanual]
  exact hiso.sameGain_iff.mpr (hkeeps value hiso)

theorem reachableBy_manual {allowed : Answers × Text → State 16 → Prop} :
    ReachableBy (exposureControl 16) allowed ((State.zero 16).after ["manual 100 200"]) := by
  refine .start ⟨.all, .zero 16, "manual 100 200".toList, .inr ⟨100, 200, by decide, ?_⟩, rfl⟩
  exact .manual rfl rfl

theorem exposure_coherent_iso :
    Coherent ((State.zero 16).after ["manual 100 200", "iso 400"]).exposure ∧
      ((State.zero 16).after ["manual 100 200", "iso 400"]).exposure.manual.isoNum = 400 :=
  ⟨(exposure_coherent
    (ReachableBy.step (l := (.all, "iso 400".toList)) reachableBy_manual
      (fun _ _ => ⟨by decide, by decide, by decide⟩) rfl)).1, by decide⟩

/-- `iso` after `again` leaves the analog gain set by hand under the gain type ISO. -/
theorem iso_leaves_gain : ∃ s, Reachable (exposureControl 16) s ∧ ¬ Coherent s.exposure := by
  have hagain : Reachable (exposureControl 16)
      ((State.zero 16).after ["manual 100 200", "again 2048"]) :=
    Reachable.step (l := (.all, "again 2048".toList)) reachableBy_manual rfl
  have hiso : Reachable (exposureControl 16)
      ((State.zero 16).after ["manual 100 200", "again 2048", "iso 400"]) :=
    Reachable.step (l := (.all, "iso 400".toList)) hagain rfl
  refine ⟨_, hiso, fun hcoherent => ?_⟩
  have hgain := (hcoherent.gains (by decide) (by decide)).aGain
  exact absurd hgain (by decide)

end Sg200x.Isp
