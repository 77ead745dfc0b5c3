import Sg200x.Library.Transition
import Sg200x.Isp.Requests

/-!
# The saved noise

What `noise save` keeps, what `noise set` changes and what `noise restore` promises, in every run
of commands and under every pattern of failures of the vendor's library.
-/

namespace Sg200x.Isp

open Library.Transition

variable {n : ℕ} {answers : Answers} {s : State n} {datagram : Text}

/-! ## Replies -/

theorem replyCode_ne_reply {err ok : String} {c c' : Char} {rest rest' : Text}
    (herr : err.toList = c :: rest) (hok : ok.toList = c' :: rest') (hne : c ≠ c') (ret : ℤ) :
    replyCode err ret ≠ reply ok.toList := by
  intro h
  unfold replyCode reply snprintf at h
  rw [herr, hok] at h
  exact hne (List.cons.inj h).1

theorem replyResult_eq_ok {err ok : String} {c c' : Char} {rest rest' : Text}
    (herr : err.toList = c :: rest) (hok : ok.toList = c' :: rest') (hne : c ≠ c')
    (result : State n × ℤ) : (replyResult ok err result).2 = reply ok.toList ↔ result.2 = 0 := by
  unfold replyResult
  by_cases hret : result.2 = 0
  · simp [hret]
  · simp [hret, replyCode_ne_reply herr hok hne]

/-! ## What each command does to the noise -/

/-- The command is answered with success. -/
def Succeeds (ok : String) (command : Answers × Text) (s : State n) : Prop :=
  (handleDatagram command.1 s command.2).2 = reply ok.toList

/-- The datagram is a `noise save` that succeeds. -/
def Saves (command : Answers × Text) (s : State n) : Prop :=
  Asks n command.2 .noiseSave ∧ Succeeds "OK noise_saved" command s

/-- The datagram is a `noise restore` that succeeds. -/
def Restores (command : Answers × Text) (s : State n) : Prop :=
  Asks n command.2 .noiseRestore ∧ Succeeds "OK noise_restored" command s

/-- The records differ in one byte of the curve of one module. -/
structure Edited (m : NoiseModule) (index : ℕ) (value : UInt8) (records records' : NoiseRecords n) :
    Prop where
  index_lt : index < n
  byte : (records'.curve m)[index] = value
  rest : ∀ k (hk : k < n), k ≠ index → (records'.curve m)[k] = (records.curve m)[k]
  others : ∀ curve, records'.withCurve curve m = records.withCurve curve m

@[simp] theorem NoiseRecords.curve_withCurve (records : NoiseRecords n) (curve : Vector UInt8 n)
    (m : NoiseModule) : (records.withCurve curve m).curve m = curve := by
  cases m <;> rfl

@[simp] theorem NoiseRecords.withCurve_withCurve (records : NoiseRecords n)
    (curve curve' : Vector UInt8 n) (m : NoiseModule) :
    (records.withCurve curve m).withCurve curve' m = records.withCurve curve' m := by
  cases m <;> rfl

theorem edited_set (records : NoiseRecords n) (m : NoiseModule) {index : ℕ} (hindex : index < n)
    (value : UInt8) :
    Edited m index value records (records.withCurve ((records.curve m).set index value hindex) m)
    where
  index_lt := hindex
  byte := by simp
  rest k hk hne := by simp [Vector.getElem_set_ne _ _ hne.symm]
  others curve := by simp

theorem setResult_noise (answers : Answers) (s : State n)
    (update : ExposureAttr → Except ℤ ExposureAttr) :
    (setResult (updateExposure answers s update)).1.noise = s.noise ∧
      (setResult (updateExposure answers s update)).1.savedNoise = s.savedNoise := by
  unfold setResult updateExposure setExposureAttr
  cases getExposureAttr answers s with
  | error ret => exact ⟨rfl, rfl⟩
  | ok exposure =>
      dsimp only
      cases update exposure with
      | error ret => exact ⟨rfl, rfl⟩
      | ok e =>
          dsimp only
          split <;> exact ⟨rfl, rfl⟩

/-- The function returns an error and changes nothing. -/
def Refused (s : State n) (result : State n × ℤ) : Prop := result.1 = s ∧ result.2 ≠ 0

theorem refused (s : State n) {ret : ℤ} (h : ret ≠ 0) : Refused s (s, ret) := ⟨rfl, h⟩

theorem saveNoiseSnapshot_cases (answers : Answers) (s : State n) :
    Refused s (saveNoiseSnapshot answers s) ∨
    saveNoiseSnapshot answers s = ({ s with savedNoise := ⟨true, s.noise⟩ }, 0) := by
  unfold saveNoiseSnapshot readNoiseSnapshot
  by_cases hall : noiseRecords.all fun record => answers.succeeds (.get record)
  · rw [if_pos hall]
    exact .inr rfl
  · rw [if_neg hall]
    exact .inl (refused s (by decide))

theorem setNoiseValue_cases (answers : Answers) (s : State n) (moduleName : Text)
    (isoIndex value : ℕ) :
    Refused s (setNoiseValue answers s moduleName isoIndex value) ∨
    ∃ m noise, setNoiseValue answers s moduleName isoIndex value = ({ s with noise := noise }, 0) ∧
      s.savedNoise.valid = true ∧ NoiseModule.ofText moduleName = some m ∧
      Edited m isoIndex (UInt8.ofNat value) s.noise noise := by
  unfold setNoiseValue
  cases hvalid : s.savedNoise.valid with
  | false => exact .inl (refused s (by decide))
  | true =>
      simp only [Bool.true_eq_false, if_false]
      split
      next hrange =>
        cases hmodule : NoiseModule.ofText moduleName with
        | none => exact .inl (refused s (by decide))
        | some m =>
            dsimp only
            split
            · exact .inl (refused s (by decide))
            split
            · exact .inl (refused s (by decide))
            split
            · exact .inr ⟨m, _, rfl, trivial, rfl, edited_set s.noise m hrange.1 _⟩
            · exact .inl (refused s (by decide))
      · exact .inl (refused s (by decide))

theorem restoreNoiseSnapshot_savedNoise (answers : Answers) (s : State n) :
    (restoreNoiseSnapshot answers s).1.savedNoise = s.savedNoise := by
  unfold restoreNoiseSnapshot
  split
  · rfl
  dsimp only
  split
  · rfl
  split <;> rfl

/-- A restore that succeeds has read back the saved records. -/
theorem restoreNoiseSnapshot_noise (h : (restoreNoiseSnapshot answers s).2 = 0) :
    s.savedNoise.valid = true ∧
      (restoreNoiseSnapshot answers s).1.noise = s.savedNoise.records := by
  have henoent : -enoent ≠ 0 := by decide
  have heio : -eio ≠ 0 := by decide
  unfold restoreNoiseSnapshot at h ⊢
  split at h
  · exact absurd h henoent
  next hvalid =>
    rw [if_neg hvalid]
    refine ⟨by simpa using hvalid, ?_⟩
    dsimp only at h ⊢
    split at h
    · exact absurd h heio
    next hset =>
      rw [if_neg hset]
      unfold readNoiseSnapshot at h ⊢
      by_cases hall : noiseRecords.all fun record => answers.succeeds (.get record)
      · rw [if_pos hall] at h ⊢
        dsimp only at h ⊢
        by_cases hsame : restoreRecords answers s.savedNoise.records s.noise =
            s.savedNoise.records
        · exact hsame
        · rw [if_neg hsame] at h
          exact absurd h heio
      · rw [if_neg hall] at h
        exact absurd h heio

/-! ## Steps -/

theorem savedNoise_of_saves {command : Answers × Text} (h : Saves command s) :
    (handleDatagram command.1 s command.2).1.savedNoise = ⟨true, s.noise⟩ := by
  obtain ⟨hasks, hsucceeds⟩ := h
  unfold Succeeds at hsucceeds
  rw [handleDatagram_of_asks hasks] at hsucceeds ⊢
  have hret := (replyResult_eq_ok rfl rfl (by decide) _).mp hsucceeds
  rcases saveNoiseSnapshot_cases command.1 s with hrefused | hsaved
  · exact absurd hret hrefused.2
  · simp only [Command.run, replyResult, hsaved]

theorem savedNoise_of_not_saves {command : Answers × Text} (h : ¬ Saves command s) :
    (handleDatagram command.1 s command.2).1.savedNoise = s.savedNoise := by
  rcases handleDatagram_cases command.1 s command.2 with hsame | ⟨asked, hasks⟩
  · rw [hsame]
  · rw [handleDatagram_of_asks hasks]
    cases asked with
    | noiseSave =>
        rcases saveNoiseSnapshot_cases command.1 s with hrefused | hsaved
        · simp only [Command.run, replyResult, hrefused.1]
        · refine absurd ⟨hasks, ?_⟩ h
          unfold Succeeds
          rw [handleDatagram_of_asks hasks]
          exact (replyResult_eq_ok rfl rfl (by decide) _).mpr (by rw [hsaved])
    | noiseRestore => exact restoreNoiseSnapshot_savedNoise command.1 s
    | noiseSet moduleName isoIndex value =>
        rcases setNoiseValue_cases command.1 s moduleName isoIndex.toNat value.toNat with
          hrefused | ⟨m, noise, hset, -⟩
        · simp only [Command.run, replyResult, hrefused.1]
        · simp only [Command.run, replyResult, hset]
    | _ => exact (setResult_noise command.1 s _).2

/-- What a `noise set` does: nothing, or one byte of one record while there is a snapshot. -/
theorem noise_of_set {command : Answers × Text} {moduleName : Text} {isoIndex value : UInt32}
    (hasks : Asks n command.2 (.noiseSet moduleName isoIndex value)) :
    (¬ Succeeds "OK noise_applied" command s ∧ (handleDatagram command.1 s command.2).1 = s) ∨
    (Succeeds "OK noise_applied" command s ∧ s.savedNoise.valid = true ∧
      ∃ m, NoiseModule.ofText moduleName = some m ∧
        Edited m isoIndex.toNat (UInt8.ofNat value.toNat) s.noise
          (handleDatagram command.1 s command.2).1.noise) := by
  unfold Succeeds
  rw [handleDatagram_of_asks hasks]
  have hreply : ((Command.noiseSet moduleName isoIndex value).run command.1 s).2 =
      reply "OK noise_applied".toList ↔
      (setNoiseValue command.1 s moduleName isoIndex.toNat value.toNat).2 = 0 :=
    replyResult_eq_ok rfl rfl (by decide) _
  rcases setNoiseValue_cases command.1 s moduleName isoIndex.toNat value.toNat with
    hrefused | ⟨m, noise, hset, hvalid, hmodule, hedited⟩
  · exact .inl ⟨fun hok => hrefused.2 (hreply.mp hok), hrefused.1⟩
  · refine .inr ⟨hreply.mpr (by rw [hset]), hvalid, m, hmodule, ?_⟩
    simpa only [Command.run, replyResult, hset] using hedited

theorem noise_of_restores {command : Answers × Text} (h : Restores command s) :
    s.savedNoise.valid = true ∧
      (handleDatagram command.1 s command.2).1.noise = s.savedNoise.records := by
  obtain ⟨hasks, hsucceeds⟩ := h
  unfold Succeeds at hsucceeds
  rw [handleDatagram_of_asks hasks] at hsucceeds ⊢
  exact restoreNoiseSnapshot_noise ((replyResult_eq_ok rfl rfl (by decide) _).mp hsucceeds)

/-! ## Runs -/

/-- The control since it was started: no noise is saved yet. -/
def noiseControl (n : ℕ) : System (State n) (Answers × Text) where
  start s := s.savedNoise.valid = false
  step command s := some (handleDatagram command.1 s command.2).1

variable {N : ℕ}

theorem savedNoise_latest (r : Run (noiseControl n) N) {i : ℕ} (hi : i ≤ N) :
    ((r.state i).savedNoise.valid = false ∧ ∀ j, j < i → ¬ Saves (r.label j) (r.state j)) ∨
    ∃ j, r.Latest Saves i j ∧ (r.state i).savedNoise = ⟨true, (r.state j).noise⟩ := by
  have hwritten : ((r.state i).savedNoise = (r.state 0).savedNoise ∧ _) ∨
      ∃ j, r.Latest Saves i j ∧ (r.state i).savedNoise = ⟨true, (r.state j).noise⟩ :=
    r.written_latest
      (fun _ _ _ hsaves hstep => Option.some.inj hstep ▸ savedNoise_of_saves hsaves)
      (fun _ _ _ hsaves hstep => Option.some.inj hstep ▸ savedNoise_of_not_saves hsaves) hi
  refine hwritten.imp_left fun ⟨hsame, hnone⟩ => ⟨?_, hnone⟩
  rw [hsame]
  exact r.start

/-- A snapshot in use was saved, and is what the latest successful save found. -/
theorem latest_of_valid (r : Run (noiseControl n) N) {i : ℕ} (hi : i ≤ N)
    (hvalid : (r.state i).savedNoise.valid = true) :
    ∃ j, r.Latest Saves i j ∧ (r.state i).savedNoise.records = (r.state j).noise := by
  rcases savedNoise_latest r hi with ⟨hinvalid, -⟩ | ⟨j, hlatest, hsaved⟩
  · rw [hvalid] at hinvalid
    cases hinvalid
  · exact ⟨j, hlatest, by rw [hsaved]⟩

/-- The snapshot is what the latest successful save found, a set edits one byte once something is
saved, and a restore that succeeds leaves what the latest successful save found. -/
theorem noise_snapshot (r : Run (noiseControl n) N) {i : ℕ} (hi : i ≤ N) :
    (((r.state i).savedNoise.valid = false ∧ ∀ j, j < i → ¬ Saves (r.label j) (r.state j)) ∨
      ∃ j, r.Latest Saves i j ∧ (r.state i).savedNoise = ⟨true, (r.state j).noise⟩) ∧
    (i < N →
      (¬ Saves (r.label i) (r.state i) →
        (r.state (i + 1)).savedNoise = (r.state i).savedNoise) ∧
      (∀ moduleName isoIndex value, Asks n (r.label i).2 (.noiseSet moduleName isoIndex value) →
        (¬ Succeeds "OK noise_applied" (r.label i) (r.state i) ∧
          (r.state (i + 1)).noise = (r.state i).noise) ∨
        (Succeeds "OK noise_applied" (r.label i) (r.state i) ∧
          (∃ j, r.Latest Saves i j) ∧
          ∃ m, NoiseModule.ofText moduleName = some m ∧
            Edited m isoIndex.toNat (UInt8.ofNat value.toNat) (r.state i).noise
              (r.state (i + 1)).noise)) ∧
      (Restores (r.label i) (r.state i) →
        ∃ j, r.Latest Saves i j ∧ (r.state (i + 1)).noise = (r.state j).noise)) := by
  refine ⟨savedNoise_latest r hi, fun hlt => ?_⟩
  have hnext : (handleDatagram (r.label i).1 (r.state i) (r.label i).2).1 = r.state (i + 1) :=
    Option.some.inj (r.next i hlt)
  rw [← hnext]
  refine ⟨savedNoise_of_not_saves, fun moduleName isoIndex value hasks => ?_, fun hrestores => ?_⟩
  · rcases noise_of_set hasks with ⟨hrefused, hsame⟩ | ⟨hsucceeds, hvalid, hedited⟩
    · exact .inl ⟨hrefused, by rw [hsame]⟩
    · obtain ⟨j, hlatest, -⟩ := latest_of_valid r hi hvalid
      exact .inr ⟨hsucceeds, ⟨j, hlatest⟩, hedited⟩
  · obtain ⟨hvalid, hnoise⟩ := noise_of_restores hrestores
    obtain ⟨j, hlatest, hsaved⟩ := latest_of_valid r hi hvalid
    exact ⟨j, hlatest, hnoise.trans hsaved⟩

/-- A save, a set and a restore. -/
def savedRun : Run (noiseControl 16) 3 :=
  Run.ofExec (s := .zero 16) rfl [(.all, "noise save".toList), (.all, "noise set tnr 0 24".toList),
    (.all, "noise restore".toList)] (.all, []) rfl

theorem noise_snapshot_savedRun :
    ∃ j, savedRun.Latest Saves 2 j ∧ (savedRun.state 3).noise = (savedRun.state j).noise :=
  ((noise_snapshot savedRun (i := 2) (by decide)).2 (by decide)).2.2
    ⟨⟨by decide, .noiseRestore⟩, by unfold Succeeds; decide⟩

end Sg200x.Isp
