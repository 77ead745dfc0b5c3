import Mathlib.Data.List.Basic
import Sg200x.Isp.Control

/-!
# What a datagram asks for

The commands that call a setter or save the noise, as values, and the datagrams that spell them.
Every other datagram changes nothing.
-/

namespace Sg200x.Isp

variable {n : ℕ}

inductive Command
  | auto
  | manual (exptime iso : UInt32)
  | exptime (value : UInt32)
  | iso (value : UInt32)
  | again (value : UInt32)
  | dgain (value : UInt32)
  | ispdgain (value : UInt32)
  | gains (again dgain ispdgain : UInt32)
  | noiseSave
  | noiseRestore
  | noiseSet (moduleName : Text) (isoIndex value : UInt32)

/-- The arguments that spell a command; `n` is the length of the noise curves. -/
inductive Spells (n : ℕ) : List Text → Command → Prop
  | auto : Spells n ["auto".toList] .auto
  | manual {a b : Text} {exptime iso : UInt32} :
      parseU32 a 1 exposureTimeMaxUs = .ok exptime →
      parseU32 b manualIsoMin manualIsoMax = .ok iso →
      Spells n ["manual".toList, a, b] (.manual exptime iso)
  | exptime {a : Text} {value : UInt32} : parseU32 a 1 exposureTimeMaxUs = .ok value →
      Spells n ["exptime".toList, a] (.exptime value)
  | iso {a : Text} {value : UInt32} : parseU32 a manualIsoMin manualIsoMax = .ok value →
      Spells n ["iso".toList, a] (.iso value)
  | again {a : Text} {value : UInt32} : parseU32 a manualGainMin manualGainMax = .ok value →
      Spells n ["again".toList, a] (.again value)
  | dgain {a : Text} {value : UInt32} : parseU32 a manualGainMin manualGainMax = .ok value →
      Spells n ["dgain".toList, a] (.dgain value)
  | ispdgain {a : Text} {value : UInt32} :
      parseU32 a manualGainMin manualIspDGainMax = .ok value →
      Spells n ["ispdgain".toList, a] (.ispdgain value)
  | gains {a b c : Text} {again dgain ispdgain : UInt32} :
      parseU32 a manualGainMin manualGainMax = .ok again →
      parseU32 b manualGainMin manualGainMax = .ok dgain →
      parseU32 c manualGainMin manualIspDGainMax = .ok ispdgain →
      Spells n ["gains".toList, a, b, c] (.gains again dgain ispdgain)
  | noiseSave : Spells n ["noise".toList, "save".toList] .noiseSave
  | noiseRestore : Spells n ["noise".toList, "restore".toList] .noiseRestore
  | noiseSet {moduleName a b : Text} {isoIndex value : UInt32} :
      parseU32 a 0 (n - 1) = .ok isoIndex → parseU32 b 0 255 = .ok value →
      Spells n ["noise".toList, "set".toList, moduleName, a, b]
        (.noiseSet moduleName isoIndex value)

structure Asks (n : ℕ) (datagram : Text) (command : Command) : Prop where
  short : datagram.length < controlCommandSize
  spells : Spells n (tokens datagram) command

def Command.run (answers : Answers) (s : State n) : Command → State n × Text
  | auto => setResult (setAutoExposure answers s)
  | manual us value => setResult (setManualIso answers s us value)
  | exptime value => setResult (setManualValue answers s 0 value)
  | iso value => setResult (setManualValue answers s 1 value)
  | again value => setResult (setManualValue answers s 2 value)
  | dgain value => setResult (setManualValue answers s 3 value)
  | ispdgain value => setResult (setManualValue answers s 4 value)
  | gains a d i => setResult (setManualGains answers s a d i)
  | noiseSave =>
      replyResult "OK noise_saved" "ERR noise_save_failed code=" (saveNoiseSnapshot answers s)
  | noiseRestore =>
      replyResult "OK noise_restored" "ERR noise_restore_failed code="
        (restoreNoiseSnapshot answers s)
  | noiseSet moduleName isoIndex value =>
      replyResult "OK noise_applied" "ERR noise_apply_failed code="
        (setNoiseValue answers s moduleName isoIndex.toNat value.toNat)

theorem handleDatagram_of_asks {answers : Answers} {s : State n} {datagram : Text}
    {command : Command} (h : Asks n datagram command) :
    handleDatagram answers s datagram = command.run answers s := by
  obtain ⟨hshort, hspells⟩ := h
  unfold handleDatagram
  rw [if_neg (by omega)]
  unfold handleCommand
  generalize tokens datagram = arguments at hspells
  cases hspells with
  | auto => simp [controlMaxArguments, Command.run]
  | manual ha hb => simp [controlMaxArguments, Command.run, ha, hb]
  | exptime ha => simp [controlMaxArguments, Command.run, ha]
  | iso ha => simp [controlMaxArguments, Command.run, ha]
  | again ha => simp [controlMaxArguments, Command.run, ha]
  | dgain ha => simp [controlMaxArguments, Command.run, ha]
  | ispdgain ha => simp [controlMaxArguments, Command.run, ha]
  | gains ha hb hc => simp [controlMaxArguments, Command.run, ha, hb, hc]
  | noiseSave => simp [controlMaxArguments, Command.run]
  | noiseRestore => simp [controlMaxArguments, Command.run]
  | noiseSet ha hb => simp [controlMaxArguments, Command.run, ha, hb]

/-- A command that the arguments spell, or nothing changed. -/
def Understood (s : State n) (arguments : List Text) (result : State n × Text) : Prop :=
  result.1 = s ∨ ∃ command, Spells n arguments command

theorem handleCommand_understood (answers : Answers) (s : State n) (command : Text) :
    Understood s (tokens command) (handleCommand answers s command) := by
  unfold handleCommand
  generalize tokens command = arguments
  refine iteInduction (fun _ => .inl rfl) fun _ => ?_
  refine iteInduction (fun _ => .inl rfl) fun _ => ?_
  refine iteInduction (fun _ => .inl rfl) fun _ => ?_
  refine iteInduction (fun _ => .inl rfl) fun _ => ?_
  refine iteInduction (fun ⟨h0, hcount, h1⟩ => ?_) fun _ => ?_
  · obtain ⟨a, b, rfl⟩ := List.length_eq_two.mp hcount
    obtain rfl : a = _ := h0
    obtain rfl : b = _ := h1
    exact .inr ⟨_, .noiseSave⟩
  refine iteInduction (fun ⟨h0, hcount, h1⟩ => ?_) fun _ => ?_
  · obtain ⟨a, b, rfl⟩ := List.length_eq_two.mp hcount
    obtain rfl : a = _ := h0
    obtain rfl : b = _ := h1
    exact .inr ⟨_, .noiseRestore⟩
  refine iteInduction (fun ⟨h0, hcount, h1⟩ => ?_) fun _ => ?_
  · obtain ⟨a, rest, rfl⟩ := List.exists_of_length_succ _ hcount
    obtain ⟨b, c, d, e, rfl⟩ := List.length_eq_four.mp (Nat.succ.inj hcount)
    obtain rfl : a = _ := h0
    obtain rfl : b = _ := h1
    cases hd : parseU32 d 0 (n - 1) with
    | error _ => exact .inl (by simp [hd])
    | ok isoIndex =>
        cases he : parseU32 e 0 255 with
        | error _ => exact .inl (by simp [hd, he])
        | ok value => exact .inr ⟨_, .noiseSet hd he⟩
  refine iteInduction (fun ⟨h0, hcount⟩ => ?_) fun _ => ?_
  · obtain ⟨a, rfl⟩ := List.length_eq_one_iff.mp hcount
    obtain rfl : a = _ := h0
    exact .inr ⟨_, .auto⟩
  refine iteInduction (fun ⟨h0, hcount⟩ => ?_) fun _ => ?_
  · obtain ⟨a, b, c, rfl⟩ := List.length_eq_three.mp hcount
    obtain rfl : a = _ := h0
    cases hb : parseU32 b 1 exposureTimeMaxUs with
    | error _ => exact .inl (by simp [hb])
    | ok exptime =>
        cases hc : parseU32 c manualIsoMin manualIsoMax with
        | error _ => exact .inl (by simp [hb, hc])
        | ok iso => exact .inr ⟨_, .manual hb hc⟩
  refine iteInduction (fun ⟨h0, hcount⟩ => ?_) fun _ => ?_
  · obtain ⟨a, b, rfl⟩ := List.length_eq_two.mp hcount
    rcases h0 with h0 | h0 <;> obtain rfl : a = _ := h0
    · cases hb : parseU32 b 1 exposureTimeMaxUs with
      | error _ => exact .inl (by simp [hb])
      | ok value => exact .inr ⟨_, .exptime hb⟩
    · cases hb : parseU32 b manualIsoMin manualIsoMax with
      | error _ => exact .inl (by simp [hb])
      | ok value => exact .inr ⟨_, .iso hb⟩
  refine iteInduction (fun ⟨h0, hcount⟩ => ?_) fun _ => ?_
  · obtain ⟨a, b, rfl⟩ := List.length_eq_two.mp hcount
    rcases h0 with h0 | h0 | h0 <;> obtain rfl : a = _ := h0
    · cases hb : parseU32 b manualGainMin manualGainMax with
      | error _ => exact .inl (by simp [hb])
      | ok value => exact .inr ⟨_, .again hb⟩
    · cases hb : parseU32 b manualGainMin manualGainMax with
      | error _ => exact .inl (by simp [hb])
      | ok value => exact .inr ⟨_, .dgain hb⟩
    · cases hb : parseU32 b manualGainMin manualIspDGainMax with
      | error _ => exact .inl (by simp [hb])
      | ok value => exact .inr ⟨_, .ispdgain hb⟩
  refine iteInduction (fun ⟨h0, hcount⟩ => ?_) fun _ => .inl rfl
  · obtain ⟨a, b, c, d, rfl⟩ := List.length_eq_four.mp hcount
    obtain rfl : a = _ := h0
    cases hb : parseU32 b manualGainMin manualGainMax with
    | error _ => exact .inl (by simp [hb])
    | ok again =>
        cases hc : parseU32 c manualGainMin manualGainMax with
        | error _ => exact .inl (by simp [hb, hc])
        | ok dgain =>
            cases hd : parseU32 d manualGainMin manualIspDGainMax with
            | error _ => exact .inl (by simp [hb, hc, hd])
            | ok ispdgain => exact .inr ⟨_, .gains hb hc hd⟩

/-- A datagram asks for a command, or changes nothing. -/
theorem handleDatagram_cases (answers : Answers) (s : State n) (datagram : Text) :
    (handleDatagram answers s datagram).1 = s ∨ ∃ command, Asks n datagram command := by
  by_cases hshort : datagram.length < controlCommandSize
  · unfold handleDatagram
    rw [if_neg (by omega)]
    exact (handleCommand_understood answers s datagram).imp_right
      fun ⟨command, hspells⟩ => ⟨command, hshort, hspells⟩
  · unfold handleDatagram
    rw [if_pos (by omega)]
    exact .inl rfl

/-! ## Sample states -/

/-- A library that never fails. -/
def Answers.all : Answers := ⟨fun _ => true, ⟨0, 0, 0, 0, 0⟩⟩

/-- The state in which every attribute is zero and no noise is saved. -/
def State.zero (n : ℕ) : State n :=
  let strength : StrengthAttr n := ⟨0, .auto, 0, Vector.replicate n 0, []⟩
  let sharpen : SharpenAttr n := ⟨0, .auto, 0, 0, 0, Vector.replicate n 0, Vector.replicate n 0,
    Vector.replicate n 0, []⟩
  let noise : NoiseRecords n := ⟨strength, [], strength, [], strength, sharpen⟩
  ⟨⟨false, .auto, ⟨.auto, .auto, .auto, .auto, .auto, .iso, 0, 0, 0, 0, 0⟩, []⟩, noise,
    ⟨false, noise⟩⟩

/-- The state after the commands of a list when nothing fails. -/
def State.after (s : State n) (datagrams : List String) : State n :=
  datagrams.foldl (fun s datagram => (handleDatagram .all s datagram.toList).1) s

end Sg200x.Isp
