import Sg200x.Isp.Session

/-!
# What the two sides make of a command

The server splits a command into the words of the client's arguments, and its reply fits into the
buffers of both sides.
-/

namespace Sg200x.Isp

/-! ## The words of a command -/

theorem cString_append {text : Text} (h : '\x00' ∉ text) (rest : Text) :
    cString (text ++ rest) = text ++ cString rest := by
  unfold cString
  apply List.takeWhile_append_of_pos
  intro c hc
  apply decide_eq_true
  rintro rfl
  exact h hc

theorem cString_eq {text : Text} (h : '\x00' ∉ text) : cString text = text := by
  have happend := cString_append h []
  rwa [List.append_nil, show cString [] = [] from rfl, List.append_nil] at happend

theorem tokens_append_space {text : Text} (h : '\x00' ∉ text) (rest : Text) :
    tokens (text ++ ' ' :: rest) = tokens text ++ tokens rest := by
  have hspace : cString (' ' :: rest) = ' ' :: cString rest :=
    cString_append (show '\x00' ∉ [' '] by decide) rest
  unfold tokens
  rw [cString_append h, hspace, List.splitOnP_append_cons _ _ (by decide), List.filter_append,
    cString_eq h]

variable {n : ℕ}

/-! ## A reply fits -/

/-- What the buffer of a client holds. -/
def Fits (text : Text) : Prop := text.length ≤ controlResponseSize - 1

def ReplyFits (result : State n × Text) : Prop := Fits result.2

theorem reply_fits (text : Text) : Fits (reply text) := List.length_take_le _ _

theorem replyFits_reply (s : State n) (text : Text) : ReplyFits (s, reply text) :=
  reply_fits text

theorem replyResult_fits (ok err : String) (result : State n × ℤ) :
    ReplyFits (replyResult ok err result) := by
  unfold ReplyFits replyResult
  split_ifs
  · exact reply_fits _
  · exact reply_fits _

theorem setResult_fits (result : State n × ℤ) : ReplyFits (setResult result) := by
  unfold ReplyFits setResult formatSetResult
  split_ifs
  · exact reply_fits _
  · exact reply_fits _
  · exact reply_fits _

theorem formatStatus_fits (answers : Answers) (s : State n) : Fits (formatStatus answers s) := by
  unfold formatStatus
  split
  · exact reply_fits _
  · split
    · exact reply_fits _
    · exact reply_fits _

theorem foldlM_appendResponse_fits {pieces : List Text} {used response : Text} (h : Fits used)
    (hfold : pieces.foldlM appendResponse used = some response) : Fits response := by
  induction pieces generalizing used with
  | nil => exact Option.some.inj hfold ▸ h
  | cons piece pieces ih =>
      obtain ⟨next, hnext, hrest⟩ := Option.bind_eq_some_iff.mp hfold
      apply ih _ hrest
      unfold appendResponse at hnext
      split_ifs at hnext with hlength
      cases hnext
      unfold Fits
      rw [List.length_append]
      omega

theorem formatNoiseStatus_fits (answers : Answers) (s : State n) :
    Fits (formatNoiseStatus answers s) := by
  unfold formatNoiseStatus
  split
  · exact reply_fits _
  · split
    · exact reply_fits _
    · rename_i hfold
      exact foldlM_appendResponse_fits (Nat.zero_le _) hfold

theorem handleCommand_fits (answers : Answers) (s : State n) (command : Text) :
    ReplyFits (handleCommand answers s command) := by
  unfold handleCommand
  generalize tokens command = arguments
  refine iteInduction (fun _ => replyFits_reply _ _) fun _ => ?_
  refine iteInduction (fun _ => replyFits_reply _ _) fun _ => ?_
  refine iteInduction (fun _ => formatStatus_fits _ _) fun _ => ?_
  refine iteInduction (fun _ => formatNoiseStatus_fits _ _) fun _ => ?_
  refine iteInduction (fun _ => replyResult_fits _ _ _) fun _ => ?_
  refine iteInduction (fun _ => replyResult_fits _ _ _) fun _ => ?_
  refine iteInduction (fun _ => ?_) fun _ => ?_
  · split
    · exact replyResult_fits _ _ _
    · exact replyFits_reply _ _
  refine iteInduction (fun _ => setResult_fits _) fun _ => ?_
  refine iteInduction (fun _ => ?_) fun _ => ?_
  · split
    · exact setResult_fits _
    · exact replyFits_reply _ _
  refine iteInduction (fun _ => ?_) fun _ => ?_
  · dsimp only
    generalize parseU32 _ _ _ = parsed
    cases parsed with
    | ok value => exact setResult_fits _
    | error _ => exact replyFits_reply _ _
  refine iteInduction (fun _ => ?_) fun _ => ?_
  · dsimp only
    generalize parseU32 _ _ _ = parsed
    cases parsed with
    | ok value => exact setResult_fits _
    | error _ => exact replyFits_reply _ _
  refine iteInduction (fun _ => ?_) fun _ => replyFits_reply _ _
  split
  · exact setResult_fits _
  · exact replyFits_reply _ _

theorem handleDatagram_fits (answers : Answers) (s : State n) (datagram : Text) :
    Fits (handleDatagram answers s datagram).2 := by
  unfold handleDatagram
  split_ifs
  · exact reply_fits _
  · exact handleCommand_fits answers s datagram

end Sg200x.Isp

namespace Sg200x.Isp.Session

/-! ## The command of a client -/

theorem foldlM_appendArgument (arguments : List (Text × ℕ)) {used : Text}
    (hused : used.length < controlCommandSize) :
    arguments.foldlM appendArgument used =
      if (used ++ arguments.flatMap piece).length < controlCommandSize then
        some (used ++ arguments.flatMap piece)
      else none := by
  induction arguments generalizing used with
  | nil =>
      rw [List.flatMap_nil, List.append_nil, if_pos hused]
      rfl
  | cons argument arguments ih =>
      rw [List.foldlM_cons, appendArgument, List.flatMap_cons, ← List.append_assoc]
      split_ifs with hlong htotal htotal
      · simp only [List.length_append] at htotal
        omega
      · rfl
      · rw [Option.bind_eq_bind, Option.bind_some, ih (by rw [List.length_append]; omega),
          if_pos htotal]
      · rw [Option.bind_eq_bind, Option.bind_some, ih (by rw [List.length_append]; omega),
          if_neg htotal]

/-- The client sends its arguments with blanks between them, if that fits. -/
theorem clientCommand_eq_some {argv : List Text} {command : Text} :
    clientCommand argv = some command ↔
      argv.zipIdx.flatMap piece = command ∧ command.length < controlCommandSize := by
  rw [clientCommand, foldlM_appendArgument _ (by decide), List.nil_append]
  split_ifs with hlength
  · rw [Option.some.injEq, iff_self_and]
    rintro rfl
    exact hlength
  · constructor
    · rintro ⟨⟩
    · rintro ⟨rfl, hshort⟩
      exact absurd hshort hlength

theorem tokens_pieces (argv : List Text) (h : ∀ argument ∈ argv, '\x00' ∉ argument) (i : ℕ)
    {text : Text} (htext : '\x00' ∉ text) :
    tokens (text ++ (argv.zipIdx (i + 1)).flatMap piece) = tokens text ++ argv.flatMap tokens := by
  induction argv generalizing i text with
  | nil => simp
  | cons argument argv ih =>
      have hpiece : piece (argument, i + 1) = ' ' :: argument := rfl
      rw [List.zipIdx_cons, List.flatMap_cons, hpiece, List.cons_append,
        tokens_append_space htext,
        ih (fun other hother => h other (List.mem_cons_of_mem _ hother)) _
          (h argument List.mem_cons_self),
        List.flatMap_cons]

/-- The server finds the words of the arguments. -/
theorem tokens_clientCommand {argv : List Text} (h : ∀ argument ∈ argv, '\x00' ∉ argument)
    {command : Text} (hcommand : clientCommand argv = some command) :
    tokens command = argv.flatMap tokens := by
  rw [← (clientCommand_eq_some.mp hcommand).1]
  cases argv with
  | nil => rfl
  | cons argument argv =>
      have hpiece : piece (argument, 0) = argument := rfl
      rw [List.zipIdx_cons, List.flatMap_cons, hpiece, List.flatMap_cons]
      exact tokens_pieces argv (fun other hother => h other (List.mem_cons_of_mem _ hother)) 0
        (h argument List.mem_cons_self)

end Sg200x.Isp.Session
