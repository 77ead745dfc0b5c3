import Mathlib.Order.Basic
import Mathlib.Tactic.TypeStar

/-!
# Transition systems with an executable step

A system is a set of start states and a partial step function on labels.  The
label resolves every choice of a step (which party moves, what the environment
answers), so that runs can be evaluated.

Reachability is taken along a set of allowed steps: a property that needs an
assumption on the steps is proved for the states reachable by steps that meet
it, and an unconditional one for `fun _ _ => True`.
-/

namespace Sg200x.Library.Transition

structure System (σ ℓ : Type*) where
  start : σ → Prop
  step : ℓ → σ → Option σ

variable {σ ℓ : Type*} {S : System σ ℓ}

/-! ## Reachable states -/

/-- The states reached from a start state by steps that `allowed` admits; a step
is judged by its label and the state it is taken in. -/
inductive ReachableBy (S : System σ ℓ) (allowed : ℓ → σ → Prop) : σ → Prop
  | start {s : σ} : S.start s → ReachableBy S allowed s
  | step {s t : σ} {l : ℓ} : ReachableBy S allowed s → allowed l s →
      S.step l s = some t → ReachableBy S allowed t

/-- The states reached by any steps. -/
def Reachable (S : System σ ℓ) : σ → Prop := ReachableBy S fun _ _ => True

theorem Reachable.start {s : σ} (h : S.start s) : Reachable S s := ReachableBy.start h

theorem Reachable.step {s t : σ} {l : ℓ} (h : Reachable S s) (hstep : S.step l s = some t) :
    Reachable S t := ReachableBy.step h trivial hstep

theorem ReachableBy.reachable {allowed : ℓ → σ → Prop} {s : σ}
    (h : ReachableBy S allowed s) : Reachable S s := by
  induction h with
  | start hs => exact .start hs
  | step _ _ hstep ih => exact ih.step hstep

/-- The induction on runs: a property of the start states that every allowed step
preserves holds of every state the allowed steps reach. -/
theorem ReachableBy.invariant {allowed : ℓ → σ → Prop} {I : σ → Prop}
    (hstart : ∀ s, S.start s → I s)
    (hstep : ∀ s t l, I s → allowed l s → S.step l s = some t → I t)
    {s : σ} (h : ReachableBy S allowed s) : I s := by
  induction h with
  | start hs => exact hstart _ hs
  | step _ hallowed hnext ih => exact hstep _ _ _ ih hallowed hnext

theorem Reachable.invariant {I : σ → Prop} (hstart : ∀ s, S.start s → I s)
    (hstep : ∀ s t l, I s → S.step l s = some t → I t) {s : σ} (h : Reachable S s) : I s :=
  ReachableBy.invariant hstart (fun s t l hs _ => hstep s t l hs) h

/-! ## Executions -/

/-- Takes the steps of a list of labels; `none` when one of them is not enabled. -/
def exec (step : ℓ → σ → Option σ) : List ℓ → σ → Option σ
  | [], s => some s
  | l :: ls, s => (step l s).bind (exec step ls)

@[simp] theorem exec_nil (step : ℓ → σ → Option σ) (s : σ) : exec step [] s = some s := rfl

@[simp] theorem exec_cons (step : ℓ → σ → Option σ) (l : ℓ) (ls : List ℓ) (s : σ) :
    exec step (l :: ls) s = (step l s).bind (exec step ls) := rfl

theorem exec_append (step : ℓ → σ → Option σ) (ls ms : List ℓ) (s : σ) :
    exec step (ls ++ ms) s = (exec step ls s).bind (exec step ms) := by
  induction ls generalizing s with
  | nil => rfl
  | cons l ls ih =>
      simp only [List.cons_append, exec_cons]
      cases step l s with
      | none => rfl
      | some t => exact ih t

/-- An execution along labels that are allowed in every state. -/
theorem ReachableBy.exec {allowed : ℓ → σ → Prop} {s t : σ} (h : ReachableBy S allowed s)
    {ls : List ℓ} (hallowed : ∀ l ∈ ls, ∀ s, allowed l s)
    (hexec : exec S.step ls s = some t) : ReachableBy S allowed t := by
  induction ls generalizing s with
  | nil => exact Option.some.inj hexec ▸ h
  | cons l ls ih =>
      rw [exec_cons, Option.bind_eq_some_iff] at hexec
      obtain ⟨r, hr, hrest⟩ := hexec
      exact ih (h.step (hallowed l List.mem_cons_self s) hr)
        (fun l hl => hallowed l (List.mem_cons_of_mem _ hl)) hrest

/-- Takes only the steps that pass a check. -/
def guarded (check : ℓ → σ → Bool) (step : ℓ → σ → Option σ) (l : ℓ) (s : σ) : Option σ :=
  if check l s then step l s else none

/-- An execution that checks every step it takes. -/
theorem ReachableBy.execGuarded {check : ℓ → σ → Bool} {s t : σ}
    (h : ReachableBy S (fun l s => check l s = true) s) {ls : List ℓ}
    (hexec : Transition.exec (guarded check S.step) ls s = some t) :
    ReachableBy S (fun l s => check l s = true) t := by
  induction ls generalizing s with
  | nil => exact Option.some.inj hexec ▸ h
  | cons l ls ih =>
      rw [exec_cons, Option.bind_eq_some_iff] at hexec
      obtain ⟨r, hr, hrest⟩ := hexec
      unfold guarded at hr
      split_ifs at hr with hcheck
      exact ih (h.step hcheck hr) hrest

theorem Reachable.exec {s t : σ} (h : Reachable S s) {ls : List ℓ}
    (hexec : exec S.step ls s = some t) : Reachable S t :=
  ReachableBy.exec h (fun _ _ _ => trivial) hexec

/-! ## Runs and the instants of a call -/

/-- A run of `n` steps with the states and the labels it goes through. -/
structure Run (S : System σ ℓ) (n : ℕ) where
  state : ℕ → σ
  label : ℕ → ℓ
  start : S.start (state 0)
  next : ∀ i, i < n → S.step (label i) (state i) = some (state (i + 1))

theorem Run.reachable {n : ℕ} (r : Run S n) {i : ℕ} (hi : i ≤ n) :
    Reachable S (r.state i) := by
  induction i with
  | zero => exact .start r.start
  | succ i ih => exact (ih (by omega)).step (r.next i (by omega))

theorem Run.reachableBy {n : ℕ} (r : Run S n) {allowed : ℓ → σ → Prop}
    (hallowed : ∀ i, i < n → allowed (r.label i) (r.state i)) {i : ℕ} (hi : i ≤ n) :
    ReachableBy S allowed (r.state i) := by
  induction i with
  | zero => exact .start r.start
  | succ i ih => exact (ih (by omega)).step (hallowed i (by omega)) (r.next i (by omega))

/-- The states an execution goes through. -/
def Run.ofExec {s : σ} (hstart : S.start s) (labels : List ℓ) (l₀ : ℓ)
    (hexec : (exec S.step labels s).isSome) : Run S labels.length where
  state i := (exec S.step (labels.take i) s).getD s
  label i := labels.getD i l₀
  start := hstart
  next := by
    intro i hi
    have hsplit : labels = labels.take i ++ labels[i] :: labels.drop (i + 1) := by
      rw [← List.drop_eq_getElem_cons hi, List.take_append_drop]
    rw [hsplit, exec_append] at hexec
    rw [List.take_succ_eq_append_getElem hi, exec_append, List.getD_eq_getElem?_getD,
      List.getElem?_eq_getElem hi, Option.getD_some]
    cases hfirst : exec S.step (labels.take i) s with
    | none => rw [hfirst] at hexec; cases hexec
    | some t =>
        rw [hfirst, Option.bind_some, exec_cons] at hexec
        cases hnext : S.step labels[i] t with
        | none => rw [hnext] at hexec; cases hexec
        | some u => simp [hnext]

/-- `φ` held at some instant, at or before `i`, since when `inCall` has held: some
instant of the call that is in progress at `i`. -/
def During (state : ℕ → σ) (inCall φ : σ → Prop) (i : ℕ) : Prop :=
  ∃ j, j ≤ i ∧ (∀ k, j ≤ k → k ≤ i → inCall (state k)) ∧ φ (state j)

theorem During.now {state : ℕ → σ} {inCall φ : σ → Prop} {i : ℕ} (hcall : inCall (state i))
    (hφ : φ (state i)) : During state inCall φ i := by
  refine ⟨i, Nat.le_refl _, fun k hik hki => ?_, hφ⟩
  rwa [Nat.le_antisymm hki hik]

theorem During.succ {state : ℕ → σ} {inCall φ : σ → Prop} {i : ℕ}
    (h : During state inCall φ i) (hcall : inCall (state (i + 1))) :
    During state inCall φ (i + 1) := by
  obtain ⟨j, hji, hall, hφ⟩ := h
  refine ⟨j, by omega, fun k hjk hki => ?_, hφ⟩
  by_cases hk : k ≤ i
  · exact hall k hjk hk
  · rwa [show k = i + 1 by omega]

/-! ## The latest event -/

/-- `j` is the latest step before `i` at which the event happens. -/
structure Run.Latest {n : ℕ} (r : Run S n) (event : ℓ → σ → Prop) (i j : ℕ) : Prop where
  before : j < i
  happens : event (r.label j) (r.state j)
  since : ∀ k, j < k → k < i → ¬ event (r.label k) (r.state k)

/-- What is written at an event and kept by every other step has the value of the latest event. -/
theorem Run.written_latest {n : ℕ} (r : Run S n) {α : Type*} {event : ℓ → σ → Prop}
    {field : σ → α} {value : ℓ → σ → α}
    (hwritten : ∀ l s t, event l s → S.step l s = some t → field t = value l s)
    (hkept : ∀ l s t, ¬ event l s → S.step l s = some t → field t = field s) {i : ℕ}
    (hi : i ≤ n) :
    (field (r.state i) = field (r.state 0) ∧ ∀ j, j < i → ¬ event (r.label j) (r.state j)) ∨
    ∃ j, r.Latest event i j ∧ field (r.state i) = value (r.label j) (r.state j) := by
  induction i with
  | zero => exact .inl ⟨rfl, by omega⟩
  | succ i ih =>
      have hnext := r.next i (by omega)
      by_cases hevent : event (r.label i) (r.state i)
      · exact .inr ⟨i, ⟨by omega, hevent, by omega⟩, hwritten _ _ _ hevent hnext⟩
      · have hfield := hkept _ _ _ hevent hnext
        rcases ih (by omega) with ⟨hsame, hnone⟩ | ⟨j, hlatest, hvalue⟩
        · refine .inl ⟨hfield.trans hsame, fun j hj => ?_⟩
          rcases Nat.lt_succ_iff_lt_or_eq.mp hj with hlt | rfl
          · exact hnone j hlt
          · exact hevent
        · refine .inr ⟨j, ⟨by have := hlatest.before; omega, hlatest.happens, fun k hjk hki => ?_⟩,
            hfield.trans hvalue⟩
          rcases Nat.lt_succ_iff_lt_or_eq.mp hki with hlt | rfl
          · exact hlatest.since k hjk hlt
          · exact hevent

end Sg200x.Library.Transition
