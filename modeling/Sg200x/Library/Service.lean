import Mathlib.Data.List.Basic
import Mathlib.Data.List.Infix
import Mathlib.Data.List.Zip

/-!
# In-order services

A service executes the requests submitted to it one after the other and delivers
the results in the same order.  An execution may depend on an input of its own.
This is the meaning of a request channel, whatever carries its messages.
-/

namespace Sg200x.Library

structure Service (ρ ι : Type*) where
  requests : List ρ
  executed : List (ι × ρ)
  delivered : ℕ

variable {ρ ι σ : Type*} {s t : Service ρ ι}

namespace Service

/-- The requests are executed in order, each once, and no result is delivered early. -/
structure InOrder (s : Service ρ ι) : Prop where
  executed : s.executed.map Prod.snd <+: s.requests
  delivered : s.delivered ≤ s.executed.length

def responses (handler : ι → ρ → σ) (s : Service ρ ι) : List σ :=
  s.executed.map fun e => handler e.1 e.2

/-- The results are the handler applied to the requests in the order of submission. -/
theorem InOrder.responses_eq (h : InOrder s) (handler : ι → ρ → σ) :
    s.responses handler = List.zipWith handler (s.executed.map Prod.fst) s.requests := by
  obtain ⟨rest, hrest⟩ := h.executed
  have hlength : (s.executed.map Prod.fst).length = (s.executed.map Prod.snd).length := by simp
  rw [← hrest, ← List.append_nil (s.executed.map Prod.fst), List.zipWith_append hlength]
  simp [responses, List.zipWith_map]

inductive Step : Service ρ ι → Service ρ ι → Prop
  | submit (s : Service ρ ι) (batch : List ρ) :
      Step s { s with requests := s.requests ++ batch }
  | execute (s : Service ρ ι) (input : ι) (request : ρ)
      (hnext : s.requests[s.executed.length]? = some request) :
      Step s { s with executed := s.executed ++ [(input, request)] }
  | deliver (s : Service ρ ι) (count : ℕ) (hcount : s.delivered + count ≤ s.executed.length) :
      Step s { s with delivered := s.delivered + count }

/-- The next request extends the prefix that has been executed. -/
theorem prefix_append_next {α : Type*} {done all : List α} (h : done <+: all) {next : α}
    (hnext : all[done.length]? = some next) : done ++ [next] <+: all := by
  obtain ⟨hlt, hget⟩ := List.getElem?_eq_some_iff.mp hnext
  rw [List.prefix_iff_eq_take, List.length_append, List.length_singleton,
    List.take_succ_eq_append_getElem hlt, ← List.prefix_iff_eq_take.mp h, hget]

theorem InOrder.step (h : InOrder s) (hstep : Step s t) : InOrder t := by
  cases hstep with
  | submit batch => exact ⟨h.executed.trans (List.prefix_append _ _), h.delivered⟩
  | execute input request hnext =>
      refine ⟨?_, ?_⟩
      · rw [List.map_append]
        exact prefix_append_next h.executed (by rwa [List.length_map])
      · rw [List.length_append]
        exact Nat.le_add_right_of_le h.delivered
  | deliver count hcount => exact ⟨h.executed, hcount⟩

end Service

end Sg200x.Library
