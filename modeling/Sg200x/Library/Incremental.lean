import Mathlib.Logic.Relation
import Mathlib.Order.WellFounded

/-!
# Incremental builds

A target is made from its source and from the products of the targets that it needs.  Products
that are in place from an earlier build are used again.
-/

namespace Sg200x.Library.Incremental

open Relation

variable {τ σ ο : Type*}

structure Rules (τ σ ο : Type*) where
  precedes : τ → τ → Prop
  wf : WellFounded precedes
  needs : τ → σ → τ → Prop
  precedes_of_needs : ∀ {target source needed}, needs target source needed →
    precedes needed target
  make : (target : τ) → (source : σ) → ({needed // needs target source needed} → ο) → ο

namespace Rules

variable (R : Rules τ σ ο)

/-- What is made of a source when these products are at hand. -/
def product (products : τ → ο) (target : τ) (source : σ) : ο :=
  R.make target source fun needed => products needed.1

/-- The products of a build that starts with nothing in place. -/
noncomputable def clean (source : τ → σ) : τ → ο :=
  R.wf.fix fun target products =>
    R.make target (source target) fun needed => products needed.1 (R.precedes_of_needs needed.2)

/-- What a build leaves: products that were in place stay, the others are made from needed
products. -/
structure Remade (source : τ → σ) (before after : τ → Prop) (products products' : τ → ο) :
    Prop where
  kept : ∀ {target}, before target → products' target = products target
  made : ∀ {target}, after target → ¬ before target →
    products' target = R.product products' target (source target)
  needed : ∀ {target needed}, after target → ¬ before target →
    R.needs target (source target) needed → after needed

variable {R} {source source' : τ → σ} {before after : τ → Prop} {products products' : τ → ο}
  {goal : τ}

theorem product_congr {target : τ} {s : σ}
    (h : ∀ needed, R.needs target s needed → products needed = products' needed) :
    R.product products target s = R.product products' target s := by
  apply congrArg (R.make target s)
  funext needed
  exact h needed.1 needed.2

theorem clean_eq (target : τ) :
    R.clean source target = R.product (R.clean source) target (source target) :=
  R.wf.fix_eq _ target

/-- A clean build sees no more than the sources of a target and of what precedes it. -/
theorem clean_congr
    (h : ∀ target, ReflTransGen R.precedes target goal → source target = source' target) :
    R.clean source goal = R.clean source' goal := by
  induction goal using R.wf.induction with
  | h goal ih =>
      have hproducts : ∀ needed, R.needs goal (source goal) needed →
          R.clean source needed = R.clean source' needed := by
        intro needed hneeds
        have hprecedes := R.precedes_of_needs hneeds
        exact ih needed hprecedes fun target htarget => h target (htarget.tail hprecedes)
      calc R.clean source goal = R.product (R.clean source) goal (source goal) := clean_eq goal
        _ = R.product (R.clean source') goal (source goal) := product_congr hproducts
        _ = R.product (R.clean source') goal (source' goal) := by rw [h goal .refl]
        _ = R.clean source' goal := (clean_eq goal).symm

/-- If what was in place is as clean as new, so is what is in place after the build. -/
theorem Remade.clean (h : R.Remade source before after products products')
    (hclean : ∀ target, ReflTransGen R.precedes target goal → before target →
      products target = R.clean source target) (hafter : after goal) :
    products' goal = R.clean source goal := by
  induction goal using R.wf.induction with
  | h goal ih =>
      by_cases hbefore : before goal
      · rw [h.kept hbefore]
        exact hclean goal .refl hbefore
      · rw [h.made hafter hbefore, clean_eq]
        apply product_congr
        intro needed hneeds
        have hprecedes := R.precedes_of_needs hneeds
        apply ih needed hprecedes _ (h.needed hafter hbefore hneeds)
        exact fun target htarget => hclean target (htarget.tail hprecedes)

end Rules

end Sg200x.Library.Incremental
