import Mathlib.Tactic.Common
import Ospray.Library.Literals

/-!
# Simulations of computations that can fail

One computation simulates another if both succeed with related results, or both fail with related
errors. Computations in sequence simulate each other step by step.
-/

namespace Library.Simulations

universe u v
variable {ε δ : Type u} {α β α' β' : Type v}

/-- Both succeed with related results, or both fail with related errors. -/
inductive Simulates (E : ε → δ → Prop) (R : α → β → Prop) : Except ε α → Except δ β → Prop where
  | ok {a : α} {b : β} (related : R a b) : Simulates E R (.ok a) (.ok b)
  | error {e : ε} {d : δ} (related : E e d) : Simulates E R (.error e) (.error d)

namespace Simulates

variable {E : ε → δ → Prop} {R : α → β → Prop} {S : α' → β' → Prop} {x : Except ε α} {y : Except δ β}

theorem bind {f : α → Except ε α'} {g : β → Except δ β'} (first : Simulates E R x y)
    (next : ∀ a b, R a b → Simulates E S (f a) (g b)) : Simulates E S (x >>= f) (y >>= g) := by
  cases first with
  | ok related => exact next _ _ related
  | error related => exact .error related

theorem bind_left {a : α} (done : x = .ok a) {f : α → Except ε α'} {z : Except δ β'} (next : Simulates E S (f a) z) :
    Simulates E S (x >>= f) z := by
  subst done
  exact next

theorem mono {E' : ε → δ → Prop} {R' : α → β → Prop} (errors : ∀ e d, E e d → E' e d) (results : ∀ a b, R a b → R' a b)
    (first : Simulates E R x y) : Simulates E' R' x y := by
  cases first with
  | ok related => exact .ok (results _ _ related)
  | error related => exact .error (errors _ _ related)

end Simulates

end Library.Simulations
