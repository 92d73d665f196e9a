import Mathlib.Data.List.Basic

/-!
# Computations that read a memory

A computation that gets at a memory only by looking at one position after the other. What it
returns is a function of the values it has seen, and the positions it has looked at can be told.

1. `Probe`: return a value, or look at a position and go on with what is there.
2. `Probe.result`, `Probe.looks`: the value, and the positions in the order of the looks.
-/

namespace Xixi.Lib

variable {ι α β γ : Type}

inductive Probe (ι α β : Type) : Type
  | done (b : β)
  | look (i : ι) (next : α → Probe ι α β)

namespace Probe

def bind (x : Probe ι α β) (f : β → Probe ι α γ) : Probe ι α γ :=
  match x with
  | done b => f b
  | look i next => look i fun a => (next a).bind f

instance : Monad (Probe ι α) where
  pure := done
  bind := bind

/-- What stands at a position. -/
def peek (i : ι) : Probe ι α α := look i done

def result (mem : ι → α) : Probe ι α β → β
  | done b => b
  | look i next => (next (mem i)).result mem

/-- The positions that are looked at. -/
def looks (mem : ι → α) : Probe ι α β → List ι
  | done _ => []
  | look i next => i :: (next (mem i)).looks mem

variable (mem : ι → α)

@[simp] theorem result_pure (b : β) : (pure b : Probe ι α β).result mem = b := rfl

@[simp] theorem looks_pure (b : β) : (pure b : Probe ι α β).looks mem = [] := rfl

@[simp] theorem result_peek (i : ι) : (Probe.peek i).result mem = mem i := rfl

@[simp] theorem looks_peek (i : ι) : (Probe.peek i).looks mem = [i] := rfl

@[simp] theorem result_bind (x : Probe ι α β) (f : β → Probe ι α γ) :
    (x >>= f).result mem = (f (x.result mem)).result mem := by
  induction x with
  | done b => rfl
  | look i next ih => exact ih (mem i)

@[simp] theorem looks_bind (x : Probe ι α β) (f : β → Probe ι α γ) :
    (x >>= f).looks mem = x.looks mem ++ (f (x.result mem)).looks mem := by
  induction x with
  | done b => rfl
  | look i next ih => exact congrArg (i :: ·) (ih (mem i))

@[simp] theorem result_ite (c : Prop) [Decidable c] (x y : Probe ι α β) :
    (if c then x else y).result mem = if c then x.result mem else y.result mem :=
  apply_ite (result mem) c x y

@[simp] theorem looks_ite (c : Prop) [Decidable c] (x y : Probe ι α β) :
    (if c then x else y).looks mem = if c then x.looks mem else y.looks mem :=
  apply_ite (looks mem) c x y

end Probe
end Xixi.Lib
