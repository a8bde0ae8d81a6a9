/-!
# Outcomes of operations on a state

An operation that fails part way keeps what it changed before. An `Outcome` is therefore the
state left behind together with the fault, if any, that stopped the operation. `andThen` goes on
only where nothing stopped, `iterate` repeats one operation, and `runAll` performs a list of them;
both stop at the first fault:

* `iterate_succ`, `runAll_cons`: one operation, and then the others.
-/

namespace Tablature

/-- The state an operation leaves behind, and the fault that stopped it, if one did. -/
structure Outcome (ε σ : Type) where
  state : σ
  fault : Option ε
deriving DecidableEq, Repr

namespace Outcome

variable {ε ε' σ τ α : Type}

/-- Nothing went wrong. -/
def done (s : σ) : Outcome ε σ := ⟨s, none⟩

/-- The operation stopped at `e`, in the state `s`. -/
def stopped (s : σ) (e : ε) : Outcome ε σ := ⟨s, some e⟩

/-- Goes on with `f` from the state left behind, unless a fault stopped the operation. -/
@[inline]
def andThen (o : Outcome ε σ) (f : σ → Outcome ε σ) : Outcome ε σ :=
  match o.fault with
  | none => f o.state
  | some _ => o

/-- The same outcome, with its state seen as part of a larger one and its fault as one of more. -/
def map (f : σ → τ) (g : ε → ε') (o : Outcome ε σ) : Outcome ε' τ :=
  ⟨f o.state, o.fault.map g⟩

/-- Performs `f` at most `n` times, and stops at the first fault. -/
def iterate (f : σ → Outcome ε σ) : Nat → σ → Outcome ε σ
  | 0, s => done s
  | n + 1, s => match f s with
    | ⟨s', none⟩ => iterate f n s'
    | ⟨s', some e⟩ => ⟨s', some e⟩

/-- Performs `f a` for each `a` of a list in turn, and stops at the first fault. -/
def runAll (f : α → σ → Outcome ε σ) : List α → σ → Outcome ε σ
  | [], s => done s
  | a :: as, s => match f a s with
    | ⟨s', none⟩ => runAll f as s'
    | ⟨s', some e⟩ => ⟨s', some e⟩

theorem iterate_succ (f : σ → Outcome ε σ) (n : Nat) (s : σ) :
    iterate f (n + 1) s = (f s).andThen (iterate f n) := by
  simp only [iterate, andThen]
  rcases f s with ⟨s', _ | e⟩ <;> rfl

theorem runAll_cons (f : α → σ → Outcome ε σ) (a : α) (as : List α) (s : σ) :
    runAll f (a :: as) s = (f a s).andThen (runAll f as) := by
  simp only [runAll, andThen]
  rcases f a s with ⟨s', _ | e⟩ <;> rfl

end Outcome

end Tablature
