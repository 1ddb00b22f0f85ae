/-!
Trying actions that may fail, one after the other. An action that fails leaves a state behind too, and
the next one is tried on that.
-/
namespace Narrative
variable {ε σ α ι : Type}

def query (read : σ → α) : EStateM ε σ α := fun s => .ok (read s) s

def change (f : σ → σ) : EStateM ε σ Unit := fun s => .ok () (f s)

/-- The answer of an action, and the state after it whether it failed or not. -/
def attempt (action : EStateM ε σ α) (s : σ) : Except ε α × σ :=
  match action s with
  | .ok x s' => (.ok x, s')
  | .error e s' => (.error e, s')

def attempts (perform : ι → EStateM ε σ α) : List ι → σ → List (Except ε α) × σ
  | [], s => ([], s)
  | op :: ops, s =>
    let (answer, s) := attempt (perform op) s
    let (answers, s) := attempts perform ops s
    (answer :: answers, s)

theorem attempts_append (perform : ι → EStateM ε σ α) (u v : List ι) (s : σ) :
    attempts perform (u ++ v) s =
      ((attempts perform u s).1 ++ (attempts perform v (attempts perform u s).2).1,
        (attempts perform v (attempts perform u s).2).2) := by
  induction u generalizing s with
  | nil => rfl
  | cons op ops ih => simp [attempts, ih]

/-- An action on a part of the state, which `put` writes back. -/
def onPart {τ : Type} (part : σ → τ) (put : σ → τ → σ) (action : EStateM ε τ α) : EStateM ε σ α :=
  fun s =>
    match action (part s) with
    | .ok x t => .ok x (put s t)
    | .error e t => .error e (put s t)

end Narrative
