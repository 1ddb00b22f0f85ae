import Narrative.Proofs.History
import Narrative.Script.Run

/-! Scripts that run to their end: the lines they print and the context they leave. -/
namespace Narrative
namespace Script

/-- No operation fails. Lines that are printed come one after the other. -/
inductive Completes : Script → Context → List String → Context → Prop
  | nil (c : Context) : Completes [] c [] c
  | cons {op : Op} {ops : Script} {c c₁ c₂ : Context} {line : Option String} {lines : List String}
      (head : attempt op.execute c = (.ok line, c₁)) (tail : Completes ops c₁ lines c₂) :
      Completes (op :: ops) c (line.toList ++ lines) c₂

variable {ops u v : Script} {c c' d d' : Context} {lines : List String}

theorem Completes.runFrom_eq (h : Completes ops c lines c') (index : Nat) :
    runFrom index ops c = ⟨lines, none, c'⟩ := by
  induction h generalizing index with
  | nil => rfl
  | cons head _ ih => simp only [runFrom, eq_ok_of_attempt head, ih]

theorem completes_of_runFrom {index : Nat} (h : (runFrom index ops c).failure = none) :
    Completes ops c (runFrom index ops c).lines (runFrom index ops c).context := by
  induction ops generalizing c index with
  | nil => exact .nil c
  | cons op ops ih =>
    cases hop : op.execute c with
    | error e c₁ => simp [runFrom, hop] at h
    | ok line c₁ =>
      simp only [runFrom, hop] at h ⊢
      exact .cons (attempt_of_ok hop) (ih h)

theorem Completes.append {lines' : List String} (hu : Completes u c lines d)
    (hv : Completes v d lines' d') : Completes (u ++ v) c (lines ++ lines') d' := by
  induction hu with
  | nil => exact hv
  | cons head _ ih =>
    rw [List.append_assoc]
    exact .cons head (ih hv)

theorem Completes.of_append (h : Completes (u ++ v) c lines d') :
    ∃ lines₁ d lines₂, lines = lines₁ ++ lines₂ ∧ Completes u c lines₁ d ∧
      Completes v d lines₂ d' := by
  induction u generalizing c lines with
  | nil => exact ⟨[], c, lines, rfl, .nil c, h⟩
  | cons op u ih =>
    cases h with
    | cons head tail =>
      obtain ⟨lines₁, d, lines₂, rfl, hu, hv⟩ := ih tail
      exact ⟨_, d, lines₂, (List.append_assoc _ _ _).symm, .cons head hu, hv⟩

/-- If each operation on the one side is mirrored on the other, so is the whole script. -/
theorem Completes.mirrored {R : Context → Context → Prop}
    (step : ∀ op ∈ ops, Mirrors R (Op.execute op)) (h : Completes ops d lines d') (hcd : R c d) :
    ∃ c', Completes ops c lines c' ∧ R c' d' := by
  induction h generalizing c with
  | nil => exact ⟨c, .nil c, hcd⟩
  | cons head _ ih =>
    obtain ⟨c₁, hc₁, hr₁⟩ := step _ List.mem_cons_self hcd head
    obtain ⟨c₂, hc₂, hr₂⟩ := ih (fun op hop => step op (List.mem_cons_of_mem _ hop)) hr₁
    exact ⟨c₂, .cons hc₁ hc₂, hr₂⟩

end Script
end Narrative
