import Narrative.Proofs.Stack.Transitions
import Narrative.Stack.Op

/-! What a stack holds on to: the part of the row that a collector walks has, apart from null slots,
the elements on the stack and those that a restore would put back, and no others. -/
namespace Narrative
namespace Stack
variable {α : Type}

def Answer.handedOut : Answer α → List α
  | .element v => [v]
  | .elements vs => vs
  | .stepped (some v) _ => [v]
  | .done | .count _ | .flag _ | .stepped none _ => []

variable [BEq α] {s t : Stack α} {v : α}

/-- The element is on the stack, or would be if the outstanding save were restored. -/
def Retains (s : Stack α) (v : α) : Prop :=
  v ∈ s.toList ∨ ∃ r, attempt restore s = (.ok (), r) ∧ v ∈ r.toList

theorem mem_toList : v ∈ s.toList ↔ ∃ i < s.top, s.vacant i = false ∧ s.slot i = v := by
  simp [toList, positions, mem_positionsBelow_iff, and_assoc]

/-- After a restore every slot below the save that is not null is on the stack. -/
theorem mem_toList_rollback {p : Snapshot} :
    v ∈ (s.rollback p).toList ↔ ∃ i < p.save, (s.slot i == s.null) = false ∧ s.slot i = v := by
  rw [mem_toList]
  refine exists_congr fun i => and_congr_right fun _ => ?_
  rw [vacant, bypassed_of_unsaved rfl, Bool.false_or]
  rfl

theorem retains_of_saved {p : Snapshot} (hp : s.snapshot = some p) :
    s.Retains v ↔ v ∈ s.toList ∨ v ∈ (s.rollback p).toList := by
  simp [Retains, attempt_restore_saved hp]

theorem retains_of_unsaved (hs : s.snapshot = none) : s.Retains v ↔ v ∈ s.toList := by
  simp [Retains, attempt_restore_unsaved hs]

/-- Below the frontier a slot that is not null is on the stack or saved: what was forgotten is null,
and what was popped lies above. -/
theorem mem_live_iff_retains (hs : s.WellFormed) (hv : (v == s.null) = false) :
    v ∈ s.live ↔ s.Retains v := by
  rw [mem_live hs]
  cases hp : s.snapshot with
  | none =>
    have hfront : s.frontier = s.top := by rw [frontier, hp]
    rw [retains_of_unsaved hp, mem_toList, hfront]
    refine exists_congr fun i => and_congr_right fun _ => ?_
    rw [vacant, bypassed_of_unsaved hp, Bool.false_or]
    exact ⟨fun h => ⟨by rw [h]; exact hv, h⟩, And.right⟩
  | some p =>
    have hfront : s.frontier = max s.top p.save := by rw [frontier, hp]
    rw [retains_of_saved hp, mem_toList, mem_toList_rollback, hfront]
    constructor
    · rintro ⟨i, hi, rfl⟩
      by_cases hsave : i < p.save
      · exact .inr ⟨i, hsave, hv, rfl⟩
      · -- no slot above the save is bypassed
        have hb : s.bypassed i = false := by simp [bypassed_of_saved hp, hsave]
        exact .inl ⟨i, by omega, by rw [vacant, hb]; exact hv, rfl⟩
    · rintro (⟨i, hi, -, rfl⟩ | ⟨i, hi, -, rfl⟩) <;> exact ⟨i, by omega, rfl⟩

/-! ### What is handed out -/

theorem mem_toList_of_pop (h : attempt pop s = (.ok v, t)) : v ∈ s.toList := by
  cases hseek : s.seekBelow s.top with
  | mk found k =>
    cases found with
    | none =>
      rw [attempt_pop_none hseek] at h
      cases h
    | some i =>
      rw [attempt_pop_some hseek] at h
      cases h
      rw [toList, positions, (seekBelow_some hseek).1]
      exact List.mem_cons_self

theorem mem_toList_of_peek (h : attempt peek s = (.ok v, t)) : v ∈ s.toList := by
  rcases peek_cases s with ⟨-, herror⟩ | ⟨w, rest, hlist, hok⟩
  · rw [herror] at h
    cases h
  · rw [hok] at h
    cases h
    rw [hlist]
    exact List.mem_cons_self

theorem mem_toList_of_step {c c' : Cursor} (h : s.step c = (some v, c')) : v ∈ s.toList := by
  rw [step] at h
  cases hi : s.below (s.resume c) with
  | none =>
    rw [hi] at h
    cases h
  | some i =>
    rw [hi] at h
    cases h
    rw [below_eq_head?] at hi
    obtain ⟨hlt, hvac⟩ := mem_positionsBelow_iff.mp (List.mem_of_head? hi)
    exact mem_toList.mpr ⟨i, Nat.lt_of_lt_of_le hlt (resume_le_top s c), hvac, rfl⟩

theorem mem_toList_of_control {k : Control} {a : Answer α} (h : attempt k.perform s = (.ok a, t))
    (hv : v ∈ a.handedOut) : v ∈ s.toList := by
  cases k with
  | toList =>
    cases h
    exact hv
  | size | isEmpty | capacity | hasSnapshot =>
    cases h
    cases hv
  | reset =>
    cases h
    cases hv
  | clear | save | restore | forget =>
    obtain ⟨_, -, rfl⟩ := ok_of_attempt_bind_pure h
    cases hv

/-- The operations that hand out what is on the stack, and nothing besides. -/
def Op.yields : Op α → Bool
  | .pop | .peek | .step _ | .control .toList => true
  | _ => false

theorem mem_toList_of_yields {op : Op α} {a : Answer α} (hop : op.yields = true)
    (h : attempt op.perform s = (.ok a, t)) (hv : v ∈ a.handedOut) : v ∈ s.toList := by
  cases op with
  | push | null | live => cases hop
  | pop =>
    obtain ⟨w, hpop, rfl⟩ := ok_of_attempt_bind_pure h
    obtain rfl := List.mem_singleton.mp hv
    exact mem_toList_of_pop hpop
  | peek =>
    obtain ⟨w, hpeek, rfl⟩ := ok_of_attempt_bind_pure h
    obtain rfl := List.mem_singleton.mp hv
    exact mem_toList_of_peek hpeek
  | step c =>
    rw [Op.perform, attempt_query] at h
    rcases hstep : s.step c with ⟨found, c'⟩
    rw [hstep] at h
    cases h
    cases found with
    | none => cases hv
    | some w =>
      obtain rfl := List.mem_singleton.mp hv
      exact mem_toList_of_step hstep
  | control k => exact mem_toList_of_control h hv

/-- Whatever operation hands an element out, the stack held on to it. -/
theorem retains_of_handedOut (hs : s.WellFormed) (hnull : (s.null == s.null) = true) {op : Op α}
    {a : Answer α} (h : attempt op.perform s = (.ok a, t)) (hv : v ∈ a.handedOut)
    (hvnull : (v == s.null) = false) : s.Retains v := by
  cases op with
  | push w =>
    obtain ⟨_, -, rfl⟩ := ok_of_attempt_bind_pure h
    cases hv
  | null =>
    cases h
    obtain rfl := List.mem_singleton.mp hv
    rw [hnull] at hvnull
    cases hvnull
  | live =>
    cases h
    exact (mem_live_iff_retains hs hvnull).mp hv
  | pop | peek | step => exact .inl (mem_toList_of_yields rfl h hv)
  | control k => exact .inl (mem_toList_of_control h hv)

end Stack
end Narrative
