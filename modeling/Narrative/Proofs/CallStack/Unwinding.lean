import Narrative.Proofs.CallStack.Plain
import Narrative.Proofs.Stack.Retained

/-! What lies in the live slots of a call stack, and what leaving a frame finds there. The pops that
leave a frame are described once more as a loop without a bound on its rounds. -/
namespace Narrative

theorem Value.eq_none_of_beq {v : Value} (h : (v == Value.none) = true) : v = .none := by
  cases v with
  | none => rfl
  | int | float | bool | str | divert | frame => cases h

theorem Entry.eq_null_of_beq {e : Entry} (h : (e == Entry.null) = true) : e = Entry.null := by
  obtain ⟨name, value⟩ := e
  change (name == NameHash.invalid && value == Value.none) = true at h
  obtain ⟨hname, hvalue⟩ := Bool.and_eq_true_iff.mp h
  rw [eq_of_beq hname, Value.eq_none_of_beq hvalue]
  rfl

namespace CallStack
open Stack

/-! ### The live slots -/

/-- An entry that is on the stack, or that a restore would put back, is a proper one. -/
theorem proper_of_retains {s : CallStack} (hs : WellFramed s) {e : Entry} (h : s.Retains e) :
    e.Proper := by
  cases hp : s.snapshot with
  | none =>
    rw [retains_of_unsaved hp, ← elements_layout] at h
    exact hs.proper e h
  | some p =>
    rw [retains_of_saved hp, ← elements_layout, ← elements_sheet] at h
    cases h with
    | inl hnow => exact hs.proper e hnow
    | inr hsaved => exact hs.proper_saved _ (saved_layout_of_some hp) e hsaved

theorem null_or_proper_of_mem_live {s : CallStack} (hs : WellFramed s) {e : Entry}
    (he : e ∈ s.live) : e = Entry.null ∨ e.Proper := by
  cases hnull : (e == Entry.null) with
  | true => exact .inl (Entry.eq_null_of_beq hnull)
  | false =>
    have hretains := (mem_live_iff_retains hs.wellFormed (by rw [hs.null_eq]; exact hnull)).mp he
    exact .inr (proper_of_retains hs hretains)

/-! ### The loop -/

/-- The loop that leaves a frame: entries are popped until a pop fails or a boundary has been popped. -/
inductive Unwinds : CallStack → Except StackError Frame → CallStack → Prop
  | failed {s t : CallStack} {error : StackError} (hpop : attempt pop s = (.error error, t)) :
      Unwinds s (.error error) t
  | recordless {s t : CallStack} {e : Entry} (hpop : attempt pop s = (.ok e, t))
      (hb : e.isBoundary = true) (hrecord : e.value.asFrame = none) :
      Unwinds s (.error .boundaryWithoutFrame) t
  | found {s t : CallStack} {e : Entry} {record : Frame} (hpop : attempt pop s = (.ok e, t))
      (hb : e.isBoundary = true) (hrecord : e.value.asFrame = some record) :
      Unwinds s (.ok record) t
  | next {s t u : CallStack} {e : Entry} {result : Except StackError Frame}
      (hpop : attempt pop s = (.ok e, t)) (hb : e.isBoundary = false)
      (rest : Unwinds t result u) : Unwinds s result u

theorem Unwinds.unique {s t t' : CallStack} {r r' : Except StackError Frame}
    (h : Unwinds s r t) (h' : Unwinds s r' t') : r = r' ∧ t = t' := by
  induction h with
  | failed hpop =>
    cases h' <;> simp_all
  | recordless hpop hb hrecord =>
    cases h' <;> simp_all
  | found hpop hb hrecord =>
    cases h' <;> simp_all
  | next hpop hb rest ih =>
    cases h' with
    | next hpop' hb' rest' =>
      rw [hpop] at hpop'
      cases hpop'
      exact ih rest'
    | _ => simp_all

/-- Pops that reach a boundary before their number runs out are the rounds of the loop. -/
theorem unwinds_of_popToBoundary {n : Nat} {s t : CallStack} {record : Frame}
    (h : attempt (popToBoundary n) s = (.ok record, t)) : Unwinds s (.ok record) t := by
  induction n generalizing s with
  | zero => cases h
  | succ n ih =>
    rw [popToBoundary] at h
    cases hpop : attempt pop s with
    | mk answer s' =>
      cases answer with
      | error e =>
        rw [attempt_bind_of_error hpop] at h
        cases h
      | ok e =>
        rw [attempt_bind_of_ok hpop] at h
        cases hb : e.isBoundary with
        | false =>
          rw [hb] at h
          exact .next hpop hb (ih h)
        | true =>
          rw [hb] at h
          cases hrecord : e.value.asFrame with
          | none =>
            simp only [hrecord] at h
            cases h
          | some record' =>
            simp only [hrecord] at h
            cases h
            exact .found hpop hb hrecord

theorem unwinds_of_popFrame {s t : CallStack} {record : Frame}
    (h : attempt popFrame s = (.ok record, t)) : Unwinds s (.ok record) t := by
  unfold attempt popFrame at h
  by_cases he : s.isEmpty = true
  · simp [he] at h
  · by_cases hf : hasFrame s = true
    · rw [if_neg he, if_pos hf] at h
      exact unwinds_of_popToBoundary h
    · simp [he, hf] at h

/-! ### Histories -/

theorem sound_attempts (slots : Array Entry) (ops : List Op) :
    Sound (attempts Op.perform ops (ofSlots slots Entry.null)).2 slots.size :=
  attempts_preserve (P := (Sound · slots.size)) (fun op _ _ hs => (op_follows hs op).1)
    ⟨wellFramed_ofSlots slots, rfl⟩

/-- In every history of a call stack each live slot holds the null entry, a variable under a valid name
or the base of a frame. So if there is a frame, leaving it succeeds with the record of the first
boundary from the top, the entries after that boundary stay, and the loop has no other end. -/
theorem frames_unwind (slots : Array Entry) (ops : List Op) :
    let s := (attempts Op.perform ops (ofSlots slots Entry.null)).2
    (∀ e ∈ s.live, e = Entry.null ∨ e.name.isValid = true ∨ ∃ record, e = .boundary record) ∧
    (hasFrame s = true →
      ∃ above record rest t, s.toList = above ++ .boundary record :: rest ∧
        (∀ e ∈ above, e.isBoundary = false) ∧ attempt popFrame s = (.ok record, t) ∧
        t.toList = rest ∧ ∀ result u, Unwinds s result u ↔ result = .ok record ∧ u = t) := by
  intro s
  have hs : WellFramed s := (sound_attempts slots ops).wellFramed
  refine ⟨fun e he => null_or_proper_of_mem_live hs he, fun hframe => ?_⟩
  obtain ⟨above, i, record, rest, t, hcells, habove, hpop, -, hl⟩ := attempt_popFrame hs hframe
  have hunwinds := unwinds_of_popFrame hpop
  refine ⟨above.map Prod.snd, record, rest.map Prod.snd, t, ?_, ?_, hpop, ?_, fun result u => ?_⟩
  · rw [← elements_layout, Sheet.elements, hcells, List.map_append, List.map_cons]
  · intro e he
    obtain ⟨c, hc, rfl⟩ := List.mem_map.mp he
    exact habove c hc
  · rw [← elements_layout, hl]
    rfl
  · constructor
    · exact fun h => h.unique hunwinds
    · rintro ⟨rfl, rfl⟩
      exact hunwinds

/-- The inner frame is left while saved, a variable is set to a frame value past it, and the commit
leaves a tombstone between that variable and one without a value. -/
def nested : List Op :=
  [.pushFrame ⟨4, .tunnel⟩, .set ⟨1⟩ .none, .pushFrame ⟨7, .function⟩, .control .save, .popFrame,
    .set ⟨1⟩ (.frame ⟨5, .tunnel⟩), .control .forget]

theorem nested_unwind :
    let s : CallStack := ⟨#[.boundary ⟨4, .tunnel⟩, ⟨⟨1⟩, .none⟩, .null, ⟨⟨1⟩, .frame ⟨5, .tunnel⟩⟩],
      Entry.null, 4, 1, none⟩
    let t : CallStack := { s with top := 0, dead := 0 }
    hasFrame s = true ∧ attempt popFrame s = (.ok ⟨4, .tunnel⟩, t) ∧ t.toList = [] ∧
    ∀ result u, Unwinds s result u ↔ result = .ok ⟨4, .tunnel⟩ ∧ u = t := by
  intro s t
  have hrun : (attempts Op.perform nested
      (ofSlots (Array.replicate 4 ⟨⟨9⟩, .int 3⟩) Entry.null)).2 = s := by rfl
  have hpop : attempt popFrame s = (.ok ⟨4, .tunnel⟩, t) := by rfl
  have h := frames_unwind (Array.replicate 4 ⟨⟨9⟩, .int 3⟩) nested
  rw [hrun] at h
  obtain ⟨above, record, rest, t', hlist, -, hpop', hrest, hloop⟩ := h.2 rfl
  cases hpop.symm.trans hpop'
  exact ⟨rfl, hpop, rfl, hloop⟩

end CallStack
end Narrative
