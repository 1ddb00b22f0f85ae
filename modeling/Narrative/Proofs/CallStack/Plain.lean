import Narrative.CallStack.Op
import Narrative.Proofs.CallStack.Leaving
import Narrative.Proofs.Stack.Overflow

/-! The plain model of a call stack: scopes of variables and at most one saved copy of them. An empty
call stack and the plain model go through every history together; only the slots can run out. -/
namespace Narrative
namespace CallStack
open Stack

/-- The variables by scope, and those of the save that is outstanding. -/
structure Plain where
  scopes : Scopes := {}
  saved : Option Scopes := none

namespace Plain

/-- What an operation of any kind of stack may answer, and what it then leaves. The number of entries
and the entries themselves are not known to the model, which keeps no hidden variables. -/
def AllowsControl (capacity : Nat) (m : Plain) :
    Control → Except StackError Answer → Plain → Prop
  | .size, answer, m' => (∃ n, answer = .ok (.stack (.count n))) ∧ m' = m
  | .isEmpty, answer, m' =>
    (∃ b, answer = .ok (.stack (.flag b)) ∧ (b = true ↔ m.scopes = {})) ∧ m' = m
  | .capacity, answer, m' => answer = .ok (.stack (.count capacity)) ∧ m' = m
  | .hasSnapshot, answer, m' => answer = .ok (.stack (.flag m.saved.isSome)) ∧ m' = m
  | .toList, answer, m' => (∃ entries, answer = .ok (.stack (.elements entries))) ∧ m' = m
  | .clear, answer, m' =>
    match m.saved with
    | some _ => answer = .error .clearWhileSaved ∧ m' = m
    | none => answer = .ok (.stack .done) ∧ m' = {}
  | .reset, answer, m' => answer = .ok (.stack .done) ∧ m' = {}
  | .save, answer, m' =>
    match m.saved with
    | some _ => answer = .error .savedTwice ∧ m' = m
    | none => answer = .ok (.stack .done) ∧ m' = { m with saved := some m.scopes }
  | .restore, answer, m' =>
    match m.saved with
    | some scopes => answer = .ok (.stack .done) ∧ m' = { scopes }
    | none => answer = .error .restoreUnsaved ∧ m' = m
  | .forget, answer, m' =>
    match m.saved with
    | some _ => answer = .ok (.stack .done) ∧ m' = { scopes := m.scopes }
    | none => answer = .error .forgetUnsaved ∧ m' = m

/-- What an operation may answer, and what it then leaves. A set or the beginning of a frame may find
no room, which the model does not foresee. -/
def Allows (capacity : Nat) (m : Plain) : Op → Except StackError Answer → Plain → Prop
  | .set name value, answer, m' =>
    if name.isValid then
      answer = .ok (.stack .done) ∧ m' = { m with scopes := m.scopes.assign name value } ∨
        answer = .error (.overflow capacity) ∧ m' = m
    else answer = .error .reservedName ∧ m' = m
  | .get name, answer, m' =>
    answer = .ok (.found (if name.isValid then m.scopes.current.lookup name else none)) ∧ m' = m
  | .pushFrame record, answer, m' =>
    answer = .ok (.stack .done) ∧ m' = { m with scopes := m.scopes.enter record } ∨
      answer = .error (.overflow capacity) ∧ m' = m
  | .popFrame, answer, m' =>
    match m.scopes.frames with
    | (record, _) :: rest =>
      answer = .ok (.left record) ∧ m' = { m with scopes := { m.scopes with frames := rest } }
    | [] =>
      (m.scopes.base = ∅ ∧ answer = .error .underflow ∨
        m.scopes.base ≠ ∅ ∧ answer = .error .noFrame) ∧ m' = m
  | .hasFrame, answer, m' => answer = .ok (.stack (.flag !m.scopes.frames.isEmpty)) ∧ m' = m
  | .depth, answer, m' => answer = .ok (.stack (.count m.scopes.frames.length)) ∧ m' = m
  | .control k, answer, m' => m.AllowsControl capacity k answer m'

def ofStack (m : Stack.Plain Entry) : Plain := ⟨.ofEntries m.items, m.saved.map Scopes.ofEntries⟩

end Plain

/-- The scopes that lie on a call stack, and those that a restore would put there. -/
def plain (s : CallStack) : Plain where
  scopes := .ofEntries s.toList
  saved := s.snapshot.map fun p => .ofEntries (s.rollback p).toList

theorem plain_eq_ofStack (s : CallStack) : CallStack.plain s = .ofStack (Stack.plain s) := by
  simp [CallStack.plain, Plain.ofStack, Stack.plain, Function.comp_def]

theorem plain_eq_layout (s : CallStack) :
    CallStack.plain s = ⟨s.layout.now.scopes, s.layout.saved.map Sheet.scopes⟩ := by
  rw [plain_eq_ofStack, Stack.plain_eq, Plain.ofStack, Option.map_map]
  rfl

structure Sound (s : CallStack) (capacity : Nat) : Prop where
  wellFramed : WellFramed s
  capacity_eq : s.capacity = capacity

theorem Sound.stack {s : CallStack} {capacity : Nat} (hs : Sound s capacity) :
    Stack.Sound s capacity Entry.null :=
  ⟨hs.wellFramed.wellFormed, hs.capacity_eq, hs.wellFramed.null_eq⟩

section Control

/-- The elements on a stack, those of the save included, are proper entries. -/
def AllProper (m : Stack.Plain Entry) : Prop :=
  (∀ e ∈ m.items, e.Proper) ∧ ∀ l, m.saved = some l → ∀ e ∈ l, e.Proper

theorem allProper_iff (s : CallStack) :
    AllProper (Stack.plain s) ↔
      s.layout.now.Proper ∧ ∀ r, s.layout.saved = some r → r.Proper := by
  rw [Stack.plain_eq, AllProper]
  refine and_congr_right fun _ => ⟨fun h r hr => ?_, fun h l hl => ?_⟩
  · exact h r.elements (by simp [hr])
  · obtain ⟨r, hr, rfl⟩ := Option.map_eq_some_iff.mp hl
    exact h r hr

theorem allowsControl_ofStack {capacity : Nat} {m m' : Stack.Plain Entry} {k : Control}
    {answer : Except StackError (Stack.Answer Entry)} (hm : AllProper m)
    (h : m.AllowsControl capacity k answer m') :
    (Plain.ofStack m).AllowsControl capacity k (answer.map .stack) (.ofStack m') ∧
      AllProper m' := by
  have hnil : AllProper {} := ⟨by simp, by simp⟩
  obtain ⟨items, saved⟩ := m
  -- proper entries are needed for `isEmpty` alone: no entry of theirs leaves the scopes empty
  have hdrop : AllProper { items } := ⟨hm.1, by simp⟩
  cases k with
  | size =>
    obtain ⟨rfl, rfl⟩ := h
    exact ⟨⟨⟨_, rfl⟩, rfl⟩, hm⟩
  | isEmpty =>
    obtain ⟨rfl, rfl⟩ := h
    have hiff := Scopes.ofEntries_eq_empty hm.1
    exact ⟨⟨⟨_, rfl, by rw [List.isEmpty_iff]; exact hiff.symm⟩, rfl⟩, hm⟩
  | capacity =>
    obtain ⟨rfl, rfl⟩ := h
    exact ⟨⟨rfl, rfl⟩, hm⟩
  | hasSnapshot =>
    obtain ⟨rfl, rfl⟩ := h
    exact ⟨⟨by simp [Except.map, Plain.ofStack], rfl⟩, hm⟩
  | toList =>
    obtain ⟨rfl, rfl⟩ := h
    exact ⟨⟨⟨_, rfl⟩, rfl⟩, hm⟩
  | reset =>
    obtain ⟨rfl, rfl⟩ := h
    exact ⟨⟨rfl, rfl⟩, hnil⟩
  | clear =>
    cases saved with
    | none =>
      obtain ⟨rfl, rfl⟩ := h
      exact ⟨⟨rfl, rfl⟩, hnil⟩
    | some l =>
      obtain ⟨rfl, rfl⟩ := h
      exact ⟨⟨rfl, rfl⟩, hm⟩
  | save =>
    cases saved with
    | none =>
      obtain ⟨rfl, rfl⟩ := h
      refine ⟨⟨rfl, rfl⟩, hm.1, fun l hl => ?_⟩
      obtain rfl := Option.some.inj hl
      exact hm.1
    | some l =>
      obtain ⟨rfl, rfl⟩ := h
      exact ⟨⟨rfl, rfl⟩, hm⟩
  | restore =>
    cases saved with
    | none =>
      obtain ⟨rfl, rfl⟩ := h
      exact ⟨⟨rfl, rfl⟩, hm⟩
    | some l =>
      obtain ⟨rfl, rfl⟩ := h
      exact ⟨⟨rfl, rfl⟩, hm.2 l rfl, by simp⟩
  | forget =>
    cases saved with
    | none =>
      obtain ⟨rfl, rfl⟩ := h
      exact ⟨⟨rfl, rfl⟩, hm⟩
    | some l =>
      obtain ⟨rfl, rfl⟩ := h
      exact ⟨⟨rfl, rfl⟩, hdrop⟩

end Control

section Step
variable {s : CallStack} {capacity : Nat} (hs : Sound s capacity)
include hs

theorem control_follows (k : Control) :
    Sound (attempt (Op.control k).perform s).2 capacity ∧
      (CallStack.plain s).Allows capacity (.control k) (attempt (Op.control k).perform s).1
        (CallStack.plain (attempt (Op.control k).perform s).2) := by
  obtain ⟨hsound, hallows⟩ := Stack.control_follows hs.stack Entry.null_beq_null k
  have hproper := (allProper_iff s).mpr ⟨hs.wellFramed.proper, hs.wellFramed.proper_saved⟩
  obtain ⟨hcontrol, hproper'⟩ := allowsControl_ofStack hproper hallows
  obtain ⟨hnow, hsaved⟩ := (allProper_iff _).mp hproper'
  simp only [Op.perform, attempt_bind_pure]
  rw [plain_eq_ofStack, plain_eq_ofStack]
  exact ⟨⟨⟨hsound.wellFormed, hsound.null_eq, hnow, hsaved⟩, hsound.capacity_eq⟩, hcontrol⟩

theorem push_follows {e : Entry} (he : e.Proper) {scopes : Scopes}
    (hscopes : Scopes.add e (CallStack.plain s).scopes = scopes) :
    Sound (attempt (Stack.push e) s).2 capacity ∧
      ((attempt (Stack.push e) s).1 = .ok () ∧
          CallStack.plain (attempt (Stack.push e) s).2 = { CallStack.plain s with scopes } ∨
        (attempt (Stack.push e) s).1 = .error (.overflow capacity) ∧
          CallStack.plain (attempt (Stack.push e) s).2 = CallStack.plain s) := by
  rcases push_proper_cases hs.wellFramed he with ⟨-, h⟩ | ⟨t, -, h, ht, hl⟩
  · rw [h, hs.capacity_eq]
    exact ⟨hs, .inr ⟨rfl, rfl⟩⟩
  · rw [h]
    have hcap : t.capacity = s.capacity := congrArg Layout.capacity hl
    refine ⟨⟨ht, hcap.trans hs.capacity_eq⟩, .inl ⟨rfl, ?_⟩⟩
    rw [← hscopes, plain_eq_layout, plain_eq_layout, hl]
    rfl

theorem set_follows (name : NameHash) (value : Value) :
    Sound (attempt (Op.set name value).perform s).2 capacity ∧
      (CallStack.plain s).Allows capacity (.set name value)
        (attempt (Op.set name value).perform s).1
        (CallStack.plain (attempt (Op.set name value).perform s).2) := by
  simp only [Op.perform, attempt_bind_pure, Plain.Allows]
  rcases set_cases hs.wellFramed name value with
    ⟨hname, h⟩ | ⟨hname, hsnap, t, h, ht⟩ | ⟨hname, -, h⟩
  · rw [h, if_neg (by simp [hname])]
    exact ⟨hs, rfl, rfl⟩
  · rw [h, if_pos hname]
    refine ⟨⟨ht.wellFramed, ht.capacity_eq.trans hs.capacity_eq⟩, .inl ⟨rfl, ?_⟩⟩
    rw [plain_eq_layout, plain_eq_layout, ht.scopes_eq, ht.saved_eq,
      saved_layout_eq_none.mpr hsnap]
  · rw [h, if_pos hname]
    obtain ⟨hsound, hpush⟩ := push_follows hs (e := ⟨name, value⟩) (.inl hname)
      (by simp only [Scopes.add, hname, if_true]; rfl)
    refine ⟨hsound, ?_⟩
    rcases hpush with ⟨ha, hp⟩ | ⟨ha, hp⟩
    · exact .inl ⟨by rw [ha]; rfl, hp⟩
    · exact .inr ⟨by rw [ha]; rfl, hp⟩

theorem pushFrame_follows (record : Frame) :
    Sound (attempt (Op.pushFrame record).perform s).2 capacity ∧
      (CallStack.plain s).Allows capacity (.pushFrame record)
        (attempt (Op.pushFrame record).perform s).1
        (CallStack.plain (attempt (Op.pushFrame record).perform s).2) := by
  simp only [Op.perform, attempt_bind_pure, Plain.Allows, pushFrame]
  obtain ⟨hsound, hpush⟩ := push_follows hs (e := .boundary record) (.inr ⟨record, rfl⟩) rfl
  refine ⟨hsound, ?_⟩
  rcases hpush with ⟨ha, hp⟩ | ⟨ha, hp⟩
  · exact .inl ⟨by rw [ha]; rfl, hp⟩
  · exact .inr ⟨by rw [ha]; rfl, hp⟩

theorem popFrame_follows :
    Sound (attempt Op.popFrame.perform s).2 capacity ∧
      (CallStack.plain s).Allows capacity .popFrame (attempt Op.popFrame.perform s).1
        (CallStack.plain (attempt Op.popFrame.perform s).2) := by
  simp only [Op.perform, attempt_bind_pure, Plain.Allows]
  have hplain := plain_eq_layout s
  rcases popFrame_cases hs.wellFramed with
    ⟨hf, hb, h⟩ | ⟨hf, hb, h⟩ | ⟨record, t, h, ht⟩
  · rw [h, hplain, hf]
    exact ⟨hs, .inl ⟨hb, rfl⟩, rfl⟩
  · rw [h, hplain, hf]
    exact ⟨hs, .inr ⟨hb, rfl⟩, rfl⟩
  · obtain ⟨vars, hf⟩ := ht.frames_eq
    rw [h, hplain, hf]
    refine ⟨⟨ht.wellFramed, ht.capacity_eq.trans hs.capacity_eq⟩, rfl, ?_⟩
    rw [plain_eq_layout, ht.saved_eq, ← ht.base_eq]

theorem op_follows (op : Op) :
    Sound (attempt op.perform s).2 capacity ∧
      (CallStack.plain s).Allows capacity op (attempt op.perform s).1
        (CallStack.plain (attempt op.perform s).2) := by
  have hplain := plain_eq_layout s
  cases op with
  | set name value => exact set_follows hs name value
  | pushFrame record => exact pushFrame_follows hs record
  | popFrame => exact popFrame_follows hs
  | control k => exact control_follows hs k
  | get name =>
    refine ⟨hs, ?_, rfl⟩
    rw [Op.perform, attempt_query, hplain]
    by_cases hname : name.isValid = true
    · rw [if_pos hname, lookup_scopes hs.wellFramed hname]
    · rw [if_neg hname, get?, find, if_neg hname]
      rfl
  | hasFrame =>
    refine ⟨hs, ?_, rfl⟩
    rw [Op.perform, attempt_query, hplain, hasFrame_eq hs.wellFramed]
  | depth =>
    refine ⟨hs, ?_, rfl⟩
    rw [Op.perform, attempt_query, hplain, depth_eq hs.wellFramed]

end Step

/-- A call stack goes through every history as scopes of variables with one saved copy do, in place or
with shadowed entries, with or without holes: equal answers, unless the slots run out. -/
theorem attempts_follow_scopes (slots : Array Entry) (ops : List Op) :
    Follows (Plain.Allows slots.size) {} ops
      (attempts Op.perform ops (ofSlots slots Entry.null)).1
      (CallStack.plain (attempts Op.perform ops (ofSlots slots Entry.null)).2) :=
  attempts_follow (P := fun s => Sound s slots.size) (fun op _ hs => op_follows hs op) ops
    ⟨wellFramed_ofSlots slots, rfl⟩

/-- A variable is hidden by a frame and then by an entry past a save, and found again when the save is
restored and the frame left. In four slots there is no room for a second variable of the frame. -/
def hiddenThenFound : List Op :=
  [.set ⟨7⟩ (.int 1), .pushFrame ⟨9, .tunnel⟩, .get ⟨7⟩, .set ⟨7⟩ (.int 2), .control .save,
    .set ⟨7⟩ (.int 3), .set ⟨8⟩ (.int 4), .get ⟨7⟩, .control .restore, .get ⟨7⟩, .popFrame, .get ⟨7⟩]

example : (attempts Op.perform hiddenThenFound (ofCapacity 4)).1 =
    [.ok (.stack .done), .ok (.stack .done), .ok (.found none), .ok (.stack .done),
      .ok (.stack .done), .ok (.stack .done), .error (.overflow 4), .ok (.found (some (.int 3))),
      .ok (.stack .done), .ok (.found (some (.int 2))), .ok (.left ⟨9, .tunnel⟩),
      .ok (.found (some (.int 1)))] := by rfl

/-! ### When the slots run out -/

section Room
variable {s : CallStack} (hs : WellFramed s)
include hs

theorem push_proper_overflow_iff {e : Entry} (he : e.Proper) :
    (attempt (Stack.push e) s).1 = .error (.overflow s.capacity) ↔ s.live.length = s.capacity := by
  have hfits := hs.wellFormed.ordered.frontier_le_capacity
  rw [push_overflow_iff (by rw [hs.null_eq]; exact he.beq_null), length_live hs.wellFormed]
  omega

/-- A frame begins unless the live part fills the row. -/
theorem pushFrame_overflow_iff (record : Frame) :
    (attempt (pushFrame record) s).1 = .error (.overflow s.capacity) ↔
      s.live.length = s.capacity :=
  push_proper_overflow_iff hs (.inr ⟨record, rfl⟩)

/-- A set runs out of slots just when it would push and the live part fills the row: for a variable that
its frame does not have yet, and for any while a save is outstanding. -/
theorem set_overflow_iff (name : NameHash) (value : Value) :
    (attempt (CallStack.set name value) s).1 = .error (.overflow s.capacity) ↔
      name.isValid = true ∧ (s.snapshot = none → get? s name = none) ∧
        s.live.length = s.capacity := by
  rcases set_cases hs name value with
    ⟨hname, h⟩ | ⟨hname, hsnap, t, h, ht⟩ | ⟨hname, hnew, h⟩
  · simp [h, hname]
  · simp [h, hsnap, ht.found]
  · rw [h, push_proper_overflow_iff hs (.inl hname)]
    exact ⟨fun hfull => ⟨hname, hnew, hfull⟩, fun hfull => hfull.2.2⟩

end Room

end CallStack
end Narrative
