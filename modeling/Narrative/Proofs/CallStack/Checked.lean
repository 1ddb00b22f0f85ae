import Narrative.CallStack.Op
import Narrative.Proofs.CallStack.Transitions
import Narrative.Proofs.Stack.Balance
import Narrative.Proofs.Stack.Checked
import Narrative.Proofs.Stack.Plain

/-! The operations on frames and variables with every index and every difference checked, and what holds
of stacks of both sorts in every history: the counters are right, and no operation breaks off. -/
namespace Narrative
namespace CallStack
open Stack

namespace Checked

def locate (s : CallStack) (name : NameHash) : List Nat → Option (Option Nat)
  | [] => some none
  | i :: rest => do
    let e ← s.slots[i]?
    if e.name = name then some (some i)
    else if e.isBoundary then some none
    else locate s name rest

def find (s : CallStack) (name : NameHash) : Option (Option Nat) :=
  if name.isValid then do
    let positions ← Stack.Checked.positions s s.top
    locate s name positions
  else some none

def get? (s : CallStack) (name : NameHash) : Option (Option Value) := do
  match ← find s name with
  | some i => (s.slots[i]?).map fun e => some e.value
  | none => some none

/-- The slot of a variable that may be set in place. -/
def findUnsaved (s : CallStack) (name : NameHash) : Option (Option Nat) :=
  if s.hasSnapshot then some none else find s name

def set (name : NameHash) (value : Value) : Stack.Checked Entry Unit := fun s =>
  if name.isValid then do
    match ← findUnsaved s name with
    | some i =>
      let e ← s.slots[i]?
      let slots ← Stack.Checked.write s.slots i { e with value }
      some (.ok (), { s with slots })
    | none => Stack.Checked.push ⟨name, value⟩ s
  else some (.error .reservedName, s)

def hasFrame (s : CallStack) : Option Bool :=
  (Stack.Checked.toList s).map (·.any Entry.isBoundary)

def depth (s : CallStack) : Option Nat :=
  (Stack.Checked.toList s).map (·.countP Entry.isBoundary)

def popToBoundary : Nat → Stack.Checked Entry Frame
  | 0, s => some (.error .underflow, s)
  | n + 1, s => do
    match ← Stack.Checked.pop s with
    | (.error e, s) => some (.error e, s)
    | (.ok e, s) =>
      if e.isBoundary then
        match e.value.asFrame with
        | some record => some (.ok record, s)
        | none => some (.error .boundaryWithoutFrame, s)
      else popToBoundary n s

def popFrame : Stack.Checked Entry Frame := fun s => do
  let count ← Stack.Checked.size s
  let framed ← hasFrame s
  if count == 0 then some (.error .underflow, s)
  else if framed then popToBoundary s.top s
  else some (.error .noFrame, s)

end Checked

def Op.checked : Op → Stack.Checked Entry Answer
  | .set name value => (Checked.set name value).map fun _ => .stack .done
  | .get name => .query fun s => (Checked.get? s name).map .found
  | .pushFrame record => (Stack.Checked.push (.boundary record)).map fun _ => .stack .done
  | .popFrame => Checked.popFrame.map .left
  | .hasFrame => .query fun s => (Checked.hasFrame s).map fun b => .stack (.flag b)
  | .depth => .query fun s => (Checked.depth s).map fun n => .stack (.count n)
  | .control k => k.checked.map .stack

/-! ### Nothing breaks off -/

namespace Checked
variable {s : CallStack}

theorem locate_eq (name : NameHash) {l : List Nat} (h : ∀ i ∈ l, i < s.capacity) :
    locate s name l = some (CallStack.locate s name l) := by
  induction l with
  | nil => rfl
  | cons i rest ih =>
    have hi := Stack.Checked.getElem?_slots (h i List.mem_cons_self)
    have hrest := ih fun j hj => h j (List.mem_cons_of_mem i hj)
    rw [locate, CallStack.locate, hi, hrest]
    dsimp only [bind, Option.bind]
    split
    · rfl
    · split <;> rfl

variable (hs : s.WellFormed)
include hs

theorem find_eq (name : NameHash) : find s name = some (CallStack.find s name) := by
  have hpos := Stack.Checked.positions_eq (Stack.Checked.outside_top hs.ordered)
  by_cases hname : name.isValid = true
  · rw [find, CallStack.find, if_pos hname, if_pos hname, hpos]
    exact locate_eq name fun i hi => hs.lt_capacity hi
  · rw [find, CallStack.find, if_neg hname, if_neg hname]

/-- The slot in which a variable is found lies in the row. -/
theorem found_lt {name : NameHash} {i : Nat} (h : CallStack.find s name = some i) :
    name.isValid = true ∧ (s.slot i).name = name ∧ i < s.capacity := by
  by_cases hname : name.isValid = true
  · rw [CallStack.find_eq hname] at h
    obtain ⟨hmem, hi⟩ := locate_some h
    exact ⟨hname, hi, hs.lt_capacity hmem⟩
  · rw [CallStack.find, if_neg hname] at h
    cases h

theorem get?_eq (name : NameHash) : get? s name = some (CallStack.get? s name) := by
  rw [get?, find_eq hs, CallStack.get?]
  cases h : CallStack.find s name with
  | none => rfl
  | some i => simp [Stack.Checked.getElem?_slots (found_lt hs h).2.2]

theorem hasFrame_eq : hasFrame s = some (CallStack.hasFrame s) := by
  rw [hasFrame, Stack.Checked.toList_eq hs.ordered]
  rfl

theorem depth_eq : depth s = some (CallStack.depth s) := by
  rw [depth, Stack.Checked.toList_eq hs.ordered]
  rfl

omit hs in
theorem write_assign {i : Nat} (value : Value) (hi : i < s.capacity) :
    Stack.Checked.write s.slots i { s.slot i with value } = some (assign s i value).slots := by
  have hsize : i < s.slots.size := hi
  rw [Stack.Checked.write, dif_pos hsize, assign]
  refine congrArg some (Array.ext (by simp) fun j hj hj' => ?_)
  by_cases hij : i = j
  · subst hij
    simp [slot, hsize, Array.getElem_modify]
  · rw [Array.getElem_set_ne (h := hij), Array.getElem_modify, if_neg hij]

theorem findUnsaved_eq (name : NameHash) :
    findUnsaved s name = some (if s.hasSnapshot then none else CallStack.find s name) := by
  rw [findUnsaved, find_eq hs]
  split <;> rfl

end Checked

theorem checked_set (name : NameHash) (value : Value) :
    (Checked.set name value).Covers (set name value) := by
  intro s hs
  have hfind := Checked.findUnsaved_eq hs name
  rcases attempt_set_cases s name value with
    ⟨hname, h⟩ | ⟨i, hname, hsnap, hfound, h⟩ | ⟨hname, hfound, h⟩
  · rw [Checked.set, if_neg (by simp [hname]), h]
  · have hlt := (Checked.found_lt hs hfound).2.2
    have hsome : (if s.hasSnapshot then none else find s name) = some i := by
      rw [hasSnapshot_of_none hsnap, hfound]
      rfl
    rw [hsome] at hfind
    rw [Checked.set, if_pos hname, hfind, h]
    simp only [Option.bind_eq_bind, Option.bind_some, Stack.Checked.getElem?_slots hlt,
      Checked.write_assign value hlt]
    rfl
  · have hnone : (if s.hasSnapshot then none else find s name) = none := by
      cases hsnap : s.snapshot with
      | none => rw [hasSnapshot_of_none hsnap, hfound hsnap]; rfl
      | some p => rw [hasSnapshot_of_some hsnap]; rfl
    rw [hnone] at hfind
    rw [Checked.set, if_pos hname, hfind, h]
    exact checked_push ⟨name, value⟩ hs

theorem checked_popToBoundary (n : Nat) : (Checked.popToBoundary n).Covers (popToBoundary n) := by
  induction n with
  | zero => exact fun s _ => rfl
  | succ n ih =>
    intro s hs
    rw [Checked.popToBoundary, checked_pop hs, popToBoundary]
    rcases pop_cases hs with ⟨-, h⟩ | ⟨i, e, rest, t, -, h, ht, -⟩
    · rw [attempt_bind_of_error h, h]
      rfl
    · rw [attempt_bind_of_ok h, h]
      change (if e.isBoundary then _ else Checked.popToBoundary n t) = _
      by_cases heb : e.isBoundary = true
      · rw [if_pos heb, if_pos heb]
        cases e.value.asFrame <;> rfl
      · rw [if_neg heb, if_neg heb]
        exact ih ht

theorem checked_popFrame : Checked.popFrame.Covers popFrame := by
  intro s hs
  rw [Checked.popFrame, Stack.Checked.size_eq hs, Checked.hasFrame_eq hs]
  change (if s.isEmpty then _ else if hasFrame s then _ else _) = _
  rw [attempt, popFrame]
  by_cases he : s.isEmpty = true
  · rw [if_pos he, if_pos he]
  · rw [if_neg he, if_neg he]
    by_cases hf : hasFrame s = true
    · rw [if_pos hf, if_pos hf]
      exact checked_popToBoundary s.top hs
    · rw [if_neg hf, if_neg hf]

theorem checked_op (op : Op) : op.checked.Covers op.perform := by
  cases op with
  | set name value => exact (checked_set name value).map _
  | get name => exact .query fun s hs => by rw [Checked.get?_eq hs]; rfl
  | pushFrame record => exact (checked_push (Entry.boundary record)).map _
  | popFrame => exact checked_popFrame.map _
  | hasFrame => exact .query fun s hs => by rw [Checked.hasFrame_eq hs]; rfl
  | depth => exact .query fun s hs => by rw [Checked.depth_eq hs]; rfl
  | control k => exact (checked_control k).map _

/-! ### Histories -/

/-- A call stack takes the operations on entries and those on frames and variables. -/
def performEither : Stack.Op Entry ⊕ Op → CallM Answer
  | .inl op => do pure (.stack (← op.perform))
  | .inr op => op.perform

def checkedEither : Stack.Op Entry ⊕ Op → Stack.Checked Entry Answer
  | .inl op => op.checked.map .stack
  | .inr op => op.checked

theorem checked_either (op : Stack.Op Entry ⊕ Op) :
    (checkedEither op).Covers (performEither op) := by
  cases op with
  | inl op => exact (Stack.checked_op op).map _
  | inr op => exact checked_op op

section Preserved
variable {capacity : Nat}

/-- Entries of any kind may lie on the stack, as long as it is well formed. -/
theorem preserves_sound_stackOp (op : Stack.Op Entry) :
    Preserves (Stack.Sound · capacity Entry.null) op.perform :=
  fun _ hs => (Stack.op_follows hs Entry.null_beq_null op).1

theorem preserves_sound_push (e : Entry) :
    Preserves (Stack.Sound · capacity Entry.null) (Stack.push e) :=
  .of_bind_pure (preserves_sound_stackOp (.push e))

theorem preserves_sound_pop :
    Preserves (Stack.Sound · capacity Entry.null) (Stack.pop : CallM Entry) :=
  .of_bind_pure (preserves_sound_stackOp .pop)

theorem preserves_sound_set (name : NameHash) (value : Value) :
    Preserves (Stack.Sound · capacity Entry.null) (set name value) := by
  intro s hs
  rcases attempt_set_cases s name value with ⟨-, h⟩ | ⟨i, hname, hsnap, hfound, h⟩ | ⟨-, -, h⟩
  · rw [h]
    exact hs
  · obtain ⟨-, hi, hlt⟩ := Checked.found_lt hs.wellFormed hfound
    have hvalid : (s.slot i).name.isValid = true := by rw [hi]; exact hname
    have hcap : (assign s i value).capacity = s.capacity := by simp [Stack.capacity, assign]
    rw [h]
    exact ⟨wellFormed_assign value hlt hvalid hs.wellFormed hs.null_eq hsnap,
      hcap.trans hs.capacity_eq, hs.null_eq⟩
  · rw [h]
    exact preserves_sound_push ⟨name, value⟩ hs

theorem preserves_sound_popToBoundary (n : Nat) :
    Preserves (Stack.Sound · capacity Entry.null) (popToBoundary n) := by
  induction n with
  | zero => exact .throw _
  | succ n ih =>
    refine preserves_sound_pop.bind fun e => ?_
    split
    · split
      · exact .pure _
      · exact .throw _
    · exact ih

theorem preserves_sound_popFrame :
    Preserves (Stack.Sound · capacity Entry.null) popFrame :=
  .guarded (.throw _) (.guarded (fun s h => preserves_sound_popToBoundary s.top h) (.throw _))

theorem preserves_sound_either (op : Stack.Op Entry ⊕ Op) :
    Preserves (Stack.Sound · capacity Entry.null) (performEither op) := by
  cases op with
  | inl op => exact (preserves_sound_stackOp op).bind fun _ => .pure _
  | inr op =>
    cases op with
    | set name value => exact (preserves_sound_set name value).bind fun _ => .pure _
    | get | hasFrame | depth => exact .query _
    | pushFrame record => exact (preserves_sound_push (.boundary record)).bind fun _ => .pure _
    | popFrame => exact preserves_sound_popFrame.bind fun _ => .pure _
    | control k => exact (preserves_sound_stackOp (.control k)).bind fun _ => .pure _

end Preserved

/-- In every history of a stack, and of a call stack with operations of both sorts on it, the counters
fit the slots, and every operation that comes next keeps its indices in the row and its differences
above zero. -/
theorem histories_balanced_and_checked {α : Type} [BEq α] {null : α}
    (hnull : (null == null) = true) (slots : Array α) (ops : List (Stack.Op α))
    (entries : Array Entry) (callOps : List (Stack.Op Entry ⊕ Op)) :
    let s := (attempts Stack.Op.perform ops (ofSlots slots null)).2
    let c := (attempts performEither callOps (ofSlots entries Entry.null)).2
    (s.Balanced ∧ ∀ op : Stack.Op α, op.checked s = some (attempt op.perform s)) ∧
      c.Balanced ∧ ∀ op, checkedEither op c = some (attempt (performEither op) c) := by
  intro s c
  have hs : s.Sound slots.size null := sound_attempts hnull slots ops
  have hc : Stack.Sound c entries.size Entry.null :=
    attempts_preserve (P := (Stack.Sound · entries.size Entry.null))
      (fun op _ => preserves_sound_either op) ⟨wellFormed_ofSlots entries Entry.null, rfl, rfl⟩
  exact ⟨⟨hs.wellFormed.balanced, fun op => Stack.checked_op op hs.wellFormed⟩,
    hc.wellFormed.balanced, fun op => checked_either op hc.wellFormed⟩

/-- One tombstone under the top. -/
def commitOnce : List (Stack.Op Nat) :=
  [.push 1, .push 2, .control .save, .pop, .push 3, .control .forget]

/-- A variable without a value, saved, and a frame pushed past it. -/
def frameOverNone : List (Stack.Op Entry ⊕ Op) :=
  [.inr (.set ⟨1⟩ (.int 5)), .inr (.set ⟨1⟩ .none), .inr (.control .save), .inl .pop,
    .inr (.pushFrame ⟨9, .tunnel⟩)]

theorem commitOnce_balanced_and_checked :
    ((0 : Nat) == 0) = true ∧
    (Stack.mk #[1, 0, 3] 0 3 1 none).Balanced ∧
    (Stack.Op.pop (α := Nat)).checked ⟨#[1, 0, 3], 0, 3, 1, none⟩ =
      some (.ok (.element 3), ⟨#[1, 0, 3], 0, 2, 1, none⟩) ∧
    (Stack.mk #[⟨⟨1⟩, .none⟩, .boundary ⟨9, .tunnel⟩] Entry.null 2 0 (some ⟨1, 0, 0⟩)).Balanced := by
  have hstack : (attempts Stack.Op.perform commitOnce (ofSlots #[7, 8, 9] 0)).2 =
      ⟨#[1, 0, 3], 0, 3, 1, none⟩ := by rfl
  have hcalls : (attempts performEither frameOverNone
      (ofSlots #[Entry.null, Entry.null] Entry.null)).2 =
      ⟨#[⟨⟨1⟩, .none⟩, .boundary ⟨9, .tunnel⟩], Entry.null, 2, 0, some ⟨1, 0, 0⟩⟩ := by rfl
  have h := histories_balanced_and_checked (show ((0 : Nat) == 0) = true from rfl) #[7, 8, 9]
    commitOnce #[Entry.null, Entry.null] frameOverNone
  simp only [hstack, hcalls] at h
  exact ⟨rfl, h.1.1, h.1.2 .pop, h.2.1⟩

end CallStack
end Narrative
