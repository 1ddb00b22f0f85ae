import Narrative.Proofs.CallStack.Provenance
import Narrative.Proofs.Context.Collection

/-! A ledger of the elements on the stacks of a context. Beside each element it notes the text that its
string had when the element was put there; an entry moves with its element, goes away with it and
comes back with it. The ledger is kept from the operations that succeed, without a look at slots. -/
namespace Narrative

def Value.textIn (t : StringTable) : Value → Option String
  | .str id => t.get? id
  | _ => Option.none

/-- A value that is a string can be read. -/
def Value.LiveIn (t : StringTable) : Value → Prop
  | .str id => t.IsLive id
  | _ => True

instance (t : StringTable) (v : Value) : Decidable (v.LiveIn t) :=
  match v with
  | .str id => inferInstanceAs (Decidable ((t.get? id).isSome = true))
  | .none | .int _ | .float _ | .bool _ | .divert _ | .frame _ => .isTrue trivial

/-- An element as it was put on a stack, with the text that its string had then. -/
structure Deposit (α : Type) where
  element : α
  text : Option String

/-- The deposits that lie on the stacks, and those of the saves outstanding. -/
structure Ledger where
  calls : Stack.Plain (Deposit Entry) := {}
  eval : Stack.Plain (Deposit Value) := {}

def Context.Op.value? : Context.Op → Option Value
  | .calls (.set _ value) => some value
  | .eval (.push v) => some v
  | _ => none

namespace Ledger

/-- The ledger after an operation that succeeded, with the strings there were at that moment. -/
def record (t : StringTable) : Context.Op → Ledger → Ledger
  | .calls op, m =>
    { m with calls := CallStack.carry Deposit.element (fun e => ⟨e, e.value.textIn t⟩) op m.calls }
  | .eval op, m => { m with eval := m.eval.carry (fun v => ⟨v, v.textIn t⟩) op }
  | .save, m => ⟨m.calls.control .save, m.eval.control .save⟩
  | .restore, m => ⟨m.calls.control .restore, m.eval.control .restore⟩
  | .forget, m => ⟨m.calls.control .forget, m.eval.control .forget⟩
  | .reset, _ => {}
  | .enter _, m | .leave, m | .current, m | .depth, m | .hasSnapshot, m => m

/-- Every value in the ledger with the text noted for it. -/
def notes (m : Ledger) : List (Value × Option String) :=
  m.calls.all.map (fun d => (d.element.value, d.text)) ++
    m.eval.all.map fun d => (d.element, d.text)

def Names (m : Ledger) (id : StringId) : Prop := ∃ text, (.str id, text) ∈ m.notes

/-- The strings in the ledger are live, and their texts are those noted. -/
def Vouches (m : Ledger) (t : StringTable) : Prop :=
  ∀ id note, (.str id, note) ∈ m.notes → ∃ text, note = some text ∧ t.get? id = some text

/-- The elements of the ledger are those on the stacks of a context, in their order, and those that a
restore would put there. -/
structure Matches (m : Ledger) (c : Context) : Prop where
  calls : Stack.plain c.calls = m.calls.map Deposit.element
  eval : Stack.plain c.eval = m.eval.map Deposit.element

variable {m : Ledger} {c d : Context} {config : Config} {t : StringTable} {id : StringId}

theorem mem_notes {note : Option String} :
    (.str id, note) ∈ m.notes ↔
      (∃ x ∈ m.calls.all, x.element.value = .str id ∧ x.text = note) ∨
      ∃ x ∈ m.eval.all, x.element = .str id ∧ x.text = note := by
  simp [notes]

/-! ### What the ledger takes in -/

theorem mem_notes_record {op : Context.Op} {note : Option String}
    (h : (.str id, note) ∈ (m.record t op).notes) :
    (.str id, note) ∈ m.notes ∨ op.value? = some (.str id) ∧ note = t.get? id := by
  rw [mem_notes]
  -- saves and their ends move deposits about and add none
  have hcontrol : ∀ k : Stack.Control,
      (.str id, note) ∈ (Ledger.mk (m.calls.control k) (m.eval.control k)).notes →
        (∃ x ∈ m.calls.all, x.element.value = .str id ∧ x.text = note) ∨
        ∃ x ∈ m.eval.all, x.element = .str id ∧ x.text = note := by
    intro k hk
    refine (mem_notes.mp hk).imp ?_ ?_
    · exact fun ⟨x, hx, hnote⟩ => ⟨x, Stack.Plain.mem_all_control hx, hnote⟩
    · exact fun ⟨x, hx, hnote⟩ => ⟨x, Stack.Plain.mem_all_control hx, hnote⟩
  cases op with
  | enter | leave | current | depth | hasSnapshot => exact .inl (mem_notes.mp h)
  | save => exact .inl (hcontrol .save h)
  | restore => exact .inl (hcontrol .restore h)
  | forget => exact .inl (hcontrol .forget h)
  | reset => cases h
  | calls op =>
    rcases mem_notes.mp h with ⟨x, hx, hvalue, hnote⟩ | heval
    · rcases CallStack.mem_all_carry hx with hold | ⟨e, he, rfl⟩
      · exact .inl (.inl ⟨x, hold, hvalue, hnote⟩)
      · cases op with
        | set name value =>
          obtain rfl := Option.some.inj he
          obtain rfl : value = .str id := hvalue
          exact .inr ⟨rfl, hnote.symm⟩
        | pushFrame record =>
          obtain rfl := Option.some.inj he
          cases hvalue
        | popFrame | control | get | hasFrame | depth => cases he
    · exact .inl (.inr heval)
  | eval op =>
    rcases mem_notes.mp h with hcalls | ⟨x, hx, hvalue, hnote⟩
    · exact .inl (.inl hcalls)
    · rcases Stack.Plain.mem_all_carry hx with hold | ⟨v, rfl, rfl⟩
      · exact .inl (.inr ⟨x, hold, hvalue, hnote⟩)
      · obtain rfl : v = .str id := hvalue
        exact .inr ⟨rfl, hnote.symm⟩

theorem Vouches.record (hm : m.Vouches t) {op : Context.Op}
    (hlive : ∀ v ∈ op.value?, v.LiveIn t) : (m.record t op).Vouches t := by
  intro id note h
  rcases mem_notes_record h with hold | ⟨hvalue, rfl⟩
  · exact hm id note hold
  · have hid : t.IsLive id := hlive (.str id) hvalue
    obtain ⟨text, htext⟩ := Option.isSome_iff_exists.mp hid
    exact ⟨text, htext, htext⟩

/-- A table that says the same of the strings in the ledger serves as well. -/
theorem Vouches.of_get? {u : StringTable} (hm : m.Vouches t)
    (h : ∀ id, m.Names id → t.IsLive id → u.get? id = t.get? id) : m.Vouches u := by
  intro id note hnote
  obtain ⟨text, hnoted, htext⟩ := hm id note hnote
  exact ⟨text, hnoted, by rw [h id ⟨note, hnote⟩ (by rw [StringTable.IsLive, htext]; rfl), htext]⟩

/-! ### The ledger and the context -/

theorem matches_reset (c : Context) : Matches {} c.reset := ⟨rfl, rfl⟩

section Record
variable (hc : c.Sound config) (hm : m.Matches c)
include hc hm

theorem matches_onAll {action : {α : Type} → StackM α Unit} {k : Stack.Control}
    (hk : ∀ (α : Type) [BEq α],
      (k.perform : StackM α (Stack.Answer α)) = action >>= fun _ => pure .done)
    (h : attempt (Context.onAll action) c = (.ok (), d)) :
    Matches ⟨m.calls.control k, m.eval.control k⟩ d := by
  obtain ⟨hcalls, heval, -⟩ := Context.ok_of_attempt_onAll h
  constructor
  · rw [Stack.plain_of_control hc.calls.stack Entry.null_beq_null (hk Entry) hcalls, hm.calls,
      Stack.Plain.map_control]
  · rw [Stack.plain_of_control hc.eval rfl (hk Value) heval, hm.eval, Stack.Plain.map_control]

omit hc in
theorem matches_onContainers {β : Type} {action : StackM ContainerId β} {x : β}
    (h : attempt (Context.onContainers action) c = (.ok x, d)) : m.Matches d := by
  rw [Context.attempt_onContainers] at h
  obtain rfl := (Prod.mk.inj h).2
  exact ⟨hm.calls, hm.eval⟩

theorem matches_onCalls {op : CallStack.Op} {a : CallStack.Answer}
    (h : attempt (Context.onCalls op.perform) c = (.ok a, d)) :
    (m.record t (.calls op)).Matches d := by
  rw [Context.attempt_onCalls] at h
  rcases hop : attempt op.perform c.calls with ⟨answer, s⟩
  rw [hop] at h
  cases h
  refine ⟨?_, hm.eval⟩
  rw [record, CallStack.map_carry fun _ => rfl, ← hm.calls]
  exact CallStack.plain_of_success hc.calls hop

theorem matches_onEval {op : Stack.Op Value} {a : Stack.Answer Value}
    (h : attempt (Context.onEval op.perform) c = (.ok a, d)) :
    (m.record t (.eval op)).Matches d := by
  rw [Context.attempt_onEval] at h
  rcases hop : attempt op.perform c.eval with ⟨answer, s⟩
  rw [hop] at h
  cases h
  refine ⟨hm.calls, ?_⟩
  rw [record, Stack.Plain.map_carry fun _ => rfl, ← hm.eval]
  exact Stack.plain_of_success hc.eval rfl hop

theorem Matches.record {op : Context.Op} {a : Context.Answer}
    (h : attempt op.perform c = (.ok a, d)) : (m.record t op).Matches d := by
  cases op with
  | enter | leave =>
    obtain ⟨_, hcontainers, -⟩ := ok_of_attempt_bind_pure h
    exact matches_onContainers hm hcontainers
  | current | depth | hasSnapshot =>
    cases h
    exact hm
  | reset =>
    cases h
    exact matches_reset c
  | save =>
    obtain ⟨_, hsave, -⟩ := ok_of_attempt_bind_pure h
    exact matches_onAll hc hm (fun _ _ => rfl) (Context.onAll_of_save hsave)
  | restore =>
    obtain ⟨_, hrestore, -⟩ := ok_of_attempt_bind_pure h
    exact matches_onAll hc hm (fun _ _ => rfl) (Context.onAll_of_restore hrestore)
  | forget =>
    obtain ⟨_, hforget, -⟩ := ok_of_attempt_bind_pure h
    exact matches_onAll hc hm (fun _ _ => rfl) (Context.onAll_of_forget hforget)
  | calls op =>
    obtain ⟨_, hcalls, -⟩ := ok_of_attempt_bind_pure h
    exact matches_onCalls hc hm hcalls
  | eval op =>
    obtain ⟨_, heval, -⟩ := ok_of_attempt_bind_pure h
    exact matches_onEval hc hm heval

omit hc in
/-- What is in the ledger is what a collection keeps. -/
theorem names_iff : m.Names id ↔ c.Retains id := by
  have heval : c.eval.Retains (.str id) ↔ ∃ x ∈ m.eval.all, x.element = .str id := by
    rw [← Stack.mem_all_plain, hm.eval, Stack.Plain.all_map, List.mem_map]
  have hcalls : ∀ e, c.calls.Retains e ↔ ∃ x ∈ m.calls.all, x.element = e := fun e => by
    rw [← Stack.mem_all_plain, hm.calls, Stack.Plain.all_map, List.mem_map]
  simp only [Names, mem_notes, Context.Retains, heval, hcalls]
  constructor
  · rintro ⟨note, ⟨x, hx, hvalue, -⟩ | ⟨x, hx, hvalue, -⟩⟩
    · exact .inr ⟨_, ⟨x, hx, rfl⟩, hvalue⟩
    · exact .inl ⟨x, hx, hvalue⟩
  · rintro (⟨x, hx, hvalue⟩ | ⟨_, ⟨x, hx, rfl⟩, hvalue⟩)
    · exact ⟨x.text, .inr ⟨x, hx, hvalue, rfl⟩⟩
    · exact ⟨x.text, .inl ⟨x, hx, hvalue, rfl⟩⟩

end Record

end Ledger
end Narrative
