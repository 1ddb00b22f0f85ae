import Narrative.Proofs.Context.Failure
import Narrative.Proofs.Story.Ledger
import Narrative.Proofs.StringTable.Handles
import Narrative.Story

/-! The strings of a running story. If every string is live when it is put on a stack, and strings are
freed by collections only, then whatever is read off the context later is live, with the text that it
had when it was put there: through saves, restores and commits, overwritten variables and handles
that are given out again. -/
namespace Narrative

namespace Story

def Op.value? : Op → Option Value
  | .context op => op.value?
  | _ => none

def Op.sweepsBlindly : Op → Bool
  | .strings .sweep => true
  | _ => false

/-- A string that is put on a stack is live, and no text is freed that the stacks still hold. -/
def Op.Permitted (op : Op) (s : Story) : Prop :=
  op.sweepsBlindly = false ∧ ∀ v ∈ op.value?, v.LiveIn s.strings

instance (op : Op) (s : Story) : Decidable (op.Permitted s) := inferInstanceAs (Decidable (_ ∧ _))

/-- Every operation is permitted where it is done, and there are handles for all slots of the table. -/
def Orderly : List Op → Story → Prop
  | [], _ => True
  | op :: ops, s =>
    s.strings.slots.size < UInt32.size ∧ op.Permitted s ∧ Orderly ops (attempt op.perform s).2

instance decidableOrderly : ∀ (ops : List Op) (s : Story), Decidable (Orderly ops s)
  | [], _ => .isTrue trivial
  | op :: ops, s =>
    have := decidableOrderly ops (attempt op.perform s).2
    inferInstanceAs (Decidable (_ ∧ _ ∧ _))

theorem attempt_context (op : Context.Op) (s : Story) :
    attempt (Op.context op).perform s =
      ((attempt op.perform s.context).1.map .context,
        { s with context := (attempt op.perform s.context).2 }) := by
  rw [Op.perform, attempt_bind_pure, onContext, attempt_onPart]

end Story

inductive Reading where
  | pop
  | top
  | values
  | get (name : NameHash)
  | entries

namespace Reading

def op : Reading → Context.Op
  | .pop => .eval .pop
  | .top => .eval .peek
  | .values => .eval (.control .toList)
  | .get name => .calls (.get name)
  | .entries => .calls (.control .toList)

/-- The answer as the ledger has it. -/
def answer (m : Ledger) : Reading → Except StackError Context.Answer
  | .pop | .top =>
    match m.eval.items with
    | x :: _ => .ok (.eval (.element x.element))
    | [] => .error .underflow
  | .values => .ok (.eval (.elements (m.eval.items.map Deposit.element)))
  | .get name =>
    let found := if name.isValid then CallStack.binding Deposit.element name m.calls.items else none
    .ok (.calls (.found (found.map (·.element.value))))
  | .entries => .ok (.calls (.stack (.elements (m.calls.items.map Deposit.element))))

end Reading

def Context.Answer.values : Context.Answer → List Value
  | .eval a => a.handedOut
  | .calls a => a.values
  | .done | .container _ | .current _ | .count _ | .flag _ => []

namespace Ledger
variable {config : Config} {m : Ledger} {c : Context} {s : Story}

/-- The ledger after an operation of a story: what fails is not recorded. -/
def next (m : Ledger) (s : Story) : Story.Op → Ledger
  | .context op =>
    match (attempt op.perform s.context).1 with
    | .ok _ => m.record s.strings op
    | .error _ => m
  | _ => m

def keep : List Story.Op → Story → Ledger → Ledger
  | [], _, m => m
  | op :: ops, s, m => keep ops (attempt op.perform s).2 (m.next s op)

/-- What is read off the context is in the ledger, at the place where it is read, and the strings in
the ledger are live with the texts noted there. -/
structure Explains (m : Ledger) (s : Story) : Prop where
  answers : ∀ r : Reading, (attempt r.op.perform s.context).1 = r.answer m
  /-- No other operation hands out any other string. -/
  names : ∀ (op : Context.Op) (a : Context.Answer), (attempt op.perform s.context).1 = .ok a →
    ∀ id, .str id ∈ a.values → m.Names id
  vouches : m.Vouches s.strings

/-! ### Reading -/

section Read
variable (hc : c.Sound config) (hm : m.Matches c)
include hm

theorem items_eval : c.eval.toList = m.eval.items.map Deposit.element :=
  congrArg Stack.Plain.items hm.eval

theorem items_calls : c.calls.toList = m.calls.items.map Deposit.element :=
  congrArg Stack.Plain.items hm.calls

include hc

theorem answers_of_matches (r : Reading) : (attempt r.op.perform c).1 = r.answer m := by
  have heval := items_eval hm
  have hcalls := items_calls hm
  cases r with
  | pop =>
    rw [Reading.op, Context.attempt_evalOp, Stack.Op.perform, attempt_bind_pure,
      Stack.answer_pop hc.eval.wellFormed, heval, Reading.answer]
    cases m.eval.items <;> rfl
  | top =>
    rw [Reading.op, Context.attempt_evalOp, Stack.Op.perform, attempt_bind_pure, Stack.answer_peek,
      heval, Reading.answer]
    cases m.eval.items <;> rfl
  | values =>
    rw [Reading.answer, ← heval]
    exact congrArg Prod.fst (Context.attempt_evalOp _ c)
  | entries =>
    rw [Reading.answer, ← hcalls]
    exact congrArg Prod.fst (Context.attempt_callsOp _ c)
  | get name =>
    rw [Reading.op, Context.attempt_callsOp, CallStack.Op.perform, attempt_query, Reading.answer]
    refine congrArg (Except.ok ∘ Context.Answer.calls ∘ CallStack.Answer.found) ?_
    by_cases hname : name.isValid = true
    · rw [CallStack.get?_eq_binding hname, hcalls, ← CallStack.map_binding, Option.map_map,
        if_pos hname]
      rfl
    · rw [CallStack.get?, CallStack.find, if_neg hname, if_neg hname]
      rfl

theorem names_of_values {op : Context.Op} {a : Context.Answer}
    (h : (attempt op.perform c).1 = .ok a) {id : StringId} (hv : .str id ∈ a.values) :
    m.Names id := by
  rw [names_iff hm]
  -- only the evaluation stack and the call stack hand out values
  cases op with
  | eval op =>
    rw [Context.attempt_evalOp] at h
    rcases hop : attempt op.perform c.eval with ⟨answer, t⟩
    rw [hop] at h
    cases answer <;> cases h
    refine .inl (Stack.retains_of_handedOut hc.eval.wellFormed ?_ hop hv ?_) <;>
      · rw [hc.eval.null_eq]
        rfl
  | calls op =>
    rw [Context.attempt_callsOp] at h
    rcases hop : attempt op.perform c.calls with ⟨answer, t⟩
    rw [hop] at h
    cases answer <;> cases h
    obtain ⟨e, he, hvalue⟩ := CallStack.mem_toList_of_values hop hv
    exact .inr ⟨e, .inl he, hvalue⟩
  | current | depth | hasSnapshot | reset =>
    cases h
    cases hv
  | enter | leave | save | restore | forget =>
    rcases hop : attempt _ c with ⟨answer, d⟩
    rw [hop] at h
    obtain rfl : answer = .ok a := h
    obtain ⟨_, -, rfl⟩ := ok_of_attempt_bind_pure hop
    cases hv

end Read

/-! ### One operation -/

structure Accounts (config : Config) (m : Ledger) (s : Story) : Prop where
  sound : s.context.Sound config
  strings : s.strings.WellFormed
  matched : m.Matches s.context
  vouches : m.Vouches s.strings

theorem Accounts.explains (h : m.Accounts config s) : m.Explains s where
  answers := answers_of_matches h.sound h.matched
  names _ _ ha _ hv := names_of_values h.sound h.matched ha hv
  vouches := h.vouches

theorem Accounts.context (h : m.Accounts config s) {op : Context.Op}
    (hop : (Story.Op.context op).Permitted s) :
    (m.next s (.context op)).Accounts config (attempt (Story.Op.context op).perform s).2 := by
  have hsound := Context.preserves_sound_op op h.sound
  rw [Story.attempt_context, next]
  rcases hattempt : attempt op.perform s.context with ⟨answer, d⟩
  rw [hattempt] at hsound
  cases answer with
  | ok a =>
    exact ⟨hsound, h.strings, h.matched.record h.sound hattempt, h.vouches.record hop.2⟩
  | error e =>
    obtain rfl := Context.atomic_op op h.sound hattempt
    exact h

theorem Accounts.create (h : m.Accounts config s) (hsize : s.strings.slots.size < UInt32.size)
    (text : String) : m.Accounts config { s with strings := (s.strings.create text).2 } where
  sound := h.sound
  strings := StringTable.wellFormed_create h.strings text fun _ => hsize
  matched := h.matched
  vouches := h.vouches.of_get? fun _ _ hlive => StringTable.get?_create h.strings text hlive

theorem Accounts.markAll (h : m.Accounts config s) (vs : List Value) :
    m.Accounts config { s with strings := s.strings.markAll vs } where
  sound := h.sound
  strings := StringTable.wellFormed_markAll h.strings vs
  matched := h.matched
  vouches := h.vouches.of_get? fun _ _ _ => StringTable.text_cellAt_markAll _ vs _

theorem Accounts.collectGarbage (h : m.Accounts config s) :
    m.Accounts config { s with strings := (s.context.collectGarbage s.strings).2 } where
  sound := h.sound
  strings := by
    rw [Context.collectGarbage_eq]
    exact StringTable.wellFormed_sweep (StringTable.wellFormed_markAll h.strings _)
  matched := h.matched
  vouches := h.vouches.of_get? fun id hnames hlive => by
    have hretains := (names_iff h.matched).mp hnames
    have hkept := (Context.isLive_collectGarbage h.sound s.strings id).mpr ⟨hlive, .inr hretains⟩
    obtain ⟨text, htext⟩ := Option.isSome_iff_exists.mp hkept
    rw [htext, Context.get?_collectGarbage h.sound s.strings htext]

theorem Accounts.step (h : m.Accounts config s) {op : Story.Op}
    (hsize : s.strings.slots.size < UInt32.size) (hop : op.Permitted s) :
    (m.next s op).Accounts config (attempt op.perform s).2 := by
  cases op with
  | context op => exact h.context hop
  | strings op =>
    cases op with
    | create text => exact h.create hsize text
    | mark id => exact h.markAll [.str id]
    | sweep => cases hop.1
    | get | size | isEmpty => exact h
  | markValue v => exact h.markAll [v]
  | markCalls =>
    have hmarked := h.markAll (s.context.calls.live.map Entry.value)
    rw [StringTable.markAll, List.foldl_map] at hmarked
    exact hmarked
  | markEval => exact h.markAll s.context.eval.live
  | collectGarbage => exact h.collectGarbage

/-! ### A run -/

theorem Accounts.run {ops : List Story.Op} (h : m.Accounts config s) (hops : Story.Orderly ops s) :
    (keep ops s m).Accounts config (attempts Story.Op.perform ops s).2 := by
  induction ops generalizing s m with
  | nil => exact h
  | cons op ops ih =>
    obtain ⟨hsize, hop, hrest⟩ := hops
    exact ih (h.step hsize hop) hrest

theorem accounts_start {start : Context} (hstart : Context.ofConfig config = .ok start) :
    Accounts config {} ⟨start, .empty⟩ where
  sound := Context.sound_ofConfig hstart
  strings := StringTable.wellFormed_empty
  matched := by
    rw [Context.eq_of_ofConfig hstart]
    exact ⟨rfl, rfl⟩
  vouches _ _ h := by cases h

end Ledger

namespace Story

/-- In an orderly run of a story strings never dangle and never change their text. -/
theorem strings_keep_texts {config : Config} {start : Context}
    (hstart : Context.ofConfig config = .ok start) {ops : List Op}
    (hops : Orderly ops ⟨start, .empty⟩) :
    (Ledger.keep ops ⟨start, .empty⟩ {}).Explains (attempts Op.perform ops ⟨start, .empty⟩).2 :=
  ((Ledger.accounts_start hstart).run hops).explains

/-- The first text is popped and restored, the second one overwritten and freed, and its handle given
out again for the third. -/
def recycled : List Op :=
  [.strings (.create "first"), .context (.eval (.push (.str ⟨0⟩))), .strings (.create "second"),
    .context (.calls (.set ⟨7⟩ (.str ⟨1⟩))), .context .save, .context (.eval .pop), .collectGarbage,
    .context .restore, .context (.calls (.set ⟨7⟩ (.int 5))), .collectGarbage,
    .strings (.create "third"), .context (.eval (.push (.str ⟨1⟩)))]

def recycledLedger : Ledger where
  calls := { items := [⟨⟨⟨7⟩, .int 5⟩, none⟩] }
  eval := { items := [⟨.str ⟨1⟩, some "third"⟩, ⟨.str ⟨0⟩, some "first"⟩] }

theorem recycled_keeps_texts :
    ∃ start, Context.ofConfig { call := 2, eval := 2, container := 1 } = .ok start ∧
      Orderly recycled ⟨start, .empty⟩ ∧
      recycledLedger.Explains (attempts Op.perform recycled ⟨start, .empty⟩).2 := by
  obtain ⟨start, hstart, hmade⟩ :
      ∃ start, Context.ofConfig { call := 2, eval := 2, container := 1 } = .ok start ∧ start =
        ⟨CallStack.ofCapacity 2, EvalStack.ofCapacity 2, Stack.ofCapacity 1 ContainerId.none⟩ :=
    ⟨_, rfl, rfl⟩
  have hops : Orderly recycled ⟨start, .empty⟩ := by
    rw [hmade]
    decide +kernel
  have hledger : Ledger.keep recycled ⟨start, .empty⟩ {} = recycledLedger := by
    rw [hmade]
    cbv
  refine ⟨start, hstart, hops, ?_⟩
  rw [← hledger]
  exact strings_keep_texts hstart hops

end Story
end Narrative
