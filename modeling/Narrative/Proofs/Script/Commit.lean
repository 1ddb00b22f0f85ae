import Mathlib
import Narrative.Proofs.Context.Below
import Narrative.Proofs.Script.Completion

/-! Work done under a save that is then forgotten is as good as work done without the save: a script
that gets through with the save gets through without it and prints the same. -/
namespace Narrative
namespace Script
open Context

/-- Saving, restoring or forgetting, be it the whole context or one stack. -/
def Op.movesSave : Op → Bool
  | .save _ | .restore _ | .forget _ => true
  | _ => false

/-- Showing how many entries the call stack has, or which: hidden variables count there. -/
def Op.showsEntries : Op → Bool
  | .size .call | .dump .call => true
  | _ => false

section Steps
variable {ahead : Bool}

theorem mirrors_callsControl {k : Stack.Control}
    (h : Mirrors (CallStack.Below ahead) (k.perform : CallM _)) :
    Mirrors (Below ahead) (Target.control k .call).perform :=
  mirrors_callsOp (h.bind fun _ => .pure _)

/-- What changes no save is mirrored whether the upper context is ahead or not. -/
theorem mirrors_action {op : Op} (hsave : op.movesSave = false) (hshow : op.showsEntries = false) :
    Mirrors (Below ahead) op.action.perform := by
  cases op with
  | push v => exact mirrors_evalOp ((Stack.mirrors_push_packed v).bind fun _ => .pure _)
  | pop => exact mirrors_evalOp (Stack.mirrors_pop.bind fun _ => .pure _)
  | top => exact mirrors_evalOp (Stack.mirrors_peek.bind fun _ => .pure _)
  | set name v => exact mirrors_callsOp ((CallStack.mirrors_set _ v).bind fun _ => .pure _)
  | get name =>
    exact mirrors_callsOp (.query fun s t h => by rw [CallStack.get?_eq_of_below h])
  | pushFrame record =>
    have hpush : Mirrors (CallStack.Below ahead) (CallStack.pushFrame record) :=
      CallStack.mirrors_push_proper (.inr ⟨record, rfl⟩)
    exact mirrors_callsOp (hpush.bind fun _ => .pure _)
  | popFrame => exact mirrors_callsOp (CallStack.mirrors_popFrame.bind fun _ => .pure _)
  | hasFrame =>
    exact mirrors_callsOp (.query fun s t h => by rw [CallStack.hasFrame_eq_of_below h])
  | save t | restore t | forget t => cases hsave
  | size t =>
    cases t with
    | eval => exact mirrors_evalOp (.query fun s t h => by rw [Stack.size_eq_of_below h])
    | call => cases hshow
  | dump t =>
    cases t with
    | eval => exact mirrors_evalOp (.query fun s t h => by rw [Stack.toList_eq_of_below h])
    | call => cases hshow
  | clear t =>
    cases t with
    | eval =>
      exact mirrors_evalOp ((Stack.mirrors_clear Stack.packed_empty).bind fun _ => .pure _)
    | call =>
      exact mirrors_callsControl ((Stack.mirrors_clear CallStack.lower_empty).bind fun _ => .pure _)

/-- As long as the contexts are level, saves are mirrored too. -/
theorem mirrors_save_action {op : Op} (hsave : op.movesSave = true) :
    Mirrors (Below false) op.action.perform := by
  cases op with
  | save t =>
    cases t with
    | none => exact Context.mirrors_save.bind fun _ => .pure _
    | some t =>
      cases t with
      | eval => exact mirrors_evalOp (Stack.mirrors_save.bind fun _ => .pure _)
      | call => exact mirrors_callsControl (Stack.mirrors_save.bind fun _ => .pure _)
  | restore t =>
    cases t with
    | none => exact Context.mirrors_restore.bind fun _ => .pure _
    | some t =>
      cases t with
      | eval => exact mirrors_evalOp (Stack.mirrors_restore.bind fun _ => .pure _)
      | call => exact mirrors_callsControl (Stack.mirrors_restore.bind fun _ => .pure _)
  | forget t =>
    cases t with
    | none => exact Context.mirrors_forget.bind fun _ => .pure _
    | some t =>
      cases t with
      | eval => exact mirrors_evalOp ((Stack.mirrors_forget rfl).bind fun _ => .pure _)
      | call => exact mirrors_callsControl ((Stack.mirrors_forget rfl).bind fun _ => .pure _)
  | push | pop | top | set | get | pushFrame | popFrame | hasFrame | size | dump | clear =>
    cases hsave

theorem mirrors_execute_of_action {op : Op} (h : Mirrors (Below ahead) op.action.perform) :
    Mirrors (Below ahead) op.execute :=
  h.bind fun _ => .pure _

theorem mirrors_execute {op : Op} (hshow : op.showsEntries = false) :
    Mirrors (Below false) op.execute := by
  cases hsave : op.movesSave with
  | false => exact mirrors_execute_of_action (mirrors_action hsave hshow)
  | true => exact mirrors_execute_of_action (mirrors_save_action hsave)

end Steps

/-! ### Whole runs -/

theorem unchanged_of_showsEntries {op : Op} (h : op.showsEntries = true) (c : Context) :
    (attempt op.execute c).2 = c := by
  cases op with
  | size t =>
    cases t with
    | call => rfl
    | eval => cases h
  | dump t =>
    cases t with
    | call => rfl
    | eval => cases h
  | push | pop | top | set | get | pushFrame | popFrame | hasFrame | save | restore | forget
  | clear => cases h

theorem below_self_of_completes {ops : Script} {c c' : Context} {lines : List String}
    (h : Completes ops c lines c') (hc : Below false c c) : Below false c' c' := by
  induction h with
  | nil => exact hc
  | @cons op ops c c₁ c₂ line lines head _ ih =>
    refine ih ?_
    -- what only shows entries can not be mirrored, but it changes nothing
    cases hshow : op.showsEntries with
    | true =>
      have hsame := unchanged_of_showsEntries hshow c
      obtain rfl : c₁ = c := by rw [← hsame, head]
      exact hc
    | false =>
      obtain ⟨c₁', hc₁', hbelow⟩ := mirrors_execute hshow hc head
      obtain rfl : c₁ = c₁' := (Prod.mk.inj (head.symm.trans hc₁')).2
      exact hbelow

theorem Completes.of_quiet {op : Op} {c c' : Context} {lines : List String} (action : ContextM Unit)
    (hop : op.action.perform = do action; pure .done) (h : Completes [op] c lines c') :
    attempt action c = (.ok (), c') ∧ lines = [] := by
  cases h with
  | cons head tail =>
    cases tail
    rw [Op.execute, attempt_bind_pure, hop, attempt_bind_pure] at head
    cases ha : attempt action c with
    | mk answer d =>
      rw [ha] at head
      cases answer with
      | error e => cases head
      | ok u =>
        cases head
        exact ⟨rfl, rfl⟩

/-- Without the save and the forget around a part of it, a script that completes still completes and
prints the same lines. -/
theorem run_without_save {config : Config} {c : Context} (hc : Context.ofConfig config = .ok c)
    {before guarded after : Script} (hsaves : ∀ op ∈ guarded, op.movesSave = false)
    (hshows : ∀ op ∈ guarded ++ after, op.showsEntries = false)
    (h : (run (before ++ [.save none] ++ guarded ++ [.forget none] ++ after) c).failure = none) :
    (run (before ++ guarded ++ after) c).failure = none ∧
      (run (before ++ guarded ++ after) c).lines =
        (run (before ++ [.save none] ++ guarded ++ [.forget none] ++ after) c).lines := by
  obtain ⟨_, c₄, lines₃, hlines, hfront, hafter⟩ := (completes_of_runFrom h).of_append
  obtain ⟨_, c₃, _, rfl, hfront, hforget⟩ := hfront.of_append
  obtain ⟨_, c₂, lines₂, rfl, hfront, hguarded⟩ := hfront.of_append
  obtain ⟨lines₁, c₁, _, rfl, hbefore, hsave⟩ := hfront.of_append
  obtain ⟨hsaved, rfl⟩ := hsave.of_quiet Context.save rfl
  obtain ⟨hforgot, rfl⟩ := hforget.of_quiet Context.forget rfl
  have hlevel := below_self_of_completes hbefore (below_ofConfig hc)
  -- the guarded part runs in a context below the saved one, the rest in one below the forgotten one
  obtain ⟨d₂, hd₂, hahead⟩ := hguarded.mirrored
    (fun op hop => mirrors_execute_of_action
      (mirrors_action (hsaves op hop) (hshows op (List.mem_append_left _ hop))))
    (hlevel.save_upper hsaved)
  obtain ⟨d₃, hd₃, -⟩ := hafter.mirrored
    (fun op hop => mirrors_execute (hshows op (List.mem_append_right _ hop)))
    (hahead.forget_upper hforgot)
  have hrun := ((hbefore.append hd₂).append hd₃).runFrom_eq 0
  rw [run, hrun, run, hlines]
  simp

def narrow : Context :=
  ⟨CallStack.ofCapacity 4, EvalStack.ofCapacity 2, Stack.ofCapacity 1 ContainerId.none⟩

def opening : Script := [.push (.int 1), .set "x" (.int 1)]

/-- Under a save the variable is hidden and not set in place, and the value pushed past the old one. -/
def rehearsal : Script :=
  [.pop, .push (.int 7), .set "x" (.int 2), .get "x", .pushFrame ⟨9, .tunnel⟩, .popFrame]

def closing : Script := [.get "x", .set "x" (.int 3), .top]

theorem rehearsal_without_save :
    Context.ofConfig ⟨4, 2, 1⟩ = .ok narrow ∧ (∀ op ∈ rehearsal, op.movesSave = false) ∧
    (∀ op ∈ rehearsal ++ closing, op.showsEntries = false) ∧
    (run (opening ++ [.save none] ++ rehearsal ++ [.forget none] ++ closing) narrow).failure =
      none ∧
    (run (opening ++ [.save none] ++ rehearsal ++ [.forget none] ++ closing) narrow).lines =
      ["1", "2", "9 tunnel", "2", "7"] ∧
    (run (opening ++ rehearsal ++ closing) narrow).failure = none ∧
    (run (opening ++ rehearsal ++ closing) narrow).lines =
      (run (opening ++ [.save none] ++ rehearsal ++ [.forget none] ++ closing) narrow).lines := by
  have hconfig : Context.ofConfig ⟨4, 2, 1⟩ = .ok narrow := rfl
  have hsaves : ∀ op ∈ rehearsal, op.movesSave = false := by decide
  have hshows : ∀ op ∈ rehearsal ++ closing, op.showsEntries = false := by decide
  have hrun : (run (opening ++ [.save none] ++ rehearsal ++ [.forget none] ++ closing)
      narrow).failure = none := by cbv
  have hlines : (run (opening ++ [.save none] ++ rehearsal ++ [.forget none] ++ closing)
      narrow).lines = ["1", "2", "9 tunnel", "2", "7"] := by cbv
  exact ⟨hconfig, hsaves, hshows, hrun, hlines, run_without_save hconfig hsaves hshows hrun⟩

end Script
end Narrative
