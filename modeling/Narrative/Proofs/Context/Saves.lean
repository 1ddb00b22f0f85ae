import Narrative.Proofs.Context.Failure
import Narrative.Proofs.Context.Rollback
import Narrative.Proofs.Stack.Provenance

/-! Where the saves of a context come from. The stacks can be saved together or one by one, so their
saves may be of different times; but no operation other than a save makes one, and the operations on a
whole context look at all three stacks before they touch any. -/
namespace Narrative

namespace Stack
variable {α : Type} {s t : Stack α}

def Control.isSave : Control → Bool
  | .save => true
  | _ => false

def Op.isSave : Op α → Bool
  | .control k => k.isSave
  | _ => false

/-- A save that the second stack has is one that the first had, and a restore goes back to the same. -/
def KeepsSave (s t : Stack α) : Prop :=
  t.hasSnapshot = true → s.hasSnapshot = true ∧ ∀ r : Stack α, r.RollsBackTo s → r.RollsBackTo t

theorem KeepsSave.refl (s : Stack α) : s.KeepsSave s := fun h => ⟨h, fun _ hr => hr⟩

theorem KeepsSave.of_unsaved (h : t.snapshot = none) : s.KeepsSave t := by
  intro ht
  rw [hasSnapshot_of_none h] at ht
  cases ht

def Unsaved (s : Stack α) : Prop := s.snapshot = none

theorem KeepsSave.of_preserves {β : Type} {action : StackM α β} (hunsaved : Preserves Unsaved action)
    (hsaved : ∀ r : Stack α, Preserves (RollsBackTo r) action) :
    s.KeepsSave (attempt action s).2 := by
  cases hs : s.snapshot with
  | some p => exact fun _ => ⟨hasSnapshot_of_some hs, fun r hr => hsaved r hr⟩
  | none => exact .of_unsaved (hunsaved hs)

theorem preserves_unsaved_clear : Preserves Unsaved (clear : StackM α Unit) := by
  intro s h
  rw [attempt_clear_unsaved (hasSnapshot_of_none h)]
  rfl

theorem unsaved_restore (s : Stack α) : (attempt restore s).2.Unsaved := by
  cases h : s.snapshot with
  | some p =>
    rw [attempt_restore_saved h]
    rfl
  | none => rwa [attempt_restore_unsaved h]

theorem unsaved_forget (s : Stack α) : (attempt forget s).2.Unsaved := by
  cases h : s.snapshot with
  | some p =>
    rw [attempt_forget_saved h]
    rfl
  | none => rwa [attempt_forget_unsaved h]

variable [BEq α]

theorem preserves_unsaved_push (v : α) : Preserves Unsaved (push v) := by
  intro s h
  cases hv : v == s.null with
  | true => rwa [attempt_push_null hv]
  | false =>
    by_cases hroom : s.frontier < s.capacity
    · have hsnap : s.snapshot = none := h
      rw [attempt_push_room hv hroom]
      simp [Unsaved, pushed, relocated, hsnap]
    · rwa [attempt_push_full hv (Nat.le_of_not_lt hroom)]

theorem preserves_unsaved_pop : Preserves Unsaved (pop : StackM α α) := by
  intro s h
  rcases hseek : s.seekBelow s.top with ⟨_ | i, k⟩
  · rwa [attempt_pop_none hseek]
  · rw [attempt_pop_some hseek]
    exact h

theorem keepsSave_push (v : α) (s : Stack α) : s.KeepsSave (attempt (push v) s).2 :=
  .of_preserves (preserves_unsaved_push v) fun _ => preserves_push v

theorem keepsSave_pop (s : Stack α) : s.KeepsSave (attempt pop s).2 :=
  .of_preserves preserves_unsaved_pop fun _ => preserves_pop

theorem keepsSave_control {k : Control} (hk : k.isSave = false) (s : Stack α) :
    s.KeepsSave (attempt (k.perform : StackM α (Answer α)) s).2 := by
  cases k with
  | size | isEmpty | capacity | hasSnapshot | toList => exact .refl s
  | clear =>
    rw [Control.perform, attempt_bind_pure]
    exact .of_preserves preserves_unsaved_clear fun r => preserves_clear
  | save => cases hk
  | reset => exact .of_unsaved rfl
  | restore =>
    rw [Control.perform, attempt_bind_pure]
    exact .of_unsaved (unsaved_restore s)
  | forget =>
    rw [Control.perform, attempt_bind_pure]
    exact .of_unsaved (unsaved_forget s)

theorem keepsSave_op {op : Op α} (hop : op.isSave = false) (s : Stack α) :
    s.KeepsSave (attempt op.perform s).2 := by
  cases op with
  | push v =>
    rw [Op.perform, attempt_bind_pure]
    exact keepsSave_push v s
  | pop =>
    rw [Op.perform, attempt_bind_pure]
    exact keepsSave_pop s
  | peek =>
    rw [Op.perform, attempt_bind_pure]
    cases h : s.peek? with
    | none =>
      rw [attempt_peek_none h]
      exact .refl s
    | some v =>
      rw [attempt_peek_some h]
      exact .refl s
  | null | live | step => exact .refl s
  | control k => exact keepsSave_control hop s

theorem marked_of_isSave {op : Op α} {a : Answer α} (hop : op.isSave = true)
    (h : attempt op.perform s = (.ok a, t)) : s.snapshot = none ∧ t = s.marked := by
  obtain rfl : op = .control .save := by
    cases op with
    | control k => cases k <;> first | rfl | cases hop
    | push | pop | peek | null | live | step => cases hop
  obtain ⟨_, hsave, -⟩ := ok_of_attempt_bind_pure h
  exact eq_marked_of_save hsave

/-- Equal contents: what a walk over the stack yields, the size, and the slots below the top with
their tombstones. -/
structure SameContents (s t : Stack α) : Prop where
  toList_eq : s.toList = t.toList
  size_eq : s.size = t.size
  top_eq : s.top = t.top
  dead_eq : s.dead = t.dead
  slot_eq : ∀ i, i < s.top → s.slot i = t.slot i

theorem Agree.sameContents (h : s.Agree t) : s.SameContents t where
  toList_eq := h.toList
  size_eq := h.size
  top_eq := h.top_eq
  dead_eq := h.dead_eq
  slot_eq i hi := h.slot_eq i (Nat.lt_of_lt_of_le hi s.top_le_frontier)

/-- A forget takes nothing off a stack and brings nothing back. -/
theorem toList_committed {capacity : Nat} {null : α} (hs : s.Sound capacity null)
    (hnull : (null == null) = true) {q : Snapshot} (hq : s.snapshot = some q) :
    (s.committed q).toList = s.toList ∧ (s.committed q).size = s.size := by
  have hself : (s.null == s.null) = true := hs.null_eq.symm ▸ hnull
  have hplain := plain_of_control (k := .forget) hs hnull rfl (attempt_forget_saved hq)
  have hlist : (s.committed q).toList = s.toList := congrArg Plain.items hplain
  refine ⟨hlist, ?_⟩
  rw [size_eq_length (wellFormed_committed hs.wellFormed hself hq), size_eq_length hs.wellFormed,
    hlist]

end Stack

namespace CallStack
open Stack

def Op.isSave : Op → Bool
  | .control k => k.isSave
  | _ => false

theorem preserves_unsaved_set (name : NameHash) (value : Value) :
    Preserves Unsaved (set name value) := by
  intro s h
  rcases attempt_set_cases s name value with ⟨-, hset⟩ | ⟨i, -, -, -, hset⟩ | ⟨-, -, hset⟩
  · rwa [hset]
  · rw [hset]
    exact h
  · rw [hset]
    exact preserves_unsaved_push _ h

theorem preserves_unsaved_popToBoundary (n : Nat) : Preserves Unsaved (popToBoundary n) := by
  induction n with
  | zero => exact .throw _
  | succ n ih =>
    refine preserves_unsaved_pop.bind fun e => ?_
    split
    · split
      · exact .pure _
      · exact .throw _
    · exact ih

theorem preserves_unsaved_popFrame : Preserves Unsaved popFrame :=
  .guarded (.throw _)
    (.guarded (fun s h => preserves_unsaved_popToBoundary s.top h) (.throw _))

theorem keepsSave_op {op : Op} (hop : op.isSave = false) (s : CallStack) :
    s.KeepsSave (attempt op.perform s).2 := by
  cases op with
  | set name value =>
    rw [Op.perform, attempt_bind_pure]
    exact .of_preserves (preserves_unsaved_set name value) fun r => preserves_set name value
  | get | hasFrame | depth => exact .refl s
  | pushFrame record =>
    rw [Op.perform, attempt_bind_pure]
    exact keepsSave_push _ s
  | popFrame =>
    rw [Op.perform, attempt_bind_pure]
    exact .of_preserves preserves_unsaved_popFrame fun r => preserves_popFrame
  | control k =>
    rw [Op.perform, attempt_bind_pure]
    exact keepsSave_control hop s

theorem marked_of_isSave {op : Op} {a : Answer} {s t : CallStack} (hop : op.isSave = true)
    (h : attempt op.perform s = (.ok a, t)) : s.snapshot = none ∧ t = s.marked := by
  cases op with
  | control k =>
    obtain ⟨_, hcontrol, -⟩ := ok_of_attempt_bind_pure h
    have hk : (Stack.Op.control k : Stack.Op Entry).isSave = true := hop
    exact Stack.marked_of_isSave hk hcontrol
  | set | get | pushFrame | popFrame | hasFrame | depth => cases hop

end CallStack

namespace Context
open Stack
variable {config : Config} {c d : Context}

inductive Part where
  | calls
  | eval
  | containers

/-- What lies on the stack. -/
def Part.Elem : Part → Type
  | .calls => Entry
  | .eval => Value
  | .containers => ContainerId

instance : (p : Part) → BEq p.Elem
  | .calls => inferInstanceAs (BEq Entry)
  | .eval => inferInstanceAs (BEq Value)
  | .containers => inferInstanceAs (BEq ContainerId)

def part (c : Context) : (p : Part) → Stack p.Elem
  | .calls => c.calls
  | .eval => c.eval
  | .containers => c.containers

def Op.saves : Op → Part → Bool
  | .save, _ => true
  | .calls op, .calls => op.isSave
  | .eval op, .eval => op.isSave
  | _, _ => false

/-- The context of an operation that succeeds in saving the stack. -/
def savedBy (p : Part) (op : Op) (c : Context) : Option Context :=
  if op.saves p && (attempt op.perform c).1.isOk then some c else none

/-- The context just before the last of the operations that succeeded in saving the stack. -/
def lastSaved (p : Part) : List Op → Context → Option Context
  | [], _ => none
  | op :: ops, c => (lastSaved p ops (attempt op.perform c).2).or (savedBy p op c)

/-! ### One operation -/

theorem ok_of_attempt_onCalls {β : Type} {action : CallM β} {x : β}
    (h : attempt (onCalls action) c = (.ok x, d)) :
    attempt action c.calls = (.ok x, d.calls) := by
  rw [attempt_onCalls] at h
  obtain ⟨hx, rfl⟩ := Prod.mk.inj h
  exact Prod.ext hx rfl

theorem ok_of_attempt_onEval {β : Type} {action : StackM Value β} {x : β}
    (h : attempt (onEval action) c = (.ok x, d)) : attempt action c.eval = (.ok x, d.eval) := by
  rw [attempt_onEval] at h
  obtain ⟨hx, rfl⟩ := Prod.mk.inj h
  exact Prod.ext hx rfl

/-- A save that succeeds finds the stack unsaved and touches nothing but its save. -/
theorem marked_of_saves {p : Part} {op : Op} {a : Answer} (hop : op.saves p = true)
    (h : attempt op.perform c = (.ok a, d)) :
    (c.part p).snapshot = none ∧ d.part p = (c.part p).marked := by
  -- only a save of the whole context, or one of that very stack, gets past `hop`
  cases op with
  | save =>
    obtain ⟨_, hsave, -⟩ := ok_of_attempt_bind_pure h
    cases hc : c.hasSnapshot with
    | true =>
      rw [attempt_save_refused hc] at hsave
      cases hsave
    | false =>
      rw [attempt_save hc] at hsave
      cases hsave
      obtain ⟨hcalls, heval, hcontainers⟩ := hasSnapshot_eq_false.mp hc
      cases p with
      | calls => exact ⟨hcalls, rfl⟩
      | eval => exact ⟨heval, rfl⟩
      | containers => exact ⟨hcontainers, rfl⟩
  | calls op =>
    obtain ⟨_, hcalls, -⟩ := ok_of_attempt_bind_pure h
    cases p with
    | calls => exact CallStack.marked_of_isSave hop (ok_of_attempt_onCalls hcalls)
    | eval | containers => cases hop
  | eval op =>
    obtain ⟨_, heval, -⟩ := ok_of_attempt_bind_pure h
    cases p with
    | eval => exact Stack.marked_of_isSave hop (ok_of_attempt_onEval heval)
    | calls | containers => cases hop
  | enter | leave | current | depth | hasSnapshot | restore | forget | reset => cases hop

theorem keepsSave_onContainers {β : Type} {action : StackM ContainerId β}
    (h : c.containers.KeepsSave (attempt action c.containers).2) (p : Part) :
    (c.part p).KeepsSave ((attempt (onContainers action) c).2.part p) := by
  rw [attempt_onContainers]
  cases p with
  | calls | eval => exact .refl _
  | containers => exact h

theorem keepsSave_op {p : Part} {op : Op} (hop : op.saves p = false) (c : Context) :
    (c.part p).KeepsSave ((attempt op.perform c).2.part p) := by
  cases op with
  | enter id =>
    rw [Op.perform, attempt_bind_pure]
    exact keepsSave_onContainers (keepsSave_push id _) p
  | leave =>
    rw [Op.perform, attempt_bind_pure]
    exact keepsSave_onContainers (keepsSave_pop _) p
  | current | depth | hasSnapshot => exact .refl _
  | save => cases hop
  | restore =>
    rw [Op.perform, attempt_bind_pure]
    cases hc : c.allSaved with
    | false =>
      rw [attempt_restore_refused hc]
      exact .refl _
    | true =>
      obtain ⟨_, _, _, hcalls, heval, hcontainers⟩ := allSaved_eq_true.mp hc
      rw [attempt_restore hcalls heval hcontainers]
      cases p <;> exact .of_unsaved rfl
  | forget =>
    rw [Op.perform, attempt_bind_pure]
    cases hc : c.allSaved with
    | false =>
      rw [attempt_forget_refused hc]
      exact .refl _
    | true =>
      obtain ⟨_, _, _, hcalls, heval, hcontainers⟩ := allSaved_eq_true.mp hc
      rw [attempt_forget hcalls heval hcontainers]
      cases p <;> exact .of_unsaved rfl
  | reset => cases p <;> exact .of_unsaved rfl
  | calls op =>
    rw [attempt_callsOp]
    cases p with
    | calls => exact CallStack.keepsSave_op hop c.calls
    | eval | containers => exact .refl _
  | eval op =>
    rw [attempt_evalOp]
    cases p with
    | eval => exact Stack.keepsSave_op hop c.eval
    | calls | containers => exact .refl _

/-! ### Whole histories -/

/-- While the stack is saved, a restore goes back to what it was in the given context. -/
def Tracks (p : Part) (saved : Option Context) (c : Context) : Prop :=
  (c.part p).hasSnapshot = true → ∃ b, saved = some b ∧ (b.part p).RollsBackTo (c.part p)

theorem Tracks.of_keepsSave {p : Part} {saved : Option Context} (h : Tracks p saved c)
    (hkeep : (c.part p).KeepsSave (d.part p)) : Tracks p saved d := by
  intro hd
  obtain ⟨hc, hback⟩ := hkeep hd
  obtain ⟨b, hb, hrolls⟩ := h hc
  exact ⟨b, hb, hback _ hrolls⟩

theorem Tracks.step {p : Part} {saved : Option Context} (hc : c.Sound config)
    (h : Tracks p saved c) (op : Op) :
    Tracks p ((savedBy p op c).or saved) (attempt op.perform c).2 := by
  cases hop : op.saves p with
  | false =>
    rw [savedBy, hop]
    exact h.of_keepsSave (keepsSave_op hop c)
  | true =>
    rcases hattempt : attempt op.perform c with ⟨error | a, d⟩
    · obtain rfl := atomic_op op hc hattempt
      rw [savedBy, hop, hattempt]
      exact h
    · obtain ⟨hunsaved, hmarked⟩ := marked_of_saves hop hattempt
      rw [savedBy, hop, hattempt]
      exact fun _ => ⟨c, rfl, hmarked ▸ rollsBackTo_marked hunsaved⟩

theorem Tracks.run {p : Part} {saved : Option Context} (hc : c.Sound config)
    (h : Tracks p saved c) (ops : List Op) :
    Tracks p ((lastSaved p ops c).or saved) (attempts Op.perform ops c).2 := by
  induction ops generalizing c saved with
  | nil => exact h
  | cons op ops ih =>
    rw [lastSaved, Option.or_assoc]
    exact ih (preserves_sound_op op hc) (h.step hc op)

theorem rollsBackTo_lastSaved {start : Context} (hstart : ofConfig config = .ok start)
    (ops : List Op) {p : Part} {c : Context} (hc : (attempts Op.perform ops start).2 = c)
    (hsaved : (c.part p).hasSnapshot = true) :
    ∃ b, lastSaved p ops start = some b ∧ (b.part p).RollsBackTo (c.part p) := by
  subst hc
  have hnone : Tracks p none start := by
    intro h
    rw [eq_of_ofConfig hstart] at h
    cases p <;> cases h
  have hrun := hnone.run (sound_ofConfig hstart) ops
  rw [Option.or_none] at hrun
  exact hrun hsaved

/-- The action fails for the state that the context is in, and changes nothing. -/
def Refused (action : ContextM Unit) (error : StackError) (c : Context) : Prop :=
  attempt action c = (.error error, c) ∧ error.kind = .invalidState

theorem hasSnapshot_iff : c.hasSnapshot = true ↔ ∃ p, (c.part p).hasSnapshot = true := by
  simp only [hasSnapshot, Bool.or_eq_true]
  constructor
  · rintro ((h | h) | h)
    exacts [⟨.calls, h⟩, ⟨.eval, h⟩, ⟨.containers, h⟩]
  · rintro ⟨_ | _ | _, h⟩
    exacts [.inl (.inl h), .inl (.inr h), .inr h]

theorem allSaved_iff : c.allSaved = true ↔ ∀ p, (c.part p).hasSnapshot = true := by
  simp only [allSaved, Bool.and_eq_true]
  constructor
  · rintro ⟨⟨hcalls, heval⟩, hcontainers⟩ (_ | _ | _)
    exacts [hcalls, heval, hcontainers]
  · exact fun h => ⟨⟨h .calls, h .eval⟩, h .containers⟩

theorem Sound.part (hc : c.Sound config) (p : Part) :
    ∃ capacity null, (null == null) = true ∧ (c.part p).Sound capacity null := by
  cases p with
  | calls => exact ⟨_, _, Entry.null_beq_null, hc.calls.stack⟩
  | eval => exact ⟨_, Value.none, rfl, hc.eval⟩
  | containers => exact ⟨_, ContainerId.none, rfl, hc.containers⟩

theorem save_parts (h : c.hasSnapshot = false) :
    ∃ d, attempt save c = (.ok (), d) ∧ ∀ p, d.part p = (c.part p).marked :=
  ⟨_, attempt_save h, fun p => by cases p <;> rfl⟩

/-- Each stack is changed by its own save. -/
theorem part_of_saves (f : {α : Type} → Stack α → Snapshot → Stack α) {a b r : Snapshot}
    (hcalls : c.calls.snapshot = some a) (heval : c.eval.snapshot = some b)
    (hcontainers : c.containers.snapshot = some r) (p : Part) (q : Snapshot)
    (hq : (c.part p).snapshot = some q) :
    Context.part ⟨f c.calls a, f c.eval b, f c.containers r⟩ p = f (c.part p) q := by
  cases p with
  | calls => cases hcalls.symm.trans hq; rfl
  | eval => cases heval.symm.trans hq; rfl
  | containers => cases hcontainers.symm.trans hq; rfl

section Saved
variable (h : c.allSaved = true)
include h

theorem restore_parts :
    ∃ d, attempt restore c = (.ok (), d) ∧
      ∀ p q, (c.part p).snapshot = some q → d.part p = (c.part p).rollback q := by
  obtain ⟨_, _, _, hcalls, heval, hcontainers⟩ := allSaved_eq_true.mp h
  exact ⟨_, attempt_restore hcalls heval hcontainers,
    part_of_saves rollback hcalls heval hcontainers⟩

theorem forget_parts :
    ∃ d, attempt forget c = (.ok (), d) ∧
      ∀ p q, (c.part p).snapshot = some q → d.part p = (c.part p).committed q := by
  obtain ⟨_, _, _, hcalls, heval, hcontainers⟩ := allSaved_eq_true.mp h
  exact ⟨_, attempt_forget hcalls heval hcontainers,
    part_of_saves committed hcalls heval hcontainers⟩

end Saved

/-- Whatever has been done to a context and to its stacks since it was made, a save of the whole takes
either all stacks or none, and so do a restore and a forget. A restore takes each stack back to the
last save of its own. -/
theorem saves_all_or_nothing {start : Context} (hstart : ofConfig config = .ok start)
    (ops : List Op) :
    let c := (attempts Op.perform ops start).2
    ((∀ p, (c.part p).hasSnapshot = false) →
      ∃ d, attempt save c = (.ok (), d) ∧ ∀ p, (d.part p).hasSnapshot = true) ∧
    ((∃ p, (c.part p).hasSnapshot = true) → Refused save .contextSavedTwice c) ∧
    ((∀ p, (c.part p).hasSnapshot = true) →
      (∃ d, attempt restore c = (.ok (), d) ∧ ∀ p, (d.part p).hasSnapshot = false ∧
        ∃ b, lastSaved p ops start = some b ∧ (d.part p).SameContents (b.part p)) ∧
      ∃ d, attempt forget c = (.ok (), d) ∧ ∀ p, (d.part p).hasSnapshot = false ∧
        (d.part p).toList = (c.part p).toList ∧ (d.part p).size = (c.part p).size) ∧
    ((∃ p, (c.part p).hasSnapshot = false) →
      Refused restore .contextRestoreUnsaved c ∧ Refused forget .contextForgetUnsaved c) := by
  intro c
  have hsound : c.Sound config := sound_attempts hstart ops
  refine ⟨fun hunsaved => ?_, fun hsome => ?_, fun hall => ⟨?_, ?_⟩, fun hsome => ?_⟩
  · have hnone : c.hasSnapshot = false := by
      rw [Bool.eq_false_iff, Ne, hasSnapshot_iff]
      rintro ⟨p, hp⟩
      rw [hunsaved p] at hp
      cases hp
    obtain ⟨d, hsave, hparts⟩ := save_parts hnone
    exact ⟨d, hsave, fun p => by rw [hparts p]; rfl⟩
  · exact ⟨attempt_save_refused (hasSnapshot_iff.mpr hsome), rfl⟩
  · obtain ⟨d, hrestore, hparts⟩ := restore_parts (allSaved_iff.mpr hall)
    refine ⟨d, hrestore, fun p => ?_⟩
    obtain ⟨b, hb, q, hq, hagree⟩ := rollsBackTo_lastSaved hstart ops rfl (hall p)
    rw [hparts p q hq]
    exact ⟨rfl, b, hb, hagree.symm.sameContents⟩
  · obtain ⟨d, hforget, hparts⟩ := forget_parts (allSaved_iff.mpr hall)
    refine ⟨d, hforget, fun p => ?_⟩
    obtain ⟨q, hq⟩ := Option.isSome_iff_exists.mp (hall p)
    obtain ⟨capacity, null, hnull, hstack⟩ := hsound.part p
    rw [hparts p q hq]
    exact ⟨rfl, toList_committed hstack hnull hq⟩
  · have hnone : c.allSaved = false := by
      rw [Bool.eq_false_iff, Ne, allSaved_iff]
      intro hall
      obtain ⟨p, hp⟩ := hsome
      rw [hall p] at hp
      cases hp
    exact ⟨⟨attempt_restore_refused hnone, rfl⟩, ⟨attempt_forget_refused hnone, rfl⟩⟩

def roomy : Config := { call := 2, eval := 4, container := 2 }

/-- The save of the evaluation stack is dropped and taken anew, later than those of the others. -/
def resave : List Op :=
  [.calls (.set ⟨7⟩ (.int 1)), .eval (.push (.int 1)), .enter ⟨4⟩, .save, .eval (.push (.int 2)),
    .eval (.control .forget), .eval (.push (.int 3)), .eval (.control .save), .eval .pop,
    .eval (.push (.int 9)), .leave, .calls (.set ⟨7⟩ (.int 5))]

theorem resave_all_or_nothing :
    ∃ start, ofConfig roomy = .ok start ∧
      ∃ d, attempt restore (attempts Op.perform resave start).2 = (.ok (), d) ∧
        d.calls.toList = [⟨⟨7⟩, .int 1⟩] ∧ d.eval.toList = [.int 3, .int 2, .int 1] ∧
        d.containers.toList = [⟨4⟩] ∧ Refused forget .contextForgetUnsaved d := by
  have hstart : ofConfig roomy = .ok _ := rfl
  refine ⟨_, hstart, ?_⟩
  obtain ⟨-, -, hsaved, -⟩ := saves_all_or_nothing hstart resave
  obtain ⟨⟨d, hrestore, hparts⟩, -⟩ := hsaved fun p => by cases p <;> rfl
  obtain ⟨-, b, hb, hcalls⟩ := hparts .calls
  obtain ⟨-, b', hb', heval⟩ := hparts .eval
  obtain ⟨-, b'', hb'', hcontainers⟩ := hparts .containers
  cases hb
  cases hb'
  cases hb''
  refine ⟨d, hrestore, hcalls.toList_eq.trans rfl, heval.toList_eq.trans rfl,
    hcontainers.toList_eq.trans rfl, ?_⟩
  cases hrestore
  exact ⟨rfl, rfl⟩

end Context
end Narrative
