import Mathlib
import Narrative.Proofs.CallStack.Provenance
import Narrative.Proofs.Context.Failure

/-! One binding for each name of a scope. A set under a save hides an entry that the restore needs, so
names repeat while the save lasts. But the entries that a restore would leave have no name twice in
one scope, and unless a save is forgotten the call stack comes back to them. -/
namespace Narrative

/-! ### Names that stand once in a scope -/

namespace NameHash

/-- No name stands twice in one scope: above the first boundary, between two neighbouring ones or below
the last. Boundaries bear the reserved name. -/
def Unshadowed (names : List NameHash) : Prop :=
  ∀ scope, scope <:+: names → (∀ n ∈ scope, n.isValid = true) → scope.Nodup

variable {names : List NameHash}

theorem unshadowed_nil : Unshadowed [] := by
  intro scope hscope _
  rw [List.infix_nil.mp hscope]
  exact .nil

theorem Unshadowed.part {names' : List NameHash} (h : Unshadowed names)
    (hpart : names' <:+: names) : Unshadowed names' :=
  fun scope hscope hvalid => h scope (hscope.trans hpart) hvalid

theorem unshadowed_cons {n : NameHash} :
    Unshadowed (n :: names) ↔
      Unshadowed names ∧ (n.isValid = true → n ∉ names.takeWhile isValid) := by
  constructor
  · intro h
    refine ⟨h.part (List.suffix_cons n names).isInfix, fun hn => ?_⟩
    have hfront : n :: names.takeWhile isValid <+: n :: names :=
      (List.prefix_cons_inj n).mpr <| List.takeWhile_prefix isValid
    refine (List.nodup_cons.mp (h _ hfront.isInfix fun m hm => ?_)).1
    rcases List.mem_cons.mp hm with rfl | hm
    · exact hn
    · exact List.mem_takeWhile_imp hm
  · rintro ⟨h, hn⟩ scope hscope hvalid
    rcases List.infix_cons_iff.mp hscope with hfront | hrest
    · cases scope with
      | nil => exact .nil
      | cons m scope =>
        obtain ⟨rfl, below, rfl⟩ := List.cons_prefix_cons.mp hfront
        have hscope : ∀ k ∈ scope, k.isValid = true :=
          fun k hk => hvalid k (List.mem_cons_of_mem m hk)
        refine List.nodup_cons.mpr ⟨fun hmem => ?_, h scope ⟨[], below, rfl⟩ hscope⟩
        refine hn (hvalid m List.mem_cons_self) ?_
        rw [List.takeWhile_append_of_pos hscope]
        exact List.mem_append_left _ hmem
    · exact h scope hrest hvalid

end NameHash

/-! ### The variables that entries describe -/

namespace Scopes

/-- The number of variables over all scopes. -/
def count (m : Scopes) : Nat := m.base.keys.card + (m.frames.map fun f => f.2.keys.card).sum

theorem card_keys_insert (vars : Vars) {name : NameHash} (h : name ∉ vars) (value : Value) :
    (vars.insert name value).keys.card = vars.keys.card + 1 := by
  have hkeys : (vars.insert name value).keys = insert name vars.keys := by
    ext n
    simp [Finmap.mem_keys, Finmap.mem_insert]
  rw [hkeys, Finset.card_insert_of_notMem (by rwa [Finmap.mem_keys])]

theorem count_assign {m : Scopes} {name : NameHash} (h : name ∉ m.current) (value : Value) :
    (m.assign name value).count = m.count + 1 := by
  obtain ⟨base, frames⟩ := m
  cases frames with
  | nil =>
    have hcard := card_keys_insert base h value
    simp [count, assign, hcard]
  | cons f rest =>
    have hcard := card_keys_insert f.2 h value
    simp only [count, assign, List.map_cons, List.sum_cons, hcard]
    omega

theorem count_enter (m : Scopes) (record : Frame) : (m.enter record).count = m.count := by
  simp [count, enter]

variable {entries : List Entry}

theorem mem_current_ofEntries (h : ∀ e ∈ entries, e.Proper) {name : NameHash} :
    name ∈ (ofEntries entries).current ↔
      name ∈ (entries.map Entry.name).takeWhile NameHash.isValid := by
  induction entries with
  | nil => simp [ofEntries, current, Finmap.notMem_empty]
  | cons e rest ih =>
    have hrest := ih fun e' he' => h e' (List.mem_cons_of_mem e he')
    rw [List.map_cons]
    rcases h e List.mem_cons_self with hv | ⟨record, rfl⟩
    · rw [ofEntries_variable hv, current_assign, Finmap.mem_insert,
        List.takeWhile_cons_of_pos hv, List.mem_cons, hrest]
    · rw [ofEntries_boundary, List.takeWhile_cons_of_neg Bool.false_ne_true]
      simp [enter, current, Finmap.notMem_empty]

/-- Where no name stands twice in a scope, every entry that is no boundary is a variable of its own. -/
theorem length_eq_of_unshadowed (h : ∀ e ∈ entries, e.Proper)
    (hnames : NameHash.Unshadowed (entries.map Entry.name)) :
    entries.length = entries.countP Entry.isBoundary + (ofEntries entries).count := by
  induction entries with
  | nil => rfl
  | cons e rest ih =>
    have hproper : ∀ e' ∈ rest, e'.Proper := fun e' he' => h e' (List.mem_cons_of_mem e he')
    obtain ⟨hrest, hfresh⟩ := NameHash.unshadowed_cons.mp hnames
    have hlen := ih hproper hrest
    rcases h e List.mem_cons_self with hv | ⟨record, rfl⟩
    · have hnot := mt (mem_current_ofEntries hproper).mp (hfresh hv)
      rw [ofEntries_variable hv, count_assign hnot,
        List.countP_cons_of_neg (by simp [Entry.isBoundary_of_isValid hv]), List.length_cons]
      omega
    · rw [ofEntries_boundary, count_enter,
        List.countP_cons_of_pos (Entry.isBoundary_boundary record), List.length_cons]
      omega

end Scopes

namespace CallStack
open Stack NameHash

section Rebind
variable {name : NameHash} {entries entries' : List Entry}

theorem names_rebind {value : Value} (h : rebind id name ⟨name, value⟩ entries = some entries') :
    entries'.map Entry.name = entries.map Entry.name := by
  induction entries generalizing entries' with
  | nil => cases h
  | cons e rest ih =>
    simp only [rebind, id] at h
    split at h
    · next hname =>
      obtain rfl := Option.some.inj h
      rw [List.map_cons, List.map_cons, hname]
    · split at h
      · cases h
      · obtain ⟨rest', hrest, rfl⟩ := Option.map_eq_some_iff.mp h
        rw [List.map_cons, List.map_cons, ih hrest]

/-- A set finds no entry to overwrite exactly if the name does not stand in the innermost scope. -/
theorem rebind_eq_none_iff {new : Entry} (hname : name.isValid = true) (h : ∀ e ∈ entries, e.Proper) :
    rebind id name new entries = none ↔
      name ∉ (entries.map Entry.name).takeWhile NameHash.isValid := by
  induction entries with
  | nil => simp [rebind]
  | cons e rest ih =>
    have hrest := ih fun e' he' => h e' (List.mem_cons_of_mem e he')
    simp only [rebind, id, List.map_cons]
    rcases h e List.mem_cons_self with hv | ⟨record, rfl⟩
    · rw [List.takeWhile_cons_of_pos hv]
      by_cases heq : e.name = name
      · simp [heq]
      · simp [heq, Entry.isBoundary_of_isValid hv, hrest, Ne.symm heq]
    · have hne : (Entry.boundary record).name ≠ name := by
        rintro rfl
        cases hname
      rw [List.takeWhile_cons_of_neg Bool.false_ne_true]
      simp [hne, Entry.isBoundary_boundary]

end Rebind

/-- The entries above the first boundary are those above the first reserved name. -/
theorem names_innermost {entries : List Entry} (h : ∀ e ∈ entries, e.Proper) :
    (entries.map Entry.name).takeWhile NameHash.isValid =
      (entries.takeWhile fun e => !e.isBoundary).map Entry.name := by
  induction entries with
  | nil => rfl
  | cons e rest ih =>
    rw [List.map_cons]
    rcases h e List.mem_cons_self with hv | ⟨record, rfl⟩
    · rw [List.takeWhile_cons_of_pos hv,
        List.takeWhile_cons_of_pos (by simp [Entry.isBoundary_of_isValid hv]), List.map_cons,
        ih fun e' he' => h e' (List.mem_cons_of_mem e he')]
    · rfl

/-! ### Operations -/

/-- The entries that are on the stack when the save, if there is one, has been restored. -/
def settled (m : Stack.Plain Entry) : List Entry := m.saved.getD m.items

/-- No operation but a forget makes a name stand twice in a scope of the settled entries. -/
theorem unshadowed_carry {op : Op} {m : Stack.Plain Entry} (hm : AllProper m)
    (h : Unshadowed ((settled m).map Entry.name)) (hforget : op ≠ .control .forget)
    (hsave : op = .control .save → m.saved = none)
    (hset : ∀ name value, op = .set name value → name.isValid = true) :
    Unshadowed ((settled (carry id id op m)).map Entry.name) := by
  obtain ⟨items, saved⟩ := m
  cases op with
  | set name value =>
    cases saved with
    -- what is restored was put aside before, and no set reaches it
    | some l => exact h
    | none =>
      have hname := hset name value rfl
      cases hrebind : rebind id name ⟨name, value⟩ items with
      | none =>
        have hfresh := (rebind_eq_none_iff hname hm.1).mp hrebind
        simp only [carry, id, hrebind]
        exact unshadowed_cons.mpr ⟨h, fun _ => hfresh⟩
      | some items' =>
        simp only [carry, id, hrebind, settled, Option.getD_none]
        rw [names_rebind hrebind]
        exact h
  | pushFrame record =>
    cases saved with
    | some l => exact h
    | none => exact unshadowed_cons.mpr ⟨h, fun hvalid => by cases hvalid⟩
  | popFrame =>
    cases saved with
    | some l => exact h
    | none =>
      have hsuffix : leave id items <:+ items :=
        (List.tail_suffix _).trans (List.dropWhile_suffix _)
      exact h.part (hsuffix.map Entry.name).isInfix
  | get | hasFrame | depth => exact h
  | control k =>
    cases k with
    | size | isEmpty | capacity | hasSnapshot | toList => exact h
    | clear | reset => exact unshadowed_nil
    | save =>
      obtain rfl : saved = none := hsave rfl
      exact h
    | restore => exact h
    | forget => exact absurd rfl hforget

def Settled (capacity : Nat) (s : CallStack) : Prop :=
  Sound s capacity ∧ Unshadowed ((settled (Stack.plain s)).map Entry.name)

theorem preserves_settled {capacity : Nat} {op : Op} (hop : op ≠ .control .forget) :
    Preserves (Settled capacity) op.perform := by
  rintro s ⟨hs, hnames⟩
  obtain ⟨hsound, hallows⟩ := op_follows hs op
  refine ⟨hsound, ?_⟩
  cases hattempt : attempt op.perform s with
  | mk answer t =>
    cases answer with
    | error e =>
      obtain rfl : t = s := atomic_op op hs.wellFramed hattempt
      exact hnames
    | ok a =>
      rw [hattempt] at hallows
      rw [plain_of_success hs hattempt]
      have hproper := (allProper_iff s).mpr ⟨hs.wellFramed.proper, hs.wellFramed.proper_saved⟩
      refine unshadowed_carry hproper hnames hop ?_ ?_
      · rintro rfl
        cases hsnap : s.snapshot with
        | none => simp [Stack.plain, hsnap]
        | some p =>
          simp only [Plain.Allows, Plain.AllowsControl, CallStack.plain, hsnap, Option.map_some]
            at hallows
          cases hallows.1
      · rintro name value rfl
        by_contra hname
        simp only [Plain.Allows, if_neg hname] at hallows
        cases hallows.1

section Unsaved
variable {s : CallStack} (hs : WellFramed s)
include hs

theorem proper_toList : ∀ e ∈ s.toList, e.Proper := by
  rw [← elements_layout]
  exact hs.proper

theorem size_eq_of_unshadowed (hnames : Unshadowed (s.toList.map Entry.name)) :
    s.size = depth s + (CallStack.plain s).scopes.count := by
  rw [size_eq_length hs.wellFormed, Scopes.length_eq_of_unshadowed (proper_toList hs) hnames]
  rfl

/-- Neighbouring entries without a boundary among them lie in one scope. -/
theorem nodup_names_of_unshadowed (hnames : Unshadowed (s.toList.map Entry.name))
    {scope : List Entry} (hscope : scope <:+: s.toList)
    (hvariables : ∀ e ∈ scope, e.isBoundary = false) : (scope.map Entry.name).Nodup := by
  refine hnames _ (hscope.map Entry.name) fun n hn => ?_
  obtain ⟨e, he, rfl⟩ := List.mem_map.mp hn
  exact (proper_toList hs e (hscope.subset he)).isValid (hvariables e he)

theorem exists_find {e : Entry} (he : e ∈ s.toList.takeWhile fun e => !e.isBoundary) :
    e.name.isValid = true ∧ ∃ i, find s e.name = some i := by
  have hproper := proper_toList hs
  have hb : e.isBoundary = false := by simpa using List.mem_takeWhile_imp he
  have hvalid := (hproper e (List.takeWhile_subset _ he)).isValid hb
  have hnames : e.name ∈ (s.toList.map Entry.name).takeWhile NameHash.isValid := by
    rw [names_innermost hproper]
    exact List.mem_map_of_mem he
  have hfound : rebind id e.name ⟨e.name, e.value⟩ s.toList ≠ none :=
    fun h => (rebind_eq_none_iff hvalid hproper).mp h hnames
  rw [rebind_toList hs hvalid, ne_eq, Option.map_eq_none_iff, ← ne_eq, Option.ne_none_iff_exists']
    at hfound
  exact ⟨hvalid, hfound⟩

theorem set_bound (hsnap : s.snapshot = none) {e : Entry}
    (he : e ∈ s.toList.takeWhile fun e => !e.isBoundary) (value : Value) :
    ∃ t, attempt (CallStack.set e.name value) s = (.ok (), t) ∧ t.size = s.size ∧
      (CallStack.plain t).scopes = (CallStack.plain s).scopes.assign e.name value := by
  obtain ⟨hvalid, i, hfind⟩ := exists_find hs he
  have hset := assigned_assign hs hsnap hvalid hfind value
  have hrebind := rebind_toList hs hvalid value
  rw [hfind, Option.map_some] at hrebind
  have hnames := names_rebind hrebind
  refine ⟨assign s i value, ?_, ?_, ?_⟩
  · exact attempt_of_ok (by simp [CallStack.set, hvalid, hasSnapshot, hsnap, hfind])
  · rw [size_eq_length hset.wellFramed.wellFormed, size_eq_length hs.wellFormed,
      ← List.length_map Entry.name, hnames, List.length_map]
  · rw [plain_eq_layout, plain_eq_layout]
    exact hset.scopes_eq

end Unsaved

/-- Unless a save is forgotten in it, a history leaves no two entries with one name in one scope whenever
no save is outstanding: the call stack has one entry for each frame and one for each variable, and
a variable of the innermost scope is set without taking room. -/
theorem scopes_bind_once (slots : Array Entry) (ops : List Op) (hops : .control .forget ∉ ops) :
    let s := (attempts Op.perform ops (ofSlots slots Entry.null)).2
    s.hasSnapshot = false →
      (∀ scope, scope <:+: s.toList → (∀ e ∈ scope, e.isBoundary = false) →
        (scope.map Entry.name).Nodup) ∧
      s.size = depth s + (CallStack.plain s).scopes.count ∧
      ∀ e ∈ s.toList.takeWhile (fun e => !e.isBoundary), ∀ value,
        ∃ t, attempt (CallStack.set e.name value) s = (.ok (), t) ∧ t.size = s.size ∧
          (CallStack.plain t).scopes = (CallStack.plain s).scopes.assign e.name value := by
  intro s hunsaved
  have hstart : Settled slots.size (ofSlots slots Entry.null) :=
    ⟨⟨wellFramed_ofSlots slots, rfl⟩, unshadowed_nil⟩
  have hsettled : Settled slots.size s := attempts_preserve
    (fun op hop => preserves_settled fun hforget => hops (hforget ▸ hop)) hstart
  obtain ⟨⟨hs, -⟩, hnames⟩ := hsettled
  have hsnap : s.snapshot = none := by simpa [hasSnapshot] using hunsaved
  -- without a save the settled entries are those on the stack
  have hnow : Unshadowed (s.toList.map Entry.name) := by
    simpa [settled, Stack.plain, hsnap] using hnames
  exact ⟨fun _ hscope hvariables => nodup_names_of_unshadowed hs hnow hscope hvariables,
    size_eq_of_unshadowed hs hnow, fun _ he value => set_bound hs hsnap he value⟩

/-- Under the save the variable is hidden in its frame, the frame is left, and the variable outside is
hidden by an entry written past the saved ones. -/
def hiddenThenRestored : List Op :=
  [.set ⟨1⟩ (.int 1), .pushFrame ⟨4, .tunnel⟩, .set ⟨1⟩ .none, .control .save, .set ⟨1⟩ (.int 2),
    .popFrame, .set ⟨1⟩ (.int 3), .control .restore, .set ⟨2⟩ (.int 5)]

theorem hiddenThenRestored_bind_once :
    let s : CallStack := ⟨#[⟨⟨1⟩, .int 1⟩, .boundary ⟨4, .tunnel⟩, ⟨⟨1⟩, .none⟩, ⟨⟨2⟩, .int 5⟩],
      Entry.null, 4, 0, none⟩
    .control .forget ∉ hiddenThenRestored ∧ s.hasSnapshot = false ∧ s.size = s.capacity ∧
    s.size = depth s + (CallStack.plain s).scopes.count ∧
    ∀ value, ∃ t, attempt (CallStack.set ⟨1⟩ value) s = (.ok (), t) ∧ t.size = s.size := by
  intro s
  have hrun : (attempts Op.perform hiddenThenRestored
      (ofSlots (Array.replicate 4 ⟨⟨1⟩, .int 9⟩) Entry.null)).2 = s := by rfl
  have hforget : Op.control .forget ∉ hiddenThenRestored := by simp [hiddenThenRestored]
  have h := scopes_bind_once (Array.replicate 4 ⟨⟨1⟩, .int 9⟩) hiddenThenRestored hforget
  rw [hrun] at h
  obtain ⟨-, hsize, hset⟩ := h rfl
  refine ⟨hforget, rfl, rfl, hsize, fun value => ?_⟩
  obtain ⟨t, ht, htsize, -⟩ := hset ⟨⟨1⟩, .none⟩ (.tail _ (.head _)) value
  exact ⟨t, ht, htsize⟩

end CallStack
end Narrative
