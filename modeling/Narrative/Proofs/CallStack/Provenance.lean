import Narrative.Proofs.CallStack.Plain
import Narrative.Proofs.Stack.Provenance

/-! Where the entries on a call stack come from. What a successful operation makes of the entries is
told by their names and by where frames begin, so here too the entries may carry notes. A variable
that is set in place gets a new note where the old one was. -/
namespace Narrative
namespace CallStack
open Stack
variable {β : Type}

section Notes
variable (entry : β → Entry) (name : NameHash)

/-- The first of some entries with a name, looked for down to the next boundary. -/
def binding : List β → Option β
  | [] => none
  | b :: rest =>
    if (entry b).name = name then some b
    else if (entry b).isBoundary then none
    else binding rest

/-- The entries with another in its place, if there is one. -/
def rebind (new : β) : List β → Option (List β)
  | [] => none
  | b :: rest =>
    if (entry b).name = name then some (new :: rest)
    else if (entry b).isBoundary then none
    else (rebind new rest).map (b :: ·)

def leave (l : List β) : List β := (l.dropWhile fun b => !(entry b).isBoundary).tail

/-- What an operation makes of the entries if it succeeds, `put` adding the note to a new one. -/
def carry (put : Entry → β) : Op → Stack.Plain β → Stack.Plain β
  | .set name value, m =>
    match m.saved, rebind entry name (put ⟨name, value⟩) m.items with
    | none, some items => { m with items }
    | _, _ => m.push (put ⟨name, value⟩)
  | .pushFrame record, m => m.push (put (.boundary record))
  | .popFrame, m => { m with items := leave entry m.items }
  | .control k, m => m.control k
  | .get _, m | .hasFrame, m | .depth, m => m

end Notes

variable {entry : β → Entry} {name : NameHash}

theorem map_binding (l : List β) :
    (binding entry name l).map entry = binding id name (l.map entry) := by
  induction l with
  | nil => rfl
  | cons b rest ih =>
    simp only [binding, List.map_cons, id]
    split
    · rfl
    · split
      · rfl
      · exact ih

theorem map_rebind (new : β) (l : List β) :
    (rebind entry name new l).map (List.map entry) = rebind id name (entry new) (l.map entry) := by
  induction l with
  | nil => rfl
  | cons b rest ih =>
    simp only [rebind, List.map_cons, id]
    split
    · rfl
    · split
      · rfl
      · rw [← ih, Option.map_map, Option.map_map]
        rfl

theorem map_leave (l : List β) : (leave entry l).map entry = leave id (l.map entry) := by
  rw [leave, leave, List.map_tail, List.dropWhile_map]
  rfl

theorem map_carry {put : Entry → β} (hput : ∀ e, entry (put e) = e) (op : Op)
    (m : Stack.Plain β) : (carry entry put op m).map entry = carry id id op (m.map entry) := by
  obtain ⟨items, saved⟩ := m
  cases op with
  | set name value =>
    have hrebind : (rebind entry name (put ⟨name, value⟩) items).map (List.map entry) = _ :=
      map_rebind _ items
    rw [hput] at hrebind
    cases saved with
    | some l => simp [carry, Stack.Plain.map, Stack.Plain.push, hput]
    | none =>
      cases h : rebind entry name (put ⟨name, value⟩) items with
      | none =>
        rw [h] at hrebind
        simp [carry, Stack.Plain.map, Stack.Plain.push, hput, h, ← hrebind]
      | some l =>
        rw [h] at hrebind
        simp [carry, Stack.Plain.map, h, ← hrebind]
  | pushFrame record => simp [carry, Stack.Plain.map, Stack.Plain.push, hput]
  | popFrame => simp [carry, Stack.Plain.map, map_leave]
  | control k => exact Stack.Plain.map_control entry k _
  | get | hasFrame | depth => rfl

/-! ### Nothing comes from elsewhere -/

theorem mem_of_mem_rebind {new b : β} {l l' : List β} (h : rebind entry name new l = some l')
    (hb : b ∈ l') : b = new ∨ b ∈ l := by
  induction l generalizing l' with
  | nil => cases h
  | cons c rest ih =>
    rw [rebind] at h
    split at h
    · obtain rfl := Option.some.inj h
      exact (List.mem_cons.mp hb).imp_right (List.mem_cons_of_mem c)
    · split at h
      · cases h
      · obtain ⟨rest', hrest, rfl⟩ := Option.map_eq_some_iff.mp h
        rcases List.mem_cons.mp hb with rfl | hmem
        · exact .inr List.mem_cons_self
        · exact (ih hrest hmem).imp_right (List.mem_cons_of_mem c)

/-- The entry that an operation puts on a call stack. -/
def Op.entry? : Op → Option Entry
  | .set name value => some ⟨name, value⟩
  | .pushFrame record => some (.boundary record)
  | .popFrame | .control _ | .get _ | .hasFrame | .depth => none

theorem mem_all_carry {put : Entry → β} {op : Op} {m : Stack.Plain β} {b : β}
    (h : b ∈ (carry entry put op m).all) : b ∈ m.all ∨ ∃ e, op.entry? = some e ∧ b = put e := by
  cases op with
  | set name value =>
    obtain ⟨items, saved⟩ := m
    simp only [carry] at h
    split at h
    · next hrebind =>
      rcases Stack.Plain.mem_all.mp h with hitems | ⟨l, hl, -⟩
      · rcases mem_of_mem_rebind hrebind hitems with rfl | hmem
        · exact .inr ⟨_, rfl, rfl⟩
        · exact .inl (Stack.Plain.mem_all.mpr (.inl hmem))
      · cases hl
    · exact (Stack.Plain.mem_all_push h).symm.imp_right fun hb => ⟨_, rfl, hb⟩
  | pushFrame record =>
    exact (Stack.Plain.mem_all_push h).symm.imp_right fun hb => ⟨_, rfl, hb⟩
  | popFrame =>
    refine .inl (Stack.Plain.mem_all.mpr ((Stack.Plain.mem_all.mp h).imp_left fun hmem => ?_))
    exact (List.dropWhile_sublist _).subset (List.mem_of_mem_tail hmem)
  | control k => exact .inl (Stack.Plain.mem_all_control h)
  | get | hasFrame | depth => exact .inl h

/-! ### What a call stack does -/

section Entries
variable {s t : CallStack}

/-- A set in place changes the entry that a search by name finds. -/
theorem rebind_slots (value : Value) {positions : List Nat} (hlt : ∀ j ∈ positions, j < s.capacity)
    (hnodup : positions.Nodup) :
    rebind id name ⟨name, value⟩ (positions.map s.slot) =
      (locate s name positions).map fun i => positions.map (assign s i value).slot := by
  induction positions with
  | nil => rfl
  | cons j rest ih =>
    have hrest := ih (fun k hk => hlt k (List.mem_cons_of_mem j hk)) (List.nodup_cons.mp hnodup).2
    have hnot := (List.nodup_cons.mp hnodup).1
    have hj := hlt j List.mem_cons_self
    rw [List.map_cons, rebind, locate]
    by_cases hname : (s.slot j).name = name
    · rw [if_pos hname, if_pos (by exact hname), Option.map_some, List.map_cons,
        map_slot_assign value hj hnot, slot_assign s j value j hj, if_pos rfl, hname]
    · rw [if_neg hname, if_neg (by exact hname)]
      by_cases hb : (s.slot j).isBoundary = true
      · rw [if_pos hb, if_pos (by exact hb)]
        rfl
      · rw [if_neg hb, if_neg (by exact hb), hrest, Option.map_map]
        refine Option.map_congr fun i hi => ?_
        obtain ⟨hmem, -⟩ := locate_some hi
        have hne : i ≠ j := by
          rintro rfl
          exact hnot hmem
        simp only [Function.comp_apply, List.map_cons]
        rw [slot_assign s i value j (hlt i (List.mem_cons_of_mem j hmem)), if_neg hne]

theorem rebind_toList (hs : WellFramed s) (hname : name.isValid = true) (value : Value) :
    rebind id name ⟨name, value⟩ s.toList =
      (find s name).map fun i => (assign s i value).toList := by
  have hlt : ∀ j ∈ s.positions, j < s.capacity := fun j hj => hs.wellFormed.lt_capacity hj
  rw [find_eq hname, toList, rebind_slots value hlt s.nodup_positions]
  refine Option.map_congr fun i hi => ?_
  obtain ⟨hmem, hi'⟩ := locate_some hi
  rw [toList, positions_assign value (hlt i hmem) (by rw [hi']; exact hname) hs.null_eq]

theorem get?_eq_binding (hname : name.isValid = true) :
    get? s name = (binding id name s.toList).map Entry.value := by
  rw [get?, find_eq hname, toList]
  induction s.positions with
  | nil => rfl
  | cons j rest ih =>
    simp only [List.map_cons, binding, locate, id]
    split
    · rfl
    · split
      · rfl
      · exact ih

theorem plain_of_push {e : Entry} (hs : WellFramed s) (he : e.Proper)
    (h : attempt (Stack.push e) s = (.ok (), t)) : Stack.plain t = (Stack.plain s).push e := by
  rcases push_proper_cases hs he with ⟨-, hfull⟩ | ⟨t', -, hok, -, hl⟩
  · rw [hfull] at h
    cases h
  · rw [hok] at h
    cases h
    rw [Stack.plain_eq, Stack.plain_eq, hl]
    rfl

theorem plain_of_set {value : Value} (hs : WellFramed s)
    (h : attempt (CallStack.set name value) s = (.ok (), t)) :
    Stack.plain t = carry id id (.set name value) (Stack.plain s) := by
  rcases attempt_set_cases s name value with
    ⟨-, herror⟩ | ⟨i, hname, hsnap, hfind, hok⟩ | ⟨hname, hfind, hpush⟩
  · rw [herror] at h
    cases h
  · rw [hok] at h
    cases h
    have hrebind := rebind_toList hs hname value
    rw [hfind, Option.map_some] at hrebind
    simp only [carry, Stack.plain, id, hsnap, Option.map_none, hrebind]
    simp [assign, hsnap]
  · rw [hpush] at h
    rw [plain_of_push hs (.inl hname) h]
    cases hsnap : s.snapshot with
    | some p => simp [carry, Stack.plain, hsnap]
    | none =>
      have hrebind := rebind_toList hs hname value
      rw [hfind hsnap, Option.map_none] at hrebind
      simp [carry, Stack.plain, hsnap, hrebind]

theorem plain_of_popFrame {record : Frame} (hs : WellFramed s)
    (h : attempt popFrame s = (.ok record, t)) :
    Stack.plain t = carry id id .popFrame (Stack.plain s) := by
  by_cases hframe : hasFrame s = true
  · obtain ⟨above, i, record', rest, t', hcells, habove, hok, -, hl⟩ := attempt_popFrame hs hframe
    rw [hok] at h
    cases h
    have hitems : s.layout.now.elements =
        above.map Prod.snd ++ .boundary record :: rest.map Prod.snd := by
      rw [Sheet.elements, hcells, List.map_append, List.map_cons]
    have habove' : ∀ e ∈ above.map Prod.snd, (!(id e).isBoundary) = true := by
      intro e he
      obtain ⟨c, hc, rfl⟩ := List.mem_map.mp he
      simp [habove c hc]
    have hleave : leave id s.layout.now.elements = rest.map Prod.snd := by
      rw [leave, hitems, List.dropWhile_append_of_pos habove']
      rfl
    rw [Stack.plain_eq, Stack.plain_eq, hl, carry]
    simp only [hleave]
    rfl
  · have herror : ∃ e, attempt popFrame s = (.error e, s) := by
      by_cases he : s.isEmpty = true
      · exact ⟨_, attempt_of_error (by simp [popFrame, he]; rfl)⟩
      · exact ⟨_, attempt_of_error (by simp [popFrame, he, hframe]; rfl)⟩
    obtain ⟨e, herror⟩ := herror
    rw [herror] at h
    cases h

theorem plain_of_success {capacity : Nat} {op : Op} {a : Answer} (hs : Sound s capacity)
    (h : attempt op.perform s = (.ok a, t)) :
    Stack.plain t = carry id id op (Stack.plain s) := by
  cases op with
  | set name value =>
    obtain ⟨_, hset, -⟩ := ok_of_attempt_bind_pure h
    exact plain_of_set hs.wellFramed hset
  | pushFrame record =>
    obtain ⟨_, hpush, -⟩ := ok_of_attempt_bind_pure h
    exact plain_of_push hs.wellFramed (.inr ⟨record, rfl⟩) hpush
  | popFrame =>
    obtain ⟨record, hpop, -⟩ := ok_of_attempt_bind_pure h
    exact plain_of_popFrame hs.wellFramed hpop
  | control k =>
    obtain ⟨_, hcontrol, -⟩ := ok_of_attempt_bind_pure h
    have hop : attempt (Stack.Op.control k).perform s = _ := hcontrol
    exact Stack.plain_of_success hs.stack Entry.null_beq_null hop
  | get | hasFrame | depth =>
    cases h
    rfl

def Answer.values : Answer → List Value
  | .stack a => a.handedOut.map Entry.value
  | .found value => value.toList
  | .left _ => []

/-- Whatever operation hands a value out, there is an entry on the stack that has it. -/
theorem mem_toList_of_values {op : Op} {a : Answer} {v : Value}
    (h : attempt op.perform s = (.ok a, t)) (hv : v ∈ a.values) :
    ∃ e ∈ s.toList, e.value = v := by
  cases op with
  | set | pushFrame | popFrame =>
    obtain ⟨_, -, rfl⟩ := ok_of_attempt_bind_pure h
    cases hv
  | hasFrame | depth =>
    cases h
    cases hv
  | get name =>
    cases h
    obtain ⟨i, hfind, rfl⟩ := Option.map_eq_some_iff.mp (Option.mem_toList.mp hv)
    by_cases hname : name.isValid = true
    · rw [find_eq hname] at hfind
      exact ⟨_, List.mem_map_of_mem (locate_some hfind).1, rfl⟩
    · rw [find, if_neg hname] at hfind
      cases hfind
  | control k =>
    obtain ⟨a, hcontrol, rfl⟩ := ok_of_attempt_bind_pure h
    obtain ⟨e, he, rfl⟩ := List.mem_map.mp hv
    exact ⟨e, mem_toList_of_control hcontrol he, rfl⟩

end Entries

end CallStack
end Narrative
