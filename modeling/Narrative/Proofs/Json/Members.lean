import Mathlib.Data.List.Forall2
import Mathlib.Data.List.Perm.Basic
import Narrative.Json.Decode

/-! Members of objects found by their names. Neither the order of the members nor those with other names
make a difference; a name that occurs twice is refused. -/
namespace Narrative

/-- A list is mapped whole just if each of its elements is. -/
theorem mapM_eq_some_iff {α β : Type} {f : α → Option β} {l : List α} {l' : List β} :
    l.mapM f = some l' ↔ List.Forall₂ (fun a b => f a = some b) l l' := by
  induction l generalizing l' with
  | nil => simp [eq_comm]
  | cons a l ih =>
    cases l' with
    | nil => simp [Option.bind_eq_some_iff]
    | cons b l' => simp [Option.bind_eq_some_iff, ih]

theorem mapM_eq_none {α β : Type} {f : α → Option β} {l : List α} {a : α} (ha : a ∈ l)
    (h : f a = none) : l.mapM f = none := by
  refine Option.eq_none_iff_forall_not_mem.mpr fun l' hl' => ?_
  have hall := mapM_eq_some_iff.mp hl'
  obtain ⟨i, hi, rfl⟩ := List.getElem_of_mem ha
  have hat := hall.get hi (hall.length_eq ▸ hi)
  rw [List.get_eq_getElem, h] at hat
  cases hat

/-! ### Members by name -/

namespace Json
variable {name : String} {members members' : List (String × Json)}

theorem valuesOf_append (name : String) (members members' : List (String × Json)) :
    valuesOf name (members ++ members') = valuesOf name members ++ valuesOf name members' := by
  simp [valuesOf]

theorem valuesOf_eq_nil (h : ∀ m ∈ members, m.1 ≠ name) : valuesOf name members = [] := by
  rw [valuesOf, List.filter_eq_nil_iff.mpr fun m hm => by simpa using h m hm, List.map_nil]

theorem length_valuesOf (name : String) (members : List (String × Json)) :
    (valuesOf name members).length = members.countP (·.1 = name) := by
  rw [valuesOf, List.length_map, List.countP_eq_length_filter]

theorem member?_eq_none (h : 2 ≤ members.countP (·.1 = name)) : member? name members = none := by
  rw [← length_valuesOf] at h
  unfold member?
  split
  · next hv => simp [hv] at h
  · next hv => simp [hv] at h
  · rfl

theorem member?_perm (h : members.Perm members') : member? name members = member? name members' := by
  have hvalues : (valuesOf name members).Perm (valuesOf name members') := (h.filter _).map _
  unfold member?
  split
  · next hv =>
    rw [hv] at hvalues
    rw [List.nil_perm.mp hvalues]
  · next hv =>
    rw [hv] at hvalues
    rw [← List.singleton_perm.mp hvalues]
  · next hnil hone =>
    have hlength := hvalues.length_eq
    split
    · next hv => exact absurd (List.perm_nil.mp (hv ▸ hvalues)) hnil
    · next v hv => exact absurd (List.perm_singleton.mp (hv ▸ hvalues)) (hone v)
    · rfl

/-- A name that finds a value finds that of each member with the name. -/
theorem eq_of_member? {v : Option Json} {w : Json} (h : member? name members = some v)
    (hw : (name, w) ∈ members) : v = some w := by
  have hmem : w ∈ valuesOf name members := List.mem_map.mpr ⟨(name, w), by simpa using hw, rfl⟩
  unfold member? at h
  split at h
  · next hv => simp [hv] at hmem
  · next u hv =>
    obtain rfl : w = u := by simpa [hv] using hmem
    exact (Option.some.inj h).symm
  · cases h

theorem member?_of_valuesOf {v : Option Json} (h : valuesOf name members = v.toList) :
    member? name members = some v := by
  cases v <;> simp [member?, h]

/-- The members that give values to some names; a value may be left out. -/
def given : List String → List (Option Json) → List (String × Json)
  | name :: names, v :: values => (v.map (name, ·)).toList ++ given names values
  | _, _ => []

theorem mem_given {names : List String} {values : List (Option Json)} {m : String × Json}
    (h : m ∈ given names values) : m.1 ∈ names ∧ some m.2 ∈ values := by
  induction names generalizing values with
  | nil => cases h
  | cons n names ih =>
    cases values with
    | nil => cases h
    | cons v values =>
      rcases List.mem_append.mp h with h | h
      · cases v with
        | none => cases h
        | some v =>
          rw [List.mem_singleton.mp h]
          exact ⟨List.mem_cons_self, List.mem_cons_self⟩
      · exact ⟨List.mem_cons_of_mem n (ih h).1, List.mem_cons_of_mem v (ih h).2⟩

/-- Among members with other names, each name finds its value. -/
theorem member?_given {names : List String} {values : List (Option Json)} (hnames : names.Nodup)
    (hlength : names.length = values.length) {others extras : List (String × Json)}
    (hothers : ∀ m ∈ others, m.1 ∉ names) (hextras : ∀ m ∈ extras, m.1 ∉ names) :
    List.Forall₂ (fun name v => member? name (others ++ (given names values ++ extras)) = some v)
      names values := by
  -- the member of the first name joins the others, among which the names after it do not occur
  induction names generalizing values others with
  | nil =>
    cases values with
    | nil => exact .nil
    | cons v values => cases hlength
  | cons n names ih =>
    cases values with
    | nil => cases hlength
    | cons v values =>
      obtain ⟨hn, hnodup⟩ := List.nodup_cons.mp hnames
      have hne : ∀ m : String × Json, m.1 ∉ n :: names → m.1 ≠ n := by
        rintro m hm rfl
        exact hm List.mem_cons_self
      refine .cons ?_ ?_
      · have hrest : valuesOf n (given names values) = [] :=
          valuesOf_eq_nil fun m hm heq => hn (heq ▸ (mem_given hm).1)
        have hself : valuesOf n (v.map (n, ·)).toList = v.toList := by
          cases v <;> simp [valuesOf]
        apply member?_of_valuesOf
        rw [given, valuesOf_append, valuesOf_eq_nil fun m hm => hne m (hothers m hm),
          valuesOf_append, valuesOf_append, hrest, hself,
          valuesOf_eq_nil fun m hm => hne m (hextras m hm)]
        simp
      · have hothers' : ∀ m ∈ others ++ (v.map (n, ·)).toList, m.1 ∉ names := by
          intro m hm hmem
          rcases List.mem_append.mp hm with hm | hm
          · exact hothers m hm (List.mem_cons_of_mem n hmem)
          · cases v with
            | none => cases hm
            | some v =>
              rw [List.mem_singleton.mp hm] at hmem
              exact hn hmem
        have hextras' : ∀ m ∈ extras, m.1 ∉ names :=
          fun m hm hmem => hextras m hm (List.mem_cons_of_mem n hmem)
        have htail := ih hnodup (Nat.succ.inj hlength) hothers' hextras'
        simpa only [given, List.append_assoc] using htail

end Json

end Narrative
