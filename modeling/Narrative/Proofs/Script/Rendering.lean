import Narrative.Json.Reader
import Narrative.Proofs.Json.Grammar
import Narrative.Proofs.Json.Integers
import Narrative.Proofs.Json.Members
import Narrative.Proofs.Value
import Narrative.Script.Op

/-! The objects that an operation of a script may be written as: its name and its fields in any order,
among other members. Each of them is read as the operation. -/
namespace Narrative

/-! ### Values -/

namespace Json

theorem readable_word {depth : Nat} (n : UInt32) : (ofNat n.toNat).Readable depth :=
  readable_ofInt (Nat.lt_trans n.toNat_lt (by decide))

end Json

namespace Value
open Json

theorem natAbs_toInt_lt (n : Int32) : n.toInt.natAbs < UInt64.size := by
  have hlow := n.le_toInt
  have hhigh := n.toInt_lt
  have hsize : UInt64.size = 2 ^ 64 := rfl
  omega

/-- A value in its serialized form, floats apart, is read as the value. -/
theorem ofJson?_toJson {v : Value} (h : v.isFloat = false) (inScript : Bool) :
    ofJson? inScript v.toJson = some v := by
  cases v with
  | none => rfl
  | int n => simp [ofJson?, toJson, choice?, int32?_ofInt]
  | float x => cases h
  | bool b => rfl
  | str id => simp [ofJson?, toJson, choice?, StringId.ofJson?, StringId.toJson, word32?_ofNat]
  | divert t => simp [ofJson?, toJson, choice?, word32?_ofNat]
  | frame r =>
    obtain ⟨o, k⟩ := r
    cases k <;> simp [ofJson?, toJson, choice?, word32?_ofNat]

theorem readable_toJson {v : Value} (h : v.isFloat = false) (depth : Nat) :
    v.toJson.Readable (depth + 1) := by
  have hone : ∀ (name : String) (j : Json), j.Readable depth →
      (Json.obj [(name, j)]).Readable (depth + 1) := by
    intro name j hj
    refine .obj fun m hm => ?_
    rwa [List.mem_singleton.mp hm]
  cases v with
  | none => exact .str
  | int n => exact hone _ _ (readable_ofInt (natAbs_toInt_lt n))
  | float x => cases h
  | bool b => exact hone _ _ .bool
  | str id => exact hone _ _ (readable_word id.index)
  | divert t => exact hone _ _ (readable_word t)
  | frame r =>
    obtain ⟨o, k⟩ := r
    cases k <;> exact hone _ _ (readable_word o)

end Value

namespace Script

/-! ### Operations -/

namespace Op

def isFloatFree : Op → Bool
  | .push v | .set _ v => !v.isFloat
  | _ => true

/-- A stack that need not be named, for the whole context. -/
def scopeForms : Option Target → List (List (Option Json))
  | none => [[none], [some .null]]
  | some t => [[some (.str t.text)]]

/-- A stack that need not be named if it is the evaluation stack. -/
def targetForms : Target → List (List (Option Json))
  | .eval => [[none], [some (.str Target.eval.text)]]
  | .call => [[some (.str Target.call.text)]]

/-- What may be given for the fields of an operation, in their order. -/
def forms : Op → List (List (Option Json))
  | .push v => [[some v.toJson]]
  | .set name v => [[some (.str name), some v.toJson]]
  | .get name => [[some (.str name)]]
  | .pushFrame r => [[some (.ofNat r.returnTo.toNat), some r.kind.toJson]]
  | .pop | .top | .popFrame | .hasFrame => [[]]
  | .save s | .restore s | .forget s => scopeForms s
  | .size t | .dump t | .clear t => targetForms t

variable {op : Op} {form : List (Option Json)}

theorem scope?_of_form {s : Option Target} (h : form ∈ scopeForms s) :
    ∃ j, form = [j] ∧ scope? j = some s ∧ ∀ depth v, some v = j → v.Readable depth := by
  cases s with
  | none =>
    simp only [scopeForms, List.mem_cons, List.not_mem_nil, or_false] at h
    rcases h with rfl | rfl
    · exact ⟨_, rfl, rfl, by simp⟩
    · exact ⟨_, rfl, rfl, by rintro _ _ ⟨⟩; exact .null⟩
  | some t =>
    rw [List.mem_singleton.mp h]
    exact ⟨_, rfl, by cases t <;> rfl, by rintro _ _ ⟨⟩; exact .str⟩

theorem target?_of_form {t : Target} (h : form ∈ targetForms t) :
    ∃ j, form = [j] ∧ target? j = some t ∧ ∀ depth v, some v = j → v.Readable depth := by
  cases t with
  | eval =>
    simp only [targetForms, List.mem_cons, List.not_mem_nil, or_false] at h
    rcases h with rfl | rfl
    · exact ⟨_, rfl, rfl, by simp⟩
    · exact ⟨_, rfl, rfl, by rintro _ _ ⟨⟩; exact .str⟩
  | call =>
    rw [List.mem_singleton.mp h]
    exact ⟨_, rfl, rfl, by rintro _ _ ⟨⟩; exact .str⟩

theorem build?_of_form (hop : op.isFloatFree = true) (h : form ∈ op.forms) :
    build? op.verb form = some op := by
  -- but for the stack, which may be left out, an operation has one form
  cases op with
  | push v =>
    have hv : v.isFloat = false := by simpa [isFloatFree] using hop
    rw [List.mem_singleton.mp h, verb, build?, Value.ofJson?_toJson hv]
    rfl
  | set name v =>
    have hv : v.isFloat = false := by simpa [isFloatFree] using hop
    rw [List.mem_singleton.mp h, verb, build?, Value.ofJson?_toJson hv]
    rfl
  | get name =>
    rw [List.mem_singleton.mp h]
    rfl
  | pushFrame r =>
    have hkind : FrameKind.ofJson? true r.kind.toJson = some r.kind := by cases r.kind <;> rfl
    rw [List.mem_singleton.mp h, verb, build?, frame?, Json.word32?_ofNat, hkind]
    rfl
  | pop | top | popFrame | hasFrame =>
    rw [List.mem_singleton.mp h]
    rfl
  | save s | restore s | forget s =>
    obtain ⟨j, rfl, hj, -⟩ := scope?_of_form h
    rw [verb, build?, hj]
    rfl
  | size t | dump t | clear t =>
    obtain ⟨j, rfl, hj, -⟩ := target?_of_form h
    rw [verb, build?, hj]
    rfl

theorem length_form (h : form ∈ op.forms) : op.verb.fields.length = form.length := by
  cases op with
  | push | set | get | pushFrame | pop | top | popFrame | hasFrame =>
    rw [List.mem_singleton.mp h]
    rfl
  | save s | restore s | forget s =>
    obtain ⟨j, rfl, -⟩ := scope?_of_form h
    rfl
  | size t | dump t | clear t =>
    obtain ⟨j, rfl, -⟩ := target?_of_form h
    rfl

/-- A member of an operation's object that says nothing about it: it names neither the operation nor a
field of it. Its value stands inside two brackets. -/
structure Extra (verb : Verb) (m : String × Json) : Prop where
  not_op : m.1 ≠ "op"
  not_field : m.1 ∉ verb.fields
  readable : m.2.Readable (Reader.maxDepth - 2)

/-- The object names the operation once and gives its fields, in any order and among others. -/
def Rendered (op : Op) (j : Json) : Prop :=
  ∃ form ∈ op.forms, ∃ extras members, (∀ m ∈ extras, Extra op.verb m) ∧
    members.Perm (("op", .str op.verb.text) :: (Json.given op.verb.fields form ++ extras)) ∧
    j = .obj members

theorem nodup_fields (verb : Verb) : verb.fields.Nodup ∧ "op" ∉ verb.fields := by
  cases verb <;> decide

theorem ofText?_text (verb : Verb) : Verb.ofText? verb.text = some verb := by
  cases verb <;> rfl

theorem ofJson?_of_rendered {j : Json} (hop : op.isFloatFree = true) (h : Rendered op j) :
    ofJson? j = some op := by
  obtain ⟨form, hform, extras, members, hextras, hperm, rfl⟩ := h
  obtain ⟨hnodup, hnot⟩ := nodup_fields op.verb
  have hname : Json.member? "op" members = some (some (.str op.verb.text)) := by
    have hothers : ∀ m ∈ Json.given op.verb.fields form ++ extras, m.1 ∉ ["op"] := by
      intro m hm
      rw [List.mem_singleton]
      rcases List.mem_append.mp hm with hm | hm
      · rintro heq
        exact hnot (heq ▸ (Json.mem_given hm).1)
      · exact (hextras m hm).not_op
    have hnone : ∀ m ∈ ([] : List (String × Json)), m.1 ∉ ["op"] := by simp
    have hgiven : List.Forall₂ _ ["op"] [some (Json.str op.verb.text)] :=
      Json.member?_given (by simp) rfl hnone hothers
    rw [Json.member?_perm hperm]
    exact (List.forall₂_cons.mp hgiven).1
  have hfields : op.verb.fields.mapM (fun f => Json.member? f members) = some form := by
    simp only [Json.member?_perm hperm]
    have hothers : ∀ m ∈ [("op", Json.str op.verb.text)], m.1 ∉ op.verb.fields := by
      intro m hm
      rwa [List.mem_singleton.mp hm]
    exact mapM_eq_some_iff.mpr (Json.member?_given hnodup (length_form hform) hothers
      fun m hm => (hextras m hm).not_field)
  rw [ofJson?, ofMembers?, hname]
  simp only [Option.bind_eq_bind, Option.bind_some, Json.str?, ofText?_text, hfields,
    build?_of_form hop hform]

theorem readable_of_form (hop : op.isFloatFree = true) (h : form ∈ op.forms) {j : Json} {depth : Nat}
    (hj : some j ∈ form) : j.Readable (depth + 1) := by
  cases op with
  | push v =>
    have hv : v.isFloat = false := by simpa [isFloatFree] using hop
    simp only [forms, List.mem_singleton] at h
    subst h
    obtain rfl : j = v.toJson := by simpa using hj
    exact Value.readable_toJson hv depth
  | set name v =>
    have hv : v.isFloat = false := by simpa [isFloatFree] using hop
    simp only [forms, List.mem_singleton] at h
    subst h
    obtain rfl | rfl : j = .str name ∨ j = v.toJson := by simpa using hj
    · exact .str
    · exact Value.readable_toJson hv depth
  | get name =>
    simp only [forms, List.mem_singleton] at h
    subst h
    obtain rfl : j = .str name := by simpa using hj
    exact .str
  | pushFrame r =>
    simp only [forms, List.mem_singleton] at h
    subst h
    obtain rfl | rfl : j = .ofNat r.returnTo.toNat ∨ j = r.kind.toJson := by simpa using hj
    · exact Json.readable_word _
    · exact .str
  | pop | top | popFrame | hasFrame =>
    rw [List.mem_singleton.mp h] at hj
    cases hj
  | save s | restore s | forget s =>
    obtain ⟨_, rfl, -, hread⟩ := scope?_of_form h
    exact hread _ j (List.mem_singleton.mp hj)
  | size t | dump t | clear t =>
    obtain ⟨_, rfl, -, hread⟩ := target?_of_form h
    exact hread _ j (List.mem_singleton.mp hj)

theorem readable_of_rendered {j : Json} (hop : op.isFloatFree = true) (h : Rendered op j) :
    j.Readable (Reader.maxDepth - 1) := by
  obtain ⟨form, hform, extras, members, hextras, hperm, rfl⟩ := h
  refine .obj fun m hm => ?_
  rcases List.mem_cons.mp (hperm.mem_iff.mp hm) with rfl | hm
  · exact .str
  · rcases List.mem_append.mp hm with hm | hm
    · exact readable_of_form hop hform (Json.mem_given hm).2
    · exact (hextras m hm).readable

end Op

/-! ### Objects that are no operation -/

def Verb.required (verb : Verb) : List String := verb.fields.filter (· ≠ "stack")

namespace Op
variable {members : List (String × Json)}

/-- What keeps an object from being an operation. -/
inductive Defective (members : List (String × Json)) : Prop where
  | unknownOp {name} (h : ("op", .str name) ∈ members) (hname : ∀ verb : Verb, verb.text ≠ name)
  | missingOp (h : ∀ m ∈ members, m.1 ≠ "op")
  | repeatedOp (h : 2 ≤ members.countP (·.1 = "op"))
  | missingField {verb : Verb} {field} (hop : ("op", .str verb.text) ∈ members)
    (hfield : field ∈ verb.required) (h : ∀ m ∈ members, m.1 ≠ field)
  | repeatedField {verb : Verb} {field} (hop : ("op", .str verb.text) ∈ members)
    (hfield : field ∈ verb.fields) (h : 2 ≤ members.countP (·.1 = field))

/-- What an object that is read as an operation consists of. -/
theorem parts_of_ofMembers? (h : ofMembers? members = some op) :
    ∃ name verb form, Json.member? "op" members = some (some (.str name)) ∧
      Verb.ofText? name = some verb ∧
      verb.fields.mapM (fun f => Json.member? f members) = some form ∧
      build? verb form = some op := by
  simp only [ofMembers?, Option.bind_eq_bind, Option.bind_eq_some_iff] at h
  obtain ⟨_, hop, name, ⟨j, rfl, hname⟩, verb, hverb, form, hform, hbuild⟩ := h
  cases j with
  | str s =>
    obtain rfl : s = name := by simpa [Json.str?] using hname
    exact ⟨s, verb, form, hop, hverb, hform, hbuild⟩
  | null | bool | num | arr | obj => cases hname

/-- An operation with fields that have to be given is built of given fields only. -/
theorem isSome_of_build? {verb : Verb} (hbuild : build? verb form = some op)
    (hverb : verb.required ≠ []) : ∀ v ∈ form, v.isSome = true := by
  unfold build? at hbuild
  split at hbuild <;> first | exact absurd rfl hverb | cases hbuild | simp

theorem given_of_ofMembers? {verb : Verb}
    (hform : verb.fields.mapM (fun f => Json.member? f members) = some form)
    (hbuild : build? verb form = some op) {field : String} (hfield : field ∈ verb.required) :
    ∃ v, Json.member? field members = some (some v) := by
  have hall := mapM_eq_some_iff.mp hform
  obtain ⟨i, hi, hget⟩ := List.getElem_of_mem (List.mem_of_mem_filter hfield)
  have hi' : i < form.length := hall.length_eq ▸ hi
  have hsome := isSome_of_build? hbuild (List.ne_nil_of_mem hfield) form[i] (List.getElem_mem hi')
  obtain ⟨v, hv⟩ := Option.isSome_iff_exists.mp hsome
  have hat := hall.get hi hi'
  rw [List.get_eq_getElem, List.get_eq_getElem, hget, hv] at hat
  exact ⟨v, hat⟩

theorem ofMembers?_of_defective (h : Defective members) : ofMembers? members = none := by
  refine Option.eq_none_iff_forall_not_mem.mpr fun op hop => ?_
  obtain ⟨name, verb, form, hname, hverb, hform, hbuild⟩ := parts_of_ofMembers? hop
  have htext : verb.text = name := by simpa using List.find?_some hverb
  have hsame : ∀ {verb' : Verb}, ("op", .str verb'.text) ∈ members → verb' = verb := by
    intro verb' hmem
    cases Json.eq_of_member? hname hmem
    rw [ofText?_text] at hverb
    exact Option.some.inj hverb
  cases h with
  | unknownOp h hunknown =>
    cases Json.eq_of_member? hname h
    exact hunknown verb htext
  | missingOp h =>
    rw [Json.member?_of_valuesOf (v := none) (Json.valuesOf_eq_nil h)] at hname
    cases hname
  | repeatedOp h =>
    rw [Json.member?_eq_none h] at hname
    cases hname
  | missingField hop hfield h =>
    obtain rfl := hsame hop
    obtain ⟨v, hv⟩ := given_of_ofMembers? hform hbuild hfield
    rw [Json.member?_of_valuesOf (v := none) (Json.valuesOf_eq_nil h)] at hv
    cases hv
  | repeatedField hop hfield h =>
    obtain rfl := hsame hop
    rw [mapM_eq_none hfield (Json.member?_eq_none h)] at hform
    cases hform

end Op
end Script
end Narrative
