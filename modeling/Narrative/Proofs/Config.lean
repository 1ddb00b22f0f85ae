import Narrative.Config
import Narrative.Proofs.Json.Members
import Narrative.Proofs.Json.Writing

/-! Configurations as texts: an object that gives some of the sizes is read as those sizes and the
defaults, in whatever order and spelling they are given, unless one of them is zero. An object with any
other member, or with one member twice, is malformed. -/
namespace Narrative
namespace Config

/-! ### Zero sizes -/

variable {c : Config} {f : Field}

theorem mem_fields (f : Field) : f ∈ fields := by cases f <;> decide

theorem nodup_names : (fields.map Field.name).Nodup := by decide

/-- Every default passes its own check. -/
theorem get_default_ne_zero (f : Field) : get {} f ≠ 0 := by cases f <;> decide

theorem zero?_eq_none_iff : c.zero? = none ↔ ∀ f, c.get f ≠ 0 := by
  simp [zero?, List.find?_eq_none, mem_fields]

theorem validate_eq_ok_iff : c.validate = .ok () ↔ ∀ f, c.get f ≠ 0 := by
  rw [← zero?_eq_none_iff, validate]
  cases c.zero? <;> simp

/-! ### Some of the sizes -/

section Sizes
variable {sizes : Field → Option UInt64}

/-- The sizes that are given, and the defaults for the others. -/
def withSizes (sizes : Field → Option UInt64) : Config :=
  let d : Config := {}
  { call := (sizes .call).getD d.call
    eval := (sizes .eval).getD d.eval
    container := (sizes .container).getD d.container }

def sizeJson (sizes : Field → Option UInt64) (f : Field) : Option Json :=
  (sizes f).map fun n => .ofNat n.toNat

/-- The members that give some of the sizes, in the order of the fields. -/
def membersOf (sizes : Field → Option UInt64) : List (String × Json) :=
  Json.given (fields.map Field.name) (fields.map (sizeJson sizes))

/-- The first field, in the order of the fields, that is given as zero. -/
structure FirstZero (sizes : Field → Option UInt64) (f : Field) : Prop where
  zero : sizes f = some 0
  first : ∃ before after, fields = before ++ f :: after ∧ ∀ g ∈ before, sizes g ≠ some 0

theorem get_withSizes (sizes : Field → Option UInt64) (f : Field) :
    (withSizes sizes).get f = (sizes f).getD (get {} f) := by cases f <;> rfl

theorem get_withSizes_eq_zero_iff : (withSizes sizes).get f = 0 ↔ sizes f = some 0 := by
  rw [get_withSizes]
  cases sizes f with
  | none => simpa using get_default_ne_zero f
  | some n => simp

theorem zero?_withSizes_eq_none_iff :
    (withSizes sizes).zero? = none ↔ ∀ f, sizes f ≠ some 0 := by
  simp only [zero?_eq_none_iff, ne_eq, get_withSizes_eq_zero_iff]

theorem zero?_withSizes_eq_some_iff : (withSizes sizes).zero? = some f ↔ FirstZero sizes f := by
  rw [zero?, List.find?_eq_some_iff_append]
  simp only [beq_iff_eq, Bool.not_eq_true', beq_eq_false_iff_ne, ne_eq, get_withSizes_eq_zero_iff]
  exact ⟨fun ⟨hzero, hfirst⟩ => ⟨hzero, hfirst⟩, fun ⟨hzero, hfirst⟩ => ⟨hzero, hfirst⟩⟩

theorem eq_ofNat_of_mem {m : String × Json} (h : m ∈ membersOf sizes) :
    ∃ n : UInt64, m.2 = .ofNat n.toNat := by
  obtain ⟨f, -, hf⟩ := List.mem_map.mp (Json.mem_given h).2
  obtain ⟨n, -, hn⟩ := Option.map_eq_some_iff.mp hf
  exact ⟨n, hn.symm⟩

theorem readable_of_mem {m : String × Json} (h : m ∈ membersOf sizes) (depth : Nat) :
    m.2.Readable depth := by
  obtain ⟨n, hn⟩ := eq_ofNat_of_mem h
  rw [hn]
  exact Json.readable_ofInt n.toNat_lt

theorem wellFormed_of_mem_tokens {n : Numeral}
    (h : .num n ∈ (Json.obj (membersOf sizes)).tokens) : n.WellFormed := by
  obtain ⟨m, hm, hn⟩ := Json.num_mem_membersTokens.mp (by simpa [Json.tokens] using h)
  obtain ⟨k, hk⟩ := eq_ofNat_of_mem hm
  rw [hk, Json.ofNat, Json.tokens, List.mem_singleton, Token.num.injEq] at hn
  rw [hn]
  exact Numeral.wellFormed_ofInt _

end Sizes

/-! ### Objects -/

section Objects
variable {sizes : Field → Option UInt64} {members : List (String × Json)}

theorem size?_sizeJson (default : UInt64) (f : Field) :
    size? default (sizeJson sizes f) = some ((sizes f).getD default) := by
  rw [sizeJson]
  cases sizes f with
  | none => rfl
  | some n => exact Json.word64?_ofNat n

theorem member?_of_perm (h : members.Perm (membersOf sizes)) (f : Field) :
    Json.member? f.name members = some (sizeJson sizes f) := by
  have hfound : List.Forall₂ _ (fields.map Field.name) (fields.map (sizeJson sizes)) :=
    Json.member?_given nodup_names rfl (List.forall_mem_nil _) (List.forall_mem_nil _)
  rw [List.forall₂_map_left_iff, List.forall₂_map_right_iff, List.forall₂_same] at hfound
  rw [Json.member?_perm h]
  simpa [membersOf] using hfound f (mem_fields f)

theorem ofJson?_of_perm (h : members.Perm (membersOf sizes)) :
    ofJson? (.obj members) = some (withSizes sizes) := by
  have hknown : members.all (fun m => fields.any (·.name = m.1)) = true := by
    rw [List.all_eq_true]
    intro m hm
    obtain ⟨f, hf, hname⟩ := List.mem_map.mp (Json.mem_given (h.mem_iff.mp hm)).1
    exact List.any_eq_true.mpr ⟨f, hf, by simpa using hname⟩
  simp only [ofJson?, hknown, if_true, member?_of_perm h, Option.bind_eq_bind, Option.bind_some,
    ofSizes?, size?_sizeJson]
  rfl

/-- What keeps an object from being a configuration, whatever its other members are. -/
inductive Defective (members : List (String × Json)) : Prop where
  | unknown {m} (hm : m ∈ members) (h : ∀ f : Field, f.name ≠ m.1)
  | repeated {name} (h : 2 ≤ members.countP (·.1 = name))

theorem parts_of_ofJson? (h : ofJson? (.obj members) = some c) :
    (∀ m ∈ members, ∃ f : Field, f.name = m.1) ∧
      ∀ f : Field, ∃ v, Json.member? f.name members = some v := by
  simp only [ofJson?, Option.bind_eq_bind] at h
  split at h
  · next hknown =>
    simp only [Option.bind_eq_some_iff] at h
    obtain ⟨call, hcall, eval, heval, container, hcontainer, -⟩ := h
    refine ⟨fun m hm => ?_, fun f => ?_⟩
    · obtain ⟨f, -, hf⟩ := List.any_eq_true.mp (List.all_eq_true.mp hknown m hm)
      exact ⟨f, by simpa using hf⟩
    · cases f with
      | call => exact ⟨call, hcall⟩
      | eval => exact ⟨eval, heval⟩
      | container => exact ⟨container, hcontainer⟩
  · cases h

theorem ofJson?_of_defective (h : Defective members) : ofJson? (.obj members) = none := by
  refine Option.eq_none_iff_forall_not_mem.mpr fun c hc => ?_
  obtain ⟨hknown, hfound⟩ := parts_of_ofJson? hc
  cases h with
  | unknown hm hnone =>
    obtain ⟨f, hf⟩ := hknown _ hm
    exact hnone f hf
  | @repeated name htwice =>
    have hsome : 0 < members.countP (·.1 = name) := by omega
    obtain ⟨m, hm, hname⟩ := List.countP_pos_iff.mp hsome
    obtain ⟨f, hf⟩ := hknown m hm
    obtain ⟨v, hv⟩ := hfound f
    have hfield : f.name = name := by simpa [hf] using hname
    rw [hfield, Json.member?_eq_none htwice] at hv
    cases hv

end Objects

/-! ### Texts -/

section Texts
variable {text : String} {j : Json}

theorem parse_of_read (hj : Json.parse? text = some j) (hc : ofJson? j = some c) :
    parse text = match c.zero? with
      | none => .ok c
      | some f => .error (.zeroCapacity f) := by
  have hread : Json.parse? text >>= ofJson? = some c := by rw [hj]; exact hc
  simp only [parse, hread, validate]
  cases c.zero? <;> rfl

theorem parse_of_unread (h : ∀ j, Json.parse? text = some j → ofJson? j = none) :
    parse text = .error .malformed := by
  have hunread : Json.parse? text >>= ofJson? = none := Option.bind_eq_none_iff.mpr h
  simp only [parse, hunread]

theorem validate_of_parse (h : parse text = .ok c) : c.validate = .ok () := by
  unfold parse at h
  split at h
  · cases h
  · next d _ =>
    cases hd : d.validate with
    | error e =>
      rw [hd] at h
      cases h
    | ok u =>
      rw [hd] at h
      cases h
      exact hd

section Sizes
variable {sizes : Field → Option UInt64} {members : List (String × Json)}
  (hperm : members.Perm (membersOf sizes)) (h : Json.Written (.padded (.obj members)) text.toList)
include hperm h

theorem parse_of_members :
    parse text = match (withSizes sizes).zero? with
      | none => .ok (withSizes sizes)
      | some f => .error (.zeroCapacity f) :=
  have hreadable : (Json.obj members).Readable Reader.maxDepth :=
    .obj fun _ hm => readable_of_mem (hperm.mem_iff.mp hm) _
  parse_of_read (Json.parse?_of_written h hreadable) (ofJson?_of_perm hperm)

theorem parse_eq_ok_iff : parse text = .ok (withSizes sizes) ↔ ∀ f, sizes f ≠ some 0 := by
  rw [parse_of_members hperm h, ← zero?_withSizes_eq_none_iff]
  cases (withSizes sizes).zero? <;> simp

theorem parse_of_zero (hzero : ∃ f, sizes f = some 0) :
    ∃ f, FirstZero sizes f ∧ parse text = .error (.zeroCapacity f) := by
  cases hfirst : (withSizes sizes).zero? with
  | none =>
    obtain ⟨f, hf⟩ := hzero
    exact absurd hf (zero?_withSizes_eq_none_iff.mp hfirst f)
  | some f =>
    refine ⟨f, zero?_withSizes_eq_some_iff.mp hfirst, ?_⟩
    rw [parse_of_members hperm h, hfirst]

end Sizes

theorem parse_of_defective {members : List (String × Json)} (hdefect : Defective members)
    (h : Json.Written (.padded (.obj members)) text.toList) : parse text = .error .malformed := by
  refine parse_of_unread fun j hj => ?_
  rw [Json.eq_of_parse? h hj]
  exact ofJson?_of_defective hdefect

theorem parse_toJson (h : c.validate = .ok ()) : parse c.toJson.text = .ok c := by
  -- its object gives all of the sizes, in the order of the fields
  have hwritten : Json.Written (.padded (.obj (membersOf fun f => some (c.get f))))
      c.toJson.text.toList :=
    Json.written_text fun _ => wellFormed_of_mem_tokens
  have hpositive : ∀ f, some (c.get f) ≠ some 0 := by
    simpa using validate_eq_ok_iff.mp h
  exact (parse_eq_ok_iff (.refl _) hwritten).mpr hpositive

/-- Which sizes are given, and nothing about their order or the spelling of the text, decides what is
read: the configuration with these sizes, or an error that names the first one that is zero. An object
with an unknown or a repeated member is malformed even if some size is zero. What is read passes its
check, and a configuration that passes it is read back from its own text. -/
theorem parse_reads_sizes :
    (∀ sizes members text, members.Perm (membersOf sizes) →
      Json.Written (.padded (.obj members)) text.toList →
      (parse text = .ok (withSizes sizes) ↔ ∀ f, sizes f ≠ some 0) ∧
      ((∃ f, sizes f = some 0) →
        ∃ f, FirstZero sizes f ∧ parse text = .error (.zeroCapacity f))) ∧
    (∀ members text, Json.Written (.padded (.obj members)) text.toList → Defective members →
      parse text = .error .malformed) ∧
    (∀ text c, parse text = .ok c → c.validate = .ok ()) ∧
    ∀ c, c.validate = .ok () → parse c.toJson.text = .ok c := by
  refine ⟨fun sizes members text hperm h => ?_, fun members text h hdefect => ?_,
    fun text c => validate_of_parse, fun c => parse_toJson⟩
  · exact ⟨parse_eq_ok_iff hperm h, parse_of_zero hperm h⟩
  · exact parse_of_defective hdefect h

/-- The sizes of the evaluation stack and of the containers are both zero. -/
def twoZeros : Field → Option UInt64
  | .call => none
  | .eval | .container => some 0

/-- The later field comes first, and the name of the other one is escaped. -/
def reversed : String := "\x7b\"container_stack_size\":0,\n\"\\u0065val_stack_size\" : 0\x7d"

def onlyEval : Field → Option UInt64
  | .eval => some 8
  | .call | .container => none

/-- A zero size before an unknown member, whose number is past the largest double. -/
def foreign : String := "\x7b\"call_stack_size\":0,\"heap_size\":1e400\x7d"

theorem written_reversed :
    Json.Written (.padded (.obj [("container_stack_size", .ofNat 0), ("eval_stack_size", .ofNat 0)]))
      reversed.toList := by
  have hspace : Json.Blank [' '] := by simp [Json.Blank]
  have hzero : Json.HexDigit 0 '0' := ⟨by decide, .inl rfl⟩
  have hsix : Json.HexDigit 6 '6' := ⟨by decide, .inl rfl⟩
  have hfive : Json.HexDigit 5 '5' := ⟨by decide, .inl rfl⟩
  have hletter : Json.Spelled 'e' "\\u0065".toList := .unit (.mk hzero hzero hsix hfive)
  have heval : Json.Quoted "eval_stack_size" "\"\\u0065val_stack_size\"".toList :=
    ⟨_, .cons hletter (Json.spelledAll_self (s := "val_stack_size".toList) (by simp)), by decide⟩
  have hname : Json.Name "eval_stack_size" "\n\"\\u0065val_stack_size\" ".toList :=
    ⟨['\n'], _, [' '], by simp [Json.Blank], heval, hspace, rfl⟩
  have hlast : Json.Written (.padded (.ofNat 0)) " 0".toList :=
    .padded hspace (Json.written_ofNat 0) Json.blank_nil
  have hfirst := Json.name_tight (Json.quoted_self (s := "container_stack_size") (by simp))
  exact .tight (.obj (.member hfirst (Json.written_ofNat 0).tight (.lastMember hname hlast)))

theorem written_onlyEval :
    Json.Written (.padded (.obj (membersOf onlyEval))) "\x7b\"eval_stack_size\":8\x7d".toList := by
  have hname := Json.name_tight (Json.quoted_self (s := "eval_stack_size") (by simp))
  exact .tight (.obj (.lastMember hname (Json.written_ofNat 8).tight))

theorem written_foreign :
    Json.Written (.padded (.obj [("call_stack_size", .ofNat 0),
      ("heap_size", .num ⟨false, [1], [], some 400⟩)])) foreign.toList := by
  have hone : Numeral.WellFormed ⟨false, [1], [], some 400⟩ :=
    ⟨⟨by decide, by decide⟩, by decide, by decide⟩
  have hhuge := Json.Written.num (Numeral.written_chars hone)
  have hcall := Json.name_tight (Json.quoted_self (s := "call_stack_size") (by simp))
  have hheap := Json.name_tight (Json.quoted_self (s := "heap_size") (by simp))
  exact .tight (.obj (.member hcall (Json.written_ofNat 0).tight (.lastMember hheap hhuge.tight)))

theorem reversed_reads_sizes :
    parse reversed = .error (.zeroCapacity .eval) ∧
      (parse "\x7b\"eval_stack_size\":8\x7d" = .ok ⟨512, 8, 128⟩ ∧
        validate ⟨512, 8, 128⟩ = .ok ()) ∧
      parse foreign = .error .malformed ∧
      parse (toJson ⟨1, 18446744073709551615, 2⟩).text = .ok ⟨1, 18446744073709551615, 2⟩ := by
  obtain ⟨hsizes, hdefective, hvalid, hback⟩ := parse_reads_sizes
  refine ⟨?_, ?_, ?_, hback _ (by decide)⟩
  · have hperm : [("container_stack_size", Json.ofNat 0), ("eval_stack_size", Json.ofNat 0)].Perm
        (membersOf twoZeros) := .swap _ _ _
    obtain ⟨f, hf, hparse⟩ := (hsizes _ _ _ hperm written_reversed).2 ⟨.eval, rfl⟩
    have hfirst : (withSizes twoZeros).zero? = some .eval := rfl
    rw [zero?_withSizes_eq_some_iff.mpr hf, Option.some.injEq] at hfirst
    rwa [hfirst] at hparse
  · have hpositive : ∀ f, onlyEval f ≠ some 0 := by
      intro f
      cases f <;> decide
    have hparse := (hsizes _ _ _ (.refl _) written_onlyEval).1.mpr hpositive
    exact ⟨hparse, hvalid _ _ hparse⟩
  · have hheap : ∀ f : Field, f.name ≠ "heap_size" := by
      intro f
      cases f <;> decide
    exact hdefective _ _ written_foreign (.unknown (List.mem_cons_of_mem _ List.mem_cons_self) hheap)

end Texts

end Config
end Narrative
