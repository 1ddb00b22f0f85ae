import Narrative.CommandLine.Program
import Narrative.Proofs.Json.Reading
import Narrative.Proofs.Script.Rendering

/-! Scripts as texts: every text that a script may be written as is read as that script, and a text with
an element that is no operation is not read at all. -/
namespace Narrative
namespace Script

/-- The text is an array of objects, one for each operation of the script in order. -/
def Renders (script : Script) (text : String) : Prop :=
  ∃ items, List.Forall₂ Op.Rendered script items ∧ Json.Written (.padded (.arr items)) text.toList

theorem parse?_of_written {items : List Json} {text : String}
    (hitems : ∀ j ∈ items, j.Readable (Reader.maxDepth - 1))
    (h : Json.Written (.padded (.arr items)) text.toList) :
    parse? text = items.mapM Op.ofJson? := by
  rw [parse?, Json.parse?_of_written h (.arr hitems)]
  rfl

theorem parse?_of_renders {script : Script} {text : String}
    (hfloat : ∀ op ∈ script, op.isFloatFree = true) (h : Renders script text) :
    parse? text = some script := by
  obtain ⟨items, hrendered, hwritten⟩ := h
  have hread : List.Forall₂ (fun j op => j.Readable (Reader.maxDepth - 1) ∧ Op.ofJson? j = some op)
      items script := by
    refine (((List.forall₂_and_left _ _).mpr ⟨hfloat, hrendered⟩).imp ?_).flip
    exact fun op j ⟨hop, hj⟩ => ⟨Op.readable_of_rendered hop hj, Op.ofJson?_of_rendered hop hj⟩
  obtain ⟨hitems, hops⟩ := (List.forall₂_and_left _ _).mp hread
  rw [parse?_of_written hitems hwritten]
  exact mapM_eq_some_iff.mpr hops

open CommandLine in
/-- A script that is not read is not run either, whatever the configuration. -/
theorem runFile_of_unread {read : String → Except ReadError ByteArray} {path text : String}
    (htext : readText read path = .ok text) (h : parse? text = none) (config : Option String) :
    ∃ e, runFile read path config = .error e := by
  cases hconfig : loadConfig read config with
  | error e => exact ⟨e, by rw [runFile, hconfig]; rfl⟩
  | ok c =>
    have hscript : loadScript read path = .error .script := by
      simp [loadScript, htext, bind, Except.bind, h, throw, throwThe, MonadExceptOf.throw]
    exact ⟨.script, by simp [runFile, hconfig, hscript, bind, Except.bind]⟩

/-- A script without floats is read off every text that it may be written as. A text of which some
element is no operation is not read, and nothing of it is run. -/
theorem parse_reads_renderings :
    (∀ script text, (∀ op ∈ script, op.isFloatFree = true) → Renders script text →
      parse? text = some script) ∧
    ∀ items text, (∀ j ∈ items, j.Readable (Reader.maxDepth - 1)) →
      Json.Written (.padded (.arr items)) text.toList →
      (∃ members, .obj members ∈ items ∧ Op.Defective members) →
      parse? text = none ∧ ∀ read path config, CommandLine.readText read path = .ok text →
        ∃ e, CommandLine.runFile read path config = .error e := by
  refine ⟨fun script text => parse?_of_renders, fun items text hitems hwritten hdefect => ?_⟩
  obtain ⟨members, hmem, hdefect⟩ := hdefect
  have hnone : parse? text = none := by
    rw [parse?_of_written hitems hwritten]
    exact mapM_eq_none hmem (Op.ofMembers?_of_defective hdefect)
  exact ⟨hnone, fun read path config htext => runFile_of_unread htext hnone config⟩

/-- The value comes before the name of the operation, another member before both, and the name of the
member that tells the operation is escaped. -/
def scrambled : String :=
  "[ \x7b\"note\": [true],\t\"value\":\x7b\"int\":-5\x7d, \"\\u006fp\":\"push\"\x7d ,\n\x7b\"op\":\"size\"\x7d]"

def scrambledItems : List Json :=
  [.obj [("note", .arr [.bool true]), ("value", .obj [("int", .ofInt (-5))]), ("op", .str "push")],
    .obj [("op", .str "size")]]

theorem rendered_scrambledItems :
    List.Forall₂ Op.Rendered [.push (.int (-5)), .size .eval] scrambledItems := by
  have hnote : ∀ m ∈ [("note", Json.arr [.bool true])], Op.Extra .push m := by
    intro m hm
    rw [List.mem_singleton.mp hm]
    refine ⟨by decide, by decide, .arr fun v hv => ?_⟩
    rw [List.mem_singleton.mp hv]
    exact .bool
  refine .cons ?_ (.cons ?_ .nil)
  · exact ⟨_, List.mem_singleton_self _, _, _, hnote, List.reverse_perm [_, _, _], rfl⟩
  · exact ⟨[none], List.mem_cons_self, [], _, by simp, .refl _, rfl⟩

theorem written_scrambled : Json.Written (.padded (.arr scrambledItems)) scrambled.toList := by
  have hspace : Json.Blank [' '] := by simp [Json.Blank]
  have hnil := Json.blank_nil
  have hnote : Json.Written (.padded (.arr [.bool true])) " [true]".toList :=
    .padded (a := [' ']) (b := []) hspace (.arr (.lastItem (.tight .true))) hnil
  have hfive : Numeral.Written (.ofInt (-5)) ['-', '5'] :=
    ⟨⟨⟨by decide, by decide⟩, by decide, by decide⟩, [], .absent, by decide⟩
  have hint : Json.Written (.padded (.obj [("int", .ofInt (-5))])) "\x7b\"int\":-5\x7d".toList :=
    .tight (.obj (.lastMember (Json.name_tight (Json.quoted_self (by simp))) (.tight (.num hfive))))
  have hzero : Json.HexDigit 0 '0' := ⟨by decide, .inl rfl⟩
  have hsix : Json.HexDigit 6 '6' := ⟨by decide, .inl rfl⟩
  have hfifteen : Json.HexDigit 15 'f' := ⟨by decide, .inl rfl⟩
  have hletter : Json.Spelled 'o' "\\u006f".toList := .unit (.mk hzero hzero hsix hfifteen)
  have hop : Json.Quoted "op" "\"\\u006fp\"".toList :=
    ⟨_, .cons hletter (Json.spelledAll_self (s := ['p']) (by simp)), by decide⟩
  have hpush : Json.Written (.padded (.str "push")) "\"push\"".toList :=
    .tight (.str (Json.quoted_self (by simp)))
  have hsize : Json.Written (.padded (.str "size")) "\"size\"".toList :=
    .tight (.str (Json.quoted_self (by simp)))
  have hvalue : Json.Name "value" "\t\"value\"".toList :=
    ⟨['\t'], _, [], by simp [Json.Blank], Json.quoted_self (by simp), hnil, rfl⟩
  have hfirst := Json.Written.member (Json.name_tight (Json.quoted_self (s := "note") (by simp)))
    hnote (.member hvalue hint (.lastMember ⟨[' '], _, [], hspace, hop, hnil, rfl⟩ hpush))
  have hsecond := Json.Written.lastMember
    (Json.name_tight (Json.quoted_self (s := "op") (by simp))) hsize
  have hitems := Json.Written.item (.padded hspace (.obj hfirst) hspace)
    (.lastItem (.padded (a := ['\n']) (by simp [Json.Blank]) (.obj hsecond) hnil))
  exact .tight (.arr hitems)

theorem scrambled_reads :
    parse? scrambled = some [.push (.int (-5)), .size .eval] ∧
      parse? "[\x7b\x7d]" = none := by
  obtain ⟨hreads, hfails⟩ := parse_reads_renderings
  refine ⟨hreads _ _ (by decide) ⟨_, rendered_scrambledItems, written_scrambled⟩, ?_⟩
  have hempty : Json.Written (.padded (.arr [.obj []])) "[\x7b\x7d]".toList :=
    .tight (.arr (.lastItem (.tight (.obj (.noMember Json.blank_nil)))))
  have hitems : ∀ j ∈ [Json.obj []], j.Readable (Reader.maxDepth - 1) := by
    intro j hj
    rw [List.mem_singleton.mp hj]
    exact .obj (by simp)
  exact (hfails _ _ hitems hempty ⟨[], List.mem_cons_self, .missingOp (by simp)⟩).1

end Script
end Narrative
