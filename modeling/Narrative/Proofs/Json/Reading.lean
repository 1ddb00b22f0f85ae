import Narrative.Json.Reader
import Narrative.Proofs.Json.Spelling

/-! Every text that the grammar gives a value is read as that value, if its arrays and objects do not
nest too deep and its numbers are doubles. If not, the text is not read at all. -/
namespace Narrative

namespace Json

mutual
def tokens : Json → List Token
  | .null => [.null]
  | .bool b => [.bool b]
  | .num n => [.num n]
  | .str s => [.str s]
  | .arr vs => .leftBracket :: (itemsTokens vs ++ [.rightBracket])
  | .obj ms => .leftBrace :: (membersTokens ms ++ [.rightBrace])

def itemsTokens : List Json → List Token
  | [] => []
  | [v] => v.tokens
  | v :: w :: rest => v.tokens ++ .comma :: itemsTokens (w :: rest)

def membersTokens : List (String × Json) → List Token
  | [] => []
  | [(k, v)] => .str k :: .colon :: v.tokens
  | (k, v) :: m :: rest => .str k :: .colon :: (v.tokens ++ .comma :: membersTokens (m :: rest))
end

def Phrase.tokens : Phrase → List Token
  | .value j | .padded j => j.tokens
  | .items vs => itemsTokens vs
  | .members ms => membersTokens ms

mutual
/-- How deep arrays and objects nest. -/
def depth : Json → Nat
  | .arr vs => itemsDepth vs + 1
  | .obj ms => membersDepth ms + 1
  | _ => 0

def itemsDepth : List Json → Nat
  | [] => 0
  | v :: rest => max v.depth (itemsDepth rest)

def membersDepth : List (String × Json) → Nat
  | [] => 0
  | (_, v) :: rest => max v.depth (membersDepth rest)
end

section Depth
variable {v : Json} {vs : List Json} {m : String × Json} {ms : List (String × Json)} {n limit : Nat}

theorem add_itemsDepth_le :
    n + itemsDepth (v :: vs) ≤ limit ↔ n + v.depth ≤ limit ∧ n + itemsDepth vs ≤ limit := by
  rw [itemsDepth, ← Nat.add_max_add_left, Nat.max_le]

theorem add_membersDepth_le :
    n + membersDepth (m :: ms) ≤ limit ↔ n + m.2.depth ≤ limit ∧ n + membersDepth ms ≤ limit := by
  rw [membersDepth, ← Nat.add_max_add_left, Nat.max_le]

end Depth

/-- What holds of an array and of an object if it holds of all that is in it holds of every value. -/
theorem forall_of_parts {P : Json → Prop} (null : P .null) (bool : ∀ b, P (.bool b))
    (num : ∀ n, P (.num n)) (str : ∀ s, P (.str s)) (arr : ∀ vs, (∀ v ∈ vs, P v) → P (.arr vs))
    (obj : ∀ ms, (∀ m ∈ ms, P m.2) → P (.obj ms)) (j : Json) : P j :=
  @Json.rec P (fun vs => ∀ v ∈ vs, P v) (fun ms => ∀ m ∈ ms, P m.2) (fun m => P m.2)
    null bool num str arr obj
    (List.forall_mem_nil _) (fun _ _ hv hrest => List.forall_mem_cons.mpr ⟨hv, hrest⟩)
    (List.forall_mem_nil _) (fun _ _ hm hrest => List.forall_mem_cons.mpr ⟨hm, hrest⟩)
    (fun _ _ hv => hv) j

end Json

/-- A number is in range if there is a double for it. -/
def Token.isInRange : Token → Bool
  | .num n => n.double?.isSome
  | _ => true

/-! ### From characters to tokens -/

namespace Scanner
open Json
variable {ts : List Token} {rest : List Char}

theorem tokensFrom_blank {a : List Char} (h : Blank a) :
    tokensFrom ⟨ts, .between⟩ (a ++ rest) = tokensFrom ⟨ts, .between⟩ rest := by
  induction a with
  | nil => rfl
  | cons c a ih =>
    have hstep : step ⟨ts, .between⟩ c = some ⟨ts, .between⟩ := by
      rcases h c List.mem_cons_self with rfl | rfl | rfl | rfl <;> rfl
    rw [List.cons_append, tokensFrom_step hstep, ih fun c hc => h c (List.mem_cons_of_mem _ hc)]

theorem delimited_blank_append {b : List Char} (h : Blank b) (hrest : Delimited rest) :
    Delimited (b ++ rest) := by
  cases b with
  | nil => exact hrest
  | cons c b =>
    intro c' hc'
    obtain rfl : c = c' := by simpa using hc'
    rcases h c List.mem_cons_self with rfl | rfl | rfl | rfl <;> exact ⟨rfl, rfl⟩

theorem tokensFrom_name {k : String} {text : List Char} (h : Name k text) :
    tokensFrom ⟨ts, .between⟩ (text ++ ':' :: rest) =
      tokensFrom ⟨.colon :: .str k :: ts, .between⟩ rest := by
  obtain ⟨a, name, b, ha, hname, hb, rfl⟩ := h
  rw [List.append_assoc, tokensFrom_blank ha, List.append_assoc, tokensFrom_quoted hname,
    tokensFrom_blank hb]
  rfl

theorem delimited_cons {c : Char} (h : Delimits c) : Delimited (c :: rest) := by
  intro c' hc'
  obtain rfl : c = c' := by simpa using hc'
  exact h

section Punctuation
variable (ts : List Token)

theorem step_leftBracket : step ⟨ts, .between⟩ '[' = some ⟨.leftBracket :: ts, .between⟩ := rfl

theorem step_rightBracket : step ⟨ts, .between⟩ ']' = some ⟨.rightBracket :: ts, .between⟩ := rfl

theorem step_leftBrace : step ⟨ts, .between⟩ '\x7b' = some ⟨.leftBrace :: ts, .between⟩ := rfl

theorem step_rightBrace : step ⟨ts, .between⟩ '\x7d' = some ⟨.rightBrace :: ts, .between⟩ := rfl

theorem step_comma : step ⟨ts, .between⟩ ',' = some ⟨.comma :: ts, .between⟩ := rfl

end Punctuation

/-- The scanner finds the tokens of what is written, unless a number is out of range. -/
theorem tokensFrom_written {p : Phrase} {cs : List Char} (h : Written p cs)
    (hrest : Delimited rest) :
    tokensFrom ⟨ts, .between⟩ (cs ++ rest) =
      if p.tokens.all Token.isInRange then tokensFrom ⟨p.tokens.reverse ++ ts, .between⟩ rest
      else none := by
  -- numerals and words end only at what follows them, so each part is scanned with the rest in view
  have hcomma : ∀ rest, Delimited (',' :: rest) := fun _ => delimited_cons ⟨rfl, rfl⟩
  induction h generalizing ts rest with
  | null => exact tokensFrom_wordEnd hrest rfl
  | true => exact tokensFrom_wordEnd hrest rfl
  | false => exact tokensFrom_wordEnd hrest rfl
  | num h => simpa [Phrase.tokens, Json.tokens, Token.isInRange] using tokensFrom_numeral h hrest
  | str h => exact tokensFrom_quoted h
  | arr h ih =>
    have hclose : Delimited (']' :: rest) := delimited_cons ⟨rfl, rfl⟩
    rw [List.cons_append, tokensFrom_step (step_leftBracket ts), List.append_assoc,
      List.singleton_append, ih hclose, tokensFrom_step (step_rightBracket _)]
    simp [Phrase.tokens, Json.tokens, Token.isInRange]
  | obj h ih =>
    have hclose : Delimited ('\x7d' :: rest) := delimited_cons ⟨rfl, rfl⟩
    rw [List.cons_append, tokensFrom_step (step_leftBrace ts), List.append_assoc,
      List.singleton_append, ih hclose, tokensFrom_step (step_rightBrace _)]
    simp [Phrase.tokens, Json.tokens, Token.isInRange]
  | padded ha h hb ih =>
    rw [List.append_assoc, tokensFrom_blank ha, List.append_assoc,
      ih (delimited_blank_append hb hrest), tokensFrom_blank hb]
    rfl
  | noItem h => exact tokensFrom_blank h
  | lastItem h ih => exact ih hrest
  | item h ht ih iht =>
    rw [List.append_assoc, List.cons_append, ih (hcomma _), tokensFrom_step (step_comma _),
      iht hrest, ← ite_and]
    simp [Phrase.tokens, itemsTokens, Token.isInRange]
  | noMember h => exact tokensFrom_blank h
  | lastMember hk h ih =>
    rw [List.append_assoc, List.cons_append, tokensFrom_name hk, ih hrest]
    simp [Phrase.tokens, membersTokens, Token.isInRange]
  | member hk h ht ih iht =>
    rw [List.append_assoc, List.cons_append, tokensFrom_name hk, List.append_assoc,
      List.cons_append, ih (hcomma _), tokensFrom_step (step_comma _), iht hrest, ← ite_and]
    simp [Phrase.tokens, membersTokens, Token.isInRange]

end Scanner

theorem Token.scan_of_written {p : Json.Phrase} {cs : List Char} (h : Json.Written p cs) :
    Token.scan cs = if p.tokens.all isInRange then some p.tokens else none := by
  have hend : Scanner.Delimited [] := by simp [Scanner.Delimited]
  have hread : Scanner.tokensFrom ⟨[], .between⟩ (cs ++ []) = _ :=
    Scanner.tokensFrom_written h hend
  rw [List.append_nil] at hread
  have hfinish : Scanner.tokensFrom ⟨p.tokens.reverse ++ [], .between⟩ [] = some p.tokens := by
    simp [Scanner.tokensFrom, Scanner.finish]
  calc Token.scan cs = Scanner.tokensFrom ⟨[], .between⟩ cs := rfl
    _ = _ := hread
    _ = _ := by rw [hfinish]

/-! ### From tokens to the value -/

namespace Reader
open Json
variable {ls : List Level} {us : List Token}

def readFrom (r : Reader) (ts : List Token) : Option Reader := ts.foldlM step r

theorem readFrom_cons (r : Reader) (t : Token) (ts : List Token) :
    r.readFrom (t :: ts) = (step r t).bind fun r' => r'.readFrom ts := rfl

theorem readFrom_step {r r' : Reader} {t : Token} (h : step r t = some r') (ts : List Token) :
    r.readFrom (t :: ts) = r'.readFrom ts := by
  rw [readFrom_cons, h, Option.bind_some]

/-- Wherever a value is due, the tokens are read as the value if there is room for all levels of it. -/
def ReadsAs (j : Json) : Prop :=
  ∀ (ls : List Level) (us : List Token), ls.length ≤ maxDepth →
    readFrom ⟨ls, .value⟩ (j.tokens ++ us) =
      if ls.length + j.depth ≤ maxDepth then readFrom ⟨ls, .next j⟩ us else none

theorem step_itemOrEnd {t : Token} (h : t ≠ .rightBracket) :
    step ⟨ls, .itemOrEnd⟩ t = step ⟨ls, .value⟩ t := by
  cases ls with
  | nil => rfl
  | cons l ls => cases l <;> cases t <;> first | rfl | contradiction

/-- The first item of an array is read as the others are. -/
theorem readFrom_itemOrEnd (v : Json) (rest : List Json) (us : List Token) :
    readFrom ⟨ls, .itemOrEnd⟩ (itemsTokens (v :: rest) ++ us) =
      readFrom ⟨ls, .value⟩ (itemsTokens (v :: rest) ++ us) := by
  obtain ⟨t, ts, hts, hne⟩ : ∃ t ts, itemsTokens (v :: rest) = t :: ts ∧ t ≠ .rightBracket := by
    cases rest <;> cases v <;> exact ⟨_, _, rfl, by simp⟩
  simp only [hts, List.cons_append, readFrom_cons, step_itemOrEnd hne]

theorem step_open (h : ls.length < maxDepth) :
    step ⟨ls, .value⟩ .leftBracket = some ⟨.array [] :: ls, .itemOrEnd⟩ ∧
      step ⟨ls, .value⟩ .leftBrace = some ⟨.object [] :: ls, .nameOrEnd⟩ :=
  ⟨if_pos h, if_pos h⟩

theorem step_open_full (h : ¬ ls.length < maxDepth) :
    step ⟨ls, .value⟩ .leftBracket = none ∧ step ⟨ls, .value⟩ .leftBrace = none :=
  ⟨if_neg h, if_neg h⟩

theorem readFrom_items {v : Json} {rest : List Json} (h : ∀ w ∈ v :: rest, ReadsAs w)
    (hls : ls.length < maxDepth) (read : List Json) :
    readFrom ⟨.array read :: ls, .value⟩ (itemsTokens (v :: rest) ++ .rightBracket :: us) =
      if ls.length + 1 + itemsDepth (v :: rest) ≤ maxDepth then
        readFrom ⟨ls, .next (.arr (read.reverse ++ v :: rest))⟩ us
      else none := by
  have hv := fun us => h v List.mem_cons_self (.array read :: ls) us hls
  induction rest generalizing v read with
  | nil =>
    rw [itemsTokens, hv, readFrom_step rfl]
    simp [itemsDepth]
  | cons w rest ih =>
    have hrest : ∀ u ∈ w :: rest, ReadsAs u := fun u hu => h u (List.mem_cons_of_mem v hu)
    have hw := fun us => hrest w List.mem_cons_self (.array (v :: read) :: ls) us hls
    rw [itemsTokens, List.append_assoc, hv, List.cons_append, readFrom_step rfl,
      ih hrest _ hw, ← ite_and]
    simp [add_itemsDepth_le]

theorem readFrom_members {k : String} {v : Json} {rest : List (String × Json)}
    (h : ∀ m ∈ (k, v) :: rest, ReadsAs m.2) (hls : ls.length < maxDepth)
    (read : List (String × Json)) {due : Due} (hdue : due = .nameOrEnd ∨ due = .name) :
    readFrom ⟨.object read :: ls, due⟩ (membersTokens ((k, v) :: rest) ++ .rightBrace :: us) =
      if ls.length + 1 + membersDepth ((k, v) :: rest) ≤ maxDepth then
        readFrom ⟨ls, .next (.obj (read.reverse ++ (k, v) :: rest))⟩ us
      else none := by
  have hname : step ⟨.object read :: ls, due⟩ (.str k) = some ⟨.member read k :: ls, .colon⟩ := by
    rcases hdue with rfl | rfl <;> rfl
  have hcolon : step ⟨.member read k :: ls, .colon⟩ .colon = some ⟨.member read k :: ls, .value⟩ :=
    rfl
  have hv := fun us => h _ List.mem_cons_self (.member read k :: ls) us hls
  induction rest generalizing k v read due with
  | nil =>
    rw [membersTokens, List.cons_append, List.cons_append, readFrom_step hname,
      readFrom_step hcolon, hv, readFrom_step rfl]
    simp [membersDepth]
  | cons m rest ih =>
    obtain ⟨k', v'⟩ := m
    have hrest : ∀ m ∈ (k', v') :: rest, ReadsAs m.2 :=
      fun m hm => h m (List.mem_cons_of_mem _ hm)
    have hw := fun us => hrest _ List.mem_cons_self (.member ((k, v) :: read) k' :: ls) us hls
    rw [membersTokens, List.cons_append, List.cons_append, readFrom_step hname,
      readFrom_step hcolon, List.append_assoc, hv, List.cons_append,
      readFrom_step rfl, ih hrest ((k, v) :: read) (.inr rfl) rfl rfl hw, ← ite_and]
    simp [add_membersDepth_le]

theorem readsAs_arr {vs : List Json} (h : ∀ v ∈ vs, ReadsAs v) : ReadsAs (.arr vs) := by
  intro ls us hls
  by_cases hroom : ls.length < maxDepth
  · rw [tokens, List.cons_append, readFrom_step (step_open hroom).1]
    cases vs with
    | nil => exact (if_pos hroom).symm
    | cons v rest =>
      rw [List.append_assoc, readFrom_itemOrEnd, List.singleton_append, readFrom_items h hroom []]
      simp [depth, Nat.add_assoc, Nat.add_comm]
  · have hdeep : ¬ ls.length + (Json.arr vs).depth ≤ maxDepth := by simp only [depth]; omega
    rw [tokens, List.cons_append, readFrom_cons, (step_open_full hroom).1, if_neg hdeep]
    rfl

theorem readsAs_obj {ms : List (String × Json)} (h : ∀ m ∈ ms, ReadsAs m.2) :
    ReadsAs (.obj ms) := by
  intro ls us hls
  by_cases hroom : ls.length < maxDepth
  · rw [tokens, List.cons_append, readFrom_step (step_open hroom).2]
    cases ms with
    | nil => exact (if_pos hroom).symm
    | cons m rest =>
      rw [List.append_assoc, List.singleton_append, readFrom_members h hroom [] (.inl rfl)]
      simp [depth, Nat.add_assoc, Nat.add_comm]
  · have hdeep : ¬ ls.length + (Json.obj ms).depth ≤ maxDepth := by simp only [depth]; omega
    rw [tokens, List.cons_append, readFrom_cons, (step_open_full hroom).2, if_neg hdeep]
    rfl

theorem readsAs (j : Json) : ReadsAs j := by
  have hone : ∀ (j : Json) (t : Token), j.tokens = [t] → j.depth = 0 →
      (∀ ls, step ⟨ls, .value⟩ t = some ⟨ls, .next j⟩) → ReadsAs j := by
    intro j t htokens hdepth hstep ls us hls
    rw [htokens, hdepth, Nat.add_zero, if_pos hls, List.singleton_append, readFrom_step (hstep ls)]
  refine forall_of_parts ?_ ?_ ?_ ?_ (fun vs => readsAs_arr) (fun ms => readsAs_obj) j
  · exact hone .null .null rfl rfl fun ls => rfl
  · exact fun b => hone (.bool b) (.bool b) rfl rfl fun ls => rfl
  · exact fun n => hone (.num n) (.num n) rfl rfl fun ls => rfl
  · exact fun s => hone (.str s) (.str s) rfl rfl fun ls => rfl

end Reader

/-! ### Whole texts -/

namespace Json
variable {j : Json} {text : String} {n : Numeral} {limit : Nat}

/-- However a value is written, it is read if all of it is in range, and nothing is read if not. -/
theorem parse?_eq_ite (h : Written (.padded j) text.toList) :
    parse? text =
      if j.tokens.all Token.isInRange ∧ j.depth ≤ Reader.maxDepth then some j else none := by
  have hread := Reader.readsAs j [] [] (Nat.zero_le _)
  rw [List.append_nil, List.length_nil, Nat.zero_add] at hread
  have htokens : ofTokens? j.tokens = if j.depth ≤ Reader.maxDepth then some j else none := by
    calc ofTokens? j.tokens = (Reader.readFrom {} j.tokens).bind Reader.finish := rfl
      _ = _ := by rw [hread]; split <;> rfl
  have hscan : Token.scan text.toList = if j.tokens.all Token.isInRange then some j.tokens else none :=
    Token.scan_of_written h
  rw [parse?, hscan, ite_and, ← htokens]
  by_cases hrange : j.tokens.all Token.isInRange = true
  · rw [if_pos hrange, if_pos hrange]
    rfl
  · rw [if_neg hrange, if_neg hrange]
    rfl

theorem num_mem_itemsTokens {vs : List Json} :
    .num n ∈ itemsTokens vs ↔ ∃ v ∈ vs, .num n ∈ v.tokens := by
  induction vs with
  | nil => simp [itemsTokens]
  | cons v rest ih => cases rest <;> simp_all [itemsTokens]

theorem num_mem_membersTokens {ms : List (String × Json)} :
    .num n ∈ membersTokens ms ↔ ∃ m ∈ ms, .num n ∈ m.2.tokens := by
  induction ms with
  | nil => simp [membersTokens]
  | cons m rest ih => cases rest <;> simp_all [membersTokens]

theorem all_isInRange_iff {ts : List Token} :
    ts.all Token.isInRange = true ↔ ∀ n, .num n ∈ ts → n.double?.isSome = true := by
  rw [List.all_eq_true]
  refine ⟨fun h n hn => h _ hn, fun h t ht => ?_⟩
  cases t with
  | num n => exact h n ht
  | _ => rfl

theorem itemsDepth_le {vs : List Json} (h : ∀ v ∈ vs, v.depth ≤ limit) : itemsDepth vs ≤ limit := by
  induction vs with
  | nil => exact Nat.zero_le _
  | cons v rest ih =>
    obtain ⟨hv, hrest⟩ := List.forall_mem_cons.mp h
    exact Nat.max_le.mpr ⟨hv, ih hrest⟩

theorem membersDepth_le {ms : List (String × Json)} (h : ∀ m ∈ ms, m.2.depth ≤ limit) :
    membersDepth ms ≤ limit := by
  induction ms with
  | nil => exact Nat.zero_le _
  | cons m rest ih =>
    obtain ⟨hm, hrest⟩ := List.forall_mem_cons.mp h
    exact Nat.max_le.mpr ⟨hm, ih hrest⟩

theorem inRange_of_readable (h : j.Readable limit) :
    (∀ n, .num n ∈ j.tokens → n.double?.isSome = true) ∧ j.depth ≤ limit := by
  induction h with
  | null | bool | str => exact ⟨by simp [tokens], Nat.zero_le _⟩
  | num h => exact ⟨by simpa [tokens] using h, Nat.zero_le _⟩
  | arr _ ih =>
    refine ⟨fun n hn => ?_, Nat.succ_le_succ (itemsDepth_le fun v hv => (ih v hv).2)⟩
    obtain ⟨v, hv, hn⟩ := num_mem_itemsTokens.mp (by simpa [tokens] using hn)
    exact (ih v hv).1 n hn
  | obj _ ih =>
    refine ⟨fun n hn => ?_, Nat.succ_le_succ (membersDepth_le fun m hm => (ih m hm).2)⟩
    obtain ⟨m, hm, hn⟩ := num_mem_membersTokens.mp (by simpa [tokens] using hn)
    exact (ih m hm).1 n hn

/-- Whatever text the grammar gives a value in range, it is read as that value. -/
theorem parse?_of_written (h : Written (.padded j) text.toList) (hj : j.Readable Reader.maxDepth) :
    parse? text = some j := by
  obtain ⟨hnumbers, hdepth⟩ := inRange_of_readable hj
  rw [parse?_eq_ite h, if_pos ⟨all_isInRange_iff.mpr hnumbers, hdepth⟩]

/-- A text of a value is read as no other value. -/
theorem eq_of_parse? {j' : Json} (h : Written (.padded j) text.toList) (hread : parse? text = some j') :
    j' = j := by
  rw [parse?_eq_ite h] at hread
  split at hread
  · exact (Option.some.inj hread).symm
  · cases hread

end Json

end Narrative
