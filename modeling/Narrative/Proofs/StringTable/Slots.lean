import Mathlib.Data.List.Induction
import Mathlib.Order.Bounds.Defs
import Narrative.Proofs.StringTable.Texts

/-! How many slots a run takes, and in which order it uses them again. A slot is added only when every
slot holds a live text, so there are never more slots than there were live texts at some time of the
run. The free list is a stack: what was freed last is given out first, and only then new slots. -/
namespace Narrative
namespace StringTable
variable {t : StringTable} {ops : List Op} {op : Op} {k : Nat} {id : StringId}

def after (ops : List Op) : StringTable := (performAll empty ops).2

def handedOut (answers : List Answer) : List StringId :=
  answers.filterMap fun
    | .created id => some id
    | _ => none

def Op.isCreate : Op → Bool
  | .create _ => true
  | _ => false

/-- From that operation of the run on, the handle has not been live. -/
def DeadSince (ops : List Op) (k : Nat) (id : StringId) : Prop :=
  ∀ j, k < j → j ≤ ops.length → ¬ (after (ops.take j)).IsLive id

/-- The operation at that place of the run is a sweep that freed the handle, for good so far. -/
structure FreedAt (ops : List Op) (k : Nat) (id : StringId) : Prop where
  sweep : ops[k]? = some .sweep
  before : (after (ops.take k)).IsLive id
  since : DeadSince ops k id

/-- Freed by a later sweep, or by the same sweep and with the greater index. -/
def Newer (ops : List Op) (a b : StringId) : Prop :=
  ∃ k l, FreedAt ops k a ∧ FreedAt ops l b ∧ (l < k ∨ l = k ∧ b.index < a.index)

/-! ### Runs in parts -/

theorem snd_performAll_append (t : StringTable) (u v : List Op) :
    (performAll t (u ++ v)).2 = (performAll (performAll t u).2 v).2 := by
  induction u generalizing t with
  | nil => rfl
  | cons op u ih => exact ih (op.perform t).2

theorem after_concat (ops : List Op) (op : Op) :
    after (ops ++ [op]) = (op.perform (after ops)).2 :=
  snd_performAll_append empty ops [op]

/-- As long as nothing is freed, every text takes a slot of its own. -/
theorem after_creates (n : Nat) (text : String) :
    after (List.replicate n (.create text)) =
      { slots := Array.replicate n (some ⟨text, false⟩) } := by
  induction n with
  | zero => rfl
  | succ n ih =>
    rw [List.replicate_succ', after_concat, ih, Array.replicate_succ]
    rfl

theorem slots_size_after_le {earlier : List Op} (h : earlier <+: ops) :
    (after earlier).slots.size ≤ (after ops).slots.size := by
  obtain ⟨later, rfl⟩ := h
  rw [after, after, snd_performAll_append]
  exact slots_size_le_performAll _ later

theorem wellFormed_after (hroom : (after ops).slots.size ≤ UInt32.size) : (after ops).WellFormed :=
  (performAll_goesThrough wellFormed_empty hroom).2

/-! ### As many slots as live texts -/

theorem Counts.unique {m n : Nat} {P : StringId → Prop} (hm : Counts m P) (hn : Counts n P) :
    m = n := by
  obtain ⟨ids, hids, rfl, hmem⟩ := hm
  obtain ⟨ids', hids', rfl, hmem'⟩ := hn
  have hperm : ids.Perm ids' :=
    (List.perm_ext_iff_of_nodup hids hids').mpr fun id => (hmem id).trans (hmem' id).symm
  exact hperm.length_eq

theorem counts_live (ht : t.WellFormed) : Counts t.size t.IsLive := by
  have hcounts := counts_size ht
  simp only [cell?_eq, ← isLive_iff] at hcounts
  exact hcounts

/-- A new slot is the last resort: afterwards there is none to be used again. -/
theorem slots_size_perform_or (t : StringTable) (op : Op) :
    (op.perform t).2.slots.size = t.slots.size ∨ (op.perform t).2.free = [] := by
  cases op with
  | create text =>
    cases hfree : t.free with
    | nil => exact .inr (by simp [Op.perform, create, hfree])
    | cons id rest => exact .inl (by simp [Op.perform, create, hfree])
  | mark id => exact .inl (by simp [Op.perform, mark])
  | sweep => exact .inl (by simp [Op.perform, sweep])
  | get | size | isEmpty => exact .inl rfl

/-- At some time the run had all its slots, and none of them was free. -/
theorem exists_full (ops : List Op) :
    ∃ earlier, earlier <+: ops ∧ (after earlier).slots.size = (after ops).slots.size ∧
      (after earlier).free = [] := by
  induction ops using List.reverseRecOn with
  | nil => exact ⟨[], List.prefix_rfl, rfl, rfl⟩
  | append_singleton ops op ih =>
    rcases slots_size_perform_or (after ops) op with hsame | hfree
    · obtain ⟨earlier, hprefix, hsize, hfull⟩ := ih
      refine ⟨earlier, hprefix.trans (List.prefix_append ops [op]), ?_, hfull⟩
      rw [after_concat, hsame, hsize]
    · exact ⟨ops ++ [op], List.prefix_rfl, rfl, by rw [after_concat, hfree]⟩

theorem isGreatest_slots_size (hroom : (after ops).slots.size ≤ UInt32.size) :
    IsGreatest {n | ∃ earlier, earlier <+: ops ∧ Counts n (after earlier).IsLive}
      (after ops).slots.size := by
  have hwf : ∀ earlier, earlier <+: ops → (after earlier).WellFormed := fun earlier h =>
    wellFormed_after (Nat.le_trans (slots_size_after_le h) hroom)
  constructor
  · obtain ⟨earlier, hprefix, hsize, hfull⟩ := exists_full ops
    refine ⟨earlier, hprefix, ?_⟩
    have hcounts := counts_live (hwf earlier hprefix)
    rwa [size, hfull, List.length_nil, Nat.sub_zero, hsize] at hcounts
  · rintro n ⟨earlier, hprefix, hcounts⟩
    rw [hcounts.unique (counts_live (hwf earlier hprefix))]
    exact Nat.le_trans (Nat.sub_le _ _) (slots_size_after_le hprefix)

/-! ### Handles given out -/

theorem index_lt_of_create (ht : t.WellFormed) (text : String) :
    (t.create text).1.index.toNat < (t.create text).2.slots.size := by
  cases hfree : t.free with
  | nil =>
    simp only [create, hfree, Array.size_push, StringId.ofIndex]
    exact Nat.lt_succ_of_le (Nat.mod_le _ _)
  | cons id rest =>
    have hempty := (ht.mem_free id).mp (by rw [hfree]; exact List.mem_cons_self)
    obtain ⟨hlt, -⟩ := Array.getElem?_eq_some_iff.mp hempty
    simpa only [create, hfree, Array.size_setIfInBounds] using hlt

theorem index_lt_of_created (ht : t.WellFormed)
    (hroom : (performAll t ops).2.slots.size ≤ UInt32.size)
    (h : .created id ∈ (performAll t ops).1) :
    id.index.toNat < (performAll t ops).2.slots.size := by
  induction ops generalizing t with
  | nil => cases h
  | cons op ops ih =>
    have hmore := slots_size_le_performAll (op.perform t).2 ops
    rcases List.mem_cons.mp h with hop | hrest
    · cases op with
      | create text =>
        cases hop
        exact Nat.lt_of_lt_of_le (index_lt_of_create ht text) hmore
      | get | mark | sweep | size | isEmpty => cases hop
    · exact ih (wellFormed_perform ht (Nat.le_trans hmore hroom)) hroom hrest

/-- As long as nothing is swept, the free list is used up from its head, and then slots are added. -/
theorem handedOut_performAll (t : StringTable) (hsweep : .sweep ∉ ops) :
    handedOut (performAll t ops).1 =
      t.free.take (ops.countP Op.isCreate) ++
        (List.range' t.slots.size (ops.countP Op.isCreate - t.free.length)).map .ofIndex := by
  induction ops generalizing t with
  | nil => simp [handedOut, performAll]
  | cons op ops ih =>
    obtain ⟨hop, hops⟩ := not_or.mp (mt List.mem_cons.mpr hsweep)
    have hrest := ih (op.perform t).2 hops
    cases op with
    | create text =>
      have hcount : (.create text :: ops).countP Op.isCreate = ops.countP Op.isCreate + 1 :=
        List.countP_cons_of_pos rfl
      have hcons : handedOut (performAll t (.create text :: ops)).1 =
          (t.create text).1 :: handedOut (performAll (t.create text).2 ops).1 := rfl
      rw [hcount, hcons]
      cases hfree : t.free with
      | nil =>
        simp only [Op.perform, create, hfree, Array.size_push] at hrest ⊢
        simp [hrest, List.range'_succ]
      | cons id rest =>
        simp only [Op.perform, create, hfree, Array.size_setIfInBounds] at hrest ⊢
        simp [hrest]
    | mark other =>
      rw [Op.perform, mark, Array.size_modify] at hrest
      exact hrest
    | sweep => exact absurd rfl hop
    | get | size | isEmpty => exact hrest

/-! ### The order of the free list -/

theorem after_take_concat (op : Op) {j : Nat} (hj : j ≤ ops.length) :
    after ((ops ++ [op]).take j) = after (ops.take j) := by
  rw [List.take_append_of_le_length hj]

theorem deadSince_length (ops : List Op) (id : StringId) : DeadSince ops ops.length id := by
  intro j hj hle
  omega

theorem deadSince_concat (hk : k ≤ ops.length) :
    DeadSince (ops ++ [op]) k id ↔ DeadSince ops k id ∧ ¬ (after (ops ++ [op])).IsLive id := by
  have hlength : (ops ++ [op]).length = ops.length + 1 := by simp
  constructor
  · intro h
    refine ⟨fun j hj hle => ?_, ?_⟩
    · rw [← after_take_concat op hle]
      exact h j hj (by omega)
    · have hlast := h (ops ++ [op]).length (by omega) (Nat.le_refl _)
      rwa [List.take_length] at hlast
  · rintro ⟨hold, hdead⟩ j hj hle
    rcases Nat.lt_or_eq_of_le hle with hlt | rfl
    · have hle' : j ≤ ops.length := by omega
      rw [after_take_concat _ hle']
      exact hold j hj hle'
    · rwa [List.take_length]

/-- One more operation leaves a free handle as it is, or else gives it out; what a sweep frees, it frees
last. -/
theorem freedAt_concat :
    FreedAt (ops ++ [op]) k id ↔
      ¬ (after (ops ++ [op])).IsLive id ∧
        (FreedAt ops k id ∨ k = ops.length ∧ op = .sweep ∧ (after ops).IsLive id) := by
  constructor
  · rintro ⟨hsweep, hbefore, hsince⟩
    obtain ⟨hk, -⟩ := List.getElem?_eq_some_iff.mp hsweep
    have hle : k ≤ ops.length := by simpa [Nat.lt_succ_iff] using hk
    obtain ⟨hold, hdead⟩ := (deadSince_concat hle).mp hsince
    rw [after_take_concat _ hle] at hbefore
    refine ⟨hdead, ?_⟩
    rcases Nat.lt_or_eq_of_le hle with hlt | rfl
    · exact .inl ⟨by rwa [List.getElem?_append_left hlt] at hsweep, hbefore, hold⟩
    · rw [List.getElem?_concat_length] at hsweep
      rw [List.take_length] at hbefore
      exact .inr ⟨rfl, Option.some.inj hsweep, hbefore⟩
  · rintro ⟨hdead, ⟨hsweep, hbefore, hold⟩ | ⟨rfl, rfl, hlive⟩⟩
    · obtain ⟨hk, -⟩ := List.getElem?_eq_some_iff.mp hsweep
      have hle := Nat.le_of_lt hk
      refine ⟨by rwa [List.getElem?_append_left hk], ?_, (deadSince_concat hle).mpr ⟨hold, hdead⟩⟩
      rwa [after_take_concat _ hle]
    · have hle := Nat.le_refl ops.length
      have hsince := (deadSince_concat hle).mpr ⟨deadSince_length ops id, hdead⟩
      refine ⟨List.getElem?_concat_length, ?_, hsince⟩
      rwa [after_take_concat _ hle, List.take_length]

theorem Newer.concat {a b : StringId} (h : Newer ops a b)
    (ha : ¬ (after (ops ++ [op])).IsLive a) (hb : ¬ (after (ops ++ [op])).IsLive b) :
    Newer (ops ++ [op]) a b := by
  obtain ⟨k, l, hk, hl, horder⟩ := h
  exact ⟨k, l, freedAt_concat.mpr ⟨ha, .inl hk⟩, freedAt_concat.mpr ⟨hb, .inl hl⟩, horder⟩

theorem mem_free_iff (ht : t.WellFormed) :
    id ∈ t.free ↔ id.index.toNat < t.slots.size ∧ ¬ t.IsLive id := by
  rw [ht.mem_free, isLive_iff, cellAt]
  constructor
  · intro h
    obtain ⟨hlt, -⟩ := Array.getElem?_eq_some_iff.mp h
    exact ⟨hlt, by simp [h]⟩
  · rintro ⟨hlt, hdead⟩
    rw [Array.getElem?_eq_getElem hlt] at hdead ⊢
    simpa [Option.eq_none_iff_forall_ne_some] using hdead

theorem isLive_perform (ht : t.WellFormed) (hop : op ≠ .sweep) (hid : t.IsLive id) :
    (op.perform t).2.IsLive id := by
  cases op with
  | create text =>
    rw [IsLive, Op.perform, get?_create ht text hid]
    exact hid
  | mark other =>
    obtain ⟨c, hc⟩ := (t.isLive_iff id).mp hid
    exact (isLive_iff _ id).mpr ⟨_, by rw [Op.perform, cellAt_mark, hc]; rfl⟩
  | sweep => exact absurd rfl hop
  | get | size | isEmpty => exact hid

/-- The free handles after an operation are those free before that it has not given out, and those that
it has freed. -/
theorem mem_free_perform (ht : t.WellFormed) (hroom : (op.perform t).2.slots.size ≤ UInt32.size) :
    id ∈ (op.perform t).2.free ↔
      ¬ (op.perform t).2.IsLive id ∧ (id ∈ t.free ∨ op = .sweep ∧ t.IsLive id) := by
  have hmore := slots_size_le_perform t op
  rw [mem_free_iff (wellFormed_perform ht hroom)]
  refine ⟨fun ⟨hlt, hdead⟩ => ⟨hdead, ?_⟩, fun ⟨hdead, hfreed⟩ => ⟨?_, hdead⟩⟩
  · by_cases hlive : t.IsLive id
    · exact .inr ⟨by_contra fun hop => hdead (isLive_perform ht hop hlive), hlive⟩
    · rcases slots_size_perform_or t op with hsame | hnone
      · exact .inl ((mem_free_iff ht).mpr ⟨hsame ▸ hlt, hlive⟩)
      · have hfree := (mem_free_iff (wellFormed_perform ht hroom)).mpr ⟨hlt, hdead⟩
        rw [hnone] at hfree
        cases hfree
  · rcases hfreed with hfree | ⟨-, hlive⟩
    · exact Nat.lt_of_lt_of_le ((mem_free_iff ht).mp hfree).1 hmore
    · obtain ⟨c, hc⟩ := (t.isLive_iff id).mp hlive
      exact Nat.lt_of_lt_of_le (t.lt_size_of_cellAt hc) hmore

theorem mem_free_after (hroom : (after ops).slots.size ≤ UInt32.size) :
    id ∈ (after ops).free ↔ ∃ k, FreedAt ops k id := by
  induction ops using List.reverseRecOn with
  | nil =>
    constructor
    · intro h
      cases h
    · rintro ⟨k, hfreed⟩
      cases hfreed.sweep
  | append_singleton ops op ih =>
    have hbefore := Nat.le_trans (slots_size_after_le (List.prefix_append ops [op])) hroom
    rw [after_concat] at hroom
    simp only [freedAt_concat, exists_and_left, exists_or, exists_eq_left]
    rw [after_concat, mem_free_perform (wellFormed_after hbefore) hroom, ih hbefore]

/-- A create takes the head of the free list away, and only a sweep puts something on it. -/
theorem free_perform_suffix (t : StringTable) (hop : op ≠ .sweep) :
    (op.perform t).2.free <:+ t.free := by
  cases op with
  | create text => cases hfree : t.free <;> simp [Op.perform, create, hfree]
  | sweep => exact absurd rfl hop
  | get | mark | size | isEmpty => exact List.suffix_rfl

theorem pairwise_newer_concat {ids : List StringId} (h : ids.Pairwise (Newer ops))
    (hdead : ∀ id ∈ ids, ¬ (after (ops ++ [op])).IsLive id) :
    ids.Pairwise (Newer (ops ++ [op])) :=
  h.imp_of_mem fun ha hb hab => hab.concat (hdead _ ha) (hdead _ hb)

section Sweep
variable (ht : (after ops).WellFormed)
include ht

theorem freedAt_garbage {i : Nat} (hi : i ∈ (after ops).garbage) :
    FreedAt (ops ++ [.sweep]) ops.length (.ofIndex i) := by
  have hindex := toNat_ofIndex (lt_size_of_mem_garbage ht i hi)
  obtain ⟨hlive, hfreed⟩ := (mem_garbage_iff_freed _).mp hi
  refine freedAt_concat.mpr ⟨?_, .inr ⟨rfl, rfl, ?_⟩⟩
  · rw [after_concat, isLive_iff, hindex]
    simp [Op.perform, hfreed]
  · rwa [isLive_iff, hindex]

/-- A sweep finds the garbage in ascending order, and pushes it on the free list one by one. -/
theorem pairwise_newer_garbage :
    ((after ops).garbage.map StringId.ofIndex).reverse.Pairwise (Newer (ops ++ [.sweep])) := by
  have hlt := lt_size_of_mem_garbage ht
  rw [List.pairwise_reverse, List.pairwise_map]
  refine (List.pairwise_lt_range.filter _).imp_of_mem fun {i j} hi hj hij => ?_
  refine ⟨_, _, freedAt_garbage ht hj, freedAt_garbage ht hi, .inr ⟨rfl, ?_⟩⟩
  rw [UInt32.lt_iff_toNat_lt, toNat_ofIndex (hlt i hi), toNat_ofIndex (hlt j hj)]
  exact hij

end Sweep

theorem pairwise_newer_after (hroom : (after ops).slots.size ≤ UInt32.size) :
    (after ops).free.Pairwise (Newer ops) := by
  induction ops using List.reverseRecOn with
  | nil => exact .nil
  | append_singleton ops op ih =>
    have hbefore := Nat.le_trans (slots_size_after_le (List.prefix_append ops [op])) hroom
    have hwf := wellFormed_after hbefore
    have hdead : ∀ id ∈ (after (ops ++ [op])).free, ¬ (after (ops ++ [op])).IsLive id := fun id h =>
      ((mem_free_iff (wellFormed_after hroom)).mp h).2
    by_cases hop : op = .sweep
    · subst hop
      have hfree : (after (ops ++ [.sweep])).free =
          ((after ops).garbage.map StringId.ofIndex).reverse ++ (after ops).free := by
        rw [after_concat]
        rfl
      rw [hfree] at hdead ⊢
      refine List.pairwise_append.mpr ⟨pairwise_newer_garbage hwf, ?_, fun a ha b hb => ?_⟩
      · exact pairwise_newer_concat (ih hbefore) fun id h => hdead id (List.mem_append_right _ h)
      · -- `a` was freed just now, and `b` some time before
        obtain ⟨i, hi, rfl⟩ := List.mem_map.mp (List.mem_reverse.mp ha)
        obtain ⟨l, hl⟩ := (mem_free_after hbefore).mp hb
        obtain ⟨hlt, -⟩ := List.getElem?_eq_some_iff.mp hl.sweep
        have hold := freedAt_concat.mpr ⟨hdead b (List.mem_append_right _ hb), .inl hl⟩
        exact ⟨_, l, freedAt_garbage hwf hi, hold, .inl hlt⟩
    · have hsuffix : (after (ops ++ [op])).free <:+ (after ops).free := by
        rw [after_concat]
        exact free_perform_suffix _ hop
      exact pairwise_newer_concat ((ih hbefore).sublist hsuffix.sublist) hdead

/-! ### Whole runs -/

/-- A run takes as many slots as there were ever live texts at one time, so it gives out only smaller
handles. And between two sweeps it first uses the handles again that were freed and not yet given out,
the newest first and those of one sweep from the greatest down, before it adds slots. -/
theorem slots_recycled (ops : List Op) (hroom : (after ops).slots.size ≤ UInt32.size) :
    let peak := (after ops).slots.size
    IsGreatest {n | ∃ earlier, earlier <+: ops ∧ Counts n (after earlier).IsLive} peak ∧
    (∀ id, .created id ∈ (performAll empty ops).1 → id.index.toNat < peak) ∧
    ∀ earlier stretch later, ops = earlier ++ stretch ++ later → .sweep ∉ stretch →
      let t := after earlier
      let n := stretch.countP Op.isCreate
      (∀ id, id ∈ t.free ↔ ∃ k, FreedAt earlier k id) ∧ t.free.Pairwise (Newer earlier) ∧
      handedOut (performAll t stretch).1 =
        t.free.take n ++ (List.range' t.slots.size (n - t.free.length)).map .ofIndex := by
  intro peak
  refine ⟨isGreatest_slots_size hroom, fun id h => index_lt_of_created wellFormed_empty hroom h, ?_⟩
  rintro earlier stretch later rfl hsweep t n
  rw [List.append_assoc] at hroom
  have hearlier := Nat.le_trans (slots_size_after_le (List.prefix_append earlier _)) hroom
  exact ⟨fun id => mem_free_after hearlier, pairwise_newer_after hearlier,
    handedOut_performAll t hsweep⟩

/-- The second of three texts outlives one sweep but not the next one. -/
def sweptTwice : List Op :=
  [.create "a", .create "b", .create "c", .mark ⟨1⟩, .sweep, .sweep]

def refill : List Op :=
  [.create "d", .get ⟨1⟩, .create "e", .create "f", .mark ⟨0⟩, .create "g"]

theorem refill_recycles :
    (after (sweptTwice ++ refill ++ [.sweep])).slots.size ≤ UInt32.size ∧
    .sweep ∉ refill ∧
    IsGreatest {n | ∃ earlier, earlier <+: sweptTwice ++ refill ++ [.sweep] ∧
      Counts n (after earlier).IsLive} 4 ∧
    handedOut (performAll (after sweptTwice) refill).1 = [⟨1⟩, ⟨2⟩, ⟨0⟩, ⟨3⟩] := by
  have hsize : (after (sweptTwice ++ refill ++ [.sweep])).slots.size = 4 := by
    with_unfolding_all rfl
  have hroom : (after (sweptTwice ++ refill ++ [.sweep])).slots.size ≤ UInt32.size := by
    rw [hsize]
    decide
  have hsweep : .sweep ∉ refill := by simp [refill]
  obtain ⟨hpeak, -, horder⟩ := slots_recycled (sweptTwice ++ refill ++ [.sweep]) hroom
  obtain ⟨-, -, hhanded⟩ := horder sweptTwice refill [.sweep] rfl hsweep
  rw [hsize] at hpeak
  exact ⟨hroom, hsweep, hpeak, hhanded.trans (by with_unfolding_all rfl)⟩

end StringTable
end Narrative
