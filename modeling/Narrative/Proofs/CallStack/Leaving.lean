import Narrative.Proofs.CallStack.Transitions

/-! Entering and leaving frames: a push of a proper entry, and the pops that end at the innermost
boundary. -/
namespace Narrative
namespace CallStack
open Stack
variable {s : CallStack}

theorem WellFramed.of_layout {t : CallStack} (hs : WellFramed s) (ht : t.WellFormed)
    (hnull : t.layout.null = s.layout.null) (hnow : t.layout.now.Proper)
    (hsaved : ∀ r, t.layout.saved = some r → r.Proper) : WellFramed t :=
  ⟨ht, hnull.trans hs.null_eq, hnow, hsaved⟩

/-- A push of a proper entry fails only for want of room. -/
theorem push_proper_cases (hs : WellFramed s) {e : Entry} (he : e.Proper) :
    s.capacity ≤ s.frontier ∧ attempt (Stack.push e) s = (.error (.overflow s.capacity), s) ∨
    ∃ t, s.frontier < s.capacity ∧ attempt (Stack.push e) s = (.ok (), t) ∧ WellFramed t ∧
      t.layout = s.layout.push e := by
  have hnull : (e == s.null) = false := by
    rw [hs.null_eq]
    exact he.beq_null
  rcases push_cases e hs.wellFormed with ⟨h, -⟩ | ⟨-, hfull, h⟩ | ⟨t, -, hroom, h, ht, hl⟩
  · rw [hnull] at h
    cases h
  · exact .inl ⟨hfull, h⟩
  · refine .inr ⟨t, hroom, h, hs.of_layout ht (by rw [hl]; rfl) ?_ ?_, hl⟩
    · rw [hl]
      intro e' he'
      rcases List.mem_cons.mp he' with rfl | hmem
      · exact he
      · exact hs.proper e' hmem
    · rw [hl]
      exact hs.proper_saved

theorem depth_eq (hs : WellFramed s) : depth s = s.layout.now.scopes.frames.length := by
  have h := Scopes.length_frames_ofEntries hs.proper
  rw [Sheet.scopes, h, depth, elements_layout]

theorem hasFrame_eq (hs : WellFramed s) :
    hasFrame s = !s.layout.now.scopes.frames.isEmpty := by
  have h := depth_eq hs
  cases hf : s.layout.now.scopes.frames with
  | nil =>
    rw [hf, depth] at h
    simpa [hasFrame] using List.countP_eq_zero.mp h
  | cons f rest =>
    have hpos : 0 < s.toList.countP Entry.isBoundary := by
      rw [depth] at h
      rw [h, hf]
      exact Nat.zero_lt_succ _
    simpa [hasFrame] using List.countP_pos_iff.mp hpos

theorem isEmpty_iff (hs : WellFramed s) : s.isEmpty = true ↔ s.layout.now.scopes = {} := by
  have h := Scopes.ofEntries_eq_empty hs.proper
  rw [isEmpty, size_eq_length hs.wellFormed, ← elements_layout, Sheet.scopes, h]
  cases s.layout.now.elements <;> simp

/-- Enough pops reach the innermost boundary, and stop there. -/
theorem attempt_popToBoundary {n : Nat} (hs : WellFramed s)
    (hn : s.layout.now.cells.length ≤ n) (hb : ∃ c ∈ s.layout.now.cells, c.2.isBoundary = true) :
    ∃ above i record rest t, s.layout.now.cells = above ++ (i, .boundary record) :: rest ∧
      (∀ c ∈ above, c.2.isBoundary = false) ∧ attempt (popToBoundary n) s = (.ok record, t) ∧
      WellFramed t ∧ t.layout = { s.layout with now := ⟨i, rest⟩ } := by
  -- each pop takes one cell, and the boundary among the cells keeps the pops from running out
  induction n generalizing s with
  | zero =>
    obtain ⟨c, hc, -⟩ := hb
    have hnil : s.layout.now.cells = [] := List.eq_nil_of_length_eq_zero (Nat.le_zero.mp hn)
    rw [hnil] at hc
    cases hc
  | succ n ih =>
    rcases pop_cases hs.wellFormed with ⟨hnil, -⟩ | ⟨i, e, rest, t, hcells, h, ht, hl⟩
    · obtain ⟨c, hc, -⟩ := hb
      rw [hnil] at hc
      cases hc
    · have hproper : ∀ e' ∈ e :: rest.map Prod.snd, e'.Proper := by
        intro e' he'
        refine hs.proper e' ?_
        rw [Sheet.elements, hcells]
        exact he'
      have hwf : WellFramed t := hs.of_layout ht (by rw [hl])
        (by rw [hl]; exact fun e' he' => hproper e' (List.mem_cons_of_mem e he'))
        (by rw [hl]; exact hs.proper_saved)
      by_cases heb : e.isBoundary = true
      · obtain ⟨record, rfl⟩ := (hproper e List.mem_cons_self).eq_boundary heb
        refine ⟨[], i, record, rest, t, hcells, by simp, ?_, hwf, hl⟩
        rw [popToBoundary, attempt_bind_of_ok h, if_pos heb]
        rfl
      · have hlen : t.layout.now.cells.length ≤ n := by
          rw [hcells] at hn
          rw [hl]
          exact Nat.le_of_succ_le_succ hn
        have hex : ∃ c ∈ t.layout.now.cells, c.2.isBoundary = true := by
          obtain ⟨c, hc, hcb⟩ := hb
          rw [hcells] at hc
          rcases List.mem_cons.mp hc with rfl | hmem
          · exact absurd hcb heb
          · exact ⟨c, by rw [hl]; exact hmem, hcb⟩
        obtain ⟨above, j, record, rest', t', hcells', habove, h', hwf', hl'⟩ := ih hwf hlen hex
        refine ⟨(i, e) :: above, j, record, rest', t', ?_, ?_, ?_, hwf', ?_⟩
        · rw [hl] at hcells'
          change rest = _ at hcells'
          rw [hcells, hcells', List.cons_append]
        · intro c hc
          rcases List.mem_cons.mp hc with rfl | hmem
          · simpa using heb
          · exact habove c hmem
        · rw [popToBoundary, attempt_bind_of_ok h, if_neg heb]
          exact h'
        · rw [hl', hl]

structure Left (s : CallStack) (record : Frame) (t : CallStack) : Prop where
  wellFramed : WellFramed t
  capacity_eq : t.capacity = s.capacity
  frames_eq : ∃ vars, s.layout.now.scopes.frames = (record, vars) :: t.layout.now.scopes.frames
  base_eq : t.layout.now.scopes.base = s.layout.now.scopes.base
  marks_eq : s.layout.now.marks = t.layout.now.top :: t.layout.now.marks
  saved_eq : t.layout.saved = s.layout.saved

theorem left_of_cells {t : CallStack} {above rest : List (Nat × Entry)} {i : Nat} {record : Frame}
    (hs : WellFramed s) (ht : WellFramed t)
    (hcells : s.layout.now.cells = above ++ (i, .boundary record) :: rest)
    (habove : ∀ c ∈ above, c.2.isBoundary = false)
    (hl : t.layout = { s.layout with now := ⟨i, rest⟩ }) : Left s record t := by
  have hvalid : ∀ e ∈ above.map Prod.snd, e.name.isValid = true := by
    intro e he
    obtain ⟨c, hc, rfl⟩ := List.mem_map.mp he
    refine (hs.proper c.2 ?_).isValid (habove c hc)
    rw [Sheet.elements, hcells]
    exact List.mem_map_of_mem (List.mem_append_left _ hc)
  obtain ⟨vars, hvars⟩ := Scopes.ofEntries_above_boundary record (rest.map Prod.snd) hvalid
  have hscopes : s.layout.now.scopes =
      { Scopes.ofEntries (rest.map Prod.snd) with
        frames := (record, vars) :: (Scopes.ofEntries (rest.map Prod.snd)).frames } := by
    rw [Sheet.scopes, Sheet.elements, hcells, List.map_append, List.map_cons]
    exact hvars
  have hmarks : s.layout.now.marks = i :: (Sheet.mk i rest).marks := by
    have hnone : (above.filter fun c => c.2.isBoundary) = [] :=
      List.filter_eq_nil_iff.mpr fun c hc => by simp [habove c hc]
    rw [Sheet.marks, hcells, List.filter_append, hnone]
    rfl
  have htscopes : t.layout.now.scopes = Scopes.ofEntries (rest.map Prod.snd) := by
    rw [hl]
    rfl
  refine ⟨ht, ?_, ⟨vars, ?_⟩, ?_, ?_, by rw [hl]⟩
  · exact congrArg Layout.capacity hl
  · rw [hscopes, htscopes]
  · rw [hscopes, htscopes]
  · rw [hmarks, hl]

/-- Leaving a frame pops the entries above its boundary, and the boundary with its record. -/
theorem attempt_popFrame (hs : WellFramed s) (hframe : hasFrame s = true) :
    ∃ above i record rest t, s.layout.now.cells = above ++ (i, .boundary record) :: rest ∧
      (∀ c ∈ above, c.2.isBoundary = false) ∧ attempt popFrame s = (.ok record, t) ∧
      WellFramed t ∧ t.layout = { s.layout with now := ⟨i, rest⟩ } := by
  obtain ⟨e, hmem, heb⟩ := List.any_eq_true.mp hframe
  have hlen : s.layout.now.cells.length ≤ s.top := by
    have hcount := s.length_positionsBelow s.top
    have hcells : s.layout.now.cells.length = (s.positionsBelow s.top).length := by
      simp [layout, sheet, positions]
    omega
  have hex : ∃ c ∈ s.layout.now.cells, c.2.isBoundary = true := by
    rw [← elements_sheet] at hmem
    obtain ⟨c, hc, rfl⟩ := List.mem_map.mp hmem
    exact ⟨c, hc, heb⟩
  have hnonempty : ¬ s.isEmpty = true := by
    rw [isEmpty, size_eq_length hs.wellFormed]
    simpa using List.ne_nil_of_mem hmem
  have hpop : popFrame s = popToBoundary s.top s := by simp [popFrame, hnonempty, hframe]
  rw [attempt, hpop]
  exact attempt_popToBoundary hs hlen hex

theorem popFrame_cases (hs : WellFramed s) :
    s.layout.now.scopes.frames = [] ∧ s.layout.now.scopes.base = ∅ ∧
      attempt popFrame s = (.error .underflow, s) ∨
    s.layout.now.scopes.frames = [] ∧ s.layout.now.scopes.base ≠ ∅ ∧
      attempt popFrame s = (.error .noFrame, s) ∨
    ∃ record t, attempt popFrame s = (.ok record, t) ∧ Left s record t := by
  have hempty := isEmpty_iff hs
  have hframe := hasFrame_eq hs
  cases hm : s.layout.now.scopes with
  | mk base frames =>
    rw [hm] at hempty hframe
    cases frames with
    | nil =>
      have hno : hasFrame s = false := by simpa using hframe
      by_cases hbase : base = ∅
      · have he : s.isEmpty = true := hempty.mpr (by rw [hbase])
        exact .inl ⟨rfl, hbase, attempt_of_error (by simp [popFrame, he])⟩
      · have he : ¬ s.isEmpty = true := fun he => hbase (congrArg Scopes.base (hempty.mp he))
        exact .inr (.inl ⟨rfl, hbase, attempt_of_error (by simp [popFrame, he, hno])⟩)
    | cons f rest =>
      have hyes : hasFrame s = true := by simpa using hframe
      obtain ⟨above, i, record, cells, t, hcells, habove, h, ht, hl⟩ := attempt_popFrame hs hyes
      exact .inr (.inr ⟨record, t, h, left_of_cells hs ht hcells habove hl⟩)

end CallStack
end Narrative
