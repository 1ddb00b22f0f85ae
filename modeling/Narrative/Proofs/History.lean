import Narrative.Attempt

/-! Histories of attempts: what every single attempt keeps is kept by a whole history, and a model
that follows every single attempt follows a whole history. -/
namespace Narrative
variable {ε σ τ α β ι μ : Type}

@[simp] theorem attempt_query (read : σ → α) (s : σ) :
    attempt (query read : EStateM ε σ α) s = (.ok (read s), s) := rfl

theorem attempt_of_ok {action : EStateM ε σ α} {s s' : σ} {x : α} (h : action s = .ok x s') :
    attempt action s = (.ok x, s') := by
  simp [attempt, h]

theorem attempt_of_error {action : EStateM ε σ α} {s s' : σ} {e : ε} (h : action s = .error e s') :
    attempt action s = (.error e, s') := by
  simp [attempt, h]

theorem eq_ok_of_attempt {action : EStateM ε σ α} {s s' : σ} {x : α}
    (h : attempt action s = (.ok x, s')) : action s = .ok x s' := by
  unfold attempt at h
  cases ha : action s with
  | ok y t => simpa [ha] using h
  | error e t => simp [ha] at h

/-- An action whose answer is only looked at. -/
theorem attempt_bind_pure (action : EStateM ε σ α) (f : α → β) (s : σ) :
    attempt (action >>= fun x => pure (f x)) s =
      ((attempt action s).1.map f, (attempt action s).2) := by
  cases h : action s with
  | ok x t =>
    rw [attempt_of_ok h]
    exact attempt_of_ok (by simp [bind, EStateM.bind, h]; rfl)
  | error e t =>
    rw [attempt_of_error h]
    exact attempt_of_error (by simp [bind, EStateM.bind, h])

theorem ok_of_attempt_bind_pure {action : EStateM ε σ α} {f : α → β} {s t : σ} {y : β}
    (h : attempt (action >>= fun x => pure (f x)) s = (.ok y, t)) :
    ∃ x, attempt action s = (.ok x, t) ∧ f x = y := by
  rw [attempt_bind_pure] at h
  cases haction : attempt action s with
  | mk answer t' =>
    rw [haction] at h
    cases answer <;> cases h
    exact ⟨_, rfl, rfl⟩

theorem attempt_bind_of_ok {action : EStateM ε σ α} {next : α → EStateM ε σ β} {s s' : σ} {x : α}
    (h : attempt action s = (.ok x, s')) :
    attempt (action >>= next) s = attempt (next x) s' := by
  simp [attempt, bind, EStateM.bind, eq_ok_of_attempt h]

theorem attempt_bind_of_error {action : EStateM ε σ α} {next : α → EStateM ε σ β} {s s' : σ} {e : ε}
    (h : attempt action s = (.error e, s')) :
    attempt (action >>= next) s = (.error e, s') := by
  cases ha : action s with
  | ok y t => simp [attempt, ha] at h
  | error e' t =>
    obtain ⟨rfl, rfl⟩ : e' = e ∧ t = s' := by simpa [attempt, ha] using h
    exact attempt_of_error (by simp [bind, EStateM.bind, ha])

theorem attempt_onPart (part : σ → τ) (put : σ → τ → σ) (action : EStateM ε τ α) (s : σ) :
    attempt (onPart part put action) s =
      ((attempt action (part s)).1, put s (attempt action (part s)).2) := by
  cases h : action (part s) <;> simp [attempt, onPart, h]

/-! ### One history -/

/-- Whether the action fails or not, what held before holds after. -/
def Preserves (P : σ → Prop) (action : EStateM ε σ α) : Prop :=
  ∀ ⦃s⦄, P s → P (attempt action s).2

theorem Preserves.query {P : σ → Prop} (read : σ → α) :
    Preserves P (query read : EStateM ε σ α) :=
  fun _ hs => hs

theorem Preserves.pure {P : σ → Prop} (x : α) : Preserves P (pure x : EStateM ε σ α) :=
  fun _ hs => hs

theorem Preserves.throw {P : σ → Prop} (e : ε) : Preserves P (throw e : EStateM ε σ α) :=
  fun _ hs => hs

theorem Preserves.bind {P : σ → Prop} {action : EStateM ε σ α} {next : α → EStateM ε σ β}
    (ha : Preserves P action) (hn : ∀ x, Preserves P (next x)) : Preserves P (action >>= next) := by
  intro s hs
  have hp := ha hs
  cases h : attempt action s with
  | mk answer s' =>
    rw [h] at hp
    cases answer with
    | ok x =>
      rw [attempt_bind_of_ok h]
      exact hn x hp
    | error e =>
      rw [attempt_bind_of_error h]
      exact hp

/-- Looking at the answer changes no state. -/
theorem Preserves.of_bind_pure {P : σ → Prop} {action : EStateM ε σ α} {f : α → β}
    (h : Preserves P (action >>= fun x => Pure.pure (f x))) : Preserves P action := by
  intro s hs
  have hbind := h hs
  rwa [attempt_bind_pure] at hbind

theorem Preserves.guarded {P : σ → Prop} {guard : σ → Bool} {action other : EStateM ε σ α}
    (ha : Preserves P action) (ho : Preserves P other) :
    Preserves P (fun s => if guard s then action s else other s) := by
  intro s hs
  cases h : guard s with
  | true => simpa [attempt, h] using ha hs
  | false => simpa [attempt, h] using ho hs

theorem attempts_preserve {P : σ → Prop} {perform : ι → EStateM ε σ α} {ops : List ι}
    (step : ∀ op ∈ ops, Preserves P (perform op)) {s : σ} (h : P s) :
    P (attempts perform ops s).2 := by
  induction ops generalizing s with
  | nil => exact h
  | cons op ops ih =>
    have hs := step op List.mem_cons_self h
    exact ih (fun op' hop => step op' (List.mem_cons_of_mem op hop)) hs

theorem Preserves.onPart {P : τ → Prop} {Q : σ → Prop} {part : σ → τ} {put : σ → τ → σ}
    {action : EStateM ε τ α} (ha : Preserves P action) (hpart : ∀ ⦃s⦄, Q s → P (part s))
    (hput : ∀ ⦃s x⦄, Q s → P x → Q (put s x)) : Preserves Q (onPart part put action) := by
  intro s hs
  rw [attempt_onPart]
  exact hput hs (ha (hpart hs))

/-! ### Failures -/

/-- An action that fails leaves the state as it was. -/
def Atomic (P : σ → Prop) (action : EStateM ε σ α) : Prop :=
  ∀ ⦃s⦄, P s → ∀ ⦃e t⦄, attempt action s = (.error e, t) → t = s

theorem Atomic.query {P : σ → Prop} (read : σ → α) : Atomic P (query read : EStateM ε σ α) := by
  intro s _ e t h
  cases h

theorem Atomic.throw {P : σ → Prop} (e : ε) : Atomic P (throw e : EStateM ε σ α) := by
  intro s _ e' t h
  cases h
  rfl

/-- An action of which each outcome is known to be a success or to change nothing. -/
theorem Atomic.of_cases {P : σ → Prop} {action : EStateM ε σ α}
    (h : ∀ ⦃s⦄, P s → (∃ x t, attempt action s = (.ok x, t)) ∨ ∃ e, attempt action s = (.error e, s)) :
    Atomic P action := by
  intro s hs e t herror
  rcases h hs with ⟨x, t', hok⟩ | ⟨e', he⟩
  · rw [hok] at herror
    cases herror
  · rw [he] at herror
    cases herror
    rfl

theorem Atomic.bind_pure {P : σ → Prop} {action : EStateM ε σ α} (h : Atomic P action)
    (f : α → β) : Atomic P (action >>= fun x => pure (f x)) := by
  intro s hs e t herror
  rw [attempt_bind_pure] at herror
  cases haction : attempt action s with
  | mk answer t' =>
    rw [haction] at herror
    cases answer with
    | ok x => cases herror
    | error e' =>
      cases herror
      exact h hs haction

theorem Atomic.guarded {P : σ → Prop} {guard : σ → Bool} {action other : EStateM ε σ α}
    (ha : Atomic (fun s => P s ∧ guard s = true) action)
    (ho : Atomic (fun s => P s ∧ guard s = false) other) :
    Atomic P (fun s => if guard s then action s else other s) := by
  intro s hs e t herror
  cases h : guard s with
  | true => exact ha ⟨hs, h⟩ (by simpa [attempt, h] using herror)
  | false => exact ho ⟨hs, h⟩ (by simpa [attempt, h] using herror)

theorem Atomic.onPart {P : τ → Prop} {Q : σ → Prop} {part : σ → τ} {put : σ → τ → σ}
    {action : EStateM ε τ α} (ha : Atomic P action) (hpart : ∀ ⦃s⦄, Q s → P (part s))
    (hput : ∀ s, put s (part s) = s) : Atomic Q (onPart part put action) := by
  intro s hs e t herror
  rw [attempt_onPart] at herror
  cases haction : attempt action (part s) with
  | mk answer x =>
    rw [haction] at herror
    cases answer <;> cases herror
    rw [ha (hpart hs) haction, hput]

/-! ### A model that goes along -/

/-- A model, given by what it allows one operation to answer and to leave, goes along with a history
of operations and their answers. -/
inductive Follows (allows : μ → ι → Except ε α → μ → Prop) :
    μ → List ι → List (Except ε α) → μ → Prop
  | nil (m : μ) : Follows allows m [] [] m
  | cons {m m₁ m₂ : μ} {op : ι} {answer : Except ε α} {ops : List ι} {answers : List (Except ε α)}
      (head : allows m op answer m₁) (tail : Follows allows m₁ ops answers m₂) :
      Follows allows m (op :: ops) (answer :: answers) m₂

theorem attempts_follow {allows : μ → ι → Except ε α → μ → Prop} {P : σ → Prop} {view : σ → μ}
    {perform : ι → EStateM ε σ α}
    (step : ∀ op s, P s → P (attempt (perform op) s).2 ∧
      allows (view s) op (attempt (perform op) s).1 (view (attempt (perform op) s).2))
    (ops : List ι) {s : σ} (h : P s) :
    Follows allows (view s) ops (attempts perform ops s).1 (view (attempts perform ops s).2) := by
  induction ops generalizing s with
  | nil => exact .nil _
  | cons op ops ih =>
    obtain ⟨hinv, hallows⟩ := step op s h
    exact .cons hallows (ih hinv)

/-! ### Two histories of the same operations -/

/-- From related states the action gives the same answer and leaves related states. -/
def Respects (R : σ → σ → Prop) (action : EStateM ε σ α) : Prop :=
  ∀ ⦃s t⦄, R s t →
    (attempt action s).1 = (attempt action t).1 ∧ R (attempt action s).2 (attempt action t).2

theorem Respects.query {R : σ → σ → Prop} {read : σ → α} (h : ∀ ⦃s t⦄, R s t → read s = read t) :
    Respects R (query read : EStateM ε σ α) :=
  fun _ _ hst => ⟨congrArg Except.ok (h hst), hst⟩

theorem Respects.change {R : σ → σ → Prop} {f : σ → σ} (h : ∀ ⦃s t⦄, R s t → R (f s) (f t)) :
    Respects R (change f : EStateM ε σ Unit) :=
  fun _ _ hst => ⟨rfl, h hst⟩

theorem Respects.pure {R : σ → σ → Prop} (x : α) : Respects R (pure x : EStateM ε σ α) :=
  fun _ _ hst => ⟨rfl, hst⟩

theorem Respects.throw {R : σ → σ → Prop} (e : ε) :
    Respects R (throw e : EStateM ε σ α) :=
  fun _ _ hst => ⟨rfl, hst⟩

theorem Respects.bind {R : σ → σ → Prop} {action : EStateM ε σ α} {next : α → EStateM ε σ β}
    (ha : Respects R action) (hn : ∀ x, Respects R (next x)) : Respects R (action >>= next) := by
  intro s t hst
  obtain ⟨hx, hr⟩ := ha hst
  cases hs : attempt action s with
  | mk a s' =>
    cases ht : attempt action t with
    | mk b t' =>
      simp only [hs, ht] at hx hr
      subst hx
      cases a with
      | ok x =>
        rw [attempt_bind_of_ok hs, attempt_bind_of_ok ht]
        exact hn x hr
      | error e =>
        rw [attempt_bind_of_error hs, attempt_bind_of_error ht]
        exact ⟨rfl, hr⟩

theorem Respects.guarded {R : σ → σ → Prop} {guard : σ → Bool} {action other : EStateM ε σ α}
    (hg : ∀ ⦃s t⦄, R s t → guard s = guard t) (ha : Respects R action) (ho : Respects R other) :
    Respects R (fun s => if guard s then action s else other s) := by
  intro s t hst
  cases h : guard s with
  | true => simpa [attempt, h, ← hg hst] using ha hst
  | false => simpa [attempt, h, ← hg hst] using ho hst

/-- An action on a part of the state respects a relation that is about the parts. -/
theorem Respects.onPart {R : τ → τ → Prop} {R' : σ → σ → Prop} {part : σ → τ} {put : σ → τ → σ}
    {action : EStateM ε τ α} (ha : Respects R action)
    (hpart : ∀ ⦃s t⦄, R' s t → R (part s) (part t))
    (hput : ∀ ⦃s t x y⦄, R' s t → R x y → R' (put s x) (put t y)) :
    Respects R' (onPart part put action) := by
  intro s t hst
  obtain ⟨hx, hr⟩ := ha (hpart hst)
  rw [attempt_onPart, attempt_onPart]
  exact ⟨hx, hput hst hr⟩

theorem attempts_related {R : σ → σ → Prop} {perform : ι → EStateM ε σ α}
    (step : ∀ op, Respects R (perform op)) (ops : List ι) {s t : σ} (h : R s t) :
    (attempts perform ops s).1 = (attempts perform ops t).1 ∧
      R (attempts perform ops s).2 (attempts perform ops t).2 := by
  induction ops generalizing s t with
  | nil => exact ⟨rfl, h⟩
  | cons op ops ih =>
    obtain ⟨hx, hr⟩ := step op h
    obtain ⟨hxs, hrs⟩ := ih hr
    simp only [attempts]
    exact ⟨by rw [hx, hxs], hrs⟩

theorem attempts_respect {R : σ → σ → Prop} {perform : ι → EStateM ε σ α}
    (step : ∀ op, Respects R (perform op)) (ops : List ι) {s t : σ} (h : R s t) :
    (attempts perform ops s).1 = (attempts perform ops t).1 :=
  (attempts_related step ops h).1

/-! ### One of two states lagging behind the other -/

/-- Whatever succeeds on the second of two related states succeeds on the first, with the same answer
and leaving related states. -/
def Mirrors (R : σ → σ → Prop) (action : EStateM ε σ α) : Prop :=
  ∀ ⦃s t⦄, R s t → ∀ ⦃x t'⦄, attempt action t = (.ok x, t') →
    ∃ s', attempt action s = (.ok x, s') ∧ R s' t'

theorem Mirrors.query {R : σ → σ → Prop} {read : σ → α} (h : ∀ ⦃s t⦄, R s t → read s = read t) :
    Mirrors R (query read : EStateM ε σ α) := by
  intro s t hst x t' ht
  cases ht
  exact ⟨s, by rw [attempt_query, h hst], hst⟩

theorem Mirrors.pure {R : σ → σ → Prop} (x : α) : Mirrors R (pure x : EStateM ε σ α) := by
  intro s t hst y t' ht
  cases ht
  exact ⟨s, rfl, hst⟩

theorem Mirrors.throw {R : σ → σ → Prop} (e : ε) : Mirrors R (throw e : EStateM ε σ α) := by
  intro s t hst x t' ht
  cases ht

theorem Mirrors.bind {R : σ → σ → Prop} {action : EStateM ε σ α} {next : α → EStateM ε σ β}
    (ha : Mirrors R action) (hn : ∀ x, Mirrors R (next x)) : Mirrors R (action >>= next) := by
  intro s t hst y t' ht
  cases h : attempt action t with
  | mk answer t₁ =>
    cases answer with
    | error e =>
      rw [attempt_bind_of_error h] at ht
      cases ht
    | ok x =>
      rw [attempt_bind_of_ok h] at ht
      obtain ⟨s₁, hs₁, hr⟩ := ha hst h
      rw [attempt_bind_of_ok hs₁]
      exact hn x hr ht

theorem Mirrors.guarded {R : σ → σ → Prop} {guard : σ → Bool} {action other : EStateM ε σ α}
    (hg : ∀ ⦃s t⦄, R s t → guard s = guard t) (ha : Mirrors R action) (ho : Mirrors R other) :
    Mirrors R (fun s => if guard s then action s else other s) := by
  intro s t hst x t' ht
  cases h : guard t with
  | true =>
    have hs := hg hst
    simp only [attempt, h, hs] at ht ⊢
    exact ha hst ht
  | false =>
    have hs := hg hst
    simp only [attempt, h, hs] at ht ⊢
    exact ho hst ht

theorem Mirrors.onPart {R : τ → τ → Prop} {R' : σ → σ → Prop} {part : σ → τ} {put : σ → τ → σ}
    {action : EStateM ε τ α} (ha : Mirrors R action)
    (hpart : ∀ ⦃s t⦄, R' s t → R (part s) (part t))
    (hput : ∀ ⦃s t x y⦄, R' s t → R x y → R' (put s x) (put t y)) :
    Mirrors R' (onPart part put action) := by
  intro s t hst x t' ht
  rw [attempt_onPart] at ht ⊢
  cases h : attempt action (part t) with
  | mk answer y =>
    rw [h] at ht
    cases ht
    obtain ⟨z, hz, hr⟩ := ha (hpart hst) h
    exact ⟨put s z, by rw [hz], hput hst hr⟩

end Narrative
