import SchemaModel.Compile.Session
/-!
# Running steps that may fail

Store operations (`StoreM`) and compilation steps (`CompileM`) are computations that may fail and
keep the state they reached before failing: `ExceptT` over `StateM`. The equations here run such a
computation on a state, one combinator at a time, so that a proof about an operation unfolds its
`do` block and reads off the outcome and the new state without going through the monad
instances. A failure passes its state on unchanged and skips the rest of the block.

Outcomes compare by equality, so that a closed run can be checked by evaluating it.
-/

namespace SchemaModel

/-- Outcomes compare by their value or their error. -/
instance instDecidableEqOutcome {ε α : Type} [DecidableEq ε] [DecidableEq α] :
    DecidableEq (Except ε α)
  | .ok a, .ok b => decidable_of_iff (a = b) ⟨congrArg _, Except.ok.inj⟩
  | .error e, .error e' => decidable_of_iff (e = e') ⟨congrArg _, Except.error.inj⟩
  | .ok _, .error _ => isFalse nofun
  | .error _, .ok _ => isFalse nofun

section Steps

variable {ε σ α β : Type}

theorem run_bind (x : ExceptT ε (StateM σ) α) (f : α → ExceptT ε (StateM σ) β) (s : σ) :
    (x >>= f).run.run s =
      match x.run.run s with
      | (.ok a, s') => (f a).run.run s'
      | (.error e, s') => (.error e, s') := by
  simp only [ExceptT.run_bind, StateT.run_bind]
  rcases x.run.run s with ⟨_ | _, _⟩ <;> rfl

theorem run_map (x : ExceptT ε (StateM σ) α) (f : α → β) (s : σ) :
    (f <$> x).run.run s =
      match x.run.run s with
      | (.ok a, s') => (.ok (f a), s')
      | (.error e, s') => (.error e, s') := by
  simp only [ExceptT.run_map, StateT.run_map]
  rcases x.run.run s with ⟨_ | _, _⟩ <;> rfl

theorem run_bind_pure (x : ExceptT ε (StateM σ) α) (f : α → β) (s : σ) :
    (x >>= fun a => pure (f a)).run.run s = ((x.run.run s).1.map f, (x.run.run s).2) := by
  rw [run_bind]
  rcases x.run.run s with ⟨_ | _, _⟩ <;> rfl

theorem run_get (s : σ) : (get : ExceptT ε (StateM σ) σ).run.run s = (.ok s, s) := rfl

theorem run_pure (a : α) (s : σ) : (pure a : ExceptT ε (StateM σ) α).run.run s = (.ok a, s) := rfl

theorem run_modify (f : σ → σ) (s : σ) :
    (modify f : ExceptT ε (StateM σ) Unit).run.run s = (.ok (), f s) := rfl

theorem run_ofExcept (x : Except ε α) (s : σ) :
    (MonadExcept.ofExcept x : ExceptT ε (StateM σ) α).run.run s = (x, s) := by
  cases x <;> rfl

theorem run_throw (e : ε) (s : σ) : (throw e : ExceptT ε (StateM σ) α).run.run s = (.error e, s) :=
  rfl

theorem run_set (t s : σ) : (set t : ExceptT ε (StateM σ) PUnit).run.run s = (.ok ⟨⟩, t) := rfl

theorem run_modifyGet (f : σ → α × σ) (s : σ) :
    (modifyGet f : ExceptT ε (StateM σ) α).run.run s = (.ok (f s).1, (f s).2) := rfl

/-! A run that succeeds went through every step of the block, each of them succeeding. -/

theorem run_bind_eq_ok {x : ExceptT ε (StateM σ) α} {f : α → ExceptT ε (StateM σ) β}
    {s s' : σ} {b : β} :
    (x >>= f).run.run s = (.ok b, s') ↔
      ∃ a t, x.run.run s = (.ok a, t) ∧ (f a).run.run t = (.ok b, s') := by
  rw [run_bind]
  rcases x.run.run s with ⟨_ | a, t⟩
  · constructor
    · intro h
      cases h
    · rintro ⟨_, _, h, _⟩
      cases h
  · constructor
    · intro h
      exact ⟨a, t, rfl, h⟩
    · rintro ⟨_, _, h, hf⟩
      cases h
      exact hf

theorem run_pure_eq_ok {a b : α} {s s' : σ} :
    (pure a : ExceptT ε (StateM σ) α).run.run s = (.ok b, s') ↔ a = b ∧ s = s' := by
  rw [run_pure]
  constructor
  · intro h
    cases h
    exact ⟨rfl, rfl⟩
  · rintro ⟨rfl, rfl⟩
    rfl

theorem run_map_eq_ok {x : ExceptT ε (StateM σ) α} {f : α → β} {s s' : σ} {b : β} :
    (f <$> x).run.run s = (.ok b, s') ↔ ∃ a, x.run.run s = (.ok a, s') ∧ f a = b := by
  rw [run_map]
  rcases x.run.run s with ⟨_ | a, t⟩
  · constructor
    · intro h
      cases h
    · rintro ⟨_, h, _⟩
      cases h
  · constructor
    · intro h
      cases h
      exact ⟨a, rfl, rfl⟩
    · rintro ⟨_, h, rfl⟩
      cases h
      rfl

theorem run_throw_ne_ok (e : ε) (s s' : σ) (b : α) :
    (throw e : ExceptT ε (StateM σ) α).run.run s ≠ (.ok b, s') := by
  intro h
  cases h

/-! Two steps that run alike from every state are the same step. -/

theorem ext_run {x y : ExceptT ε (StateM σ) α} (h : ∀ s, x.run.run s = y.run.run s) : x = y :=
  ExceptT.ext (StateT.ext h)

/-- Continuations that agree on every value the first step can return give the same block. -/
theorem bind_congr_of_ok {x : ExceptT ε (StateM σ) α} {f g : α → ExceptT ε (StateM σ) β}
    (P : α → Prop) (hx : ∀ s a s', x.run.run s = (.ok a, s') → P a)
    (hfg : ∀ a, P a → f a = g a) : x >>= f = x >>= g := by
  apply ext_run
  intro s
  rw [run_bind, run_bind]
  rcases hrun : x.run.run s with ⟨_ | a, s'⟩
  · rfl
  · dsimp only
    rw [hfg a (hx s a s' hrun)]

/-- A property every step of a fold keeps holds of the value a successful fold returns. -/
theorem foldlM_ok_of_step {γ : Type} {f : α → γ → ExceptT ε (StateM σ) α} (P : α → Prop)
    (hstep : ∀ a x s a' s', P a → (f a x).run.run s = (.ok a', s') → P a') :
    ∀ (xs : List γ) (a : α) {s s' : σ} {a' : α}, P a →
      (xs.foldlM f a).run.run s = (.ok a', s') → P a' := by
  intro xs
  induction xs with
  | nil =>
    intro a s s' a' ha hrun
    rw [List.foldlM_nil] at hrun
    obtain ⟨rfl, -⟩ := run_pure_eq_ok.mp hrun
    exact ha
  | cons x xs ih =>
    intro a s s' a' ha hrun
    rw [List.foldlM_cons] at hrun
    obtain ⟨a₁, s₁, hfirst, hrest⟩ := run_bind_eq_ok.mp hrun
    exact ih a₁ (hstep a x s a₁ s₁ ha hfirst) hrest

end Steps

end SchemaModel
