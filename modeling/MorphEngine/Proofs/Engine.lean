import MorphEngine.Morph.Run

/-!
# Computations from a given world

A computation is known by what it does from every world: its outcome, and the world it leaves
behind. The state survives a fault, so a bind goes on from the world of a result only. Changing
faults changes nothing else.
-/

namespace MorphEngine

@[simp] theorem mapError_ok {ε ε' α : Type} (f : ε → ε') (a : α) :
    (Except.ok a : Except ε α).mapError f = .ok a := rfl

@[simp] theorem mapError_error {ε ε' α : Type} (f : ε → ε') (e : ε) :
    (Except.error e : Except ε α).mapError f = .error (f e) := rfl

/-- A bind of results fails at its first part or at its second. -/
theorem bind_eq_error {ε α β : Type} {m : Except ε α} {k : α → Except ε β} {e : ε}
    (failed : m >>= k = .error e) : m = .error e ∨ ∃ a, m = .ok a ∧ k a = .error e := by
  cases m with
  | error e' =>
    cases failed
    exact Or.inl rfl
  | ok a => exact Or.inr ⟨a, rfl, failed⟩

/-- A bind goes on from the state of a result, and a fault ends it. -/
theorem run_bind {σ α β : Type} (m : ExceptT Fault (StateM σ) α)
    (k : α → ExceptT Fault (StateM σ) β) (s : σ) :
    (m >>= k).run s =
      match m.run s with
      | (.ok a, s') => (k a).run s'
      | (.error f, s') => (.error f, s') := by
  have unfolded : (m >>= k).run s = ExceptT.bindCont k (m.run s).1 (m.run s).2 := rfl
  rw [unfolded]
  rcases m.run s with ⟨f | a, s'⟩ <;> rfl

/-- A bind that ends well has gone well up to any point in it. -/
theorem exists_of_run_bind_eq_ok {σ α β : Type} {m : ExceptT Fault (StateM σ) α}
    {k : α → ExceptT Fault (StateM σ) β} {s s' : σ} {b : β}
    (ends : (m >>= k).run s = (.ok b, s')) :
    ∃ a s₁, m.run s = (.ok a, s₁) ∧ (k a).run s₁ = (.ok b, s') := by
  rw [run_bind] at ends
  rcases ran : m.run s with ⟨f | a, s₁⟩
  · rw [ran] at ends
    cases ends
  · rw [ran] at ends
    exact ⟨a, s₁, rfl, ends⟩

namespace Engine

variable {U α β : Type}

/-- What a computation does from a world. -/
def runFrom (m : Engine U α) (w : World U) : Except Fault α × World U := m.run w

theorem ext {m n : Engine U α} (same : ∀ w, m.runFrom w = n.runFrom w) : m = n :=
  funext same

@[simp] theorem runFrom_pure (a : α) (w : World U) :
    (pure a : Engine U α).runFrom w = (.ok a, w) := rfl

@[simp] theorem runFrom_ofExcept (r : Except Fault α) (w : World U) :
    (ofExcept r : Engine U α).runFrom w = (r, w) := rfl

theorem runFrom_bind (m : Engine U α) (k : α → Engine U β) (w : World U) :
    (m >>= k).runFrom w =
      match m.runFrom w with
      | (.ok a, w') => (k a).runFrom w'
      | (.error f, w') => (.error f, w') := by
  simp only [runFrom]
  rw [run_bind]
  rcases m.run w with ⟨f | a, w'⟩ <;> rfl

theorem runFrom_bind_ok {m : Engine U α} {k : α → Engine U β} {w w' : World U} {a : α}
    (h : m.runFrom w = (.ok a, w')) : (m >>= k).runFrom w = (k a).runFrom w' := by
  rw [runFrom_bind, h]

theorem runFrom_bind_error {m : Engine U α} {k : α → Engine U β} {w w' : World U} {f : Fault}
    (h : m.runFrom w = (.error f, w')) : (m >>= k).runFrom w = (.error f, w') := by
  rw [runFrom_bind, h]

/-- A bind that fails has failed at its first part, or past it. -/
theorem runFrom_bind_eq_error {m : Engine U α} {k : α → Engine U β} {w w' : World U} {f : Fault}
    (failed : (m >>= k).runFrom w = (.error f, w')) :
    m.runFrom w = (.error f, w') ∨
      ∃ a w₁, m.runFrom w = (.ok a, w₁) ∧ (k a).runFrom w₁ = (.error f, w') := by
  rw [runFrom_bind] at failed
  rcases ran : m.runFrom w with ⟨g | a, w₁⟩
  · rw [ran] at failed
    cases failed
    exact Or.inl rfl
  · rw [ran] at failed
    exact Or.inr ⟨a, w₁, rfl, failed⟩

theorem runFrom_map (g : α → β) (m : Engine U α) (w : World U) :
    (g <$> m).runFrom w = ((m.runFrom w).1.map g, (m.runFrom w).2) := by
  rw [map_eq_pure_bind, runFrom_bind]
  rcases m.runFrom w with ⟨f | a, w'⟩ <;> rfl

theorem runFrom_orElse (m : Engine U α) (handle : Fault → Engine U α) (w : World U) :
    (m.orElse handle).runFrom w =
      match m.runFrom w with
      | (.ok a, w') => (.ok a, w')
      | (.error f, w') => (handle f).runFrom w' := by
  unfold runFrom orElse
  simp only [ExceptT.run_mk]
  rcases m.run w with ⟨f | a, w'⟩ <;> rfl

theorem runFrom_mapFault (g : Fault → Fault) (m : Engine U α) (w : World U) :
    (mapFault g m).runFrom w = ((m.runFrom w).1.mapError g, (m.runFrom w).2) := by
  rw [mapFault, runFrom_orElse]
  rcases m.runFrom w with ⟨f | a, w'⟩ <;> rfl

theorem runFrom_onCache (h : Host U) (clock : Clock) (slot : Nat)
    (f : Except Fault Value → ResultCache → Except Fault α × ResultCache) (w : World U) :
    (onCache h clock slot f).runFrom w =
      ((f (h.now clock w) (w.caches slot)).1,
        ⟨fun i => if i = slot then (f (h.now clock w) (w.caches slot)).2 else w.caches i,
          w.user⟩) := rfl

/-- The results of a computation all satisfy a condition. -/
def ResultsIn (P : α → Prop) (m : Engine U α) : Prop :=
  ∀ w a w', m.runFrom w = (.ok a, w') → P a

theorem mapFault_mapFault (g g' : Fault → Fault) (m : Engine U α) :
    mapFault g (mapFault g' m) = mapFault (fun f => g (g' f)) m := by
  apply ext
  intro w
  simp only [runFrom_mapFault]
  rcases m.runFrom w with ⟨f | a, w'⟩ <;> rfl

theorem ResultsIn.bind {P : β → Prop} {m : Engine U α} {k : α → Engine U β}
    (hk : ∀ a, (k a).ResultsIn P) : (m >>= k).ResultsIn P := by
  intro w b w' ends
  rw [runFrom_bind] at ends
  rcases h : m.runFrom w with ⟨f | a, w₁⟩
  · rw [h] at ends
    cases ends
  · rw [h] at ends
    exact hk a w₁ b w' ends

theorem ResultsIn.pure {P : α → Prop} {a : α} (h : P a) :
    (Pure.pure a : Engine U α).ResultsIn P := by
  intro w b w' ends
  cases ends
  exact h

theorem ResultsIn.map {P : β → Prop} {m : Engine U α} {g : α → β} (sent : ∀ a, P (g a)) :
    (g <$> m).ResultsIn P := by
  rw [map_eq_pure_bind]
  exact .bind fun a => .pure (sent a)

end Engine

end MorphEngine
