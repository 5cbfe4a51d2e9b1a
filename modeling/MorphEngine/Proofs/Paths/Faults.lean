import MorphEngine.Proofs.Paths.Parting

/-!
# Faults that stages let out

A stage puts its label on whatever its transformation raises, unless the message cannot be written.
Nothing stands around its cache, so what fails there comes out as it is. When keys can always be made,
only looking up and storing can fail, for which the clock has to be read.
-/

namespace MorphEngine

namespace Morph

variable {U : Type} (h : Host U) (context : Value)

/-- The direct run of stages comes to one that lets a fault out without its label. -/
inductive LetsOut : List Stage → Value → World U → Fault → Prop
  /-- The message of what the transformation raised cannot be written. -/
  | unwritten {label : Name} {m : Morph} {rest : List Stage} {v : Value} {w w₁ : World U}
      {key : Option CacheKey} {f g : Fault}
      (missed : (consult h context m.head v).runFrom w = (.ok (key, none), w₁))
      (raised : ((transform h m v context).runFrom w₁).1 = .error f) (gives : f.GivesWay g) :
      LetsOut (.mk label m :: rest) v w g
  /-- The cache cannot be looked into. -/
  | lookup {label : Name} {m : Morph} {rest : List Stage} {v : Value} {w w₁ : World U}
      {key : Option CacheKey} {f : Fault}
      (keyed : (cacheKey h m.head v context).runFrom w = (.ok key, w₁))
      (fails : ((cached h m.head key).runFrom w₁).1 = .error f) :
      LetsOut (.mk label m :: rest) v w f
  /-- The result cannot be stored. -/
  | store {label : Name} {m : Morph} {rest : List Stage} {v u : Value} {w w₁ w₂ : World U}
      {key : Option CacheKey} {f : Fault}
      (missed : (consult h context m.head v).runFrom w = (.ok (key, none), w₁))
      (ran : (callOnce m.head label context (transform h m v context)).runFrom w₁ = (.ok u, w₂))
      (fails : ((remember h m.head key u).runFrom w₂).1 = .error f) :
      LetsOut (.mk label m :: rest) v w f
  | later {label : Name} {m : Morph} {rest : List Stage} {v v' : Value} {w w' : World U} {f : Fault}
      (ran : (execute h m.head label v context (transform h m v context)).runFrom w = (.ok v', w'))
      (lets : LetsOut rest v' w' f) : LetsOut (.mk label m :: rest) v w f

/-- The key of every call can be made, or is found not to exist. -/
def KeysCanBeMade (stages : List Stage) : Prop :=
  ∀ s ∈ stages, ∀ v w, ∃ key w', (cacheKey h s.morph.head v context).runFrom w = (.ok key, w')

variable {h context}

/-- A stage that the cache has no result for is run, and its result is stored. -/
theorem runFrom_execute_of_missed {head : Header} {v : Value} {w w₁ : World U}
    {key : Option CacheKey}
    (missed : (consult h context head v).runFrom w = (.ok (key, none), w₁)) (label : Name)
    (transform : Engine U (Reply U)) :
    (execute h head label v context transform).runFrom w =
      (supply h head (callOnce head label context transform) (key, none)).runFrom w₁ := by
  rw [execute, throughCache_eq_consult, Engine.runFrom_bind_ok missed]

/-- What a stage lets out ends the run. -/
theorem LetsOut.ends {stages : List Stage} {v : Value} {w : World U} {f : Fault}
    (lets : LetsOut h context stages v w f) :
    ((runStages h stages v context).runFrom w).1 = .error f := by
  induction lets with
  | @unwritten label m rest v w w₁ key f g missed raised gives =>
    rcases ended : (transform h m v context).runFrom w₁ with ⟨r, w₂⟩
    rw [ended] at raised
    cases raised
    have called := callOnce_of_fault ended m.head label context
    rw [gives.blame_eq] at called
    have stage : (execute h m.head label v context (transform h m v context)).runFrom w =
        (.error g, w₂) := by
      rw [runFrom_execute_of_missed missed, supply, Engine.runFrom_bind_error called]
    rw [runStages, Engine.runFrom_bind_error stage]
  | @lookup label m rest v w w₁ key f keyed fails =>
    rcases looked : (cached h m.head key).runFrom w₁ with ⟨r, w₂⟩
    rw [looked] at fails
    cases fails
    have stage : (execute h m.head label v context (transform h m v context)).runFrom w =
        (.error f, w₂) := by
      rw [execute, throughCache, Engine.runFrom_bind_ok keyed, Engine.runFrom_bind_error looked]
    rw [runStages, Engine.runFrom_bind_error stage]
  | @store label m rest v u w w₁ w₂ key f missed ran fails =>
    rcases stored : (remember h m.head key u).runFrom w₂ with ⟨r, w₃⟩
    rw [stored] at fails
    cases fails
    have stage : (execute h m.head label v context (transform h m v context)).runFrom w =
        (.error f, w₃) := by
      rw [runFrom_execute_of_missed missed, supply, Engine.runFrom_bind_ok ran,
        Engine.runFrom_bind_error stored]
    rw [runStages, Engine.runFrom_bind_error stage]
  | later ran lets ih =>
    rw [runStages, Engine.runFrom_bind_ok ran]
    exact ih

/-- A call fails without a label only over a fault whose message cannot be written. -/
theorem unwritten_of_callOnce {head : Header} {label : Name} {transform : Engine U (Reply U)}
    {w w' : World U} {f : Fault}
    (failed : (callOnce head label context transform).runFrom w = (.error f, w'))
    (unsettled : ¬ f.IsSettled) :
    ∃ g, (transform.runFrom w).1 = .error g ∧ g.GivesWay f := by
  rcases ran : transform.runFrom w with ⟨g | reply, w₁⟩
  · rw [callOnce_of_fault ran] at failed
    cases failed
    by_cases unwritten : g.IsUnwritten
    · obtain ⟨instead, gives⟩ := unwritten
      rw [gives.blame_eq]
      exact ⟨g, rfl, gives⟩
    · exact absurd (Fault.blame_isSettled unwritten label context) unsettled
  · refine absurd (isSettled_of_callOnce (fun g w₁ raised => ?_) failed) unsettled
    rw [ran] at raised
    cases raised

/-- When keys can be made, a stage that fails without a label lets the fault out in one of three ways.
-/
theorem letsOut_of_execute {label : Name} {m : Morph} {rest : List Stage} {v : Value} {w w' : World U}
    {f : Fault} (keyed : ∃ key w', (cacheKey h m.head v context).runFrom w = (.ok key, w'))
    (failed : (execute h m.head label v context (transform h m v context)).runFrom w = (.error f, w'))
    (unsettled : ¬ f.IsSettled) : LetsOut h context (.mk label m :: rest) v w f := by
  obtain ⟨key, w₀, keyed⟩ := keyed
  rcases looked : (cached h m.head key).runFrom w₀ with ⟨g | hit, w₁⟩
  · rw [execute, throughCache, Engine.runFrom_bind_ok keyed, Engine.runFrom_bind_error looked]
      at failed
    cases failed
    exact .lookup keyed (by rw [looked])
  · have consulted : (consult h context m.head v).runFrom w = (.ok (key, hit), w₁) := by
      rw [consult, Engine.runFrom_bind_ok keyed, Engine.runFrom_bind_ok looked]
      rfl
    cases hit with
    | some u =>
      rw [execute, throughCache_eq_consult, Engine.runFrom_bind_ok consulted] at failed
      cases failed
    | none =>
      rw [runFrom_execute_of_missed consulted, supply] at failed
      rcases ran : (callOnce m.head label context (transform h m v context)).runFrom w₁
        with ⟨g | u, w₂⟩
      · rw [Engine.runFrom_bind_error ran] at failed
        cases failed
        obtain ⟨g, raised, gives⟩ := unwritten_of_callOnce ran unsettled
        exact .unwritten consulted raised gives
      · rcases stored : (remember h m.head key u).runFrom w₂ with ⟨g | _, w₃⟩
        · rw [Engine.runFrom_bind_ok ran, Engine.runFrom_bind_error stored] at failed
          cases failed
          exact .store consulted ran (by rw [stored])
        · rw [Engine.runFrom_bind_ok ran, Engine.runFrom_bind_ok stored] at failed
          cases failed

/-- When keys can be made, a fault without a label has been let out by a stage. -/
theorem letsOut_of_not_isSettled {stages : List Stage} (keys : KeysCanBeMade h context stages)
    {v : Value} {w : World U} {f : Fault}
    (ends : ((runStages h stages v context).runFrom w).1 = .error f) (unsettled : ¬ f.IsSettled) :
    LetsOut h context stages v w f := by
  induction stages generalizing v w with
  | nil =>
    rw [runStages] at ends
    cases ends
  | cons s rest ih =>
    obtain ⟨label, m⟩ := s
    have others : KeysCanBeMade h context rest := fun s hs => keys s (List.mem_cons_of_mem _ hs)
    rw [runStages, Engine.runFrom_bind] at ends
    rcases ran : (execute h m.head label v context (transform h m v context)).runFrom w
      with ⟨g | v', w'⟩
    · rw [ran] at ends
      cases ends
      exact letsOut_of_execute (keys _ List.mem_cons_self v w) ran unsettled
    · rw [ran] at ends
      exact .later ran (ih others ends)

end Morph

end MorphEngine
