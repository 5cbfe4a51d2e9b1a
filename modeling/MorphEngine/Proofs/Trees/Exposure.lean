import MorphEngine.Proofs.Chains
import MorphEngine.Proofs.Diary
import MorphEngine.Proofs.Memo.Transparency
import MorphEngine.Proofs.Trees.Purity

/-!
# Impure parts are run again

Nothing above an impure part has a cache, so whatever is applied on the way from the part to the root
runs the part anew. Only a condition between them can keep it from being run, and then its predicate
has turned the input down in that very run.
-/

namespace MorphEngine

open Engine Fusion

namespace Morph

variable {U : Type} (h : Host U)

/-- A reply that is there has come with an entry in the diary, or the run that is left to be awaited
makes one. -/
def NotesUpTo (E : Answered → Prop) (x x' : World (U × List Answered)) :
    Reply (U × List Answered) → Prop
  | .value _ => Since E x x'
  | .deferred run => Notes E run

theorem NotesUpTo.earlier {E : Answered → Prop} {x x₁ x' : World (U × List Answered)}
    (grown : x.diary <+: x₁.diary) {reply : Reply (U × List Answered)}
    (notes : NotesUpTo E x₁ x' reply) : NotesUpTo E x x' reply := by
  cases reply with
  | value v => exact Since.earlier grown notes
  | deferred run => exact notes

def NotesReply (E : Answered → Prop)
    (transform : Engine (U × List Answered) (Reply (U × List Answered))) : Prop :=
  ∀ x reply x', transform.runFrom x = (.ok reply, x') → NotesUpTo E x x' reply

section Reply

variable {h} {E : Answered → Prop}
  {transform : Engine (U × List Answered) (Reply (U × List Answered))}

theorem NotesReply.of_deferred {run : Engine (U × List Answered) Value} (notes : Notes E run) :
    NotesReply E (pure (.deferred run)) := by
  intro x reply x' ended
  cases ended
  exact notes

theorem NotesReply.of_value {run : Engine (U × List Answered) Value} (notes : Notes E run) :
    NotesReply E (.value <$> run) := by
  intro x reply x' ended
  rw [runFrom_map] at ended
  rcases ran : run.runFrom x with ⟨f | u, x₁⟩
  · rw [ran] at ended
    cases ended
  · rw [ran] at ended
    cases ended
    exact notes x u _ ran

theorem await_grows (v : Value) : Grows (h.withDiary.await v) :=
  .of_related fun start => (h.diary_grows start).await v

theorem transform_grows (m : Morph) (v context : Value) :
    Grows (Morph.transform h.withDiary m v context) :=
  .of_related fun start => transform_related (h.diary_grows start) m v context

theorem settle_value_grows (v : Value) : Grows (settle h.withDiary (.value v)) := by
  intro x
  simp only [settle]
  split
  · exact await_grows v x
  · exact List.prefix_refl _

theorem NotesReply.settled (notes : NotesReply E transform) (grows : Grows transform) :
    Notes E (transform >>= settle h.withDiary) := by
  intro x u x' ended
  obtain ⟨reply, x₁, ran, ended⟩ := exists_of_run_bind_eq_ok ended
  have shown := notes x reply x₁ ran
  cases reply with
  | deferred run =>
    have grown := grows x
    rw [show transform.runFrom x = (.ok (.deferred run), x₁) from ran] at grown
    exact .earlier grown (shown x₁ u x' ended)
  | value v =>
    have grown := settle_value_grows (h := h) v x₁
    rw [show (settle h.withDiary (.value v)).runFrom x₁ = (.ok u, x') from ended] at grown
    exact shown.later grown

theorem NotesReply.callOnce (notes : NotesReply E transform) (head : Header) (label : Name)
    (context : Value) : Notes E (callOnce head label context transform) := by
  intro x u x' ended
  rcases ran : transform.runFrom x with ⟨f | reply, x₁⟩
  · rw [callOnce_of_fault ran] at ended
    cases ended
  · cases ready : reply.ready? with
    | none =>
      rw [callOnce_of_pending ran ready] at ended
      cases ended
    | some v =>
      rw [callOnce_of_ready ran ready] at ended
      cases ended
      have shown := notes x reply _ ran
      cases reply with
      | deferred run => cases ready
      | value v => exact shown

theorem NotesReply.awaitOnce (notes : NotesReply E transform) (grows : Grows transform)
    (label : Name) (context : Value) :
    Notes E (awaitOnce h.withDiary label context transform) :=
  (notes.settled grows).mapFault _

end Reply

section Part

variable {h} {E : Answered → Prop} {context : Value}

/-- A part without a cache whose transformation always shows something, on any input. -/
structure IsExposed (h : Host U) (E : Answered → Prop) (context : Value) (m : Morph) : Prop where
  bare : m.head.cache = none
  notes : ∀ v, NotesReply E (transform h.withDiary m v context)

theorem IsExposed.execute {m : Morph} (exposed : IsExposed h E context m) (label : Name)
    (v : Value) :
    Notes E (execute h.withDiary m.head label v context (transform h.withDiary m v context)) := by
  rw [execute_eq_callOnce _ exposed.bare]
  exact (exposed.notes v).callOnce _ _ _

theorem IsExposed.executeDeferred {m : Morph} (exposed : IsExposed h E context m) (label : Name)
    (v : Value) :
    Notes E
      (executeDeferred h.withDiary m.head label v context (transform h.withDiary m v context)) := by
  rw [executeDeferred_eq_awaitOnce _ exposed.bare]
  exact (exposed.notes v).awaitOnce (transform_grows m v context) _ _

theorem execute_grows (m : Morph) (label : Name) (v : Value) :
    Grows (execute h.withDiary m.head label v context (transform h.withDiary m v context)) :=
  .of_related fun start =>
    execute_related (h.diary_grows start) _ _ _ _ (transform_related (h.diary_grows start) m v context)

theorem executeDeferred_grows (m : Morph) (label : Name) (v : Value) :
    Grows
      (executeDeferred h.withDiary m.head label v context (transform h.withDiary m v context)) :=
  .of_related fun start =>
    executeDeferred_related (h.diary_grows start) _ _ _ _
      (transform_related (h.diary_grows start) m v context)

theorem callOnce_grows (m : Morph) (label : Name) (v : Value) :
    Grows (callOnce m.head label context (transform h.withDiary m v context)) :=
  .of_related fun start =>
    callOnce_related _ _ _ (transform_related (h.diary_grows start) m v context)

theorem runSteps_notes {steps : List Morph} {m : Morph} (among : m ∈ steps)
    (exposed : IsExposed h E context m) (v : Value) :
    Notes E (runSteps h.withDiary steps v context) := by
  rw [runSteps_eq_foldlM]
  exact .foldlM among (fun v m => execute_grows m m.name v) (exposed.execute m.name) v

theorem runStepsDeferred_notes {steps : List Morph} {m : Morph} (among : m ∈ steps)
    (exposed : IsExposed h E context m) (v : Value) :
    Notes E (runStepsDeferred h.withDiary steps v context) := by
  rw [runStepsDeferred_eq_foldlM]
  exact .foldlM among (fun v m => executeDeferred_grows m m.name v) (exposed.executeDeferred m.name) v

theorem runMembers_notes {members : List Stage} {s : Stage} (among : s ∈ members)
    (exposed : IsExposed h E context s.morph) (v : Value) :
    Notes E (runMembers h.withDiary members v context) := by
  rw [runMembers_eq_foldlM]
  exact .foldlM among (fun v s => callOnce_grows s.morph s.label v)
    (fun v => (exposed.notes v).callOnce _ _ _) v

theorem runStages_notes {stages : List Stage} {s : Stage} (among : s ∈ stages)
    (exposed : IsExposed h E context s.morph) (v : Value) :
    Notes E (runStages h.withDiary stages v context) := by
  rw [runStages_eq_foldlM]
  exact .foldlM among (fun v s => execute_grows s.morph s.label v) (exposed.execute s.label) v

theorem runStagesDeferred_notes {stages : List Stage} {s : Stage} (among : s ∈ stages)
    (exposed : IsExposed h E context s.morph) (v : Value) :
    Notes E (runStagesDeferred h.withDiary stages v context) := by
  rw [runStagesDeferred_eq_foldlM]
  exact .foldlM among (fun v s => executeDeferred_grows s.morph s.label v)
    (exposed.executeDeferred s.label) v

/-- A call that ends well is the last thing written down. -/
theorem diary_of_call {fn v u : Value} {x x' : World (U × List Answered)}
    (ran : (h.withDiary.call fn v context).run x = (.ok u, x')) :
    x'.diary = x.diary ++ [⟨fn, v, context, .ok u⟩] := by
  have answered : ((h.call fn v context).runFrom x.withoutDiary).1 = .ok u := congrArg Prod.fst ran
  have written : x' = World.withDiary (x.diary ++
      [⟨fn, v, context, ((h.call fn v context).runFrom x.withoutDiary).1⟩])
      ((h.call fn v context).runFrom x.withoutDiary).2 := (congrArg Prod.snd ran).symm
  rw [written, answered]
  rfl

theorem notesReply_of_step {head : Header} {steps : List Morph} {finish : Option Value} {p : Morph}
    (among : p ∈ steps) (exposed : IsExposed h E context p) (v : Value) :
    NotesReply E (transform h.withDiary (composed head steps finish) v context) := by
  rw [transform]
  split
  · refine .of_deferred (Notes.mapFault (Notes.bind_first ?_ fun u => ?_) _)
    · exact runStepsDeferred_notes among exposed v
    · exact .of_related fun start => finishDeferred_related (h.diary_grows start) finish u context
  · have runs : Notes E (runSteps h.withDiary steps v context) := runSteps_notes among exposed v
    cases finish with
    | none =>
      simp only [← map_eq_pure_bind]
      exact .of_value runs
    | some fn =>
      have finished := runs.bind_first (k := fun u => h.withDiary.call fn u context) fun u =>
        .of_related fun start => (h.diary_grows start).call fn u context
      simpa only [map_bind] using NotesReply.of_value finished

/-- A condition either turns an input down, and its predicate is the last thing written down, or runs
its body. -/
theorem notesReply_of_body {head : Header} {predicate : Value} {body : Morph}
    (exposed : IsExposed h E context body)
    (declines : ∀ v holds, (holds.resolve h.cells).truth = .ok false →
      E ⟨predicate, v, context, .ok holds⟩) (v : Value) :
    NotesReply E (transform h.withDiary (conditional head predicate body) v context) := by
  intro x reply x' ended
  rw [transform] at ended
  obtain ⟨holds, x₁, asked, ended⟩ := exists_of_run_bind_eq_ok ended
  obtain ⟨b, x₂, judged, ended⟩ := exists_of_run_bind_eq_ok ended
  obtain ⟨truth, rfl⟩ : (holds.resolve h.cells).truth = .ok b ∧ x₁ = x₂ := Prod.mk.inj judged
  have written := diary_of_call asked
  cases b with
  | true =>
    have runs : NotesReply E (if body.isAsync then
        pure (.deferred (Morph.executeDeferred h.withDiary body.head body.name v context
          (transform h.withDiary body v context)))
        else .value <$> Morph.execute h.withDiary body.head body.name v context
          (transform h.withDiary body v context)) := by
      split
      · exact .of_deferred (exposed.executeDeferred _ v)
      · exact .of_value (exposed.execute _ v)
    exact (runs _ reply x' ended).earlier ⟨_, written.symm⟩
  | false =>
    cases ended
    exact ⟨_, written, _, List.mem_singleton_self _, declines v holds truth⟩

/-- What an exposed part notes, the morph that it is a part of shows, unless a condition turned the
input down. -/
theorem notesReply_of_part {m p : Morph} (part : p ∈ m.parts) (exposed : IsExposed h E context p)
    (declines : ∀ head predicate body, m = conditional head predicate body → ∀ v holds,
      (holds.resolve h.cells).truth = .ok false → E ⟨predicate, v, context, .ok holds⟩) (v : Value) :
    NotesReply E (transform h.withDiary m v context) := by
  cases m with
  | simple head fn => cases part
  | identity head => cases part
  | composed head steps finish => exact notesReply_of_step part exposed v
  | conditional head predicate body =>
    cases List.mem_singleton.mp part
    exact notesReply_of_body exposed (declines head predicate p rfl) v
  | fused head members =>
    obtain ⟨s, among, rfl⟩ := List.mem_map.mp part
    rw [transform]
    exact .of_value (runMembers_notes among exposed v)
  | pipeline head info stages declared =>
    obtain ⟨s, among, rfl⟩ := List.mem_map.mp part
    rw [transform]
    split
    · exact .of_deferred (runStagesDeferred_notes among exposed v)
    · exact .of_value (runStages_notes among exposed v)

end Part

/-! ### From a source to the root -/

section Source

variable {h} {context : Value}

/-- A morph's own function was called under a context and gave a result. -/
def IsRunOf (source : Morph) (context : Value) (e : Answered) : Prop :=
  e.fn ∈ source.functions ∧ e.context = context ∧ ∃ u, e.outcome = .ok u

/-- A condition between a part and the root turned an input down. -/
def IsTurnedDown (cells : Cells) (source root : Morph) (context : Value) (e : Answered) : Prop :=
  ∃ head predicate body, (conditional head predicate body).IsWithin root ∧
    source.IsWithin (conditional head predicate body) ∧ e.fn = predicate ∧ e.context = context ∧
    ∃ holds, e.outcome = .ok holds ∧ (holds.resolve cells).truth = .ok false

theorem call_notes {E : Answered → Prop} {fn v : Value}
    (enters : ∀ u, E ⟨fn, v, context, .ok u⟩) : Notes E (h.withDiary.call fn v context) :=
  fun _ u _ ran => ⟨_, diary_of_call ran, _, List.mem_singleton_self _, enters u⟩

/-- An impure source calls its function whenever it is run. -/
theorem notesReply_of_source {E : Answered → Prop} {source : Morph} (impure : source.IsImpureSource)
    (runs : ∀ e, IsRunOf source context e → E e) (v : Value) :
    NotesReply E (transform h.withDiary source v context) := by
  cases source with
  | simple head fn =>
    rw [transform]
    exact .of_value (call_notes fun u => runs _ ⟨List.mem_cons_self, rfl, u, rfl⟩)
  | composed head steps finish =>
    obtain ⟨fn, rfl⟩ := Option.isSome_iff_exists.mp impure
    have finishes (u : Value) : Notes E (h.withDiary.call fn u context) :=
      call_notes fun u' => runs _ ⟨List.mem_cons_self, rfl, u', rfl⟩
    rw [transform]
    split
    · refine .of_deferred (Notes.mapFault (Notes.bind_next ?_ fun u => ?_) _)
      · exact .of_related fun start => runStepsDeferred_related (h.diary_grows start) steps v context
      · exact (finishes u).bind_first settle_value_grows
    · have finished := Notes.bind_next (k := fun u => h.withDiary.call fn u context)
        (.of_related fun start => runSteps_related (h.diary_grows start) steps v context) finishes
      simpa only [map_bind] using NotesReply.of_value finished
  | _ => exact impure.elim

/-- Every morph from an impure source up to the root is exposed: by induction on the way up. -/
theorem isExposed_above {source m root : Morph} (derived : root.Throughout PureInParts)
    (impure : source.IsImpureSource) (above : source.IsWithin m) (within : m.IsWithin root) :
    IsExposed h (fun e => IsRunOf source context e ∨ IsTurnedDown h.cells source root context e)
      context m := by
  have bare := (bare_above_source derived impure above within).2
  induction above with
  | refl =>
    exact ⟨bare, notesReply_of_source impure fun e runs => Or.inl runs⟩
  | @tail p m lower part ih =>
    have inner : p.IsWithin root := (IsWithin.of_part part).trans within
    have below := ih inner (bare_above_source derived impure lower inner).2
    refine ⟨bare, notesReply_of_part part below ?_⟩
    rintro head predicate body rfl v holds truth
    exact Or.inr ⟨head, predicate, body, within, lower.tail part, rfl, rfl, holds, rfl, truth⟩

end Source

section Applied

variable {h} {E : Answered → Prop} {context : Value}

/-- An exposed morph is applied on the direct path, or its reply is awaited, with an entry in the
diary. -/
theorem IsExposed.apply {m : Morph} (exposed : IsExposed h E (contextInEffect context) m)
    (v : Value) : Notes E (apply h.withDiary m v context >>= settle h.withDiary) := by
  unfold Morph.apply
  split
  · rw [pure_bind]
    exact exposed.executeDeferred m.name v
  · rw [bind_map_left]
    exact (exposed.execute m.name v).bind_first settle_value_grows

/-- Applied on the deferred path, a pipeline runs its stages directly; so what is exposed is one of
them. -/
theorem IsExposed.applyAsync {m : Morph} (exposed : IsExposed h E (contextInEffect context) m)
    (stages : m.kind = .pipeline → ∃ p ∈ m.parts, IsExposed h E (contextInEffect context) p)
    (v : Value) : Notes E (applyAsync h.withDiary m v context) := by
  cases m with
  | pipeline head info run declared =>
    obtain ⟨p, part, below⟩ := stages rfl
    obtain ⟨s, among, rfl⟩ := List.mem_map.mp part
    exact runStagesDeferred_notes among below v
  | _ => exact exposed.executeDeferred _ v

end Applied

/-- Whatever is declared about memoizing it, everything from an impure part up to the root is impure
and has no cache. From any world, whatever has been asked before, an application of it that ends well
has called the function of the impure part anew, unless a condition in between has turned its input
down in that very run. -/
theorem impurity_reaches_root {root source m : Morph} (made : root.MadeBy DerivesPurity)
    (impure : source.IsImpureSource) (above : source.IsWithin m) (within : m.IsWithin root) :
    m.isPure = false ∧ m.head.cache = none ∧
      ∀ {U : Type} (h : Host U) (v context : Value),
        let runs (e : Answered) := IsRunOf source (contextInEffect context) e ∨
          IsTurnedDown h.cells source m (contextInEffect context) e
        Notes runs (apply h.withDiary m v context >>= settle h.withDiary) ∧
          Notes runs (applyAsync h.withDiary m v context) := by
  have derived := made.pureInParts.within within
  obtain ⟨path, bare⟩ := bare_above_source derived impure above (.refl m)
  refine ⟨path, bare, ?_⟩
  intro U h v context runs
  have exposed {p : Morph} (lower : source.IsWithin p) (inside : p.IsWithin m) :
      IsExposed h runs (contextInEffect context) p := isExposed_above derived impure lower inside
  refine ⟨(exposed above (.refl m)).apply v, (exposed above (.refl m)).applyAsync ?_ v⟩
  intro pipeline
  rcases Relation.ReflTransGen.cases_tail above with rfl | ⟨p, lower, part⟩
  · cases m <;> first | exact impure.elim | cases pipeline
  · exact ⟨p, part, exposed lower (.of_part part)⟩

/-! ### A memoizable sequence over an impure function -/

def volatileMorph : Morph :=
  .simple ⟨0, "volatile", { MorphMetadata.default with pure := false, memoizable := true }, none,
    nofun⟩ (.function 0 false)

def wrappedMorph : Morph :=
  .composed ⟨1, "wrapped", { MorphMetadata.default with
    pure := false, memoizable := true, cost := .ofInt 2 }, none, nofun⟩
    [volatileMorph, volatileMorph] none

/-- It is declared memoizable, and calls its function anew all the same. -/
theorem wrappedMorph_runs_again :
    let once := apply Request.countingHost.withDiary wrappedMorph (.int 1) .none >>=
      settle Request.countingHost.withDiary
    let idle : World (Nat × List Answered) := ⟨fun _ => .empty, (0, [])⟩
    let before := (once.runFrom idle).2
    let runs (e : Answered) := IsRunOf volatileMorph .emptyContext e ∨
      IsTurnedDown [] volatileMorph wrappedMorph .emptyContext e
    wrappedMorph.isMemoizable = true ∧ wrappedMorph.isPure = false ∧
      wrappedMorph.head.cache = none ∧ (once.runFrom before).1 = .ok (.text "done") ∧
      Since runs before (once.runFrom before).2 := by
  intro once idle before runs
  have inner : create 0 (.text "volatile") (.function 0 false) .none EngineSettings.default
      [("pure", .bool false), ("memoizable", .bool true)] = .ok volatileMorph := rfl
  have outer : sequence 1 volatileMorph volatileMorph (.text "wrapped") = .ok wrappedMorph := rfl
  have leaf : volatileMorph.MadeBy DerivesPurity := .function trivial inner
  have above : volatileMorph.IsWithin wrappedMorph := .of_part List.mem_cons_self
  have source : volatileMorph.IsImpureSource := rfl
  obtain ⟨impure, bare, again⟩ := impurity_reaches_root (.succession trivial leaf leaf outer) source
    above (.refl wrappedMorph)
  obtain ⟨notes, _⟩ := again Request.countingHost (.int 1) .none
  have ended : once.runFrom before = (.ok (.text "done"), (once.runFrom before).2) := rfl
  exact ⟨rfl, impure, bare, rfl, notes before _ _ ended⟩

end Morph

end MorphEngine
