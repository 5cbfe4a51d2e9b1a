import MorphEngine.Proofs.Paths.Completion
import MorphEngine.Proofs.Paths.Faults
import MorphEngine.Proofs.Trees.Sequences

/-!
# Sequences run their leaves in turn

However morphs are grouped into sequences of two, as long as these have no caches they are run to
their end one after the other. The groups show only in faults that come out of a morph without a label
of its own: each sequence around it in turn puts its name on them. So two groupings of the same morphs
ask for the same calls and leave the same world, and come to the same outcome unless they put different
labels on such a fault.
-/

namespace MorphEngine

open Engine

variable {U : Type}

namespace Morph

open Fusion

/-- What a sequence makes of a fault that one of its parts lets out. -/
def relabel (context : Value) (m : Morph) (f : Fault) : Fault :=
  (if m.isAsync then f.leaveDeferred else f).blame m.name context

/-- A settled fault keeps its label. -/
theorem relabel_of_isSettled {f : Fault} (settled : f.IsSettled) (context : Value) (m : Morph) :
    m.relabel context f = f := by
  rw [relabel, settled.leaveDeferred_eq, ite_self, settled.blame_eq]

theorem relabel_eq (context : Value) (m : Morph) :
    m.relabel context = if m.isAsync then fun f => f.leaveDeferred.blame m.name context
      else Fault.blame m.name context := by
  funext f
  rw [relabel]
  split <;> rfl

/-! ### One sequence -/

section Sequence

variable {h : Host U} (context : Value)

theorem IsPrompt.sequence {id : Nat} {p q : Morph} {name : Value} {m : Morph} (first : p.IsPrompt h)
    (second : q.IsPrompt h) (made : Morph.sequence id p q name = .ok m) : m.IsPrompt h := by
  obtain ⟨head, rfl, _⟩ := sequence_eq_ok made
  refine ⟨⟨first.coherent, second.coherent, trivial⟩, .intro (fun _ fn none => nomatch none) ?_⟩
  intro part among
  rcases List.mem_pair.mp among with rfl | rfl
  · exact first.atOnce
  · exact second.atOnce

theorem isPrompt_of_makeIdentity {id : Nat} {name : Value} {e : Morph}
    (made : makeIdentity id name = .ok e) : e.IsPrompt h := by
  obtain ⟨head, rfl, _, async, memoizable⟩ := makeIdentity_eq_ok made
  exact ⟨⟨cache_eq_none memoizable, async⟩, .intro (fun _ fn none => nomatch none) nofun⟩

/-- A run without results to be awaited is only blamed when it is called. -/
theorem callOnce_same (head : Header) (label : Name) {run : Engine U Value}
    (sends : Sends Value.IsThere run) :
    SameFromResults (callOnce head label context (.value <$> run))
      (mapFault (Fault.blame label context) run) := by
  intro w start
  obtain ⟨_, there⟩ := sends w start
  rw [runFrom_callOnce, runFrom_map, runFrom_mapFault]
  rcases ran : run.runFrom w with ⟨f | v, w'⟩
  · rfl
  · rw [ran] at there
    have ready : v.isAwaitable = false := there v rfl
    simp only [Except.map, mapError_ok, Reply.ready?, ready, if_false, Bool.false_eq_true,
      Option.elim]

variable (delivers : h.Delivers)

include delivers

theorem runBoth_sends {p q : Morph} (first : p.IsPrompt h) (second : q.IsPrompt h) {v : Value}
    (there : v.IsThere) :
    Sends Value.IsThere (runToEnd h context p v >>= runToEnd h context q) :=
  (runToEnd_sends delivers context first there).bind fun _ there' =>
    runToEnd_sends delivers context second there'

/-- A sequence without a cache runs its two morphs to their end, one after the other, and puts its
name on what comes out without one. -/
theorem runToEnd_sequence {id : Nat} {p q : Morph} {name : Value} {m : Morph}
    (made : Morph.sequence id p q name = .ok m) (bare : m.head.cache = none) (first : p.IsPrompt h)
    (second : q.IsPrompt h) {v : Value} (there : v.IsThere) :
    SameFromResults (runToEnd h context m v)
      (mapFault (m.relabel context) (runToEnd h context p v >>= runToEnd h context q)) := by
  have parts := (sequence_declaresBoth made).isAsync
  obtain ⟨head, rfl, _⟩ := sequence_eq_ok made
  rw [relabel_eq]
  cases async : (composed head [p, q] none).isAsync with
  | false =>
    rw [async, eq_comm, Bool.or_eq_false_iff] at parts
    have steps : runToEnd h context p v >>= runToEnd h context q =
        runSteps h [p, q] v context := by
      show (runToEnd h context p v >>= fun u => runToEnd h context q u) = _
      simp only [runToEnd, runSteps, parts.1, parts.2, if_false, Bool.false_eq_true, bind_pure]
    have sends := runBoth_sends context delivers first second there
    rw [runToEnd, if_neg (by rw [async]; exact Bool.false_ne_true), execute_eq_callOnce h bare,
      transform, if_neg (by rw [async]; exact Bool.false_ne_true), steps, ← map_eq_pure_bind]
    rw [steps] at sends
    exact callOnce_same context head _ sends
  | true =>
    have deferred (r : Morph) (prompt : r.IsPrompt h) {u : Value} (there : u.IsThere) :=
      executeDeferred_same delivers context prompt there
    have steps : SameFromResults (runStepsDeferred h [p, q] v context)
        (mapFault Fault.leaveDeferred (runToEnd h context p v) >>= fun u =>
          mapFault Fault.leaveDeferred (runToEnd h context q u)) := by
      simp only [runStepsDeferred, bind_pure]
      have sends : Sends Value.IsThere (transform h p v context >>= settle h) :=
        transform_settles delivers first there
      exact (deferred p first there).bind (executeDeferred_sends delivers sends)
        fun u there' => deferred q second there'
    have run := (steps.mapFault Fault.leaveDeferred).mapFault
      (Fault.blame (composed head [p, q] none).name context)
    rw [mapFault_bind Fault.leaveDeferred_leaveDeferred, mapFault_mapFault (m := _ >>= _)] at run
    rw [runToEnd, if_pos async, executeDeferred_eq_awaitOnce h bare, transform, if_pos async,
      awaitOnce, pure_bind, if_pos rfl]
    simp only [settle, finishDeferred, bind_pure]
    exact run

end Sequence

/-! ### Groupings -/

/-- Morphs run to their end one after the other, with what is made of the faults of each. -/
def runInTurn (h : Host U) (context : Value) (steps : List (Morph × (Fault → Fault))) (v : Value) :
    Engine U Value :=
  steps.foldlM (fun v s => mapFault s.2 (runToEnd h context s.1 v)) v

/-- A morph that runs others in turn, grouped in some way into sequences without caches, and what
these make of the faults of each. -/
inductive Groups (context : Value) : Morph → List (Morph × (Fault → Fault)) → Prop
  | one (m : Morph) : Groups context m [(m, fun f => f)]
  | none {id : Nat} {name : Value} {e : Morph} (made : makeIdentity id name = .ok e) :
      Groups context e []
  | sequence {id : Nat} {p q : Morph} {name : Value} {m : Morph}
      {xs ys : List (Morph × (Fault → Fault))} (first : Groups context p xs)
      (second : Groups context q ys) (made : Morph.sequence id p q name = .ok m)
      (bare : m.head.cache = none) :
      Groups context m ((xs ++ ys).map fun s => (s.1, m.relabel context ∘ s.2))

section Groups

variable {h : Host U} {context : Value}

theorem runInTurn_append (xs ys : List (Morph × (Fault → Fault))) (v : Value) :
    runInTurn h context (xs ++ ys) v = runInTurn h context xs v >>= runInTurn h context ys := by
  simp only [runInTurn, List.foldlM_append]
  rfl

theorem mapFault_runInTurn (g : Fault → Fault) (steps : List (Morph × (Fault → Fault))) (v : Value) :
    mapFault g (runInTurn h context steps v) =
      runInTurn h context (steps.map fun s => (s.1, g ∘ s.2)) v := by
  induction steps generalizing v with
  | nil => rfl
  | cons s rest ih =>
    simp only [runInTurn, List.map_cons, List.foldlM_cons] at ih ⊢
    rw [mapFault_bind_apart, mapFault_mapFault]
    simp only [ih]
    rfl

theorem forall_of_relabelled {P : Morph → Prop} {g : Fault → Fault}
    {steps : List (Morph × (Fault → Fault))}
    (all : ∀ s ∈ steps.map fun s => (s.1, g ∘ s.2), P s.1) : ∀ s ∈ steps, P s.1 := by
  intro s among
  exact all (s.1, g ∘ s.2) (List.mem_map.mpr ⟨s, among, rfl⟩)

theorem Groups.isPrompt {m : Morph} {steps : List (Morph × (Fault → Fault))}
    (groups : Groups context m steps) (prompt : ∀ s ∈ steps, s.1.IsPrompt h) : m.IsPrompt h := by
  induction groups with
  | one m => exact prompt _ List.mem_cons_self
  | none made => exact isPrompt_of_makeIdentity made
  | @sequence id p q name m xs ys first second made bare ih ih' =>
    have both := List.forall_mem_append.mp (forall_of_relabelled prompt)
    exact (ih both.1).sequence (ih' both.2) made

/-- However they are grouped, morphs are run to their end in turn. -/
theorem Groups.runs (delivers : h.Delivers) {m : Morph} {steps : List (Morph × (Fault → Fault))}
    (groups : Groups context m steps) (prompt : ∀ s ∈ steps, s.1.IsPrompt h) {v : Value}
    (there : v.IsThere) :
    SameFromResults (runToEnd h context m v) (runInTurn h context steps v) := by
  induction groups generalizing v with
  | one m =>
    intro w _
    simp only [runInTurn, List.foldlM_cons, List.foldlM_nil, bind_pure, runFrom_mapFault]
    rcases (runToEnd h context m v).runFrom w with ⟨f | u, w'⟩ <;> rfl
  | none made =>
    intro w _
    obtain ⟨head, rfl, _, async, memoizable⟩ := makeIdentity_eq_ok made
    have direct : (identity head).isAsync = false := by rw [isAsync, async, Option.getD_none]
    have ready : v.isAwaitable = false := there
    have bare : (identity head).head.cache = Option.none := cache_eq_none memoizable
    rw [runToEnd, direct, if_neg Bool.false_ne_true, execute_eq_callOnce h bare, transform,
      runFrom_callOnce, runFrom_pure]
    simp only [Reply.ready?, ready, if_false, Bool.false_eq_true, Option.elim, runInTurn,
      List.foldlM_nil, runFrom_pure]
  | @sequence id p q name m xs ys first second made bare ih ih' =>
    have both := List.forall_mem_append.mp (forall_of_relabelled prompt)
    have promptFirst := first.isPrompt both.1
    have promptSecond := second.isPrompt both.2
    rw [← mapFault_runInTurn, runInTurn_append]
    refine (runToEnd_sequence context delivers made bare promptFirst promptSecond there).trans
      (.mapFault ?_ _)
    exact (ih both.1 there).bind (runToEnd_sends delivers context promptFirst there)
      fun u there' => ih' both.2 there'

end Groups

/-! ### Where the groups show -/

section Reached

variable (h : Host U) (context : Value)

/-- Of morphs that are run to their end in turn, the one at some place is reached, and something holds
of it, of its input, of the world that it is run from and of a fault. -/
inductive Reaches (P : Morph → Value → World U → Fault → Prop) :
    List Morph → Value → World U → Nat → Fault → Prop
  | here {m : Morph} {rest : List Morph} {v : Value} {w : World U} {f : Fault} (holds : P m v w f) :
      Reaches P (m :: rest) v w 0 f
  | later {m : Morph} {rest : List Morph} {v v' : Value} {w w' : World U} {i : Nat} {f : Fault}
      (ran : (runToEnd h context m v).runFrom w = (.ok v', w'))
      (reaches : Reaches P rest v' w' i f) : Reaches P (m :: rest) v w (i + 1) f

/-- Run to its end, a morph fails. -/
def Fails (m : Morph) (v : Value) (w : World U) (f : Fault) : Prop :=
  ((runToEnd h context m v).runFrom w).1 = .error f

variable {h context}

theorem Reaches.imp {P Q : Morph → Value → World U → Fault → Prop} {steps : List Morph}
    {v : Value} {w : World U} {i : Nat} {f : Fault} (reaches : Reaches h context P steps v w i f)
    (sent : ∀ m ∈ steps, ∀ v w, P m v w f → Q m v w f) : Reaches h context Q steps v w i f := by
  induction reaches with
  | here holds => exact .here (sent _ List.mem_cons_self _ _ holds)
  | later ran reaches ih =>
    exact .later ran (ih fun m among => sent m (List.mem_cons_of_mem _ among))

section InTurn

variable {m : Morph} (g : Fault → Fault) (rest : List (Morph × (Fault → Fault))) {v : Value}
  {w w' : World U}

theorem runInTurn_of_ok {u : Value} (ran : (runToEnd h context m v).runFrom w = (.ok u, w')) :
    (runInTurn h context ((m, g) :: rest) v).runFrom w = (runInTurn h context rest u).runFrom w' := by
  have step : (mapFault g (runToEnd h context m v)).runFrom w = (.ok u, w') := by
    rw [runFrom_mapFault, ran, mapError_ok]
  rw [runInTurn, List.foldlM_cons, runFrom_bind_ok step]
  rfl

theorem runInTurn_of_error {f : Fault}
    (ran : (runToEnd h context m v).runFrom w = (.error f, w')) :
    (runInTurn h context ((m, g) :: rest) v).runFrom w = (.error (g f), w') := by
  have step : (mapFault g (runToEnd h context m v)).runFrom w = (.error (g f), w') := by
    rw [runFrom_mapFault, ran, mapError_error]
  rw [runInTurn, List.foldlM_cons, runFrom_bind_error step]

end InTurn

/-- A morph that fails ends the run with what is made of its fault. -/
theorem Reaches.ends {steps : List (Morph × (Fault → Fault))} {v : Value} {w : World U} {i : Nat}
    {f : Fault} (fails : Reaches h context (Fails h context) (steps.map Prod.fst) v w i f) :
    ∃ s, steps[i]? = some s ∧ ((runInTurn h context steps v).runFrom w).1 = .error (s.2 f) := by
  induction steps generalizing v w i with
  | nil => cases fails
  | cons s rest ih =>
    obtain ⟨m, g⟩ := s
    cases fails with
    | here failed =>
      rcases ran : (runToEnd h context m v).runFrom w with ⟨r, w'⟩
      rw [Fails, ran] at failed
      cases (show r = .error f from failed)
      exact ⟨(m, g), rfl, by rw [runInTurn_of_error g rest ran]⟩
    | later ran reaches =>
      obtain ⟨t, found, ended⟩ := ih reaches
      exact ⟨t, found, by rwa [runInTurn_of_ok g rest ran]⟩

/-- The same morphs leave the same world and come to the same result, or one of them fails. -/
theorem runInTurn_cases {xs ys : List (Morph × (Fault → Fault))}
    (same : xs.map Prod.fst = ys.map Prod.fst) (v : Value) (w : World U) :
    ((runInTurn h context xs v).runFrom w).2 = ((runInTurn h context ys v).runFrom w).2 ∧
      (((runInTurn h context xs v).runFrom w).1 = ((runInTurn h context ys v).runFrom w).1 ∨
        ∃ i f, Reaches h context (Fails h context) (xs.map Prod.fst) v w i f) := by
  induction xs generalizing ys v w with
  | nil =>
    have none : ys = [] := List.map_eq_nil_iff.mp same.symm
    subst none
    exact ⟨rfl, Or.inl rfl⟩
  | cons s xs ih =>
    cases ys with
    | nil => cases same
    | cons t ys =>
      obtain ⟨m, g⟩ := s
      obtain ⟨m', g'⟩ := t
      obtain ⟨first, rest⟩ := List.cons.inj same
      cases (show m = m' from first)
      rcases ran : (runToEnd h context m v).runFrom w with ⟨f | u, w'⟩
      · rw [runInTurn_of_error g xs ran, runInTurn_of_error g' ys ran]
        exact ⟨rfl, Or.inr ⟨0, f, .here (by rw [Fails, ran])⟩⟩
      · rw [runInTurn_of_ok g xs ran, runInTurn_of_ok g' ys ran]
        obtain ⟨worlds, alike | ⟨i, f, reaches⟩⟩ := ih rest u w'
        · exact ⟨worlds, Or.inl alike⟩
        · exact ⟨worlds, Or.inr ⟨i + 1, f, .later ran reaches⟩⟩

/-- The same morphs come to the same outcome just when the same is made of the fault of the one that
fails. -/
theorem runInTurn_eq_iff {xs ys : List (Morph × (Fault → Fault))}
    (same : xs.map Prod.fst = ys.map Prod.fst) (v : Value) (w : World U) :
    ((runInTurn h context xs v).runFrom w).1 = ((runInTurn h context ys v).runFrom w).1 ↔
      ∀ i f, Reaches h context (Fails h context) (xs.map Prod.fst) v w i f →
        xs[i]?.map (fun s => s.2 f) = ys[i]?.map (fun s => s.2 f) := by
  have ends {i : Nat} {f : Fault}
      (fails : Reaches h context (Fails h context) (xs.map Prod.fst) v w i f) :
      ∃ s t, xs[i]? = some s ∧ ys[i]? = some t ∧
        ((runInTurn h context xs v).runFrom w).1 = .error (s.2 f) ∧
        ((runInTurn h context ys v).runFrom w).1 = .error (t.2 f) := by
    obtain ⟨s, found, ended⟩ := fails.ends
    rw [same] at fails
    obtain ⟨t, found', ended'⟩ := fails.ends
    exact ⟨s, t, found, found', ended, ended'⟩
  constructor
  · intro alike i f fails
    obtain ⟨s, t, found, found', ended, ended'⟩ := ends fails
    rw [found, found', Option.map_some, Option.map_some]
    exact congrArg some (Except.error.inj (ended.symm.trans (alike.trans ended')))
  · intro labels
    rcases (runInTurn_cases same v w).2 with alike | ⟨i, f, fails⟩
    · exact alike
    · obtain ⟨s, t, found, found', ended, ended'⟩ := ends fails
      have label := labels i f fails
      rw [found, found', Option.map_some, Option.map_some, Option.some.injEq] at label
      rw [ended, ended', label]

end Reached

/-! ### What comes out without a label -/

section Unlabelled

variable (h : Host U) (context : Value)

/-- A morph lets a fault out without its label: the message of what was raised cannot be written, or
the cache cannot be looked into or stored in, for which its clock has to be read. -/
inductive LetsGo (m : Morph) (v : Value) (w : World U) (f : Fault) : Prop
  | unwritten {key : Option CacheKey} {w₁ : World U} {g : Fault}
      (missed : (consult h context m.head v).runFrom w = (.ok (key, none), w₁))
      (raised : ((transform h m v context >>= settle h).runFrom w₁).1 = .error g)
      (gives : g.GivesWay f)
  | lookup {key : Option CacheKey} {w₁ : World U} {g : Fault}
      (keyed : (cacheKey h m.head v context).runFrom w = (.ok key, w₁))
      (fails : ((cached h m.head key).runFrom w₁).1 = .error g)
      (out : f = if m.isAsync then g.leaveDeferred else g)
  | store {key : Option CacheKey} {w₁ w₂ : World U} {u : Value} {g : Fault}
      (missed : (consult h context m.head v).runFrom w = (.ok (key, none), w₁))
      (ran : (transform h m v context >>= settle h).runFrom w₁ = (.ok u, w₂))
      (fails : ((remember h m.head key u).runFrom w₂).1 = .error g)
      (out : f = if m.isAsync then g.leaveDeferred else g)

/-- The key of every call of a morph can be made, or is found not to exist. -/
def KeyCanBeMade (m : Morph) : Prop :=
  ∀ v w, ∃ key w', (cacheKey h m.head v context).runFrom w = (.ok key, w')

variable {h context}

/-- Called on either path, a transformation comes to a result only as it does when it is awaited. -/
theorem settled_of_awaitOnce {label : Name} {transform : Engine U (Reply U)} {w w' : World U}
    {u : Value} (ran : (awaitOnce h label context transform).runFrom w = (.ok u, w')) :
    (transform >>= settle h).runFrom w = (.ok u, w') := by
  rw [awaitOnce, runFrom_mapFault] at ran
  rcases ended : (transform >>= settle h).runFrom w with ⟨f | x, w₁⟩
  · rw [ended] at ran
    cases ran
  · rw [ended] at ran
    exact ran

theorem unwritten_of_awaitOnce {label : Name} {transform : Engine U (Reply U)} {w w' : World U}
    {f : Fault} (failed : (awaitOnce h label context transform).runFrom w = (.error f, w'))
    (unsettled : ¬ f.IsSettled) :
    ∃ g, ((transform >>= settle h).runFrom w).1 = .error g ∧ g.GivesWay f := by
  rw [awaitOnce, runFrom_mapFault] at failed
  rcases ended : (transform >>= settle h).runFrom w with ⟨g | x, w₁⟩
  · rw [ended] at failed
    cases failed
    by_cases unwritten : g.IsUnwritten
    · obtain ⟨instead, gives⟩ := unwritten
      rw [gives.blame_eq]
      exact ⟨g, rfl, gives⟩
    · exact absurd (Fault.blame_isSettled unwritten label context) unsettled
  · rw [ended] at failed
    cases failed

/-- The one run of a transformation, on the path that the morph takes by itself. -/
def runOnce (h : Host U) (context : Value) (m : Morph) (transform : Engine U (Reply U)) :
    Engine U Value :=
  if m.isAsync then awaitOnce h m.name context transform
  else callOnce m.head m.name context transform

theorem runToEnd_eq (m : Morph) (v : Value) :
    runToEnd h context m v =
      mapFault (fun f => if m.isAsync then f.leaveDeferred else f)
        (throughCache h m.head v context (runOnce h context m (transform h m v context))) := by
  rw [runToEnd, runOnce]
  split
  · rfl
  · apply Engine.ext
    intro w
    rw [execute, runFrom_mapFault]
    rcases (throughCache h m.head v context (callOnce m.head m.name context
      (transform h m v context))).runFrom w with ⟨f | u, w'⟩ <;> rfl

theorem settled_of_runOnce {m : Morph} {transform : Engine U (Reply U)} {w w' : World U} {u : Value}
    (ran : (runOnce h context m transform).runFrom w = (.ok u, w')) :
    (transform >>= settle h).runFrom w = (.ok u, w') := by
  rw [runOnce] at ran
  split at ran
  · exact settled_of_awaitOnce ran
  · exact settled_of_awaitOnce (awaitOnce_of_callOnce h ran)

theorem unwritten_of_runOnce {m : Morph} {transform : Engine U (Reply U)} {w w' : World U}
    {f : Fault} (failed : (runOnce h context m transform).runFrom w = (.error f, w'))
    (unsettled : ¬ f.IsSettled) :
    ∃ g, ((transform >>= settle h).runFrom w).1 = .error g ∧ g.GivesWay f := by
  rw [runOnce] at failed
  split at failed
  · exact unwritten_of_awaitOnce failed unsettled
  · obtain ⟨g, raised, gives⟩ := unwritten_of_callOnce failed unsettled
    refine ⟨g, ?_, gives⟩
    rcases ran : transform.runFrom w with ⟨r, w₁⟩
    rw [ran] at raised
    cases (show r = .error g from raised)
    rw [runFrom_bind_error ran]

/-- When its keys can be made, a morph that fails without a label lets the fault out in one of three
ways. -/
theorem letsGo_of_fails {m : Morph} (keys : KeyCanBeMade h context m) {v : Value} {w : World U}
    {f : Fault} (fails : Fails h context m v w f) (unsettled : ¬ f.IsSettled) :
    LetsGo h context m v w f := by
  rw [Fails, runToEnd_eq, runFrom_mapFault] at fails
  obtain ⟨key, w₀, keyed⟩ := keys v w
  rcases ended : (throughCache h m.head v context
    (runOnce h context m (transform h m v context))).runFrom w with ⟨g | u, w'⟩
  · rw [ended, mapError_error, Except.error.injEq] at fails
    have out : f = if m.isAsync then g.leaveDeferred else g := fails.symm
    have loose : ¬ g.IsSettled := by
      intro settled
      rw [settled.leaveDeferred_eq, ite_self] at out
      exact unsettled (out ▸ settled)
    rcases looked : (cached h m.head key).runFrom w₀ with ⟨g' | hit, w₁⟩
    · rw [throughCache, runFrom_bind_ok keyed, runFrom_bind_error looked] at ended
      cases ended
      exact .lookup keyed (by rw [looked]) out
    · have consulted : (consult h context m.head v).runFrom w = (.ok (key, hit), w₁) := by
        rw [consult, runFrom_bind_ok keyed, runFrom_bind_ok looked]
        rfl
      rw [throughCache_eq_consult, runFrom_bind_ok consulted] at ended
      cases hit with
      | some u => cases ended
      | none =>
        rw [supply] at ended
        rcases runFrom_bind_eq_error ended with failed | ⟨u, w₂, ran, failed⟩
        · obtain ⟨g', raised, gives⟩ := unwritten_of_runOnce failed loose
          rw [gives.leaveDeferred_right, ite_self] at out
          exact .unwritten consulted raised (out ▸ gives)
        · rcases runFrom_bind_eq_error failed with unstored | ⟨_, _, _, impossible⟩
          · exact .store consulted (settled_of_runOnce ran) (by rw [unstored]) out
          · cases impossible
  · rw [ended] at fails
    cases fails

/-- Without a cache, only what cannot be written is let out. -/
theorem not_letsGo {m : Morph} {v : Value} {w : World U}
    {f : Fault} (bare : m.head.cache = none)
    (written : ∀ w₁ g, ((transform h m v context >>= settle h).runFrom w₁).1 = .error g →
      ¬ g.IsUnwritten) : ¬ LetsGo h context m v w f := by
  intro lets
  cases lets with
  | unwritten missed raised gives => exact written _ _ raised ⟨f, gives⟩
  | lookup keyed fails =>
    simp only [cached, bare] at fails
    cases fails
  | store missed ran fails =>
    simp only [remember, bare] at fails
    cases fails

theorem keyCanBeMade_of_bare {m : Morph} (bare : m.head.cache = none) : KeyCanBeMade h context m := by
  intro v w
  refine ⟨none, w, ?_⟩
  rw [cacheKey, bare]
  rfl

end Unlabelled

end Morph

end MorphEngine
