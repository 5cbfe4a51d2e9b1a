import MorphEngine.Proofs.Asynchrony.Conduct
import MorphEngine.Proofs.Memo.Transparency
import MorphEngine.Proofs.Paths.Results

/-!
# Asynchronous trees are awaited

Functions that are not asynchronous answer at once, and asynchronous ones when they are awaited. Then
a tree that declares nothing about asynchrony is asynchronous just when a function in it is, and it
can be applied on either path, in whatever state requests have left the caches: no function is handed
a result that still has to be awaited, no cache keeps one and no call ends in one, and the direct path
refuses nothing. An asynchronous function that has to be awaited twice is refused all the same.
-/

namespace MorphEngine

open Engine Morph

variable {U V : Type}

namespace Fault

/-- The refusal of a result to be awaited, under a label or not. -/
def IsRefusal (f : Fault) : Prop :=
  ∃ n, f = unawaited n ∨ ∃ label context chained, f = .transform label (unawaited n) context chained

/-- A label that is put on a fault makes no refusal of it. -/
theorem isRefusal_of_blame {f : Fault} {label : Name} {context : Value}
    (refusal : (f.blame label context).IsRefusal) : f.IsRefusal := by
  by_cases settled : f.IsSettled
  · rwa [settled.blame_eq] at refusal
  · by_cases unwritten : f.IsUnwritten
    · obtain ⟨g, gives⟩ := unwritten
      rw [gives.blame_eq] at refusal
      rcases gives.cases with rfl | rfl <;>
        obtain ⟨n, same | ⟨label', context', chained, same⟩⟩ := refusal <;> cases same
    · rw [blame_eq_under unwritten, under_of_not_isSettled settled] at refusal
      obtain ⟨n, same | ⟨label', context', chained, same⟩⟩ := refusal
      · cases same
      · cases same
        exact ⟨n, Or.inl rfl⟩

theorem isRefusal_of_leaveDeferred {f : Fault} (refusal : f.leaveDeferred.IsRefusal) :
    f.IsRefusal := by
  unfold leaveDeferred leave at refusal
  split at refusal
  · obtain ⟨n, same | ⟨label, context, chained, same⟩⟩ := refusal <;> cases same
  · exact refusal

end Fault

/-- What can go wrong by functions, keys, caches and conditions themselves. -/
inductive Host.Raises (h : Host U) : Fault → Prop
  | call {fn v context : Value} {w : World U} {f : Fault}
      (failed : ((h.call fn v context).runFrom w).1 = .error f) : Raises h f
  | await {v : Value} {w : World U} {f : Fault} (failed : ((h.await v).runFrom w).1 = .error f) :
      Raises h f
  | key {head : Header} {v context : Value} {w : World U} {f : Fault}
      (failed : ((cacheKey h head v context).runFrom w).1 = .error f) : Raises h f
  | lookup {head : Header} {key : Option CacheKey} {w : World U} {f : Fault}
      (failed : ((cached h head key).runFrom w).1 = .error f) : Raises h f
  | store {head : Header} {key : Option CacheKey} {v : Value} {w : World U} {f : Fault}
      (failed : ((remember h head key v).runFrom w).1 = .error f) : Raises h f
  | judge {v : Value} {f : Fault} (failed : (v.resolve h.cells).truth = .error f) : Raises h f

/-- A fault that is no refusal, unless one came from outside the engine. -/
def Host.Admits (h : Host U) (f : Fault) : Prop :=
  f.IsRefusal → ∃ g, h.Raises g ∧ g.IsRefusal

theorem Host.Raises.admits {h : Host U} {f : Fault} (raised : h.Raises f) : h.Admits f :=
  fun refusal => ⟨f, raised, refusal⟩

/-! ### The invariant of a recorded run -/

/-- No cache holds a result to be awaited, and no function has been called with one. -/
structure IsClean (x : World (U × List HostCall)) : Prop where
  holds : x.HoldsResults
  calls : ∀ fn v context, .call fn v context ∈ x.log → v.IsThere

theorem IsClean.update {x : World (U × List HostCall)} (clean : IsClean x)
    {caches : Nat → ResultCache} (holds : World.HoldsResults ⟨caches, x.user⟩) :
    IsClean ⟨caches, x.user⟩ := ⟨holds, clean.calls⟩

namespace Engine

variable {α : Type} {P : α → Prop}

/-- What only changes caches keeps the invariant when it keeps results. -/
theorem Upholds.of_sends {m : Engine (U × List HostCall) α} {E : Fault → Prop} (sends : Sends P m)
    (idle : ∀ x, (m.runFrom x).2.user = x.user) (faults : ∀ x f, (m.runFrom x).1 = .error f → E f) :
    Upholds IsClean E P m where
  keeps x clean := by
    have user := idle x
    have after := (sends x clean.holds).1
    rcases ran : (m.runFrom x).2 with ⟨caches, kept⟩
    rw [ran] at user after
    cases user
    exact clean.update after
  results x a clean ended := (sends x clean.holds).2 a ended
  faults x f _ := faults x f

theorem keeps_of_related {S : α → α → Prop} {I : World V → Prop} {m : Engine V α}
    (related : Related (fun w x => w = x ∧ I x) S m m) (x : World V) (start : I x) :
    I (m.runFrom x).2 := (related x x ⟨rfl, start⟩).2.2

/-- A recorded run comes to the outcome of the run itself. -/
theorem outcome_of_recorded {m : Engine U α} {n : Engine (U × List HostCall) α}
    (related : Related (fun w x => w = x.withoutLog) Eq m n) (x : World (U × List HostCall)) :
    (m.runFrom x.withoutLog).1 = (n.runFrom x).1 := (related x.withoutLog x rfl).1.eq

theorem ResultsIn.recorded {m : Engine U α} {n : Engine (U × List HostCall) α}
    (results : m.ResultsIn P) (related : Related (fun w x => w = x.withoutLog) Eq m n) :
    n.ResultsIn P := by
  intro x a x' ended
  have same := outcome_of_recorded related x
  rw [ended] at same
  exact results x.withoutLog a (m.runFrom x.withoutLog).2 (Prod.ext same rfl)

end Engine

/-- Functions, selectors and awaitings leave no result to be awaited in a cache. -/
structure Host.LeavesResults (h : Host U) : Prop extends h.KeepsResults where
  await : ∀ v w, w.HoldsResults → ((h.await v).runFrom w).2.HoldsResults

section Recorded

variable {h : Host U}

theorem IsClean.entered {α : Type} {entry : HostCall} {m : Engine U α}
    {x : World (U × List HostCall)} (clean : IsClean x)
    (holds : (m.runFrom x.withoutLog).2.HoldsResults)
    (there : ∀ fn v context, entry = .call fn v context → v.IsThere) :
    IsClean ((Engine.entered entry m).runFrom x).2 := by
  rw [runFrom_entered]
  refine ⟨holds, fun fn v context among => ?_⟩
  rcases List.mem_append.mp among with before | last
  · exact clean.calls fn v context before
  · exact there fn v context (List.mem_singleton.mp last).symm

theorem cacheKey_keeps (leaves : h.LeavesResults) (head : Header) (v context : Value)
    (x : World (U × List HostCall)) (clean : IsClean x) :
    IsClean ((cacheKey h.recording head v context).runFrom x).2 := by
  refine keeps_of_related (S := Eq) (cacheKey_related rfl head (fun slot _ _ context => ?_)
    (fun _ => ?_) v context) x clean
  · rintro w x ⟨rfl, clean⟩
    have selected := leaves.select slot.rule.projection.selector context w.withoutLog clean.holds
    refine ⟨?_, rfl, clean.entered selected nofun⟩
    rcases ((h.recording.select slot.rule.projection.selector context).runFrom w).1 with f | u
    · exact .error f
    · exact .ok rfl
  · rintro w x ⟨rfl, clean⟩
    have skipped : (w.caches head.id).skip.Keeps fun _ _ v => v.isAwaitable = false :=
      (clean.holds head.id).within (MemoCache.count_within _ _)
    exact ⟨.ok rfl, rfl, clean.update (clean.holds.update head.id skipped)⟩

/-- Against a recording host, whatever the host leaves as results stays so, and only what comes from
outside the engine can be a refusal. -/
theorem conducts_recording (leaves : h.LeavesResults) : h.recording.Conducts IsClean h.Admits where
  call fn v context there :=
    { keeps := fun x clean => clean.entered (leaves.call fn v context x.withoutLog clean.holds)
        fun _ _ _ same => by cases same; exact there
      results := fun _ _ _ _ => trivial
      faults := fun _ _ _ failed => Host.Raises.admits (.call failed) }
  await v :=
    { keeps := fun x clean => clean.entered (leaves.await v x.withoutLog clean.holds) nofun
      results := fun _ _ _ _ => trivial
      faults := fun _ _ _ failed => Host.Raises.admits (.await failed) }
  key head v context :=
    { keeps := cacheKey_keeps leaves head v context
      results := fun _ _ _ _ => trivial
      faults := fun x _ _ failed => by
        have related := cacheKey_related (R := fun w x => w = World.withoutLog x) rfl head
          (fun _ _ _ => h.matches_recording.select _)
          (fun _ => modifyCache_related h.matches_recording _ _) v context
        exact Host.Raises.admits (.key ((outcome_of_recorded related x).trans failed)) }
  lookup head key := by
    refine .of_sends (cached_sends head key) (fun x => ?_) fun x f failed => ?_
    · unfold cached
      split <;> rfl
    · have related := cached_related h.matches_recording head key
      exact Host.Raises.admits (.lookup ((outcome_of_recorded related x).trans failed))
  store head key v there := by
    refine .of_sends (remember_sends head key there) (fun x => ?_) fun x f failed => ?_
    · unfold remember
      split <;> rfl
    · have related := remember_related h.matches_recording head key v
      exact Host.Raises.admits (.store ((outcome_of_recorded related x).trans failed))
  judge _ _ failed := Host.Raises.admits (.judge failed)
  blame _ _ _ admitted refusal := admitted (Fault.isRefusal_of_blame refusal)
  leave _ admitted refusal := admitted (Fault.isRefusal_of_leaveDeferred refusal)

theorem Morph.AnswersInTheEnd.recorded {fn : Value} (answers : AnswersInTheEnd h fn) :
    AnswersInTheEnd h.recording fn where
  direct async v context := (answers.direct async v context).recorded (h.matches_recording.call _ _ _)
  deferred async v context := by
    refine (answers.deferred async v context).recorded ?_
    exact .bindEq (h.matches_recording.call _ _ _) fun u =>
      settle_related h.matches_recording (.value u)

end Recorded

/-! ### Trees and requests to them -/

/-- A run from a world comes to a result that is there, or to a fault that is a refusal only if it
came from outside the engine. It leaves caches with results, and calls no function with a result that
still has to be awaited. -/
structure Host.RunsThrough (h : Host U) (run : ∀ {V : Type}, Host V → Engine V Value)
    (w : World U) : Prop where
  results : ∀ u, ((run h).runFrom w).1 = .ok u → u.IsThere
  faults : ∀ f, ((run h).runFrom w).1 = .error f → h.Admits f
  caches : ((run h).runFrom w).2.HoldsResults
  calls : ∀ fn v context, .call fn v context ∈ h.callsDuring run w → v.IsThere

theorem Host.RunsThrough.of_upholds {h : Host U} {run : ∀ {V : Type}, Host V → Engine V Value}
    (upholds : Upholds IsClean h.Admits Value.IsThere (run h.recording))
    (related : Related (fun w x => w = x.withoutLog) Eq (run h) (run h.recording)) {w : World U}
    (holds : w.HoldsResults) : h.RunsThrough run w := by
  have clean : IsClean (w.withLog []) := ⟨holds, nofun⟩
  have same : ((run h).runFrom w).1 = ((run h.recording).runFrom (w.withLog [])).1 :=
    outcome_of_recorded related (w.withLog [])
  have after : ((run h).runFrom w).2 = ((run h.recording).runFrom (w.withLog [])).2.withoutLog :=
    (related w (w.withLog []) rfl).2
  have ended := upholds.keeps (w.withLog []) clean
  refine ⟨fun u result => ?_, fun f fault => ?_, ?_, ended.calls⟩
  · exact upholds.results (w.withLog []) u clean (same.symm.trans result)
  · exact upholds.faults (w.withLog []) f clean (same.symm.trans fault)
  · rw [after]
    exact ended.holds

/-- A tree that declares nothing about asynchrony, made of functions that answer in the end. -/
structure Morph.IsForthcoming (h : Host U) (m : Morph) : Prop where
  made : m.MadeBy BarsFusion
  undeclared : m.Throughout IsUndeclared
  answers : m.Throughout fun p => ∀ fn ∈ p.functions, AnswersInTheEnd h fn

section Forthcoming

variable {h : Host U} {m : Morph}

theorem Morph.IsForthcoming.derived (tree : m.IsForthcoming h) : m.Throughout AsyncInParts :=
  asyncInParts_throughout tree.made tree.undeclared

theorem Morph.IsForthcoming.handsOn (tree : m.IsForthcoming h) (leaves : h.LeavesResults)
    (context : Value) {p : Morph} (within : p.IsWithin m) :
    HandsOn h.recording IsClean h.Admits context p := by
  have all : m.Throughout fun p =>
      AsyncInParts p ∧ ∀ fn ∈ p.functions, AnswersInTheEnd h.recording fn :=
    (tree.derived.and tree.answers).imp fun p both =>
      ⟨both.1, fun fn own => (both.2 fn own).recorded⟩
  exact handsOn_of_throughout (conducts_recording leaves) context (all.within within)

theorem Morph.IsForthcoming.apply_through (tree : m.IsForthcoming h) (leaves : h.LeavesResults)
    {v : Value} (there : v.IsThere) (context : Value) {w : World U} (holds : w.HoldsResults) :
    h.RunsThrough (fun k => apply k m v context >>= settle k) w := by
  refine .of_upholds ?_ ?_ holds
  · exact apply_upholds (conducts_recording leaves) (tree.handsOn leaves _ (.refl m)) there
  · exact .bind (apply_related h.matches_recording m v context) fun _ _ same =>
      settle_related h.matches_recording same

theorem Morph.IsForthcoming.apply_replies (tree : m.IsForthcoming h) (leaves : h.LeavesResults)
    {v : Value} (there : v.IsThere) (context : Value) {w : World U} (holds : w.HoldsResults)
    (direct : m.isAsync = false) {reply : Reply U}
    (replied : ((apply h m v context).runFrom w).1 = .ok reply) : RepliesAtOnceWith reply := by
  have upholds := Morph.apply_replies (conducts_recording leaves)
    (tree.handsOn leaves (contextInEffect context) (.refl m)) direct there
  have alike := (apply_related h.matches_recording m v context w (w.withLog []) rfl).1
  rw [replied] at alike
  rcases recorded : ((apply h.recording m v context).runFrom (w.withLog [])).1 with f | reply'
  · rw [recorded] at alike
    cases alike
  · obtain ⟨u, rfl, uThere⟩ := upholds.results (w.withLog []) reply' ⟨holds, nofun⟩ recorded
    rw [recorded] at alike
    cases alike with
    | ok same =>
      cases same
      exact ⟨u, rfl, uThere⟩

theorem Morph.IsForthcoming.applyAsync_through (tree : m.IsForthcoming h) (leaves : h.LeavesResults)
    {v : Value} (there : v.IsThere) (context : Value) {w : World U} (holds : w.HoldsResults) :
    h.RunsThrough (fun k => applyAsync k m v context) w := by
  refine .of_upholds ?_ (applyAsync_related h.matches_recording m v context) holds
  exact applyAsync_upholds (conducts_recording leaves) (tree.handsOn leaves _ (.refl m))
    (fun p part => tree.handsOn leaves _ (.of_part part)) there

end Forthcoming

namespace Request

/-- A request that calls trees that answer in the end, with inputs that are there. -/
def IsForthcoming (h : Host U) : Request U → Prop
  | apply m v _ | applyAsync m v _ => m.IsForthcoming h ∧ v.IsThere
  | expire _ | clear _ | pass _ => True

variable {h : Host U}

theorem expire_holdsResults (head : Header) (slot : CacheSlot) {w : World U}
    (holds : w.HoldsResults) : ((Morph.expire h head slot).runFrom w).2.HoldsResults := by
  unfold Morph.expire
  split
  · exact holds
  · refine holds.update head.id ?_
    split
    · exact holds head.id
    · exact (holds head.id).within (MemoCache.sweep_within _ _)

/-- Every request leaves caches with results. -/
theorem run_holdsResults (leaves : h.LeavesResults) {r : Request U} (forthcoming : r.IsForthcoming h)
    {w : World U} (holds : w.HoldsResults) : ((r.run h).runFrom w).2.HoldsResults := by
  cases r with
  | apply m v context =>
    rw [run, runFrom_map]
    exact (forthcoming.1.apply_through leaves forthcoming.2 context holds).caches
  | applyAsync m v context =>
    rw [run, runFrom_map]
    exact (forthcoming.1.applyAsync_through leaves forthcoming.2 context holds).caches
  | expire m =>
    cases cached : m.head.cache with
    | none =>
      simp only [run, cached, runFrom_pure]
      exact holds
    | some slot =>
      simp only [run, cached, runFrom_map]
      exact expire_holdsResults m.head slot holds
  | clear m =>
    cases cached : m.head.cache with
    | none =>
      simp only [run, cached, runFrom_pure]
      exact holds
    | some slot =>
      simp only [run, cached, runFrom_map]
      exact holds.update m.head.id ((holds m.head.id).within (MemoCache.clear_within _))
  | pass change => exact holds

theorem afterAll_holdsResults (leaves : h.LeavesResults) {requests : List (Request U)}
    (forthcoming : ∀ r ∈ requests, r.IsForthcoming h) {w : World U} (holds : w.HoldsResults) :
    (afterAll h requests w).HoldsResults := by
  induction requests generalizing w with
  | nil => exact holds
  | cons r rest ih =>
    rw [List.forall_mem_cons] at forthcoming
    exact ih forthcoming.2 (run_holdsResults leaves forthcoming.1 holds)

/-- A tree is asynchronous just when a function in it is, and then hands out a run to be awaited, where
any other tree replies at once. Applied on either path in whatever state requests have left, it comes
through with nothing left to be awaited: no result, no cache entry, and no argument of a function is,
and the direct path refuses nothing. -/
theorem asynchrony_reaches_root {h : Host U} {m : Morph} (tree : m.IsForthcoming h)
    (leaves : h.LeavesResults) {requests : List (Request U)}
    (forthcoming : ∀ r ∈ requests, r.IsForthcoming h) {w : World U} (holds : w.HoldsResults)
    {v : Value} (there : v.IsThere) (context : Value) :
    let w' := afterAll h requests w
    (m.isAsync = true ↔ ∃ p : Morph, p.IsWithin m ∧ p.runsAsync = true) ∧
      (m.isAsync = true → ∃ run, Morph.apply h m v context = pure (.deferred run)) ∧
      (m.isAsync = false → ∀ reply, ((Morph.apply h m v context).runFrom w').1 = .ok reply →
        RepliesAtOnceWith reply) ∧
      h.RunsThrough (fun k => Morph.apply k m v context >>= settle k) w' ∧
      h.RunsThrough (fun k => Morph.applyAsync k m v context) w' := by
  intro w'
  have after : w'.HoldsResults := afterAll_holdsResults leaves forthcoming holds
  have through := tree.apply_through leaves there context after
  refine ⟨isAsync_iff_exists_runsAsync tree.derived, fun async => ?_, fun direct reply replied => ?_,
    through, tree.applyAsync_through leaves there context after⟩
  · exact ⟨_, if_pos async⟩
  · exact tree.apply_replies leaves there context after direct replied

/-! ### An asynchronous function before one that is not -/

/-- A host whose asynchronous functions hand out what has to be awaited, and the others answer. -/
def hostAnswering (awaited : Value) : Host Unit where
  cells := []
  call fn _ _ := pure (if isAsyncFunction fn then .awaitable 0 else .text "done")
  select _ _ := pure .none
  await _ := pure awaited
  now _ _ := .ok (.int 0)

theorem hostAnswering_leavesResults (awaited : Value) : (hostAnswering awaited).LeavesResults where
  call _ _ _ _ holds := holds
  select _ _ _ holds := holds
  await _ _ holds := holds

theorem hostAnswering_direct (awaited : Value) {fn : Value} (direct : isAsyncFunction fn = false)
    (v context : Value) :
    ((hostAnswering awaited).call fn v context).ResultsIn Value.IsThere := by
  intro w u w' ended
  simp only [hostAnswering, direct] at ended
  cases ended
  rfl

def plainHeader (id : Nat) (name : Text) (cost : Int) : Header :=
  ⟨id, name, { MorphMetadata.default with cost := .ofInt cost }, none, nofun⟩

def fetchMorph : Morph := .simple (plainHeader 0 "fetch" 1) (.function 0 true)

theorem fetchMorph_madeBy : fetchMorph.MadeBy BarsFusion := by
  have made : create 0 (.text "fetch") (.function 0 true) .none EngineSettings.default [] =
      .ok fetchMorph := rfl
  exact .function trivial made

def showMorph : Morph := .simple (plainHeader 1 "show" 1) (.function 1 false)

def fetchThenShow : Morph := .composed (plainHeader 2 "both" 2) [fetchMorph, showMorph] none

theorem fetchThenShow_isForthcoming : fetchThenShow.IsForthcoming (hostAnswering (.int 1)) := by
  have second : create 1 (.text "show") (.function 1 false) .none EngineSettings.default [] =
      .ok showMorph := rfl
  have both : sequence 2 fetchMorph showMorph (.text "both") = .ok fetchThenShow := rfl
  have fetched : AnswersInTheEnd (hostAnswering (.int 1)) (.function 0 true) := by
    refine ⟨nofun, fun _ v context w u w' ended => ?_⟩
    cases ended
    rfl
  have shown : AnswersInTheEnd (hostAnswering (.int 1)) (.function 1 false) :=
    ⟨fun direct => hostAnswering_direct _ direct, nofun⟩
  refine ⟨.succession trivial fetchMorph_madeBy (.function trivial second) both, ?_, ?_⟩
  · refine .intro rfl fun p part => ?_
    simp only [Morph.parts, fetchThenShow, List.mem_cons, List.not_mem_nil, or_false] at part
    rcases part with rfl | rfl <;> exact .intro rfl nofun
  · refine .intro nofun fun p part => ?_
    simp only [Morph.parts, fetchThenShow, List.mem_cons, List.not_mem_nil, or_false] at part
    rcases part with rfl | rfl
    · exact .intro (fun fn own => List.mem_singleton.mp own ▸ fetched) nofun
    · exact .intro (fun fn own => List.mem_singleton.mp own ▸ shown) nofun

/-- Asked for a second time, the sequence is awaited as it was the first time. -/
theorem fetchThenShow_awaited :
    let idle : World Unit := ⟨fun _ => .empty, ()⟩
    let h := hostAnswering (.int 1)
    let w' := afterAll h [.apply fetchThenShow (.int 0) .none] idle
    let awaited := (Morph.apply h fetchThenShow (.int 0) .none >>= settle h).runFrom w'
    fetchThenShow.isAsync = true ∧
      h.RunsThrough (fun k => Morph.apply k fetchThenShow (.int 0) .none >>= settle k) w' ∧
      awaited.1 = .ok (.text "done") := by
  intro idle h w' awaited
  have holds : idle.HoldsResults := fun _ => MemoCache.keeps_of_empty rfl
  have forthcoming : ∀ r ∈ [Request.apply fetchThenShow (.int 0) .none], r.IsForthcoming h := by
    intro r among
    rw [List.mem_singleton.mp among]
    exact ⟨fetchThenShow_isForthcoming, rfl⟩
  have general := asynchrony_reaches_root fetchThenShow_isForthcoming
    (hostAnswering_leavesResults (.int 1)) forthcoming holds (v := .int 0) rfl .none
  obtain ⟨async, _, _, through, _⟩ := general
  exact ⟨async.mpr ⟨fetchMorph, .of_part List.mem_cons_self, rfl⟩, through, rfl⟩

/-! ### An asynchronous function that has to be awaited twice -/

def emptyMorph : Morph := .composed (plainHeader 3 "empty" 0) [] none

def innerSequence : Morph := .composed (plainHeader 4 "inner" 0) [emptyMorph] none

def relayMorph : Morph := .composed (plainHeader 5 "relay" 1) [fetchMorph, innerSequence] none

/-- No function that is not asynchronous hands out a result to be awaited, and the tree is awaited.
But what the asynchronous function gives then has to be awaited once more, and that is refused further
on. -/
theorem relayMorph_refused :
    let idle : World Unit := ⟨fun _ => .empty, ()⟩
    let h := hostAnswering (.awaitable 1)
    relayMorph.MadeBy BarsFusion ∧ relayMorph.Throughout IsUndeclared ∧ h.LeavesResults ∧
      (∀ fn, isAsyncFunction fn = false →
        ∀ v context, (h.call fn v context).ResultsIn Value.IsThere) ∧
      ((Morph.apply h relayMorph (.int 0) .none >>= settle h).runFrom idle).1 =
        .error (refusal emptyMorph.head emptyMorph.name .emptyContext) := by
  intro idle h
  have empty : compose 3 (.text "empty") [] .none .none EngineSettings.default =
      .ok emptyMorph := rfl
  have inner : compose 4 (.text "inner") [(emptyMorph.toValue, some emptyMorph)] .none .none
      EngineSettings.default = .ok innerSequence := rfl
  have outer : compose 5 (.text "relay") [(fetchMorph.toValue, some fetchMorph),
      (innerSequence.toValue, some innerSequence)] .none .none EngineSettings.default =
      .ok relayMorph := rfl
  have innermost : emptyMorph.MadeBy BarsFusion :=
    .composition trivial (fun s none => absurd none List.not_mem_nil) empty
  have made : innerSequence.MadeBy BarsFusion := by
    refine .composition trivial (fun s among p given => ?_) inner
    rw [List.mem_singleton.mp among] at given
    cases given
    exact innermost
  refine ⟨?_, ?_, hostAnswering_leavesResults _, fun fn => hostAnswering_direct _, rfl⟩
  · refine .composition trivial (fun s among p given => ?_) outer
    simp only [List.mem_cons, List.not_mem_nil, or_false] at among
    rcases among with rfl | rfl
    · cases given
      exact fetchMorph_madeBy
    · cases given
      exact made
  · have empties : emptyMorph.Throughout IsUndeclared := .intro rfl nofun
    refine .intro rfl fun p part => ?_
    simp only [Morph.parts, relayMorph, List.mem_cons, List.not_mem_nil, or_false] at part
    rcases part with rfl | rfl
    · exact .intro rfl nofun
    · exact .intro rfl fun p part => List.mem_singleton.mp part ▸ empties

end Request

end MorphEngine
