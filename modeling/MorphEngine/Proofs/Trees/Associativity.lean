import MorphEngine.Proofs.Trees.Groupings

/-!
# Sequences are associative

Put in sequence one after the other, three morphs go by the same name and declare the same whichever
two are put together first. Without caches on the way they also do the same, whatever the parts do:
the same calls in the same order and the same end, and the identity adds nothing at either side. The
only thing that can tell two groupings apart is a fault that a part lets out without its label, since
that gets the label of the sequence next to it.
-/

namespace MorphEngine

open Engine

namespace Morph

open Fusion

/-- The sequence of two morphs that is given no name. -/
def IsSequence (a b m : Morph) : Prop := ∃ id, sequence id a b .none = .ok m

/-- A morph that changes nothing. -/
def IsIdentity (e : Morph) : Prop := ∃ id name, makeIdentity id name = .ok e

section Alike

variable {U : Type} (h : Host U)

/-- Only asynchronous morphs have functions that hand out what has to be awaited, and what is awaited
is there then. The input is there, and caches hold results. -/
structure RunsPlainly (ms : List Morph) (v : Value) (w : World U) : Prop where
  delivers : h.Delivers
  atOnce : ∀ m ∈ ms, m.Throughout (AnswersAtOnce h)
  there : v.IsThere
  holds : w.HoldsResults

/-- The same is made of the fault of whichever morph fails. -/
def LabelledAlike (context : Value) (xs ys : List (Morph × (Fault → Fault))) (v : Value)
    (w : World U) : Prop :=
  ∀ i f, Reaches h context (Fails h context) (xs.map Prod.fst) v w i f →
    xs[i]?.map (fun s => s.2 f) = ys[i]?.map (fun s => s.2 f)

/-- None of some morphs that are run in turn lets a fault out without its label. -/
def AllLabel (context : Value) (ms : List Morph) (v : Value) (w : World U) : Prop :=
  ∀ i f, ¬ Reaches h context (LetsGo h context) ms v w i f

/-- Applied and awaited, two morphs that run the same parts in turn make the same calls and leave the
same world. They come to the same outcome just when they make the same of the fault of the part that
fails, as they do unless it lets the fault out without its label. -/
structure EndAlike (l r : Morph) (xs ys : List (Morph × (Fault → Fault))) (v context : Value)
    (w : World U) : Prop where
  calls : h.callsDuring (fun k => complete k l v context) w =
    h.callsDuring (fun k => complete k r v context) w
  world : ((complete h l v context).runFrom w).2 = ((complete h r v context).runFrom w).2
  outcome : ((complete h l v context).runFrom w).1 = ((complete h r v context).runFrom w).1 ↔
    LabelledAlike h (contextInEffect context) xs ys v w
  labels : (∀ m ∈ xs.map Prod.fst, KeyCanBeMade h (contextInEffect context) m) →
    AllLabel h (contextInEffect context) (xs.map Prod.fst) v w →
      LabelledAlike h (contextInEffect context) xs ys v w

variable {h} {context : Value}

theorem Groups.complete_same {m : Morph} {xs : List (Morph × (Fault → Fault))}
    (groups : Groups (contextInEffect context) m xs) (prompt : ∀ s ∈ xs, s.1.IsPrompt h)
    (delivers : h.Delivers) {v : Value} (there : v.IsThere) :
    SameFromResults (complete h m v context) (runInTurn h (contextInEffect context) xs v) :=
  (Morph.complete_same delivers context (groups.isPrompt prompt) there).trans
    (groups.runs delivers prompt there)

/-- What groups make of a settled fault is that fault. -/
theorem Groups.relabels {m : Morph} {xs : List (Morph × (Fault → Fault))}
    (groups : Groups context m xs) {f : Fault} (settled : f.IsSettled) : ∀ s ∈ xs, s.2 f = f := by
  induction groups with
  | one m => exact List.forall_mem_singleton.mpr rfl
  | none made => exact List.forall_mem_nil _
  | @sequence id p q name m xs ys first second made bare ih ih' =>
    refine List.forall_mem_map.mpr fun s among => ?_
    have kept : s.2 f = f := by
      rcases List.mem_append.mp among with among | among
      · exact ih s among
      · exact ih' s among
    show m.relabel context (s.2 f) = f
    rw [kept, relabel_of_isSettled settled]

/-- Where keys can be made, groups that do not make the same of a fault have let it out without a
label. -/
theorem Groups.labelledAlike {l r : Morph} {xs ys : List (Morph × (Fault → Fault))}
    (left : Groups context l xs) (right : Groups context r ys)
    (same : xs.map Prod.fst = ys.map Prod.fst)
    (keys : ∀ m ∈ xs.map Prod.fst, KeyCanBeMade h context m) {v : Value} {w : World U}
    (labels : AllLabel h context (xs.map Prod.fst) v w) : LabelledAlike h context xs ys v w := by
  intro i f fails
  by_cases settled : f.IsSettled
  · obtain ⟨s, found, _⟩ := fails.ends
    rw [same] at fails
    obtain ⟨t, found', _⟩ := fails.ends
    rw [found, found', Option.map_some, Option.map_some,
      left.relabels settled s (List.mem_of_getElem? found),
      right.relabels settled t (List.mem_of_getElem? found')]
  · exact absurd (fails.imp fun m among v w failed => letsGo_of_fails (keys m among) failed settled)
      (labels i f)

/-- Two groupings of the same morphs end alike. -/
theorem Groups.endAlike {l r : Morph} {xs ys : List (Morph × (Fault → Fault))}
    (left : Groups (contextInEffect context) l xs) (right : Groups (contextInEffect context) r ys)
    (same : xs.map Prod.fst = ys.map Prod.fst) (made : ∀ m ∈ xs.map Prod.fst, m.Made) {v : Value}
    {w : World U} (plain : RunsPlainly h (xs.map Prod.fst) v w) :
    EndAlike h l r xs ys v context w := by
  have prompt : ∀ m ∈ xs.map Prod.fst, m.IsPrompt h :=
    fun m among => ⟨(made m among).isCoherent, plain.atOnce m among⟩
  have prompt' : ∀ m ∈ ys.map Prod.fst, m.IsPrompt h := same ▸ prompt
  rw [List.forall_mem_map] at prompt prompt'
  have ran := left.complete_same prompt plain.delivers plain.there w plain.holds
  have ran' := right.complete_same prompt' plain.delivers plain.there w plain.holds
  have logged := left.complete_same (fun s among => (prompt s among).recorded)
    plain.delivers.recorded plain.there (w.withLog []) plain.holds
  have logged' := right.complete_same (fun s among => (prompt' s among).recorded)
    plain.delivers.recorded plain.there (w.withLog []) plain.holds
  refine ⟨?_, ?_, ?_, fun keys => left.labelledAlike right same keys⟩
  · rw [Host.callsDuring, Host.callsDuring, logged, logged', (runInTurn_cases same v _).1]
  · rw [ran, ran', (runInTurn_cases same v w).1]
  · rw [ran, ran', runInTurn_eq_iff same]
    rfl

end Alike

/-- What two groupings of three morphs declare. Costs have to be whole numbers for that, and times to
live in an order. -/
structure DeclareAlike (ms : List Morph) (l r : Morph) : Prop where
  name : l.name = r.name
  isPure : l.isPure = r.isPure
  isFusible : l.isFusible = r.isFusible
  isMemoizable : l.isMemoizable = r.isMemoizable
  isAsync : l.isAsync = r.isAsync
  cost : (∀ m ∈ ms, m.HasWholeCost) → l.cost = r.cost
  cacheTtl : AreOrdered (declaredTtls ms) → l.metadata.cacheTtl = r.metadata.cacheTtl

section Three

variable {a b c ab bc l r : Morph}

theorem titleOfBoth_assoc (first : ab.name = .ofText (titleOfBoth a b))
    (second : bc.name = .ofText (titleOfBoth b c)) : titleOfBoth ab c = titleOfBoth a bc := by
  have shown (t : Text) : (Name.ofText t).plain = t := rfl
  rw [titleOfBoth, titleOfBoth, first, second, shown, shown, titleOfBoth, titleOfBoth]
  exact congrArg Text.mk (by simp only [Text.points_append, List.append_assoc])

theorem IsSequence.declareAlike (first : IsSequence a b ab) (left : IsSequence ab c l)
    (second : IsSequence b c bc) (right : IsSequence a bc r) : DeclareAlike [a, b, c] l r := by
  obtain ⟨_, first⟩ := first
  obtain ⟨_, left⟩ := left
  obtain ⟨_, second⟩ := second
  obtain ⟨_, right⟩ := right
  have named : l.name = r.name := by
    rw [sequence_name left, sequence_name right,
      titleOfBoth_assoc (sequence_name first) (sequence_name second)]
  have both := sequence_declaresBoth first
  have outer := sequence_declaresBoth left
  have both' := sequence_declaresBoth second
  have outer' := sequence_declaresBoth right
  obtain ⟨pure, fusible, memoizable, async⟩ := both.flags_assoc outer both' outer'
  exact ⟨named, pure, fusible, memoizable, async, both.cost_assoc outer both' outer',
    both.cacheTtl_assoc outer both' outer'⟩

theorem declaredTtls_subset {ms ns : List Morph} (sub : ms ⊆ ns) :
    declaredTtls ms ⊆ declaredTtls ns := by
  intro q hq
  obtain ⟨m, among, declared⟩ := mem_declaredTtls.mp hq
  exact mem_declaredTtls.mpr ⟨m, sub among, declared⟩

/-- Three morphs that cost whole numbers and declare times to live in an order can be put in sequence
either way. -/
theorem exists_groupings (made : ∀ m ∈ [a, b, c], m.Made)
    (whole : ∀ m ∈ [a, b, c], m.HasWholeCost) (ordered : AreOrdered (declaredTtls [a, b, c])) :
    ∃ ab l bc r, IsSequence a b ab ∧ IsSequence ab c l ∧ IsSequence b c bc ∧ IsSequence a bc r := by
  have positive : ∀ m ∈ [a, b, c], m.cost.meetsZero .less = false :=
    fun m among => (made m among).cost_not_negative
  have ha : a ∈ [a, b, c] := by simp
  have hb : b ∈ [a, b, c] := by simp
  have hc : c ∈ [a, b, c] := by simp
  have orderedAB : AreOrdered (declaredTtls [a, b]) :=
    ordered.mono (declaredTtls_subset (by simp))
  have orderedBC : AreOrdered (declaredTtls [b, c]) :=
    ordered.mono (declaredTtls_subset (by simp))
  obtain ⟨ab, first⟩ := exists_sequence (whole a ha) (whole b hb) (positive a ha) (positive b hb)
    orderedAB 0
  obtain ⟨bc, second⟩ := exists_sequence (whole b hb) (whole c hc) (positive b hb) (positive c hc)
    orderedBC 0
  have both := sequence_declaresBoth first
  have both' := sequence_declaresBoth second
  have orderedL : AreOrdered (declaredTtls [ab, c]) := by
    refine ordered.mono ?_
    rw [declaredTtls_cons, ← declaredTtls_singleton]
    refine List.append_subset.mpr ⟨?_, declaredTtls_subset (by simp)⟩
    exact List.Subset.trans (both.declaredTtls_subset orderedAB) (declaredTtls_subset (by simp))
  have orderedR : AreOrdered (declaredTtls [a, bc]) := by
    refine ordered.mono ?_
    rw [declaredTtls_cons, ← declaredTtls_singleton]
    refine List.append_subset.mpr ⟨declaredTtls_subset (by simp), ?_⟩
    exact List.Subset.trans (both'.declaredTtls_subset orderedBC) (declaredTtls_subset (by simp))
  obtain ⟨l, left⟩ := exists_sequence (both.hasWholeCost (whole a ha) (whole b hb)) (whole c hc)
    both.positive (positive c hc) orderedL 0
  obtain ⟨r, right⟩ := exists_sequence (whole a ha) (both'.hasWholeCost (whole b hb) (whole c hc))
    (positive a ha) both'.positive orderedR 0
  exact ⟨ab, l, bc, r, ⟨0, first⟩, ⟨0, left⟩, ⟨0, second⟩, ⟨0, right⟩⟩

/-- Three morphs in sequence declare the same, and do the same, whichever two are put together first;
and a morph does the same with the identity before it or after it.

Costs that are whole numbers add up alike, and times to live in an order have the same shortest; then
either grouping can be made. Where no sequence has a cache, only asynchronous morphs hand out what has
to be awaited and what is awaited is there then, the calls are the same and so is the world that is
left. The outcomes are the same just when the same label is put on the fault of the part that fails,
as it is unless that part lets the fault out without its own. -/
theorem sequence_associative (made : ∀ m ∈ [a, b, c], m.Made) :
    ((∀ m ∈ [a, b, c], m.HasWholeCost) → AreOrdered (declaredTtls [a, b, c]) →
      ∃ ab l bc r, IsSequence a b ab ∧ IsSequence ab c l ∧ IsSequence b c bc ∧ IsSequence a bc r) ∧
    (∀ ab l bc r, IsSequence a b ab → IsSequence ab c l → IsSequence b c bc → IsSequence a bc r →
      DeclareAlike [a, b, c] l r ∧
      ((∀ m ∈ [ab, l, bc, r], m.head.cache = none) →
        ∀ {U : Type} (h : Host U) (v context : Value) (w : World U), RunsPlainly h [a, b, c] v w →
          let label (m : Morph) : Fault → Fault := m.relabel (contextInEffect context)
          EndAlike h l r [(a, label l ∘ label ab), (b, label l ∘ label ab), (c, label l)]
            [(a, label r), (b, label r ∘ label bc), (c, label r ∘ label bc)] v context w)) ∧
    (∀ e p q, IsIdentity e → IsSequence e a p → IsSequence a e q →
      ∀ {U : Type} (h : Host U) (v context : Value) (w : World U), RunsPlainly h [a] v w →
        let label (m : Morph) : Fault → Fault := m.relabel (contextInEffect context)
        EndAlike h p a [(a, label p)] [(a, fun f => f)] v context w ∧
          EndAlike h q a [(a, label q)] [(a, fun f => f)] v context w) := by
  refine ⟨exists_groupings made, fun ab l bc r first left second right => ⟨?_, ?_⟩, ?_⟩
  · exact first.declareAlike left second right
  · intro bare U h v context w plain label
    simp only [List.forall_mem_cons, List.not_mem_nil, false_implies, implies_true, and_true] at bare
    obtain ⟨bareAB, bareL, bareBC, bareR⟩ := bare
    obtain ⟨_, first⟩ := first
    obtain ⟨_, left⟩ := left
    obtain ⟨_, second⟩ := second
    obtain ⟨_, right⟩ := right
    have leftward : Groups (contextInEffect context) l
        [(a, label l ∘ label ab), (b, label l ∘ label ab), (c, label l)] :=
      .sequence (.sequence (.one a) (.one b) first bareAB) (.one c) left bareL
    have rightward : Groups (contextInEffect context) r
        [(a, label r), (b, label r ∘ label bc), (c, label r ∘ label bc)] :=
      .sequence (.one a) (.sequence (.one b) (.one c) second bareBC) right bareR
    exact leftward.endAlike rightward rfl made plain
  · rintro e p q ⟨_, _, unit⟩ ⟨_, before⟩ ⟨_, after⟩ U h v context w plain label
    obtain ⟨head, rfl, _, _, memoizable⟩ := makeIdentity_eq_ok unit
    have bare {m n d : Morph} {id : Nat} (made : sequence id m n .none = .ok d)
        (unkept : (m.isMemoizable && n.isMemoizable) = false) : d.head.cache = none :=
      cache_eq_none ((sequence_declaresBoth made).isMemoizable.trans unkept)
    have unkept : (identity head).isMemoizable = false := memoizable
    have single : ∀ m ∈ [a], m.Made := List.forall_mem_singleton.mpr (made a List.mem_cons_self)
    have first : Groups (contextInEffect context) p [(a, label p)] :=
      .sequence (.none unit) (.one a) before (bare before (by rw [unkept, Bool.false_and]))
    have last : Groups (contextInEffect context) q [(a, label q)] :=
      .sequence (.one a) (.none unit) after (bare after (by rw [unkept, Bool.and_false]))
    exact ⟨first.endAlike (.one a) rfl single plain, last.endAlike (.one a) rfl single plain⟩

end Three

/-! ### A part that fails -/

open Request

/-- A host whose asynchronous functions have to be awaited, and whose function 2 fails. -/
def hostRefusing : Host Unit where
  cells := []
  call fn _ _ :=
    match fn with
    | .function 2 _ => throw (.plain .value "refused")
    | fn => pure (if isAsyncFunction fn then .awaitable 0 else .text "done")
  select _ _ := pure .none
  await _ := pure (.int 1)
  now _ _ := .ok (.int 0)

def checkMorph : Morph := .simple (plainHeader 2 "check" 1) (.function 2 false)

/-- Two morphs in sequence, without a cache. -/
def pairOf (id : Nat) (name : Text) (cost : Int) (p q : Morph) : Morph :=
  .composed (plainHeader id name cost) [p, q] none

def fetchShow : Morph := pairOf 3 "fetch➝show" 2 fetchMorph showMorph

def showCheck : Morph := pairOf 3 "show➝check" 2 showMorph checkMorph

def checkedLeft : Morph := pairOf 4 "fetch➝show➝check" 3 fetchShow checkMorph

def checkedRight : Morph := pairOf 4 "fetch➝show➝check" 3 fetchMorph showCheck

theorem hostRefusing_delivers : hostRefusing.Delivers where
  call fn v context w holds := by
    unfold hostRefusing
    dsimp only
    split <;> exact holds
  select _ _ _ holds := holds
  await _ _ holds := holds
  arrives v w u w' ended := by
    cases ended
    rfl

/-- After an asynchronous part and one that is not, the last part fails, and either grouping of the
three ends in its fault. -/
theorem complete_checked :
    let idle : World Unit := ⟨fun _ => .empty, ()⟩
    let outcome (m : Morph) := ((complete hostRefusing m (.int 0) .none).runFrom idle).1
    checkedLeft.name = checkedRight.name ∧ outcome checkedLeft = outcome checkedRight ∧
      hostRefusing.callsDuring (fun k => complete k checkedLeft (.int 0) .none) idle =
        hostRefusing.callsDuring (fun k => complete k checkedRight (.int 0) .none) idle ∧
      outcome checkedLeft =
        .error (.transform (.text "check") (.plain .value "refused") .emptyContext true) := by
  intro idle outcome
  have first : IsSequence fetchMorph showMorph fetchShow := ⟨3, rfl⟩
  have left : IsSequence fetchShow checkMorph checkedLeft := ⟨4, rfl⟩
  have second : IsSequence showMorph checkMorph showCheck := ⟨3, rfl⟩
  have right : IsSequence fetchMorph showCheck checkedRight := ⟨4, rfl⟩
  have shown : create 1 (.text "show") (.function 1 false) .none EngineSettings.default [] =
      .ok showMorph := rfl
  have checked : create 2 (.text "check") (.function 2 false) .none EngineSettings.default [] =
      .ok checkMorph := rfl
  have made : ∀ m ∈ [fetchMorph, showMorph, checkMorph], m.Made := by
    simp only [List.forall_mem_cons, List.not_mem_nil, false_implies, implies_true, and_true]
    exact ⟨fetchMorph_madeBy.made, .function shown, .function checked⟩
  have bare : ∀ m ∈ [fetchShow, checkedLeft, showCheck, checkedRight], m.head.cache = none := by
    simp only [List.forall_mem_cons, List.not_mem_nil, false_implies, implies_true, and_true]
    exact ⟨rfl, rfl, rfl, rfl⟩
  have plain : RunsPlainly hostRefusing [fetchMorph, showMorph, checkMorph] (.int 0) idle := by
    refine ⟨hostRefusing_delivers, ?_, rfl, fun _ => MemoCache.keeps_of_empty rfl⟩
    simp only [List.forall_mem_cons, List.not_mem_nil, false_implies, implies_true, and_true]
    refine ⟨.intro nofun nofun, .intro ?_ nofun, .intro ?_ nofun⟩
    · intro _ fn own v context w u w' ended
      cases List.mem_singleton.mp own
      cases ended
      rfl
    · intro _ fn own v context w u w' ended
      cases List.mem_singleton.mp own
      cases ended
  obtain ⟨_, groupings, _⟩ := sequence_associative made
  obtain ⟨declared, runs⟩ := groupings _ _ _ _ first left second right
  have alike := runs bare hostRefusing (.int 0) .none idle plain
  have keys : ∀ m ∈ [fetchMorph, showMorph, checkMorph],
      KeyCanBeMade hostRefusing .emptyContext m := by
    simp only [List.forall_mem_cons, List.not_mem_nil, false_implies, implies_true, and_true]
    exact ⟨keyCanBeMade_of_bare rfl, keyCanBeMade_of_bare rfl, keyCanBeMade_of_bare rfl⟩
  have label : AllLabel hostRefusing .emptyContext [fetchMorph, showMorph, checkMorph] (.int 0)
      idle := by
    intro i f reaches
    cases reaches with
    | here lets => exact not_letsGo rfl (fun w g raised _ => by cases raised) lets
    | later ran reaches =>
      cases reaches with
      | here lets => exact not_letsGo rfl (fun w g raised _ => by cases raised) lets
      | later ran reaches =>
        cases reaches with
        | here lets =>
          refine not_letsGo rfl (fun w g raised unwritten => ?_) lets
          cases raised
          obtain ⟨g, gives⟩ := unwritten
          cases gives.unwritten
        | later ran none => cases none
  exact ⟨declared.name, alike.outcome.mpr (alike.labels keys label), alike.calls, rfl⟩

/-! ### What has to be awaited twice -/

/-- A host whose asynchronous functions hand out what has to be awaited twice. -/
def hostRelaying : Host Unit where
  cells := []
  call fn _ _ := pure (if isAsyncFunction fn then .awaitable 0 else .text "done")
  select _ _ := pure .none
  await v := pure (match v with
    | .awaitable 0 => .awaitable 1
    | _ => .int 1)
  now _ _ := .ok (.int 0)

def stayMorph : Morph :=
  .identity ⟨5, "stay", { MorphMetadata.default with fusible := true, cost := .ofInt 0 }, none, nofun⟩

def fetchStay : Morph := pairOf 6 "fetch➝stay" 1 fetchMorph stayMorph

def stayStay : Morph :=
  .composed ⟨6, "stay➝stay", { MorphMetadata.default with fusible := true, cost := .ofInt 0 }, none,
    nofun⟩ [stayMorph, stayMorph] none

def relayedLeft : Morph := pairOf 7 "fetch➝stay➝stay" 1 fetchStay stayMorph

def relayedRight : Morph := pairOf 7 "fetch➝stay➝stay" 1 fetchMorph stayStay

/-- Only the asynchronous function hands out what has to be awaited. But what it gives then has to be
awaited once more: to the left the first identity awaits it, and to the right it refuses it. -/
theorem complete_relayed :
    let idle : World Unit := ⟨fun _ => .empty, ()⟩
    let outcome (m : Morph) := ((complete hostRelaying m (.int 0) .none).runFrom idle).1
    fetchMorph.Made ∧ IsIdentity stayMorph ∧
      IsSequence fetchMorph stayMorph fetchStay ∧ IsSequence fetchStay stayMorph relayedLeft ∧
      IsSequence stayMorph stayMorph stayStay ∧ IsSequence fetchMorph stayStay relayedRight ∧
      (∀ m ∈ [fetchStay, relayedLeft, stayStay, relayedRight], m.head.cache = none) ∧
      (∀ m ∈ [fetchMorph, stayMorph], m.Throughout (AnswersAtOnce hostRelaying) ∧
        ∀ context, KeyCanBeMade hostRelaying context m) ∧
      idle.HoldsResults ∧ outcome relayedLeft = .ok (.int 1) ∧
      outcome relayedRight =
        .error (refusal stayMorph.head stayMorph.name .emptyContext) := by
  intro idle outcome
  refine ⟨fetchMorph_madeBy.made, ⟨5, .text "stay", rfl⟩, ⟨6, rfl⟩, ⟨7, rfl⟩, ⟨6, rfl⟩, ⟨7, rfl⟩,
    ?_, ?_, fun _ => MemoCache.keeps_of_empty rfl, rfl, rfl⟩
  · simp only [List.forall_mem_cons, List.not_mem_nil, false_implies, implies_true, and_true]
    exact ⟨rfl, rfl, rfl, rfl⟩
  · simp only [List.forall_mem_cons, List.not_mem_nil, false_implies, implies_true, and_true]
    exact ⟨⟨.intro nofun nofun, fun context => keyCanBeMade_of_bare rfl⟩,
      ⟨.intro (fun _ fn none => nomatch none) nofun, fun context => keyCanBeMade_of_bare rfl⟩⟩

end Morph

end MorphEngine
