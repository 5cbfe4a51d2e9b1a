import MorphEngine.Proofs.Memo.Agreement

/-!
# Caches cannot be seen

Requests to a family come one after the other: calls on either path, upkeep of the caches, and
whatever else changes what functions and clocks go by. As long as every key that a call asks for can
be computed, each call ends as it would on the same tree without caches, from any world whose caches
are sound. That holds over runs of any length, since every request leaves the caches sound.
-/

namespace MorphEngine

open Morph Engine

/-- What may be asked of a family. The reply of a call is awaited where it has to be. -/
inductive Request (U : Type) where
  | apply (m : Morph) (input context : Value)
  | applyAsync (m : Morph) (input context : Value)
  | expire (m : Morph)
  | clear (m : Morph)
  | pass (change : U → U)

namespace Request

variable {U : Type}

/-- A request on the trees without caches. -/
def bare : Request U → Request U
  | apply m input context => apply m.bare input context
  | applyAsync m input context => applyAsync m.bare input context
  | expire m => expire m.bare
  | clear m => clear m.bare
  | pass change => pass change

/-- What a request does. Only calls have a result. -/
def run (h : Host U) : Request U → Engine U (Option Value)
  | apply m input context => some <$> (Morph.apply h m input context >>= settle h)
  | applyAsync m input context => some <$> Morph.applyAsync h m input context
  | expire m =>
    match m.head.cache with
    | none => return none
    | some slot => (fun _ => none) <$> Morph.expire h m.head slot
  | clear m =>
    match m.head.cache with
    | none => return none
    | some _ => (fun _ => none) <$> Engine.modifyCache m.head.id MemoCache.clear
  | pass change => ExceptT.mk fun w => (.ok none, { w with user := change w.user })

/-- A request to a family, whose input is there, and all of whose keys can be computed. -/
def IsFor (a : Answers) (cells : Cells) (F : Morph → Prop) : Request U → Prop
  | apply m input context | applyAsync m input context =>
    F m ∧ input.isAwaitable = false ∧ a.KeyEnds cells m input (contextInEffect context) ∧
      a.KeysEnd cells (contextInEffect context) m input
  | expire m | clear m => F m
  | pass _ => True

/-- The outcomes of requests, one after the other. -/
def outcomes (h : Host U) : List (Request U) → World U → List (Except Fault (Option Value))
  | [], _ => []
  | r :: rest, w => ((r.run h).runFrom w).1 :: outcomes h rest ((r.run h).runFrom w).2

/-- The world that requests leave. -/
def afterAll (h : Host U) (requests : List (Request U)) (w : World U) : World U :=
  requests.foldl (fun w r => ((r.run h).runFrom w).2) w

end Request

namespace Answers

variable {U : Type} {h : Host U} {a : Answers} {F : Morph → Prop}

section Calls

variable {m : Morph} {v context : Value}

theorem apply_agrees (family : a.OnceAwaited h F) (hm : F m) (plain : v.isAwaitable = false)
    (keyEnds : a.KeyEnds h.cells m v (contextInEffect context))
    (keys : a.KeysEnd h.cells (contextInEffect context) m v) :
    Related (Beside h a F) Plain (apply h m v context >>= settle h)
      (apply (a.host h.cells) m.bare v context >>= settle (a.host h.cells)) := by
  have agrees := transform_agrees family m hm plain keys
  simp only [apply, isAsync_bare, name_bare]
  cases async : m.isAsync with
  | true =>
    have runs := executeDeferred_agrees family hm keyEnds agrees m.name
    rw [← executeDeferred_eq_awaitOnce _ (cache_bare m) m.name v] at runs
    exact (Agrees.of_deferred async runs).settles
  | false =>
    have runs := execute_agrees family hm async keyEnds agrees m.name
    rw [← execute_eq_callOnce _ (cache_bare m) m.name v] at runs
    exact (Agrees.of_values (m := m) runs).settles

theorem applyAsync_agrees (family : a.OnceAwaited h F) (hm : F m) (plain : v.isAwaitable = false)
    (keyEnds : a.KeyEnds h.cells m v (contextInEffect context))
    (keys : a.KeysEnd h.cells (contextInEffect context) m v) :
    Related (Beside h a F) Plain (applyAsync h m v context)
      (applyAsync (a.host h.cells) m.bare v context) := by
  have agrees := transform_agrees family m hm plain keys
  have runs := executeDeferred_agrees family hm keyEnds agrees m.name
  rw [← executeDeferred_eq_awaitOnce _ (cache_bare m) m.name v] at runs
  cases m with
  | pipeline head info stages declared =>
    have hs : ∀ s ∈ stages, F s.morph := fun s hs =>
      family.parts _ hm _ (List.mem_map.mpr ⟨s, hs, rfl⟩)
    exact runStagesDeferred_agrees family stages hs plain keys
  | _ => exact runs

end Calls

theorem keyEnds_of_isOk {cells : Cells} {m : Morph} {v context : Value}
    (ok : (a.keyOf cells m v context).isOk = true) : a.KeyEnds cells m v context := by
  intro _
  cases found : a.keyOf cells m v context with
  | error f =>
    rw [found] at ok
    cases ok
  | ok key => exact ⟨key, rfl⟩

/-- Without caches there is no key to compute. -/
theorem keyEnds_bare (cells : Cells) (m : Morph) (v context : Value) :
    a.KeyEnds cells m.bare v context := by
  intro some
  rw [cache_bare] at some
  cases some

mutual

theorem keysEnd_bare (cells : Cells) (m : Morph) (v context : Value) :
    a.KeysEnd cells context m.bare v := by
  cases m with
  | simple head fn => trivial
  | identity head => trivial
  | composed head steps finish => exact stepsKeysEnd_bare cells steps v context
  | conditional head predicate body =>
    exact fun _ => ⟨keyEnds_bare cells body v context, keysEnd_bare cells body v context⟩
  | fused head members => exact membersKeysEnd_bare cells members v context
  | pipeline head info stages declared => exact stagesKeysEnd_bare cells stages v context

theorem stepsKeysEnd_bare (cells : Cells) (steps : List Morph) (v context : Value) :
    a.StepsKeysEnd cells context (bareSteps steps) v := by
  cases steps with
  | nil => trivial
  | cons m rest =>
    exact ⟨keyEnds_bare cells m v context, keysEnd_bare cells m v context,
      fun u _ => stepsKeysEnd_bare cells rest u context⟩

theorem membersKeysEnd_bare (cells : Cells) (members : List Stage) (v context : Value) :
    a.MembersKeysEnd cells context (bareStages members) v := by
  cases members with
  | nil => trivial
  | cons s rest =>
    cases s with
    | mk label m =>
      exact ⟨keysEnd_bare cells m v context, fun u _ => membersKeysEnd_bare cells rest u context⟩

theorem stagesKeysEnd_bare (cells : Cells) (stages : List Stage) (v context : Value) :
    a.StagesKeysEnd cells context (bareStages stages) v := by
  cases stages with
  | nil => trivial
  | cons s rest =>
    cases s with
    | mk label m =>
      exact ⟨keyEnds_bare cells m v context, keysEnd_bare cells m v context,
        fun u _ => stagesKeysEnd_bare cells rest u context⟩

end

/-- A collection together with its trees without caches. -/
def WithBare (F : Morph → Prop) (m : Morph) : Prop := F m ∨ ∃ m₀, F m₀ ∧ m = m₀.bare

theorem WithBare.cached {m : Morph} {slot : CacheSlot} (hm : WithBare F m)
    (cached : m.head.cache = some slot) : F m := by
  rcases hm with hm | ⟨m₀, _, rfl⟩
  · exact hm
  · rw [cache_bare] at cached
    cases cached

theorem sound_withBare : a.Sound h (WithBare F) = a.Sound h F := by
  funext w
  apply propext
  constructor
  · intro sound m slot hm cached
    exact sound m slot (Or.inl hm) cached
  · intro sound m slot hm cached
    exact sound m slot (hm.cached cached) cached

theorem mem_bareSteps {p : Morph} {steps : List Morph} (hp : p ∈ bareSteps steps) :
    ∃ p₀ ∈ steps, p = p₀.bare := by
  induction steps with
  | nil => cases hp
  | cons m rest ih =>
    rw [bareSteps] at hp
    rcases List.mem_cons.mp hp with rfl | hp
    · exact ⟨m, List.mem_cons_self, rfl⟩
    · obtain ⟨p₀, hp₀, same⟩ := ih hp
      exact ⟨p₀, List.mem_cons_of_mem _ hp₀, same⟩

theorem mem_bareStages {s : Stage} {stages : List Stage} (hs : s ∈ bareStages stages) :
    ∃ s₀ ∈ stages, s.morph = s₀.morph.bare := by
  induction stages with
  | nil => cases hs
  | cons t rest ih =>
    cases t with
    | mk label m =>
      rw [bareStages] at hs
      rcases List.mem_cons.mp hs with rfl | hs
      · exact ⟨.mk label m, List.mem_cons_self, rfl⟩
      · obtain ⟨s₀, hs₀, same⟩ := ih hs
        exact ⟨s₀, List.mem_cons_of_mem _ hs₀, same⟩

theorem mem_parts_bare {m p : Morph} (hp : p ∈ m.bare.parts) : ∃ p₀ ∈ m.parts, p = p₀.bare := by
  cases m with
  | composed head steps finish => exact mem_bareSteps hp
  | conditional head predicate body =>
    refine ⟨body, List.mem_singleton.mpr rfl, List.mem_singleton.mp hp⟩
  | fused head members =>
    obtain ⟨s, hs, rfl⟩ := List.mem_map.mp hp
    obtain ⟨s₀, hs₀, same⟩ := mem_bareStages hs
    exact ⟨s₀.morph, List.mem_map.mpr ⟨s₀, hs₀, rfl⟩, same⟩
  | pipeline head info stages declared =>
    obtain ⟨s, hs, rfl⟩ := List.mem_map.mp hp
    obtain ⟨s₀, hs₀, same⟩ := mem_bareStages hs
    exact ⟨s₀.morph, List.mem_map.mpr ⟨s₀, hs₀, rfl⟩, same⟩
  | _ => cases hp

mutual

theorem isCoherent_bare (m : Morph) (coherent : m.IsCoherent) : m.bare.IsCoherent := by
  cases m with
  | composed head steps finish => exact areCoherent_bare steps coherent
  | conditional head predicate body =>
    obtain ⟨_, apart, async, inner⟩ := coherent
    refine ⟨rfl, apart, ?_, isCoherent_bare body inner⟩
    rw [isAsync_bare]
    exact async
  | identity head => exact ⟨rfl, coherent.2⟩
  | fused head members =>
    obtain ⟨_, async, inner⟩ := coherent
    exact ⟨rfl, async, stagesCoherent_bare members inner⟩
  | pipeline head info stages declared =>
    obtain ⟨_, async, inner⟩ := coherent
    refine ⟨rfl, ?_, stagesCoherent_bare stages inner⟩
    rw [any_isAsync_bareStages]
    exact async
  | simple head fn => trivial

theorem areCoherent_bare (steps : List Morph) (coherent : AreCoherent steps) :
    AreCoherent (bareSteps steps) := by
  cases steps with
  | nil => trivial
  | cons m rest => exact ⟨isCoherent_bare m coherent.1, areCoherent_bare rest coherent.2⟩

theorem stagesCoherent_bare (stages : List Stage) (coherent : StagesCoherent stages) :
    StagesCoherent (bareStages stages) := by
  cases stages with
  | nil => trivial
  | cons s rest =>
    cases s with
    | mk label m => exact ⟨isCoherent_bare m coherent.1, stagesCoherent_bare rest coherent.2⟩

end

theorem functions_bare (m : Morph) : m.bare.functions = m.functions := by
  cases m <;> rfl

/-- The trees without caches belong to a family like the others. -/
theorem Family.withBare (family : a.Family h F) : a.Family h (WithBare F) where
  parts m hm p hp := by
    rcases hm with hm | ⟨m₀, hm₀, rfl⟩
    · exact Or.inl (family.parts m hm p hp)
    · obtain ⟨p₀, hp₀, rfl⟩ := mem_parts_bare hp
      exact Or.inr ⟨p₀, family.parts m₀ hm₀ p₀ hp₀, rfl⟩
  coherent m hm := by
    rcases hm with hm | ⟨m₀, hm₀, rfl⟩
    · exact family.coherent m hm
    · exact isCoherent_bare m₀ (family.coherent m₀ hm₀)
  undeclared m hm := by
    rcases hm with hm | ⟨m₀, hm₀, rfl⟩
    · exact family.undeclared m hm
    · have undeclared := family.undeclared m₀ hm₀
      cases m₀ <;> exact undeclared
  identities m m' hm hm' some some' same := by
    obtain ⟨_, cached⟩ := Option.isSome_iff_exists.mp some
    obtain ⟨_, cached'⟩ := Option.isSome_iff_exists.mp some'
    exact family.identities m m' (hm.cached cached) (hm'.cached cached') some some' same
  functions m hm fn hfn := by
    rw [sound_withBare]
    rcases hm with hm | ⟨m₀, hm₀, rfl⟩
    · exact family.functions m hm fn hfn
    · rw [functions_bare] at hfn
      exact family.functions m₀ hm₀ fn hfn
  selectors m slot hm cached := by
    rw [sound_withBare]
    exact family.selectors m slot (hm.cached cached) cached
  limits m slot hm cached := family.limits m slot (hm.cached cached) cached
  clocks m slot hm cached := family.clocks m slot (hm.cached cached) cached
  respects m slot hm cached := family.respects m slot (hm.cached cached) cached

theorem OnceAwaited.withBare (family : a.OnceAwaited h F) : a.OnceAwaited h (WithBare F) where
  toFamily := family.toFamily.withBare
  once m hm fn hfn := by
    rcases hm with hm | ⟨m₀, hm₀, rfl⟩
    · exact family.once m hm fn hfn
    · rw [functions_bare] at hfn
      exact family.once m₀ hm₀ fn hfn

/-- Two computations that agree with one and the same ideal one end alike, from any two sound
worlds. -/
theorem outcome_eq_of_agree {F' : Morph → Prop} {run run' : Engine U Value}
    {n : Engine (Except Fault Value) Value} (first : Related (Beside h a F) Plain run n)
    (second : Related (Beside h a F') Plain run' n) {w x : World U} (sound : a.Sound h F w)
    (sound' : a.Sound h F' x) : (run.runFrom w).1 = (run'.runFrom x).1 :=
  (Plain.outcome_eq (first w start sound).1).trans (Plain.outcome_eq (second x start sound').1).symm

end Answers

namespace Request

open Answers

variable {U : Type} {h : Host U} {a : Answers} {F : Morph → Prop}

/-- Dropping stale results always goes well. -/
theorem expire_sound (family : a.Family h F) {m : Morph} {slot : CacheSlot} (hm : F m)
    (cached : m.head.cache = some slot) {w : World U} (sound : a.Sound h F w) :
    ∃ n w', (Morph.expire h m.head slot).runFrom w = (.ok n, w') ∧ a.Sound h F w' := by
  obtain ⟨reads, judges⟩ := family.clocks m slot hm cached
  obtain ⟨now, reading⟩ := reads w
  have keeps := sound m slot hm cached
  unfold Morph.expire
  split
  · exact ⟨0, w, rfl, sound⟩
  · have judged : ∀ e ∈ (w.caches m.head.id).entries,
        ∃ stale, CacheRule.isStale h.cells slot.rule.ttl now e.insertedAt = .ok stale := by
      intro e he
      obtain ⟨⟨w₀, inserted⟩, _⟩ := keeps.entries e he
      exact judges w w₀ now e.insertedAt reading inserted
    obtain ⟨n, swept⟩ := MemoCache.sweep_isOk judged
    have after := Sound.update family sound hm cached (keeps.within (MemoCache.sweep_within
      (CacheRule.isStale h.cells slot.rule.ttl now) (w.caches m.head.id))) w.user
    refine ⟨n, _, ?_, after⟩
    rw [runFrom_onCache, reading]
    dsimp only
    rw [swept]

/-- Two calls that agree with one and the same ideal one have the same result, and the first leaves
the caches sound. -/
theorem call_step {run run' : Engine U Value} {n : Engine (Except Fault Value) Value}
    (first : Related (Beside h a F) Plain run n)
    (second : Related (Beside h a (WithBare F)) Plain run' n) {w : World U} (sound : a.Sound h F w) :
    a.Sound h F ((some <$> run).runFrom w).2 ∧ ∀ x, a.Sound h F x →
      ((some <$> run).runFrom w).1 = ((some <$> run').runFrom x).1 := by
  rw [runFrom_map]
  refine ⟨(first w start sound).2, fun x sound' => ?_⟩
  rw [← sound_withBare] at sound'
  rw [runFrom_map, outcome_eq_of_agree first second sound sound']

/-- Upkeep ends well on caches, where it leaves them sound, and is nothing without them. -/
theorem upkeep_step {run idle : Engine U (Option Value)} {w w' : World U}
    (ended : run.runFrom w = (.ok none, w')) (after : a.Sound h F w') (nothing : idle = pure none) :
    a.Sound h F (run.runFrom w).2 ∧
      ∀ x, a.Sound h F x → (run.runFrom w).1 = (idle.runFrom x).1 := by
  rw [ended, nothing]
  exact ⟨after, fun x _ => rfl⟩

/-- One request leaves the caches sound, and ends as it would without caches. -/
theorem run_step (family : a.OnceAwaited h F) {r : Request U} (asked : r.IsFor a h.cells F)
    {w : World U} (sound : a.Sound h F w) :
    a.Sound h F ((r.run h).runFrom w).2 ∧
      ∀ x, a.Sound h F x → ((r.run h).runFrom w).1 = ((r.bare.run h).runFrom x).1 := by
  cases r with
  | apply m v context =>
    obtain ⟨hm, plain, keyEnds, keys⟩ := asked
    have second := apply_agrees family.withBare (Or.inr ⟨m, hm, rfl⟩) plain
      (keyEnds_bare h.cells m v (contextInEffect context)) (keysEnd_bare h.cells m v _)
    rw [bare_bare] at second
    exact call_step (apply_agrees family hm plain keyEnds keys) second sound
  | applyAsync m v context =>
    obtain ⟨hm, plain, keyEnds, keys⟩ := asked
    have second := applyAsync_agrees family.withBare (Or.inr ⟨m, hm, rfl⟩) plain
      (keyEnds_bare h.cells m v (contextInEffect context)) (keysEnd_bare h.cells m v _)
    rw [bare_bare] at second
    exact call_step (applyAsync_agrees family hm plain keyEnds keys) second sound
  | expire m =>
    have idle : (bare (expire m)).run h = pure none := by simp only [bare, run, cache_bare]
    cases cached : m.head.cache with
    | none =>
      have same : ((expire m).run h).runFrom w = (.ok none, w) := by
        simp only [run, cached, runFrom_pure]
      exact upkeep_step same sound idle
    | some slot =>
      obtain ⟨n, w', ran, after⟩ := expire_sound family.toFamily asked cached sound
      have ended : ((expire m).run h).runFrom w = (.ok none, w') := by
        simp only [run, cached, runFrom_map, ran]
        rfl
      exact upkeep_step ended after idle
  | clear m =>
    have idle : (bare (clear m)).run h = pure none := by simp only [bare, run, cache_bare]
    cases cached : m.head.cache with
    | none =>
      have same : ((clear m).run h).runFrom w = (.ok none, w) := by
        simp only [run, cached, runFrom_pure]
      exact upkeep_step same sound idle
    | some slot =>
      have after := Sound.update family.toFamily sound asked cached
        ((sound m slot asked cached).within (MemoCache.clear_within _)) w.user
      have ended : ((clear m).run h).runFrom w = (.ok none,
          ⟨fun i => if i = m.head.id then (w.caches m.head.id).clear else w.caches i, w.user⟩) := by
        simp only [run, cached]
        rfl
      exact upkeep_step ended after idle
  | pass change => exact ⟨Sound.of_caches sound rfl, fun x _ => rfl⟩

/-- Over runs of any length every request ends as it would without caches, from whichever worlds
with sound caches. -/
theorem outcomes_eq_bare (family : a.OnceAwaited h F) {requests : List (Request U)}
    (asked : ∀ r ∈ requests, r.IsFor a h.cells F) {w x : World U} (sound : a.Sound h F w)
    (sound' : a.Sound h F x) :
    outcomes h requests w = requests.map fun r => ((r.bare.run h).runFrom x).1 := by
  induction requests generalizing w with
  | nil => rfl
  | cons r rest ih =>
    rw [List.forall_mem_cons] at asked
    obtain ⟨after, same⟩ := run_step family asked.1 sound
    rw [outcomes, List.map_cons, same x sound', ih asked.2 after]

/-! ### A family that shares a morph -/

/-- A header with a cache for two results that stay fresh for one unit of time. -/
def memoizedHeader (id : Nat) (name : Text) : Header :=
  ⟨id, name, { MorphMetadata.default with memoizable := true },
    some ⟨⟨.text name, .int 1, 2, .whole⟩, .int 2, .moving⟩, fun _ => rfl⟩

def innerMorph : Morph := .simple (memoizedHeader 0 "inner") (.function 0 false)

def outerMorph : Morph := .composed (memoizedHeader 1 "outer") [innerMorph] none

def sampleFamily (m : Morph) : Prop := m = innerMorph ∨ m = outerMorph

/-- A host whose functions always answer the same. It counts their calls, and its clock follows the
count. -/
def countingHost : Host Nat where
  cells := []
  call _ _ _ := ExceptT.mk fun w => (.ok (.text "done"), { w with user := w.user + 1 })
  select _ _ := pure .none
  await _ := pure .none
  now _ w := .ok (.real (Float.ofNat w.user))

def sampleAnswers : Answers := ⟨fun _ _ _ => .ok (.text "done"), fun _ _ => .ok .none⟩

theorem sampleFamily_onceAwaited : sampleAnswers.OnceAwaited countingHost sampleFamily where
  parts := by
    rintro m (rfl | rfl) p hp
    · cases hp
    · exact Or.inl (List.mem_singleton.mp hp)
  coherent := by
    rintro m (rfl | rfl)
    · trivial
    · exact ⟨trivial, trivial⟩
  undeclared := by
    rintro m (rfl | rfl) <;> rfl
  identities := by
    rintro m m' (rfl | rfl) (rfl | rfl) _ _ same
    · rfl
    · cases same
    · cases same
    · rfl
  functions := by
    rintro m (rfl | rfl) fn hfn
    · rw [List.mem_singleton.mp hfn]
      refine ⟨fun _ v context u answered => ?_, fun _ v context w sound => ?_, nofun⟩
      · cases answered
        rfl
      · exact ⟨rfl, Sound.of_caches sound rfl⟩
    · cases hfn
  selectors := by
    rintro m slot (rfl | rfl) cached custom <;> cases cached <;> cases custom
  limits := by
    rintro m slot (rfl | rfl) cached <;> cases cached <;> decide
  clocks := by
    rintro m slot (rfl | rfl) cached <;> cases cached <;>
    · refine ⟨fun w => ⟨_, rfl⟩, fun w w' t t' reading reading' => ?_⟩
      cases reading
      cases reading'
      exact isStale_isOk (Or.inr (Or.inr ⟨1, rfl⟩)) _ _
  respects := by
    rintro m slot (rfl | rfl) cached key v context v' context' _ _
    · exact Or.inl ⟨.text "done", rfl, rfl⟩
    · exact Or.inl ⟨.text "done", rfl, rfl⟩
  once := by
    rintro m (rfl | rfl) fn hfn v context u answered
    · cases answered
      rfl
    · cases hfn

/-- Calls on both morphs of the family, on either path, around a sweep of the shared cache. -/
def sampleRequests : List (Request Nat) :=
  [.apply outerMorph (.int 1) .none, .applyAsync innerMorph (.int 1) .none, .expire innerMorph,
    .apply outerMorph (.int 1) .none]

/-- Calls answer as they would without caches. -/
theorem outcomes_sampleRequests :
    outcomes countingHost sampleRequests ⟨fun _ => .empty, 0⟩ =
      [.ok (some (.text "done")), .ok (some (.text "done")), .ok none,
        .ok (some (.text "done"))] := by
  have inner : sampleAnswers.KeyEnds [] innerMorph (.int 1) .emptyContext :=
    keyEnds_of_isOk (by decide +kernel)
  have outer : sampleAnswers.KeyEnds [] outerMorph (.int 1) .emptyContext :=
    keyEnds_of_isOk (by decide +kernel)
  have asked : ∀ r ∈ sampleRequests, r.IsFor sampleAnswers countingHost.cells sampleFamily := by
    have called : IsFor sampleAnswers [] sampleFamily (U := Nat)
        (.apply outerMorph (.int 1) .none) :=
      ⟨Or.inr rfl, rfl, outer, inner, trivial, fun _ _ => trivial⟩
    simp only [sampleRequests, List.forall_mem_cons]
    exact ⟨called, ⟨Or.inl rfl, rfl, inner, trivial⟩, Or.inl rfl, called, nofun⟩
  have sound : sampleAnswers.Sound countingHost sampleFamily ⟨fun _ => .empty, 0⟩ :=
    sound_of_empty fun _ => rfl
  rw [outcomes_eq_bare sampleFamily_onceAwaited asked sound sound]
  rfl

/-! ### What can be awaited once -/

def alreadyAwaited : Fault := .plain .runtime "cannot reuse already awaited coroutine"

/-- A host whose asynchronous function gives, whenever it is awaited, a new coroutine, which can be
awaited once. The host keeps whether the newest of them has been. -/
def lendingHost : Host Bool where
  cells := []
  call _ _ _ := pure (.awaitable 0)
  select _ _ := pure .none
  await v := ExceptT.mk fun w =>
    match v, w.user with
    | .awaitable 0, _ => (.ok (.awaitable 1), { w with user := false })
    | _, false => (.ok (.text "done"), { w with user := true })
    | _, true => (.error alreadyAwaited, w)
  now _ _ := .ok (.int 0)

def lendingAnswers : Answers := ⟨fun _ _ _ => .ok (.awaitable 1), fun _ _ => .ok .none⟩

def lendMorph : Morph := .simple (memoizedHeader 0 "lend") (.function 0 true)

def stayMorph : Morph := .identity (Header.bare (memoizedHeader 1 "stay"))

def lendStay : Morph := .composed (Header.bare (memoizedHeader 2 "lend➝stay")) [lendMorph, stayMorph]
  none

def lendingFamily (m : Morph) : Prop := m = lendMorph ∨ m = stayMorph ∨ m = lendStay

theorem eq_lendMorph_of_cached {m : Morph} (hm : lendingFamily m)
    (cached : m.head.cache.isSome = true) : m = lendMorph := by
  rcases hm with rfl | rfl | rfl
  · rfl
  · cases cached
  · cases cached

theorem lendingFamily_isFamily : lendingAnswers.Family lendingHost lendingFamily where
  parts := by
    rintro m (rfl | rfl | rfl) p hp
    · cases hp
    · cases hp
    · simp only [lendStay, parts, List.mem_cons, List.not_mem_nil, or_false] at hp
      rcases hp with rfl | rfl
      · exact Or.inl rfl
      · exact Or.inr (Or.inl rfl)
  coherent := by
    rintro m (rfl | rfl | rfl)
    · trivial
    · exact ⟨rfl, rfl⟩
    · exact ⟨trivial, ⟨rfl, rfl⟩, trivial⟩
  undeclared := by
    rintro m (rfl | rfl | rfl) <;> trivial
  identities := by
    intro m m' hm hm' some some' _
    rw [eq_lendMorph_of_cached hm some, eq_lendMorph_of_cached hm' some']
  functions := by
    rintro m (rfl | rfl | rfl) fn hfn
    · rw [List.mem_singleton.mp hfn]
      refine ⟨nofun, nofun, fun _ v context w sound => ?_⟩
      exact ⟨.awaitable 0, w, rfl, rfl, sound, rfl, Sound.of_caches sound rfl⟩
    · cases hfn
    · cases hfn
  selectors m slot hm cached custom := by
    rw [eq_lendMorph_of_cached hm (cached ▸ rfl)] at cached
    cases cached
    cases custom
  limits m slot hm cached := by
    rw [eq_lendMorph_of_cached hm (cached ▸ rfl)] at cached
    cases cached
    decide
  clocks m slot hm cached := by
    rw [eq_lendMorph_of_cached hm (cached ▸ rfl)] at cached
    cases cached
    refine ⟨fun w => ⟨_, rfl⟩, fun w w' t t' reading reading' => ?_⟩
    cases reading
    cases reading'
    exact ⟨false, rfl⟩
  respects m slot hm cached key v context v' context' _ _ := by
    obtain rfl := eq_lendMorph_of_cached hm (cached ▸ rfl)
    exact Or.inl ⟨.awaitable 1, rfl, rfl⟩

/-- A cache keeps the coroutine itself, not what it gives. The second call is handed one that has
been awaited, where the function would have made another. -/
theorem outcomes_lentTwice :
    let fresh : World Bool := ⟨fun _ => .empty, false⟩
    let call : Request Bool := .applyAsync lendStay .none .none
    lendingAnswers.Family lendingHost lendingFamily ∧
      call.IsFor lendingAnswers lendingHost.cells lendingFamily ∧
      lendingAnswers.Sound lendingHost lendingFamily fresh ∧
      (outcomes lendingHost [call.bare, call.bare] fresh).map (·.isOk) = [true, true] ∧
      (outcomes lendingHost [call, call] fresh).map (·.isOk) = [true, false] := by
  intro fresh call
  have key : lendingAnswers.KeyEnds [] lendMorph .none .emptyContext :=
    keyEnds_of_isOk (by decide +kernel)
  have asked : call.IsFor lendingAnswers lendingHost.cells lendingFamily :=
    ⟨Or.inr (Or.inr rfl), rfl, nofun, key, trivial, fun u _ => ⟨nofun, trivial, fun _ _ => trivial⟩⟩
  exact ⟨lendingFamily_isFamily, asked, sound_of_empty fun _ => rfl, by decide +kernel,
    by decide +kernel⟩

end Request

end MorphEngine
