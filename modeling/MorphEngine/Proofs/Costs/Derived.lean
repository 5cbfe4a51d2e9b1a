import MorphEngine.Proofs.Builder.LifeCycle
import MorphEngine.Proofs.Costs.Sums
import MorphEngine.Proofs.Metadata.Fields

/-!
# Costs that are derived

Conditionals, sequences, fused stages and pipelines cost what follows from the costs of their parts.
Whether a call that makes one goes through is compared with the same call on parts that cost
nothing. Costs make a difference only where a whole number beyond all doubles would have to be taken
for one; otherwise what is made has again a cost that is a number and not negative. What a cost is
used for is left out.
-/

namespace MorphEngine

open Fusion (bind_eq_ok)

/-- A last step that cannot fail leaves open only whether there is something to take it with. -/
theorem isOk_bind_pure {α β : Type} (r : Except Fault α) (g : α → β) :
    (r >>= fun a => pure (g a)).isOk = r.isOk := by
  cases r <;> rfl

/-- Costs aside, a call goes as the same call on free parts does: it is refused when that is, and
otherwise fails when the costs overflow, and only then. What it gives is valid. -/
structure CostsAside {α β : Type} (overflows : Prop) (Valid : α → Prop) (call : Except Fault α)
    (free : Except Fault β) : Prop where
  gives : ¬overflows → free.isOk = true → ∃ a, call = .ok a ∧ Valid a
  fails : overflows → free.isOk = true → call = .error .overflowingInt
  refused : free.isOk = false → call.isOk = false

namespace CostsAside

variable {α β γ δ : Type} {overflows overflows' : Prop} {Valid : α → Prop} {Valid' : γ → Prop}
  {call : Except Fault α} {free : Except Fault β}

/-- A call that no cost can make fail. -/
theorem of_isOk (alike : call.isOk = free.isOk) (valid : ∀ a, call = .ok a → Valid a) :
    CostsAside False Valid call free where
  gives _ goes := by
    cases call with
    | ok a => exact ⟨a, rfl, valid a rfl⟩
    | error f =>
      rw [← alike] at goes
      cases goes
  fails := False.elim
  refused stays := alike.trans stays

/-- One step after the other. -/
theorem bind {next : α → Except Fault γ} {next' : β → Except Fault δ}
    (first : CostsAside overflows Valid call free)
    (rest : ∀ a b, call = .ok a → free = .ok b → Valid a →
      CostsAside overflows' Valid' (next a) (next' b)) :
    CostsAside (overflows ∨ overflows') Valid' (call >>= next) (free >>= next') := by
  cases free with
  | error f =>
    have stays := first.refused rfl
    cases call with
    | ok a => cases stays
    | error g => exact ⟨nofun, nofun, fun _ => rfl⟩
  | ok b =>
    by_cases exceeds : overflows
    · obtain rfl := first.fails exceeds rfl
      exact ⟨fun within => absurd (Or.inl exceeds) within, fun _ _ => rfl, fun _ => rfl⟩
    · obtain ⟨a, rfl, valid⟩ := first.gives exceeds rfl
      obtain ⟨gives, fails, refused⟩ := rest a b rfl rfl valid
      exact ⟨fun within => gives fun exceeds' => within (Or.inr exceeds'),
        fun exceeds' => fails (exceeds'.resolve_left exceeds), refused⟩

/-- A first step that does not depend on costs. -/
theorem after {next : α → Except Fault γ} {next' : α → Except Fault δ}
    (rest : ∀ a, call = .ok a → CostsAside overflows Valid' (next a) (next' a)) :
    CostsAside overflows Valid' (call >>= next) (call >>= next') := by
  cases call with
  | error f => exact ⟨nofun, nofun, fun _ => rfl⟩
  | ok a => exact rest a rfl

/-- What is given is more than valid. -/
theorem mono {Valid' : α → Prop} (aside : CostsAside overflows Valid call free)
    (more : ∀ a, call = .ok a → Valid a → Valid' a) : CostsAside overflows Valid' call free where
  gives within goes := by
    obtain ⟨a, given, valid⟩ := aside.gives within goes
    exact ⟨a, given, more a given valid⟩
  fails := aside.fails
  refused := aside.refused

theorem congr (same : overflows ↔ overflows') (aside : CostsAside overflows Valid call free) :
    CostsAside overflows' Valid call free :=
  propext same ▸ aside

/-- A step that works a value out from costs, where the free parts do not overflow. -/
theorem derive {r r' : Except Fault Value} {next : Value → Except Fault γ}
    {next' : Value → Except Fault δ} (derives : Morph.Derives overflows r)
    (derives' : Morph.Derives overflows' r') (free : ¬overflows')
    (rest : ∀ x y, Number.zero.le x = true → Number.zero.le y = true →
      CostsAside False Valid' (next (.ofNumber x)) (next' (.ofNumber y))) :
    CostsAside overflows Valid' (r >>= next) (r' >>= next') := by
  obtain ⟨exceeds, _⟩ | ⟨_, y, rfl, nonneg'⟩ := derives'
  · exact absurd exceeds free
  obtain ⟨exceeds, rfl⟩ | ⟨within, x, rfl, nonneg⟩ := derives
  · exact ⟨fun within => absurd exceeds within, fun _ _ => rfl, fun _ => rfl⟩
  · obtain ⟨gives, _, refused⟩ := rest x y nonneg nonneg'
    exact ⟨fun _ => gives id, fun exceeds => absurd exceeds within, refused⟩

/-- A number that is not negative is taken for a cost. -/
theorem readCost {x y : Number} {next : Quantity → Except Fault γ}
    {next' : Quantity → Except Fault δ} (nonneg : Number.zero.le x = true)
    (nonneg' : Number.zero.le y = true)
    (rest : ∀ q q', q.IsPrice → CostsAside False Valid' (next q) (next' q')) :
    CostsAside False Valid' (MorphMetadata.readCost (.ofNumber x) >>= next)
      (MorphMetadata.readCost (.ofNumber y) >>= next') := by
  obtain ⟨q, read, price⟩ := Quantity.exists_readCost nonneg
  obtain ⟨q', read', _⟩ := Quantity.exists_readCost nonneg'
  rw [read, read']
  exact rest q q' price

end CostsAside

/-! ### Free parts -/

/-- The morph at no cost, and the same otherwise. -/
def Header.free (h : Header) : Header :=
  ⟨h.id, h.name, { h.metadata with cost := .ofInt 0 }, h.cache, h.cacheable⟩

namespace Morph

def free : Morph → Morph
  | simple head fn => simple head.free fn
  | composed head steps finish => composed head.free steps finish
  | conditional head predicate body => conditional head.free predicate body
  | identity head => identity head.free
  | fused head members => fused head.free members
  | pipeline head info stages declared => pipeline head.free info stages declared

variable (m : Morph)

theorem name_free : m.free.name = m.name := by
  cases m <;> rfl

theorem metadata_free : m.free.metadata = { m.metadata with cost := .ofInt 0 } := by
  cases m <;> rfl

theorem isPure_free : m.free.isPure = m.isPure := by
  rw [isPure, metadata_free]
  rfl

theorem isPriced_free : m.free.IsPriced := by
  refine ⟨.int 0, ?_, by decide⟩
  rw [cost, metadata_free]
  rfl

end Morph

/-! ### Heads -/

namespace Morph

variable {id : Nat} {name : Value} {d d' : MorphMetadata} {settings : CacheSettings}

/-- Whether there is a head does not depend on the cost. -/
theorem isOk_makeHeader_cost (q : Quantity) :
    (makeHeader id name { d with cost := q } settings).isOk =
      (makeHeader id name d settings).isOk := by
  unfold makeHeader
  cases readName name with
  | error f => rfl
  | ok n =>
    have slots : cacheSlot n { d with cost := q } settings = cacheSlot n d settings := rfl
    dsimp only [bind, Except.bind]
    rw [slots]
    cases cacheSlot n d settings <;> rfl

/-- What is not memoizable has a head under any name that will do. -/
theorem isOk_makeHeader_uncached (not : d.memoizable = false) :
    (makeHeader id name d settings).isOk = (readName name).isOk := by
  unfold makeHeader
  cases readName name with
  | error f => rfl
  | ok n =>
    have uncacheable : ¬d.isCacheable = true := by simp [MorphMetadata.isCacheable, not]
    have slot : cacheSlot n d settings = .ok ⟨none, Fusion.isCacheable_of_cached⟩ :=
      dif_neg uncacheable
    dsimp only [bind, Except.bind]
    rw [slot]
    rfl

/-- A morph with a head is priced as what is declared is; costs do not keep it from having one. -/
theorem head_aside {make make' : Header → Morph}
    (alike : (makeHeader id name d settings).isOk = (makeHeader id name d' settings).isOk)
    (keeps : ∀ head, (make head).metadata = head.metadata) (price : d.cost.IsPrice) :
    CostsAside False IsPriced (makeHeader id name d settings >>= fun head => pure (make head))
      (makeHeader id name d' settings >>= fun head => pure (make' head)) := by
  refine .of_isOk ?_ fun m made => ?_
  · rw [isOk_bind_pure, isOk_bind_pure, alike]
  · obtain ⟨head, header, made⟩ := bind_eq_ok made
    cases made
    obtain ⟨_, _, declared⟩ := Fusion.makeHeader_eq_ok header
    rw [IsPriced, cost, keeps, declared]
    exact price

/-! ### Conditionals and sequences of two -/

variable {m a b : Morph} {ms : List Morph}

/-- Free parts do not overflow, for none of them costs a double. -/
theorem not_overflows_of_free (free : ∀ m ∈ ms, ∃ n, m = free n) :
    ¬Number.Overflows (prices ms) := by
  rintro ⟨ints, x, rest, parted, _⟩
  have among : Number.real x ∈ prices ms := by simp [parted]
  obtain ⟨m, hm, number⟩ := List.mem_filterMap.mp among
  obtain ⟨n, rfl⟩ := free m hm
  rw [cost, metadata_free] at number
  cases number

theorem not_overflows_free (ms : List Morph) : ¬Number.Overflows (prices (ms.map free)) := by
  refine not_overflows_of_free fun m hm => ?_
  obtain ⟨n, _, rfl⟩ := List.mem_map.mp hm
  exact ⟨n, rfl⟩

theorem not_costsBeyond_free (m : Morph) : ¬m.free.CostsBeyond := by
  rintro ⟨n, whole, beyond⟩
  rw [cost, metadata_free] at whole
  cases whole
  exact Number.not_isBeyond_zero beyond

theorem conditionalOn_aside (id : Nat) (name predicate v : Value) (settings : CacheSettings)
    (priced : m.IsPriced) :
    CostsAside m.CostsBeyond IsPriced (conditionalOn id name predicate (v, some m) settings)
      (conditionalOn id name predicate (v, some m.free) settings) := by
  unfold conditionalOn
  dsimp only
  split
  · refine CostsAside.derive (times_derives priced) (times_derives m.isPriced_free)
      (not_costsBeyond_free m) fun x y nonneg nonneg' => ?_
    refine CostsAside.readCost nonneg nonneg' fun q q' price => ?_
    refine head_aside ?_ (fun _ => rfl) price
    rw [isOk_makeHeader_uncached rfl, isOk_makeHeader_uncached rfl]
  · exact .after fun _ _ => ⟨fun _ => nofun, fun _ => nofun, fun _ => rfl⟩

theorem andThen_aside (id : Nat) (v w name : Value) (priced : a.IsPriced) (priced' : b.IsPriced) :
    CostsAside (Number.Overflows (prices [a, b])) IsPriced
      (andThen id (v, some a) (w, some b) name)
      (andThen id (v, some a.free) (w, some b.free) name) := by
  show CostsAside _ _ (sequence id a b name) (sequence id a.free b.free name)
  have title : titleOfBoth a.free b.free = titleOfBoth a b := by
    rw [titleOfBoth, name_free, name_free]
    rfl
  have lifetime : lifetimeOfBoth a.free b.free = lifetimeOfBoth a b := by
    unfold lifetimeOfBoth isMemoizable
    rw [metadata_free, metadata_free]
  rw [sequence_eq, sequence_eq, title, lifetime]
  refine .after fun title _ => ?_
  refine .derive (plus_derives priced priced') (plus_derives a.isPriced_free b.isPriced_free)
    (not_overflows_free [a, b]) fun x y nonneg nonneg' => ?_
  refine .after fun ttl _ => ?_
  refine .readCost nonneg nonneg' fun q q' price => ?_
  have other : metadataOfBoth a.free b.free q' ttl =
      { metadataOfBoth a b q ttl with cost := q' } := by
    unfold metadataOfBoth isPure isFusible isMemoizable
    rw [metadata_free, metadata_free]
  refine head_aside ?_ (fun _ => rfl) price
  rw [other]
  exact (isOk_makeHeader_cost q').symm

/-! ### Sequences with declared metadata -/

/-- The cost of a sequence is not declared. -/
def LeavesCostOpen (metadata : Value) : Prop :=
  metadata = .none ∨ ∃ es, metadata.entries? = some es ∧ Value.find? es (.text "cost") = none

/-- What a sequence costs: its parts, and one unit for a function that counts as true. -/
def composedCost (steps : List Morph) (finish : Option Value) : Except Fault Value := do
  (← costSum steps).plus (.int (if finish.any Value.truthy then 1 else 0))

theorem composedCost_derives (priced : ∀ m ∈ ms, m.IsPriced) (finish : Option Value) :
    Derives (Number.Overflows (prices ms)) (composedCost ms finish) := by
  obtain ⟨exceeds, sum⟩ | ⟨within, c, sum, nonneg⟩ := costSum_derives priced
  · rw [composedCost, sum]
    exact Or.inl ⟨exceeds, rfl⟩
  · obtain ⟨k, unit, small⟩ : ∃ k : Int, (if finish.any Value.truthy then (1 : Int) else 0) = k ∧
        (k = 0 ∨ k = 1) := by
      split <;> simp
    have counted : Number.zero.le (.int k) = true := Number.zero_le_int.mpr (by omega)
    obtain ⟨d, total⟩ : ∃ d, c.add? (.int k) = some d := by
      refine Option.ne_none_iff_exists'.mp fun missing => ?_
      rcases Number.add?_eq_none.mp missing with ⟨n, x, _, double, _⟩ | ⟨n, x, _, whole, beyond⟩
      · cases double
      · cases whole
        rcases small with rfl | rfl
        · exact Number.not_isBeyond_zero beyond
        · exact Number.not_isBeyond_one beyond
    have sums : composedCost ms finish = .ok (.ofNumber d) := by
      rw [composedCost, sum, unit]
      show Value.plus (.ofNumber c) (.ofNumber (.int k)) = _
      rw [(Value.Counts.ofNumber c).plus (.ofNumber (.int k)), total]
    exact Or.inr ⟨within, d, sums, Number.zero_le_add? nonneg counted total⟩

end Morph

namespace MorphMetadata

/-- Fields that differ in their cost are read alike, save for that. -/
theorem read_with_cost {fs fs' : Fields} {m : MorphMetadata} {q : Quantity}
    (made : read fs = .ok m) (same : ∀ name : Text, name ≠ "cost" → fs'.get name = fs.get name)
    (costs : readCost (fs'.get "cost") = .ok q) : read fs' = .ok { m with cost := q } := by
  obtain ⟨pure, isPure, made⟩ := bind_eq_ok made
  obtain ⟨fusible, isFusible, made⟩ := bind_eq_ok made
  obtain ⟨memoizable, isMemoizable, made⟩ := bind_eq_ok made
  obtain ⟨cost, _, made⟩ := bind_eq_ok made
  obtain ⟨ttl, lasts, made⟩ := bind_eq_ok made
  obtain ⟨async, isAsync, made⟩ := bind_eq_ok made
  obtain ⟨context, projects, made⟩ := bind_eq_ok made
  cases made
  have flag (name : Text) (other : name ≠ "cost") : readFlag fs' name = readFlag fs name := by
    rw [readFlag, readFlag, same name other]
  rw [read, flag "pure" (by decide), isPure, flag "fusible" (by decide), isFusible,
    flag "memoizable" (by decide), isMemoizable, costs, same "cache_ttl" (by decide), lasts,
    same "is_async" (by decide), isAsync, same "context" (by decide), projects]
  rfl

/-- What a sequence declares for itself: its cost, and its purity if that is not given. -/
def derivedFields (purity : Option Bool) (cost : Value) : Fields :=
  match purity with
  | some b => [("pure", .bool b), ("cost", cost)]
  | none => [("cost", cost)]

variable {purity : Option Bool} {v c c' : Value} {m : MorphMetadata} {q q' : Quantity}

theorem coerce_derivedFields (purity : Option Bool) (v c : Value) :
    coerce v (derivedFields purity c) = schema.base v >>= fun own =>
      read (own.toFields.overlay (derivedFields purity c)) := by
  cases purity <;> rfl

theorem get?_derivedFields {name : Text} (other : name ≠ "cost") (c c' : Value) :
    (derivedFields purity c).get? name = (derivedFields purity c').get? name := by
  have key : (name == "cost") = false := beq_eq_false_iff_ne.mpr other
  cases purity <;> simp [derivedFields, Fields.get?, List.lookup_cons, key]

/-- Coercion goes alike for all derived costs, save for the cost itself. -/
theorem coerce_with_cost (made : coerce v (derivedFields purity c) = .ok m)
    (costs : readCost c' = .ok q) :
    coerce v (derivedFields purity c') = .ok { m with cost := q } := by
  rw [coerce_derivedFields] at made ⊢
  obtain ⟨own, based, made⟩ := bind_eq_ok made
  rw [based]
  refine read_with_cost made ?_ ?_
  · intro name other
    rw [Fields.get, Fields.get, Fields.get?_overlay, Fields.get?_overlay,
      get?_derivedFields other c' c]
  · cases purity <;> exact costs

theorem cost_of_derivedFields (made : coerce v (derivedFields purity c) = .ok m)
    (costs : readCost c = .ok q) : m.cost = q := by
  have same := coerce_with_cost made costs
  rw [made] at same
  exact congrArg MorphMetadata.cost (Except.ok.inj same)

end MorphMetadata

namespace Morph

open MorphMetadata (derivedFields)

/-- The purity that a sequence declares for itself, unless it is given. -/
def derivedPurity (steps : List Morph) (finish : Option Value) (metadata : Value) : Option Bool :=
  let pure := finish.isNone && steps.all isPure
  match metadata.entries? with
  | some es => if (Value.find? es (.text "pure")).isNone then some pure else none
  | none => some pure

theorem composedMetadata_eq {metadata : Value} (undeclared : LeavesCostOpen metadata)
    (steps : List Morph) (finish : Option Value) :
    composedMetadata steps finish metadata = composedCost steps finish >>= fun c =>
      (MorphMetadata.coerce metadata (derivedFields (derivedPurity steps finish metadata) c)) >>=
        fun m => .ok (.ok m) := by
  unfold composedMetadata composedCost
  rw [bind_assoc]
  refine bind_congr fun total => bind_congr fun c => ?_
  obtain rfl | ⟨es, entries, absent⟩ := undeclared
  · rfl
  · let both : Fields := [("pure", .bool (finish.isNone && steps.all isPure)), ("cost", c)]
    have missing : both.filter (fun f => (Value.find? es (.text f.1)).isNone) =
        derivedFields (derivedPurity steps finish metadata) c := by
      unfold derivedPurity
      rw [entries]
      by_cases given : (Value.find? es (.text "pure")).isNone = true
      · simp [both, given, absent, derivedFields]
      · simp [both, given, absent, derivedFields]
    dsimp only
    split
    · cases entries
    · next es' entries' =>
      rw [entries] at entries'
      cases entries'
      rw [missing]
      rfl
    · next entries' =>
      rw [entries] at entries'
      cases entries'

/-- The function that finishes a sequence, if there is to be one. -/
def readFinish (name : Value) : Value → Except Fault (Option Value)
  | .none => .ok none
  | fn =>
    if fn.isCallable then .ok (some fn)
    else do
      throw (.configuration
        ("ComposedMorph '" ++ (← name.insertedOrFault) ++ "' post-processor must be callable"))

/-- Morphs, each with the value that it is shown as. -/
def given (parts : List (Value × Morph)) : List (Value × Option Morph) :=
  parts.map fun p => (p.1, some p.2)

theorem mapM_given {take : Value × Option Morph → Except Fault Morph}
    (takes : ∀ v m, take (v, some m) = .ok m) (parts : List (Value × Morph)) :
    (given parts).mapM take = .ok (parts.map (·.2)) := by
  induction parts with
  | nil => rfl
  | cons p parts ih =>
    have split : given (p :: parts) = (p.1, some p.2) :: given parts := rfl
    rw [split, List.mapM_cons, takes, ih]
    rfl

theorem compose_eq {metadata : Value} (undeclared : LeavesCostOpen metadata) (id : Nat)
    (name finish : Value) (parts : List (Value × Morph)) (settings : CacheSettings) :
    compose id name (given parts) finish metadata settings = do
      let ms := parts.map (·.2)
      let last ← readFinish name finish
      let c ← composedCost ms last
      let d ← MorphMetadata.coerce metadata (derivedFields (derivedPurity ms last metadata) c)
      let head ← makeHeader id name d settings
      return composed head ms last := by
  -- Both ways to read the function go on in the same way.
  have goes (last : Option Value) {k : Except Value MorphMetadata → Except Fault Morph}
      (makes : ∀ d, k (.ok d) = do
        return composed (← makeHeader id name d settings) (parts.map (·.2)) last) :
      composedMetadata (parts.map (·.2)) last metadata >>= k = do
        let c ← composedCost (parts.map (·.2)) last
        let d ← MorphMetadata.coerce metadata
          (derivedFields (derivedPurity (parts.map (·.2)) last metadata) c)
        let head ← makeHeader id name d settings
        return composed head (parts.map (·.2)) last := by
    rw [composedMetadata_eq undeclared, bind_assoc]
    refine bind_congr fun c => ?_
    rw [bind_assoc]
    exact bind_congr makes
  unfold compose
  rw [mapM_given fun _ _ => rfl]
  dsimp only [readFinish]
  cases finish with
  | none => exact goes none fun _ => rfl
  | _ =>
    dsimp only
    split
    · exact goes (some _) fun _ => rfl
    · cases name.insertedOrFault <;> rfl

theorem derivedPurity_free (ms : List Morph) (last : Option Value) (metadata : Value) :
    derivedPurity (ms.map free) last metadata = derivedPurity ms last metadata := by
  unfold derivedPurity
  rw [List.all_map]
  simp only [Function.comp_def, isPure_free]

theorem compose_aside {metadata : Value} (undeclared : LeavesCostOpen metadata) (id : Nat)
    (name finish : Value) {parts : List (Value × Morph)} (priced : ∀ p ∈ parts, p.2.IsPriced)
    (settings : CacheSettings) :
    CostsAside (Number.Overflows (prices (parts.map (·.2)))) IsPriced
      (compose id name (given parts) finish metadata settings)
      (compose id name (given (parts.map fun p => (p.1, p.2.free))) finish metadata settings) := by
  have freed : (parts.map fun p => (p.1, p.2.free)).map (·.2) = (parts.map (·.2)).map free := by
    simp
  rw [compose_eq undeclared, compose_eq undeclared, freed]
  refine .after fun last _ => ?_
  refine .derive (composedCost_derives (List.forall_mem_map.mpr priced) last)
    (composedCost_derives (fun _ among => ?_) last) (not_overflows_free _)
    fun x y nonneg nonneg' => ?_
  · obtain ⟨m, _, rfl⟩ := List.mem_map.mp among
    exact m.isPriced_free
  obtain ⟨q, read, price⟩ := Quantity.exists_readCost nonneg
  obtain ⟨q', read', _⟩ := Quantity.exists_readCost nonneg'
  rw [derivedPurity_free]
  generalize derivedPurity (parts.map (·.2)) last metadata = purity
  cases made : MorphMetadata.coerce metadata (derivedFields purity (.ofNumber x)) with
  | error f =>
    cases made' : MorphMetadata.coerce metadata (derivedFields purity (.ofNumber y)) with
    | error f' => exact .of_isOk rfl nofun
    | ok d' =>
      rw [MorphMetadata.coerce_with_cost made' read] at made
      cases made
  | ok d =>
    obtain rfl := MorphMetadata.cost_of_derivedFields made read
    rw [MorphMetadata.coerce_with_cost made read']
    exact head_aside (isOk_makeHeader_cost q').symm (fun _ => rfl) price

end Morph

end MorphEngine
