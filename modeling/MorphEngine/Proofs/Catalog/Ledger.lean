import MorphEngine.Proofs.Catalog.Consistent

/-!
# A catalog as a list

Registrations, removals and clearings keep a catalog and its indexes together: each index reflects
what the records carry, and no two records share a name. So a catalog answers as the plain list of
its live records does, and a request that is refused leaves it as it was.
-/

namespace MorphEngine

open Catalog

/-- A live record as a plain list keeps it. -/
structure Listing where
  name : Value
  target : Morph
  labels : Labels

abbrev Ledger := List Listing

namespace CatalogRecord

def listing (r : CatalogRecord) : Listing := ⟨r.name, r.target, r.labels⟩

end CatalogRecord

namespace Ledger

/-- The list without what is under a name. -/
def without (name : Value) (l : Ledger) : Ledger := l.filter fun e => e.name.text? ≠ name.text?

def has (name : Value) (l : Ledger) : Bool := l.any fun e => e.name.text? = name.text?

/-- The list with a target under a name, in place of what is there only when that may be
overwritten. -/
def enter (m : Morph) (metadata overwrite name : Value) (l : Ledger) : Option Ledger :=
  match Catalog.recordLabels m metadata with
  | .ok labels =>
    if l.has name && overwrite.truth.toOption != some true then none
    else some (l.without name ++ [⟨name, m, labels⟩])
  | .error _ => none

end Ledger

namespace Catalog

/-- A request to change a catalog. -/
inductive Request
  | define (target : Value × Option Morph) (metadata overwrite name : Value)
  | remove (name : Value)
  | clear

namespace Request

/-- Whether the names of a request are texts; a registration can also be under the target's name. -/
def IsNamed : Request → Prop
  | define _ _ _ name => name = .none ∨ name.isText = true
  | remove name => name.isText = true
  | clear => True

/-- Carries out a request. A fault ends it, with the catalog as it is then. -/
def run : Request → Catalog → Except Fault Unit × Catalog
  | define target metadata overwrite name, c =>
    let (result, c) := (Catalog.define target metadata overwrite name).run c
    (result.map fun _ => (), c)
  | remove name, c =>
    match c.remove name with
    | .ok (_, c') => (.ok (), c')
    | .error f => (.error f, c)
  | clear, _ => (.ok (), .empty)

/-- The list after a request; nothing when the request is to be refused. A target goes under its own
name unless another one is given. -/
def effect : Request → Ledger → Option Ledger
  | define (_, none) _ _ _, _ => none
  | define (_, some m) metadata overwrite name, l =>
    l.enter m metadata overwrite (if name.truthy then name else m.name.given)
  | remove name, l => some (l.without name)
  | clear, _ => some []

end Request

/-- The catalog after requests to an empty one. -/
def after (rs : List Request) : Catalog := rs.foldl (fun c r => (r.run c).2) .empty

end Catalog

/-- What is live after requests; those that are refused count for nothing. -/
def Ledger.after (rs : List Request) : Ledger := rs.foldl (fun l r => (r.effect l).getD l) []

/-! ### Criteria -/

/-- The criteria of a search as texts. -/
structure Criteria where
  category : Option Text
  tags : List Text
  inputType : Option Text
  outputType : Option Text

namespace Criteria

def meets (q : Criteria) (l : Labels) : Bool :=
  q.category.all (l.category.text = ·) && q.tags.all (Name.holds l.tags) &&
    q.inputType.all (l.inputType.text = ·) && q.outputType.all (l.outputType.text = ·)

/-- A value that asks for a text, or for nothing. -/
def AsksFor (v : Value) : Option Text → Prop
  | some t => v.text? = some t
  | none => v = .none

/-- A value that asks for tags: nothing, a single text, or a collection of texts. -/
inductive AsksForTags : Value → List Text → Prop
  | nothing : AsksForTags .none []
  | single {v : Value} {t : Text} (reads : v.text? = some t) : AsksForTags v [t]
  | several {v : Value} {xs : List Value} {ts : List Text} (collection : v.isText = false)
      (members : v.iterate? = some xs) (counts : v.truth = .ok !xs.isEmpty)
      (reads : xs.map Value.text? = ts.map some) : AsksForTags v ts

/-- The search asks for these criteria. -/
structure AskedBy (q : Criteria) (s : Search) : Prop where
  category : AsksFor s.category q.category
  tags : AsksForTags s.tags q.tags
  inputType : AsksFor s.inputType q.inputType
  outputType : AsksFor s.outputType q.outputType

end Criteria

namespace Catalog

/-- A catalog answers as a list of live records does. -/
structure AnswersAs (c : Catalog) (l : Ledger) : Prop where
  records : c.records.map (·.listing) = l
  /-- The names in a category are those of the records in it, and a search finds the same. -/
  namesInCategory : ∀ v t, v.text? = some t →
    c.namesInCategory v = .ok ((l.filter (·.labels.category.text = t)).map (·.name)) ∧
      c.namesInCategory v = (c.search ⟨v, .none, .none, .none⟩).map (·.map (·.name))
  categories : Index.Enumerates c.categories.headings fun t => ∃ e ∈ l, e.labels.category.text = t
  tags : Index.Enumerates c.tags.headings fun t => ∃ e ∈ l, ∃ tag ∈ e.labels.tags, tag.text = t
  search : ∀ s q, Criteria.AskedBy q s →
    (c.search s).map (·.map (·.listing)) = .ok (l.filter (q.meets ·.labels))

/-! ### Requests -/

variable {c : Catalog} {l : Ledger}

theorem orElse_of_named {name : Value} (named : name = .none ∨ name.isText = true)
    (fallback : Value) :
    name.orElse fallback = .ok (if name.truthy then name else fallback) := by
  have plain : name.truth = .ok name.truthy := by
    rcases named with rfl | isText
    · rfl
    · obtain ⟨t, reads⟩ := Option.isSome_iff_exists.mp isText
      rcases Value.text_cases reads with rfl | ⟨m, rfl⟩ | ⟨s, rfl, _⟩ <;> rfl
  rw [Value.orElse, plain]
  rfl

/-- The name that a registration comes to is a text. -/
theorem isText_of_named {name : Value} (named : name = .none ∨ name.isText = true) (m : Morph) :
    (if name.truthy then name else m.name.given).isText = true := by
  rcases named with rfl | isText
  · exact m.name.isText_given
  · split
    · exact isText
    · exact m.name.isText_given

theorem Consistent.without (hc : c.Consistent) {r : CatalogRecord} (hr : r ∈ c.records)
    {name : Value} (under : r.name.text? = name.text?) :
    (c.drop r).records.map (·.listing) = Ledger.without name (c.records.map (·.listing)) := by
  rw [hc.records_drop hr, under, Ledger.without, List.filter_map]
  rfl

theorem without_absent {name : Value} (absent : ∀ r ∈ c.records, r.name.text? ≠ name.text?) :
    Ledger.without name (c.records.map (·.listing)) = c.records.map (·.listing) := by
  rw [Ledger.without, List.filter_eq_self]
  intro e he
  obtain ⟨r, hr, rfl⟩ := List.mem_map.mp he
  exact decide_eq_true (absent r hr)

theorem has_iff {name : Value} :
    Ledger.has name (c.records.map (·.listing)) = true ↔
      ∃ r ∈ c.records, r.name.text? = name.text? := by
  rw [Ledger.has, List.any_map, List.any_eq_true]
  exact exists_congr fun r => and_congr_right fun _ => decide_eq_true_iff

namespace Request

/-- A request that fails leaves the catalog as it was. -/
theorem run_error {r : Request} {f : Fault} (fails : (r.run c).1 = .error f) : (r.run c).2 = c := by
  cases r with
  | define target metadata overwrite name =>
    rw [run, run_define] at fails ⊢
    rcases comes : registered target metadata overwrite name c with f | ⟨r, c'⟩
    · rfl
    · rw [comes] at fails
      cases fails
  | remove name =>
    rw [run] at fails ⊢
    rcases comes : c.remove name with f | ⟨removed, c'⟩
    · rfl
    · rw [comes] at fails
      cases fails
  | clear => cases fails

/-- What a request does to a catalog: with what it does to the list it is refused, or leads to a
consistent catalog of the records in the list. -/
def Follows (r : Request) (c : Catalog) : Option Ledger → Prop
  | some l => ∃ c', r.run c = (.ok (), c') ∧ c'.Consistent ∧ c'.records.map (·.listing) = l
  | none => ∃ f, r.run c = (.error f, c)

theorem follows_remove (hc : c.Consistent) {name : Value} (isText : name.isText = true) :
    (remove name).Follows c (some (Ledger.without name (c.records.map (·.listing)))) := by
  by_cases none : c.records.isEmpty = true
  · have removed : c.remove name = .ok (false, c) := by
      rw [Catalog.remove, if_pos none]
      rfl
    have absent : c.records = [] := List.isEmpty_iff.mp none
    refine ⟨c, ?_, hc, ?_⟩
    · rw [run, removed]
    · rw [absent]
      rfl
  · rcases hc.get_cases isText with ⟨r, hr, under, found⟩ | ⟨absent, found⟩
    · have removed : c.remove name = .ok (true, c.drop r) := by
        rw [Catalog.remove, if_neg none]
        simp only [bind, Except.bind, found]
        rfl
      refine ⟨c.drop r, ?_, hc.drop hr, hc.without hr under⟩
      rw [run, removed]
    · have removed : c.remove name = .ok (false, c) := by
        rw [Catalog.remove, if_neg none]
        simp only [bind, Except.bind, found]
        rfl
      refine ⟨c, ?_, hc, (without_absent absent).symm⟩
      rw [run, removed]

/-- Entering a target under a text does to a catalog what it does to the list. -/
theorem entered_cases (hc : c.Consistent) (m : Morph) (metadata overwrite : Value) {name : Value}
    (isText : name.isText = true) :
    match Ledger.enter m metadata overwrite name (c.records.map (·.listing)) with
    | some l => ∃ r c', c.entered m metadata overwrite name = .ok (r, c') ∧ c'.Consistent ∧
        c'.records.map (·.listing) = l
    | none => ∃ f, c.entered m metadata overwrite name = .error f := by
  unfold Ledger.enter entered
  rcases recordLabels m metadata with f | labels
  · exact ⟨f, rfl⟩
  · dsimp only
    rcases hc.get_cases isText with ⟨old, hold, under, found⟩ | ⟨absent, found⟩
    · have has : Ledger.has name (c.records.map (·.listing)) = true :=
        has_iff.mpr ⟨old, hold, under⟩
      simp only [has, bind, Except.bind, found]
      rcases overwrite.truth with f | (_ | _)
      · exact ⟨f, rfl⟩
      · rcases name.insertedOrFault with f | shown
        · exact ⟨f, rfl⟩
        · exact ⟨_, rfl⟩
      · have new : ∀ r ∈ (c.drop old).records, r.name.text? ≠ name.text? := by
          rw [hc.records_drop hold, under]
          intro r hr
          exact of_decide_eq_true (List.mem_filter.mp hr).2
        refine ⟨_, _, rfl, (hc.drop hold).add isText new m labels, ?_⟩
        rw [← hc.without hold under]
        exact List.map_append
    · have has : Ledger.has name (c.records.map (·.listing)) = false := by
        rw [Bool.eq_false_iff]
        intro has
        obtain ⟨r, hr, under⟩ := has_iff.mp has
        exact absent r hr under
      simp only [has, bind, Except.bind, found]
      refine ⟨_, _, rfl, hc.add isText absent m labels, ?_⟩
      rw [without_absent absent]
      exact List.map_append

theorem follows_define (hc : c.Consistent) (target : Value × Option Morph)
    {metadata overwrite name : Value} (named : name = .none ∨ name.isText = true) :
    (define target metadata overwrite name).Follows c
      ((define target metadata overwrite name).effect (c.records.map (·.listing))) := by
  obtain ⟨v, m | m⟩ := target
  · obtain ⟨f, refused⟩ :=
      v.exists_refuse "Only morphs and pipelines can be registered, got " ""
    refine ⟨f, ?_⟩
    rw [run, run_define, registered, refused]
    rfl
  · have comes : registered (v, some m) metadata overwrite name c =
        c.entered m metadata overwrite (if name.truthy then name else m.name.given) := by
      unfold registered
      dsimp only
      rw [orElse_of_named named]
      rfl
    have enters := entered_cases hc m metadata overwrite (isText_of_named named m)
    rw [effect]
    cases listed : Ledger.enter m metadata overwrite
        (if name.truthy then name else m.name.given) (c.records.map (·.listing)) with
    | some l =>
      rw [listed] at enters
      obtain ⟨r, c', entered, hc', records⟩ := enters
      refine ⟨c', ?_, hc', records⟩
      rw [run, run_define, comes, entered]
      rfl
    | none =>
      rw [listed] at enters
      obtain ⟨f, entered⟩ := enters
      refine ⟨f, ?_⟩
      rw [run, run_define, comes, entered]
      rfl

end Request

/-! ### Answers -/

/-- A value that asks for a text agrees with the labels that read so. -/
theorem agrees_of_asksFor {v : Value} {wanted : Option Text} (asks : Criteria.AsksFor v wanted)
    (label : Name) : agrees v label = wanted.all (label.text = ·) := by
  cases wanted with
  | none =>
    rw [Criteria.AsksFor] at asks
    rw [asks]
    rfl
  | some t =>
    have same : agrees v label = label.given.same v := by
      rcases Value.text_cases asks with rfl | ⟨m, rfl⟩ | ⟨s, rfl, _⟩ <;> rfl
    rw [same, Value.same_of_texts label.reads asks]
    rfl

/-- The tags that are asked for are looked for as texts. -/
theorem wantedTags_of_asksFor {v : Value} {ts : List Text} (asks : Criteria.AsksForTags v ts) :
    ∃ wanted, wantedTags v = .ok wanted ∧ (∀ x ∈ wanted, x.isText = true) ∧
      ∀ t, Value.Reads wanted t ↔ t ∈ ts := by
  cases asks with
  | nothing =>
    refine ⟨[], rfl, fun x hx => absurd hx List.not_mem_nil, fun t => ?_⟩
    constructor
    · rintro ⟨x, hx, _⟩
      cases hx
    · intro ht
      cases ht
  | @single _ t reads =>
    have isText : v.isText = true := by
      rw [Value.isText, reads]
      rfl
    refine ⟨[v], by rw [wantedTags, if_pos isText]; rfl, ?_, fun u => ?_⟩
    · intro x hx
      rw [List.mem_singleton.mp hx]
      exact isText
    · simp only [Value.Reads, List.mem_singleton, exists_eq_left, reads, Option.some.injEq]
      exact eq_comm
  | @several _ xs _ collection members counts reads =>
    have texts : ∀ x ∈ xs, x.isText = true := by
      intro x hx
      have read : x.text? ∈ ts.map some := reads ▸ List.mem_map_of_mem hx
      obtain ⟨t, _, same⟩ := List.mem_map.mp read
      rw [Value.isText, ← same]
      rfl
    have same (t : Text) : Value.Reads xs t ↔ t ∈ ts := by
      rw [Value.Reads, ← List.mem_map (f := Value.text?), reads]
      simp only [List.mem_map, Option.some.injEq, exists_eq_right]
    obtain ⟨wanted, made, isText, holds⟩ := Value.setOf_texts texts
    have iterated : v.iterate = .ok xs := by rw [Value.iterate, members]
    cases xs with
    | nil =>
      refine ⟨[], ?_, texts, same⟩
      rw [wantedTags, collection]
      simp only [bind, Except.bind, counts]
      rfl
    | cons x xs =>
      refine ⟨wanted, ?_, isText, fun t => (holds t).trans (same t)⟩
      rw [wantedTags, collection]
      simp only [bind, Except.bind, counts, iterated]
      exact made

/-- A record carries all wanted tags when its labels hold the texts that these read as. -/
theorem all_tags_eq {wanted : List Value} {ts : List Text} (isText : ∀ x ∈ wanted, x.isText = true)
    (reads : ∀ t, Value.Reads wanted t ↔ t ∈ ts) (tags : List Name) :
    (wanted.all fun x => tags.any fun l => l.given.same x) = ts.all (Name.holds tags) := by
  have one {x : Value} {t : Text} (read : x.text? = some t) :
      (tags.any fun l => l.given.same x) = Name.holds tags t :=
    congrArg (tags.any ·) (funext fun l => Value.same_of_texts l.reads read)
  rw [Bool.eq_iff_iff, List.all_eq_true, List.all_eq_true]
  constructor
  · intro all t ht
    obtain ⟨x, hx, read⟩ := (reads t).mpr ht
    rw [← one read]
    exact all x hx
  · intro all x hx
    obtain ⟨t, read⟩ := Option.isSome_iff_exists.mp (isText x hx)
    rw [one read]
    exact all t ((reads t).mp ⟨x, hx, read⟩)

theorem search_eq (c : Catalog) {s : Search} {q : Criteria} (asked : q.AskedBy s) :
    c.search s = .ok (c.records.filter (q.meets ·.labels)) := by
  obtain ⟨wanted, found, isText, reads⟩ := wantedTags_of_asksFor asked.tags
  simp only [search, bind, Except.bind, found, agrees_of_asksFor asked.category,
    agrees_of_asksFor asked.inputType, agrees_of_asksFor asked.outputType,
    all_tags_eq isText reads]
  rfl

/-- The category index has the records that a search for the category finds. -/
theorem Consistent.namesInCategory_eq (hc : c.Consistent) {v : Value} {t : Text}
    (reads : v.text? = some t) :
    c.namesInCategory v =
      .ok ((c.records.filter fun r => r.labels.category.text = t).map (·.name)) := by
  have filed : c.records.filter (fun r => (c.categories.serials t).contains r.serial) =
      c.records.filter fun r => r.labels.category.text = t := by
    refine List.filter_congr fun r hr => ?_
    rw [Bool.eq_iff_iff, List.contains_iff_mem, hc.categories.serials, decide_eq_true_eq]
    constructor
    · rintro ⟨s, hs, ⟨h, here, carried⟩, same⟩
      rw [← hc.serials s hs r hr same, ← List.mem_singleton.mp here]
      exact carried
    · intro carried
      exact ⟨r, hr, ⟨r.labels.category, List.mem_singleton_self _, carried⟩, rfl⟩
  rw [namesInCategory, (Value.checkKeyAmong_of_text reads []).1, reads]
  exact congrArg (fun rs : List CatalogRecord => Except.ok (rs.map (·.name))) filed

/-- What some record carries is what some record in the list carries. -/
theorem exists_carries_iff {headings : Labels → List Name} {t : Text} :
    (∃ n, Carries headings c.records t n) ↔
      ∃ e ∈ c.records.map (·.listing), ∃ h ∈ headings e.labels, h.text = t := by
  constructor
  · rintro ⟨_, r, hr, carried, _⟩
    exact ⟨r.listing, List.mem_map_of_mem hr, carried⟩
  · rintro ⟨e, he, carried⟩
    obtain ⟨r, hr, rfl⟩ := List.mem_map.mp he
    exact ⟨r.serial, r, hr, carried, rfl⟩

/-- A consistent catalog answers as the list of its records does. -/
theorem Consistent.answersAs (hc : c.Consistent) : c.AnswersAs (c.records.map (·.listing)) where
  records := rfl
  namesInCategory v t reads := by
    have asked : Criteria.AskedBy ⟨some t, [], none, none⟩ ⟨v, .none, .none, .none⟩ :=
      ⟨reads, .nothing, rfl, rfl⟩
    have found : c.records.filter (Criteria.meets ⟨some t, [], none, none⟩ ·.labels) =
        c.records.filter fun r => r.labels.category.text = t :=
      List.filter_congr fun r _ => by
        simp only [Criteria.meets, Option.all, List.all_nil, Bool.and_true]
    constructor
    · rw [hc.namesInCategory_eq reads, List.filter_map, List.map_map]
      rfl
    · rw [hc.namesInCategory_eq reads, search_eq c asked, found]
      rfl
  categories :=
    { hc.categories.enumerates with
      texts := fun t => by
        rw [hc.categories.enumerates.texts, exists_carries_iff]
        simp only [List.mem_singleton, exists_eq_left] }
  tags :=
    { hc.tags.enumerates with
      texts := fun t => by rw [hc.tags.enumerates.texts, exists_carries_iff] }
  search s q asked := by
    rw [search_eq c asked, List.filter_map]
    rfl

/-! ### Runs -/

/-- A request does to a consistent catalog what it does to the list of its records. -/
theorem Request.follows (hc : c.Consistent) {r : Request} (named : r.IsNamed) :
    r.Follows c (r.effect (c.records.map (·.listing))) := by
  cases r with
  | define target metadata overwrite name => exact follows_define hc target named
  | remove name => exact follows_remove hc named
  | clear => exact ⟨.empty, rfl, empty_consistent, rfl⟩

/-- Requests lead from a consistent catalog to one of what is live after them. -/
theorem foldl_consistent (rs : List Request) (named : ∀ r ∈ rs, r.IsNamed) (hc : c.Consistent) :
    (rs.foldl (fun c r => (r.run c).2) c).Consistent ∧
      (rs.foldl (fun c r => (r.run c).2) c).records.map (·.listing) =
        rs.foldl (fun l r => (r.effect l).getD l) (c.records.map (·.listing)) := by
  induction rs generalizing c with
  | nil => exact ⟨hc, rfl⟩
  | cons r rs ih =>
    rw [List.forall_mem_cons] at named
    have follows := Request.follows hc named.1
    rw [List.foldl_cons, List.foldl_cons]
    -- What the list takes the catalog takes, and what it refuses leaves the catalog as it was.
    cases effect : r.effect (c.records.map (·.listing)) with
    | some l =>
      rw [effect] at follows
      obtain ⟨c', ran, hc', records⟩ := follows
      rw [ran, Option.getD_some, ← records]
      exact ih named.2 hc'
    | none =>
      rw [effect] at follows
      obtain ⟨f, ran⟩ := follows
      rw [ran]
      exact ih named.2 hc

/-- Whatever is asked of an empty catalog, under names that are texts, from then on it answers as the
list of what is live. A request succeeds when the list takes it, and one that fails leaves the
catalog with its indexes as it was. -/
theorem after_answersAs (rs : List Request) (named : ∀ r ∈ rs, r.IsNamed) :
    (after rs).AnswersAs (Ledger.after rs) ∧
      ∀ r : Request,
        (r.IsNamed → ((r.run (after rs)).1.isOk = (r.effect (Ledger.after rs)).isSome)) ∧
          ∀ f, (r.run (after rs)).1 = .error f → (r.run (after rs)).2 = after rs := by
  obtain ⟨hc, records⟩ := foldl_consistent rs named empty_consistent
  change (after rs).Consistent at hc
  change (after rs).records.map (·.listing) = Ledger.after rs at records
  refine ⟨records ▸ hc.answersAs, fun r => ⟨fun isNamed => ?_, fun f => Request.run_error⟩⟩
  have follows := Request.follows hc isNamed
  rw [records] at follows
  cases effect : r.effect (Ledger.after rs) with
  | some l =>
    rw [effect] at follows
    obtain ⟨c', ran, _⟩ := follows
    rw [ran]
    rfl
  | none =>
    rw [effect] at follows
    obtain ⟨f, ran⟩ := follows
    rw [ran]
    rfl

/-! Two morphs are registered, the first is registered again under another category, and the second
is refused. -/

def sampleTarget (name : Text) : Value × Option Morph :=
  (.text name, some (.identity
    ⟨0, name, .default, none, fun cached => absurd cached Bool.false_ne_true⟩))

def sampleLabels (category : Text) : Value := .record [("category", .text category)]

def sampleRequests : List Request :=
  [.define (sampleTarget "A") (sampleLabels "x") (.bool false) .none,
    .define (sampleTarget "B") (sampleLabels "x") (.bool false) .none,
    .define (sampleTarget "A") (sampleLabels "y") (.bool true) .none,
    .define (sampleTarget "A") .none (.bool false) (.text "B")]

theorem after_sampleRequests :
    (∀ r ∈ sampleRequests, r.IsNamed) ∧
      (after sampleRequests).AnswersAs (Ledger.after sampleRequests) ∧
      (Ledger.after sampleRequests).map (fun e => (e.name.text?, e.labels.category.text)) =
        [(some ("B" : Text), ("x" : Text)), (some ("A" : Text), ("y" : Text))] := by
  have named : ∀ r ∈ sampleRequests, r.IsNamed := by
    intro r hr
    simp only [sampleRequests, List.mem_cons, List.not_mem_nil, or_false] at hr
    rcases hr with rfl | rfl | rfl | rfl
    · exact Or.inl rfl
    · exact Or.inl rfl
    · exact Or.inl rfl
    · exact Or.inr rfl
  refine ⟨named, (after_answersAs sampleRequests named).1, ?_⟩
  rfl

end Catalog

end MorphEngine
