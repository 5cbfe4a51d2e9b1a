import MorphEngine.Proofs.Catalog.Listed
import MorphEngine.Session

/-!
# What a catalog exports

A catalog exports the reports of its records under their names. All that these hold has a form in
JSON, save what a record lists as its composition, which is kept as the metadata listed it. So the
export of a catalog is ready for JSON when the requests to the catalog list names and nothing else.
-/

namespace MorphEngine

/-- What JSON has a form for: nothing, truth values, numbers, texts, and lists and tables of such,
tables with texts for keys. A measure is a number when it counts as one. -/
inductive Value.IsJsonReady (counts : Quantity → Prop) : Value → Prop
  | none : IsJsonReady counts .none
  | bool (b : Bool) : IsJsonReady counts (.bool b)
  | number {v : Value} (measures : v.isMeasure = true) (counted : counts ⟨v, measures⟩) :
    IsJsonReady counts v
  | text {v : Value} (isText : v.isText = true) : IsJsonReady counts v
  | list {xs : List Value} (members : ∀ v ∈ xs, IsJsonReady counts v) :
    IsJsonReady counts (.list xs)
  | table {es : List (Value × Value)} (keys : ∀ e ∈ es, e.1.isText = true)
    (items : ∀ e ∈ es, IsJsonReady counts e.2) : IsJsonReady counts (.table es)

namespace Value

variable {counts : Quantity → Prop}

@[simp] theorem isJsonReady_bool (b : Bool) : (Value.bool b).IsJsonReady counts := .bool b

@[simp] theorem isJsonReady_text (t : Text) : (Value.text t).IsJsonReady counts := .text rfl

@[simp] theorem isJsonReady_name (n : Name) : n.given.IsJsonReady counts := .text n.isText_given

theorem isJsonReady_list {xs : List Value} :
    (Value.list xs).IsJsonReady counts ↔ ∀ v ∈ xs, v.IsJsonReady counts := by
  refine ⟨fun ready => ?_, .list⟩
  cases ready with
  | list members => exact members
  | number measures => cases measures
  | text isText => cases isText

theorem isJsonReady_table {es : List (Value × Value)} :
    (Value.table es).IsJsonReady counts ↔
      (∀ e ∈ es, e.1.isText = true) ∧ ∀ e ∈ es, e.2.IsJsonReady counts := by
  refine ⟨fun ready => ?_, fun ready => .table ready.1 ready.2⟩
  cases ready with
  | table keys items => exact ⟨keys, items⟩
  | number measures => cases measures
  | text isText => cases isText

theorem not_isJsonReady_bytes (bs : List UInt8) : ¬(Value.bytes bs).IsJsonReady counts := by
  intro ready
  cases ready with
  | number measures => cases measures
  | text isText => cases isText

theorem isJsonReady_record {fs : Fields} :
    (Value.record fs).IsJsonReady counts ↔ ∀ f ∈ fs, f.2.IsJsonReady counts := by
  rw [record, isJsonReady_table, List.forall_mem_map, List.forall_mem_map]
  exact and_iff_right fun f _ => rfl

/-- No text measures anything. -/
theorem isMeasure_of_isText {v : Value} (isText : v.isText = true) : v.isMeasure = false := by
  cases v with
  | text t => rfl
  | member m =>
    obtain ⟨⟨owner, isValue, names⟩, name, value⟩ := m
    cases isValue with
    | false => cases isText
    | true =>
      cases value with
      | int n => cases isText
      | text t => rfl
  | scalar s =>
    obtain ⟨type, bytes⟩ := s
    cases type with
    | text => rfl
    | _ => cases isText
  | _ => cases isText

@[simp] theorem isJsonReady_given (q : Quantity) : q.given.IsJsonReady counts ↔ counts q := by
  refine ⟨fun ready => ?_, .number q.measures⟩
  obtain ⟨v, measures⟩ := q
  cases ready with
  | number _ counted => exact counted
  | text isText =>
    rw [isMeasure_of_isText isText] at measures
    cases measures
  | _ => cases measures

end Value

/-! ### Records -/

namespace CatalogRecord

variable {counts : Quantity → Prop} {r : CatalogRecord}

/-- The report of a record with the time of its registration. -/
def dated (time : Text) (r : CatalogRecord) : Fields :=
  let registered : Fields := [("registered_at", .text time)]
  r.report ++ registered

def reportAt (time : Float) (r : CatalogRecord) : Except Fault Fields := do
  return r.dated (← Timestamp.ofFloat time)

/-- What a report shows as it was given has a form in JSON: the cost and the time to live of the
target, and what is listed as composition. -/
structure IsPlain (counts : Quantity → Prop) (r : CatalogRecord) : Prop where
  cost : counts r.target.cost
  cacheTtl : ∀ q ∈ r.target.metadata.cacheTtl, counts q
  composition : ∀ v ∈ r.labels.composition.getD [], v.IsJsonReady counts

@[simp] theorem isJsonReady_ttlValue (ttl : Option Quantity) :
    (MorphMetadata.ttlValue ttl).IsJsonReady counts ↔ ∀ q ∈ ttl, counts q := by
  cases ttl with
  | none => simp [MorphMetadata.ttlValue, Value.IsJsonReady.none]
  | some q => simp [MorphMetadata.ttlValue]

theorem isJsonReady_metadata (m : MorphMetadata) :
    (Value.record m.report).IsJsonReady counts ↔ counts m.cost ∧ ∀ q ∈ m.cacheTtl, counts q := by
  rw [Value.isJsonReady_record, MorphMetadata.report]
  simp

theorem isJsonReady_labels (l : Labels) :
    (∀ f ∈ l.report, f.2.IsJsonReady counts) ↔
      ∀ v ∈ l.composition.getD [], v.IsJsonReady counts := by
  have tags : (Value.list ((Name.sort l.tags).map (·.given))).IsJsonReady counts := by
    rw [Value.isJsonReady_list, List.forall_mem_map]
    exact fun n _ => Value.isJsonReady_name n
  rw [Labels.report, List.forall_mem_append]
  cases l.composition <;> simp [tags, Value.isJsonReady_list]

/-- Only what is shown as it was given can keep a report from being ready for JSON. -/
theorem isJsonReady_dated (named : r.name.isText = true) (time : Text) :
    (Value.record (r.dated time)).IsJsonReady counts ↔ r.IsPlain counts := by
  have title : r.name.IsJsonReady counts := .text named
  rw [Value.isJsonReady_record, dated, List.forall_mem_append, report, reportOf,
    List.forall_mem_append, isJsonReady_labels]
  simp only [List.forall_mem_cons, List.not_mem_nil, false_imp_iff, implies_true, and_true,
    true_and, title, Value.isJsonReady_text, isJsonReady_metadata]
  constructor
  · rintro ⟨⟨cost, cacheTtl⟩, composition⟩
    exact ⟨cost, cacheTtl, composition⟩
  · rintro ⟨cost, cacheTtl, composition⟩
    exact ⟨⟨cost, cacheTtl⟩, composition⟩

end CatalogRecord

/-! ### Catalogs -/

namespace Catalog

variable {c : Catalog} {clock : Nat → Float} {times : Nat → Text}

/-- The reports of the records under their names, given when each of them was registered. -/
def reports (clock : Nat → Float) (c : Catalog) : Except Fault (List (Value × Fields)) :=
  c.records.mapM fun r => do return (r.name, ← r.reportAt (clock r.serial))

/-- The catalog as exported at some time. -/
def exported (clock : Nat → Float) (now : Float) (c : Catalog) : Except Fault Value := do
  let exportedAt ← Timestamp.ofFloat now
  let morphs ← c.reports clock
  return .record [("version", .text "1.0"), ("exported_at", .text exportedAt),
    ("morphs", .table (morphs.map fun e => (e.1, .record e.2)))]

/-- The times of the registrations are written in this way. -/
def DatedBy (clock : Nat → Float) (times : Nat → Text) (c : Catalog) : Prop :=
  ∀ r ∈ c.records, Timestamp.ofFloat (clock r.serial) = .ok (times r.serial)

theorem mapM_eq_map {α β : Type} {f : α → Except Fault β} {g : α → β} {xs : List α}
    (each : ∀ x ∈ xs, f x = .ok (g x)) : xs.mapM f = .ok (xs.map g) := by
  induction xs with
  | nil => rfl
  | cons x xs ih =>
    rw [List.forall_mem_cons] at each
    rw [List.mapM_cons, each.1, ih each.2]
    rfl

theorem reports_eq (dated : c.DatedBy clock times) :
    c.reports clock = .ok (c.records.map fun r => (r.name, r.dated (times r.serial))) := by
  refine mapM_eq_map fun r hr => ?_
  rw [CatalogRecord.reportAt, dated r hr]
  rfl

theorem isJsonReady_exported (counts : Quantity → Prop) (hc : c.Consistent)
    (dated : c.DatedBy clock times) {now : Float} {exportedAt : Text}
    (today : Timestamp.ofFloat now = .ok exportedAt) :
    ∃ v, c.exported clock now = .ok v ∧
      (v.IsJsonReady counts ↔ ∀ r ∈ c.records, r.IsPlain counts) := by
  refine ⟨_, by rw [exported, today, reports_eq dated]; rfl, ?_⟩
  have morphs : (Value.table ((c.records.map fun r => (r.name, r.dated (times r.serial))).map
      fun e => (e.1, .record e.2))).IsJsonReady counts ↔ ∀ r ∈ c.records, r.IsPlain counts := by
    rw [Value.isJsonReady_table]
    simp only [List.forall_mem_map]
    rw [and_iff_right hc.named]
    exact forall₂_congr fun r hr => r.isJsonReady_dated (hc.named r hr) _
  simp only [Value.isJsonReady_record, List.forall_mem_cons, List.not_mem_nil, false_imp_iff,
    implies_true, and_true, true_and, Value.isJsonReady_text, morphs]

namespace Request

/-- What the metadata of a request list as a composition. -/
def listing? : Request → Option (List Value)
  | define _ metadata _ _ => Labels.listedIn? metadata
  | remove _ | clear => none

def ListsNames (req : Request) : Prop := ∀ names ∈ req.listing?, ∀ v ∈ names, v.isText = true

theorem Enters.composition {req : Request} {r : CatalogRecord} (enters : req.Enters r) :
    r.labels.composition = some (req.listing?.getD r.target.partNames) := by
  cases req with
  | define target metadata overwrite name => exact composition_of_recordLabels enters.2
  | remove => cases enters
  | clear => cases enters

/-- A record that comes from a request that lists names lists names. -/
theorem Enters.lists {req : Request} {r : CatalogRecord} (enters : req.Enters r)
    (names : req.ListsNames) : ∀ v ∈ r.labels.composition.getD [], v.isText = true := by
  rw [enters.composition, Option.getD_some]
  cases listed : req.listing? with
  | none => exact r.target.isText_of_mem_partNames
  | some xs => exact names xs listed

end Request

/-- Whatever is asked of an empty catalog, under names that are texts, it can be exported, and each of
its records can. All that is exported has a form in JSON, where the measures count as numbers, save
the compositions. These are what requests listed, or else the names of the targets' parts, so the
export is ready when the requests list names only. -/
theorem after_exported (counts : Quantity → Prop) (rs : List Request)
    (named : ∀ req ∈ rs, req.IsNamed) {clock : Nat → Float} {times : Nat → Text} {now : Float}
    {exportedAt : Text} (dated : (after rs).DatedBy clock times)
    (today : Timestamp.ofFloat now = .ok exportedAt) :
    ∃ v, (after rs).exported clock now = .ok v ∧
      (v.IsJsonReady counts ↔ ∀ r ∈ (after rs).records, r.IsPlain counts) ∧
      (∀ r ∈ (after rs).records,
        (∃ fs, r.reportAt (clock r.serial) = .ok fs ∧
          ((Value.record fs).IsJsonReady counts ↔ r.IsPlain counts)) ∧
        ∃ req ∈ rs, req.Enters r ∧
          r.labels.composition = some (req.listing?.getD r.target.partNames)) ∧
      ((∀ req ∈ rs, req.ListsNames) →
        (∀ r ∈ (after rs).records, ∀ v ∈ r.labels.composition.getD [], v.isText = true) ∧
          ((∀ q, counts q) → v.IsJsonReady counts)) := by
  have hc : (after rs).Consistent := (foldl_consistent rs named empty_consistent).1
  obtain ⟨v, exports, ready⟩ := isJsonReady_exported counts hc dated today
  refine ⟨v, exports, ready, fun r hr => ⟨?_, ?_⟩, fun names => ?_⟩
  · refine ⟨r.dated (times r.serial), ?_, r.isJsonReady_dated (hc.named r hr) _⟩
    rw [CatalogRecord.reportAt, dated r hr]
    rfl
  · obtain ⟨req, mem, enters⟩ := exists_enters hr
    exact ⟨req, mem, enters, enters.composition⟩
  · have texts :
        ∀ r ∈ (after rs).records, ∀ v ∈ r.labels.composition.getD [], v.isText = true := by
      intro r hr
      obtain ⟨req, mem, enters⟩ := exists_enters hr
      exact enters.lists (names req mem)
    refine ⟨texts, fun all => ready.mpr fun r hr => ?_⟩
    exact ⟨all _, fun q _ => all q, fun v hv => .text (texts r hr v hv)⟩

/-! One target is registered, with one value listed as what it is composed of. -/

def listingRequests (listed : Value) : List Request :=
  [.define (sampleTarget "A") (.record [("composition", .list [listed])]) (.bool false) .none]

def epoch : Text := "1970-01-01T00:00:00+00:00"

theorem ofFloat_zero : Timestamp.ofFloat 0.0 = .ok epoch := by
  have written : (Timestamp.ofFloat 0.0).toOption = some epoch := by decide +kernel
  cases shown : Timestamp.ofFloat 0.0 with
  | error f =>
    rw [shown] at written
    cases written
  | ok t =>
    rw [shown] at written
    rw [Option.some.inj written]

theorem exported_listingRequests :
    (∀ req ∈ listingRequests (.bytes [255]), req.IsNamed) ∧
      (after (listingRequests (.bytes [255]))).DatedBy (fun _ => 0.0) (fun _ => epoch) ∧
      Timestamp.ofFloat 0.0 = .ok epoch ∧
      (∃ v, (after (listingRequests (.bytes [255]))).exported (fun _ => 0.0) 0.0 = .ok v ∧
        ¬v.IsJsonReady fun _ => True) ∧
      ∃ v, (after (listingRequests (.text "B"))).exported (fun _ => 0.0) 0.0 = .ok v ∧
        v.IsJsonReady fun _ => True := by
  have named (listed : Value) : ∀ req ∈ listingRequests listed, req.IsNamed := by
    intro req mem
    cases List.mem_singleton.mp mem
    exact Or.inl rfl
  have dated (c : Catalog) : c.DatedBy (fun _ => 0.0) (fun _ => epoch) := fun _ _ => ofFloat_zero
  refine ⟨named _, dated _, ofFloat_zero, ?_, ?_⟩
  · obtain ⟨v, exports, ready, _⟩ :=
      after_exported (fun _ => True) (listingRequests (.bytes [255])) (named _) (dated _)
        ofFloat_zero
    refine ⟨v, exports, fun isReady => ?_⟩
    have listed : (after (listingRequests (.bytes [255]))).records.map (·.labels.composition) =
        [some [.bytes [255]]] := rfl
    obtain ⟨r, hr, lists⟩ := List.mem_map.mp (listed ▸ List.mem_singleton_self _)
    have bytes := (ready.mp isReady r hr).composition (.bytes [255])
    rw [lists] at bytes
    exact Value.not_isJsonReady_bytes _ (bytes (List.mem_singleton_self _))
  · obtain ⟨v, exports, _, _, ready⟩ :=
      after_exported (fun _ => True) (listingRequests (.text "B")) (named _) (dated _) ofFloat_zero
    refine ⟨v, exports, (ready ?_).2 fun _ => trivial⟩
    intro req mem
    cases List.mem_singleton.mp mem
    intro names listed
    have known : names = [.text "B"] := (Option.some.inj listed).symm
    rw [known]
    intro v hv
    rw [List.mem_singleton.mp hv]
    rfl

end Catalog

/-! ### Sessions -/

/-- The fields but for one. -/
def Fields.without (name : Text) (fs : Fields) : Fields := fs.filter fun f => f.1 ≠ name

theorem CatalogRecord.dated_without_time (r : CatalogRecord) (time : Text) :
    (r.dated time).without "registered_at" = r.report := by
  obtain ⟨serial, name, target, labels⟩ := r
  obtain ⟨description, category, tags, inputType, outputType, none | names⟩ := labels
  · rfl
  · rfl

/-- The snapshot that a session takes of a catalog is what is exported, without the times. -/
theorem Session.run_snapshot {s : Session} {number : Nat} {c : Catalog} {clock : Nat → Float}
    {times : Nat → Text} (found : s.catalogAt? number = some c) (dated : c.DatedBy clock times) :
    ∃ morphs, c.reports clock = .ok morphs ∧
      (snapshot number).run s =
        (.ok [("version", .text "1.0"),
          ("keys", .list [.text "exported_at", .text "morphs", .text "version"]),
          ("morphs", .list (morphs.map fun e =>
            .list [e.1, .record (e.2.without "registered_at")]))], s) := by
  refine ⟨_, Catalog.reports_eq dated, ?_⟩
  have here : (catalogAt number).run s = (.ok c, s) := by
    have looked : (catalogAt number).run s = (.ok ((s.catalogAt? number).getD .empty), s) := rfl
    rw [looked, found]
    rfl
  rw [snapshot, run_bind, here]
  simp only [List.map_map, Function.comp_def, CatalogRecord.dated_without_time]
  rfl

end MorphEngine
