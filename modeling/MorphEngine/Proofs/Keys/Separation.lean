import MorphEngine.Proofs.Engine
import MorphEngine.Proofs.Fingerprint.Layers
import MorphEngine.Proofs.Keys.Gathering

/-!
# Keys by the named parts of a context

A projection that lists names looks at nothing else of a context, so contexts that hold the same under
these names have the same key, and fail to have one alike. What is found and what is missing are kept
apart: two contexts whose keys are the same hold structurally equal values under the same names and
lack the same names, unless different byte strings have the same hash.
-/

namespace MorphEngine

open Fingerprint

/-! ### Names as they are hashed -/

namespace Value

/-- A name as a text or a member; a text scalar is hashed as the text that it holds. -/
def spelled : Value → Value
  | .scalar s => (Value.scalar s).text?.elim (.scalar s) .text
  | n => n

@[simp] theorem text?_spelled (n : Value) : n.spelled.text? = n.text? := by
  cases n with
  | scalar s =>
    cases reads : (Value.scalar s).text? with
    | none => rw [spelled, reads, Option.elim_none, reads]
    | some t =>
      rw [spelled, reads, Option.elim_some]
      rfl
  | _ => rfl

/-- A spelled name is hashed as an atom. -/
theorem node?_spelled {n : Value} {t : Text} (reads : n.text? = some t) :
    node? n.spelled = some (.atom (.text t)) ∨
      ∃ m, n = .member m ∧ node? n.spelled =
        some (.atom (.member (m.owner.dotted ++ "." ++ m.name))) := by
  rcases text_cases reads with rfl | ⟨m, rfl⟩ | ⟨s, rfl, _⟩
  · exact Or.inl rfl
  · exact Or.inr ⟨m, rfl, rfl⟩
  · refine Or.inl ?_
    rw [spelled, reads]
    rfl

theorem isStructured_spelled {n : Value} (isText : n.isText = true) (k : Nat) :
    isStructured (k + 1) n.spelled = true := by
  obtain ⟨t, reads⟩ := Option.isSome_iff_exists.mp isText
  rcases node?_spelled reads with atom | ⟨m, -, atom⟩ <;>
  · rw [isStructured, atom]
    rfl

/-- A name that is spelled as a text can always be encoded. -/
theorem isNamed_spelled {n : Value} (isText : n.isText = true) (encodable : isNamed 1 n = true)
    (k : Nat) : isNamed (k + 1) n.spelled = true := by
  obtain ⟨t, reads⟩ := Option.isSome_iff_exists.mp isText
  rcases node?_spelled reads with atom | ⟨m, rfl, atom⟩
  · rw [isNamed_succ atom]
    rfl
  · rw [isNamed_succ atom]
    exact encodable

end Value

namespace ContextProjection

/-- The parts with their names spelled. -/
def Parts.spelled (p : Parts) : Parts :=
  ⟨p.found.map fun e => (e.1.spelled, e.2), p.missing.map Value.spelled⟩

theorem insert_spelled {n v : Value} {es : List (Value × Value)} (isText : n.isText = true)
    (texts : ∀ e ∈ es, e.1.isText = true) :
    Value.insert n.spelled v (es.map fun e => (e.1.spelled, e.2)) =
      (Value.insert n v es).map fun e => (e.1.spelled, e.2) := by
  induction es with
  | nil => rfl
  | cons e es ih =>
    rw [List.forall_mem_cons] at texts
    obtain ⟨s, hs⟩ := Option.isSome_iff_exists.mp texts.1
    obtain ⟨t, ht⟩ := Option.isSome_iff_exists.mp isText
    have same : e.1.spelled.same n.spelled = e.1.same n := by
      rw [Value.same_of_texts hs ht]
      exact Value.same_of_texts (by rw [Value.text?_spelled, hs]) (by rw [Value.text?_spelled, ht])
    rw [List.map_cons, Value.insert, Value.insert, same]
    split
    · rfl
    · rw [ih texts.2, List.map_cons]

/-- Spelling names does not change what is found. -/
theorem gather_spelled {c : Value} {names : List Value} {p : Parts}
    (texts : ∀ n ∈ names, n.isText = true) (keys : ∀ e ∈ p.found, e.1.isText = true) :
    gather c p.spelled (names.map Value.spelled) = Parts.spelled <$> gather c p names := by
  induction names generalizing p with
  | nil => rfl
  | cons n ns ih =>
    rw [List.forall_mem_cons] at texts
    obtain ⟨t, reads⟩ := Option.isSome_iff_exists.mp texts.1
    have part : c.part? n.spelled = c.part? n :=
      Value.part?_of_text_eq ((Value.text?_spelled n).trans reads) reads c
    cases held : c.part? n with
    | error f =>
      rw [List.map_cons, gather, gather, part, held]
      rfl
    | ok found =>
      cases found with
      | none =>
        rw [List.map_cons, gather_of_missing held, gather_of_missing (part.trans held),
          ← ih (p := { p with missing := p.missing ++ [n] }) texts.2 keys]
        simp only [Parts.spelled, List.map_append, List.map_cons, List.map_nil]
      | some v =>
        have keys' : ∀ e ∈ Value.insert n v p.found, e.1.isText = true := by
          intro e he
          rcases mem_insert he with old | ⟨-, same | ⟨-, u, old⟩⟩
          · exact keys e old
          · rw [same]
            exact texts.1
          · exact keys (e.1, u) old
        rw [List.map_cons, gather_of_found held, gather_of_found (part.trans held),
          ← ih (p := { p with found := Value.insert n v p.found }) texts.2 keys']
        simp only [Parts.spelled, insert_spelled texts.1 keys]

variable {cells : Cells}

/-- A name is hashed as it is spelled. -/
theorem digest_spelled {n : Value} (isText : n.isText = true) (k : Nat) :
    digest cells (k + 2) n.spelled = digest cells (k + 2) n := by
  obtain ⟨t, reads⟩ := Option.isSome_iff_exists.mp isText
  rcases Value.text_cases reads with rfl | ⟨m, rfl⟩ | ⟨⟨type, bs⟩, rfl, size, little, kind⟩
  · rfl
  · rfl
  · cases kind
    rw [Value.spelled, reads, Option.elim_some]
    cases reads
    have top : layer cells (.scalar ⟨.text size little, bs⟩) =
      .through (.text (Scalar.toText bs)) := rfl
    have atom : layer cells (.text (Scalar.toText bs)) =
      .whole (closed "str" (Scalar.toText bs).bytes) := rfl
    rw [digest_succ, digest_succ, top, atom, Layer.walk, Layer.walk, digest_succ, atom, Layer.walk]

/-- Values that go on to parts with the same digests have the same digest. -/
theorem digest_congr {v w : Value} {xs ys : List Value} {message : Message} {k : Nat}
    (hv : layer cells v = .parts xs message) (hw : layer cells w = .parts ys message)
    (noCell : ∀ i owner, v ≠ .cell i owner) (noCell' : ∀ i owner, w ≠ .cell i owner)
    (same : xs.map (digest cells k) = ys.map (digest cells k)) :
    digest cells (k + 1) v = digest cells (k + 1) w := by
  have walks : xs.mapM (digest cells k) = ys.mapM (digest cells k) := by
    have all (zs : List Value) :
        zs.mapM (digest cells k) = (zs.map (digest cells k)).mapM id := by
      rw [List.mapM_map]
      rfl
    rw [all xs, all ys, same]
  rw [digest_succ, digest_succ, hv, hw, Layer.walk, Layer.walk, inside_of_ne_cell noCell,
    inside_of_ne_cell noCell', assembled, assembled, walks]

theorem digest_toValue_congr {p q : Parts} {k : Nat}
    (found : (p.found.flatMap fun e => [e.1, e.2]).map (digest cells k) =
      (q.found.flatMap fun e => [e.1, e.2]).map (digest cells k))
    (missing : p.missing.map (digest cells k) = q.missing.map (digest cells k)) :
    digest cells (k + 2) p.toValue = digest cells (k + 2) q.toValue := by
  have tables : digest cells (k + 1) (.table p.found) = digest cells (k + 1) (.table q.found) :=
    digest_congr rfl rfl (by nofun) (by nofun) found
  have tuples : digest cells (k + 1) (.tuple p.missing) = digest cells (k + 1) (.tuple q.missing) :=
    digest_congr rfl rfl (by nofun) (by nofun) missing
  refine digest_congr rfl rfl (by nofun) (by nofun) ?_
  rw [List.map_cons, List.map_cons, List.map_cons, List.map_cons, tables, tuples]

theorem digest_toValue_spelled {p : Parts} (keys : ∀ e ∈ p.found, e.1.isText = true)
    (texts : ∀ m ∈ p.missing, m.isText = true) (k : Nat) :
    digest cells (k + 4) p.spelled.toValue = digest cells (k + 4) p.toValue := by
  refine digest_toValue_congr ?_ ?_
  · simp only [Parts.spelled, List.flatMap_map, List.map_flatMap, List.map_cons, List.map_nil]
    exact List.flatMap_congr fun e he => by rw [digest_spelled (keys e he)]
  · rw [Parts.spelled, List.map_map]
    exact List.map_congr_left fun m hm => digest_spelled (texts m hm) k

/-! ### Keys -/

/-- A projection that lists names lists texts. -/
theorem only_eq_ok {names : List Value} {r : ContextProjection} (made : only names = .ok r) :
    r.kind = .keys ∧ r.names = .tuple names ∧ ∀ n ∈ names, n.isText = true := by
  have listed : ofParts.areNames (.tuple names) =
      .ok (!names.isEmpty && names.all Value.isText) := by
    cases names <;> rfl
  rw [only, ofParts, if_pos rfl, listed] at made
  cases texts : (!names.isEmpty && names.all Value.isText) with
  | false =>
    rw [texts] at made
    cases made
  | true =>
    rw [texts] at made
    cases made
    rw [Bool.and_eq_true, List.all_eq_true] at texts
    exact ⟨rfl, rfl, texts.2⟩

/-- Under each name the context lacks a part, or holds a value of structure that has a fingerprint
where it stands in what is hashed: it can be walked, and all names in it can be encoded. -/
def Shows (names : List Value) (c : Value) : Prop :=
  ∀ n ∈ names, c.part? n = .ok none ∨
    ∃ v, c.part? n = .ok (some v) ∧ isStructured (depthLimit - 2) v = true ∧
      isNamed (depthLimit - 2) v = true

section Shown

variable {c d : Value} {names : List Value}

theorem Shows.gather_eq_ok (shows : Shows names c) (p : Parts) :
    ∃ q, gather c p names = .ok q := by
  induction names generalizing p with
  | nil => exact ⟨p, rfl⟩
  | cons n ns ih =>
    have later : Shows ns c := fun m hm => shows m (List.mem_cons_of_mem _ hm)
    rcases shows n List.mem_cons_self with lacking | ⟨v, held, -, -⟩
    · rw [gather_of_missing lacking]
      exact ih later _
    · rw [gather_of_found held]
      exact ih later _

theorem Shows.spelled (shows : Shows names c) (texts : ∀ n ∈ names, n.isText = true) :
    Shows (names.map Value.spelled) c := by
  intro n hn
  obtain ⟨m, hm, rfl⟩ := List.mem_map.mp hn
  obtain ⟨t, reads⟩ := Option.isSome_iff_exists.mp (texts m hm)
  rw [Value.part?_of_text_eq ((Value.text?_spelled m).trans reads) reads]
  exact shows m hm

theorem isText_of_mem_map_spelled (texts : ∀ n ∈ names, n.isText = true) :
    ∀ n ∈ names.map Value.spelled, n.isText = true := by
  intro n hn
  obtain ⟨m, hm, rfl⟩ := List.mem_map.mp hn
  rw [Value.isText, Value.text?_spelled]
  exact texts m hm

theorem record_nil (c : Value) : Parts.Record c [] ⟨[], []⟩ :=
  ⟨by nofun, by nofun, by nofun, by nofun⟩

/-- What goes by levels and holds of names and values two levels below holds of the gathered parts. -/
theorem holds_toValue {P : Nat → Value → Bool} {p : Parts} {k : Nat}
    (tuple : ∀ n xs, P (n + 1) (.tuple xs) = xs.all (P n))
    (table : ∀ n es, P (n + 1) (.table es) = es.all fun e => P n e.1 && P n e.2)
    (record : p.Record c names) (each : ∀ n ∈ names, P k n = true)
    (values : ∀ n ∈ names, ∀ v, c.part? n = .ok (some v) → P k v = true) :
    P (k + 2) p.toValue = true := by
  have found : P (k + 1) (.table p.found) = true := by
    rw [table, List.all_eq_true]
    intro e he
    obtain ⟨key, held⟩ := record.found e he
    rw [each _ key, values _ key _ held]
    rfl
  have missing : P (k + 1) (.tuple p.missing) = true := by
    rw [tuple, List.all_eq_true]
    exact fun m hm => each m (record.missing m hm).1
  rw [Parts.toValue, tuple, List.all_cons, List.all_cons, found, missing]
  rfl

/-- The gathered parts under spelled names are structured, and all names in them can be encoded. -/
theorem isStructured_toValue {p : Parts} (shows : Shows names c)
    (texts : ∀ n ∈ names, n.isText = true) (encodable : ∀ n ∈ names, isNamed 1 n = true)
    (record : p.Record c (names.map Value.spelled)) :
    isStructured depthLimit p.toValue = true ∧ isNamed depthLimit p.toValue = true := by
  have spelled (P : Value → Prop) (each : ∀ n ∈ names, P n.spelled) :
      ∀ n ∈ names.map Value.spelled, P n := List.forall_mem_map.mpr each
  have held {n v : Value} (hn : n ∈ names.map Value.spelled) (part : c.part? n = .ok (some v)) :
      isStructured (depthLimit - 2) v = true ∧ isNamed (depthLimit - 2) v = true := by
    rcases shows.spelled texts n hn with lacking | ⟨u, part', shown⟩
    · cases lacking.symm.trans part
    · cases part'.symm.trans part
      exact shown
  constructor
  · refine holds_toValue (fun n xs => rfl) (fun n es => ?_) record ?_ fun n hn v part =>
      (held hn part).1
    · exact show (Node.table .dict es).children.all _ = _ from all_table
    · exact spelled _ fun n hn => Value.isStructured_spelled (texts n hn) _
  · refine holds_toValue (fun n xs => rfl) (fun n es => ?_) record ?_ fun n hn v part =>
      (held hn part).2
    · exact show (Node.table .dict es).children.all _ = _ from all_table
    · exact spelled _ fun n hn => Value.isNamed_spelled (texts n hn) (encodable n hn) _

/-- The projection of a context that shows its parts has the fingerprint of the projection under
spelled names. -/
theorem Shows.fingerprint_keyed (shows : Shows names c) (texts : ∀ n ∈ names, n.isText = true)
    (encodable : ∀ n ∈ names, isNamed 1 n = true) (cells : Cells) :
    ∃ (u : Value) (p : Parts), keyed names c = .ok u ∧
      gather c ⟨[], []⟩ (names.map Value.spelled) = .ok p ∧
      p.Record c (names.map Value.spelled) ∧ isStructured depthLimit p.toValue = true ∧
      fingerprint cells u = .ok (summary depthLimit p.toValue) := by
  obtain ⟨q, gathered⟩ := shows.gather_eq_ok ⟨[], []⟩
  have spelled : gather c ⟨[], []⟩ (names.map Value.spelled) = .ok q.spelled := by
    have same := gather_spelled (c := c) (p := ⟨[], []⟩) texts (by nofun)
    rw [gathered] at same
    exact same
  have record := record_of_gather gathered (record_nil c) texts
  have record' := record_of_gather spelled (record_nil c) (isText_of_mem_map_spelled texts)
  obtain ⟨structured, named⟩ := isStructured_toValue shows texts encodable record'
  refine ⟨q.toValue, q.spelled, by rw [keyed_eq, gathered]; rfl, spelled, record', structured, ?_⟩
  have same : digest cells depthLimit q.spelled.toValue = digest cells depthLimit q.toValue :=
    digest_toValue_spelled (fun e he => texts _ (record.found e he).1)
      (fun m hm => texts m (record.missing m hm).1) (depthLimit - 4)
  rw [← fingerprint_of_isNamed cells structured named, fingerprint, fingerprintWithin,
    fingerprintWithin, same]
  rfl

theorem Shows.exists_part (shows : Shows names c) : ∀ n ∈ names, ∃ part, c.part? n = .ok part := by
  intro n hn
  rcases shows n hn with lacking | ⟨v, held, -, -⟩
  · exact ⟨none, lacking⟩
  · exact ⟨some v, held⟩

theorem agreeOn_spelled {n : Value} (isText : n.isText = true) :
    AgreeOn c d n.spelled ↔ AgreeOn c d n := by
  obtain ⟨t, reads⟩ := Option.isSome_iff_exists.mp isText
  have part := Value.part?_of_text_eq ((Value.text?_spelled n).trans reads) reads
  rw [AgreeOn, AgreeOn, part c, part d]

theorem ReadApart.spelled (apart : ReadApart names) (texts : ∀ n ∈ names, n.isText = true) :
    ReadApart (names.map Value.spelled) := by
  intro _ first _ second equal
  obtain ⟨m, hm, rfl⟩ := List.mem_map.mp first
  obtain ⟨n, hn, rfl⟩ := List.mem_map.mp second
  rw [Value.text?_spelled, Value.text?_spelled]
  obtain ⟨s, hs⟩ := Option.isSome_iff_exists.mp (texts m hm)
  obtain ⟨t, ht⟩ := Option.isSome_iff_exists.mp (texts n hn)
  have atoms {a b : Atom} (hv : node? m.spelled = some (.atom a))
      (hw : node? n.spelled = some (.atom b)) : a = b := by
    cases equal with
    | atom hv' hw' =>
      cases hv.symm.trans hv'
      cases hw.symm.trans hw'
      rfl
    | _ hv' => cases hv.symm.trans hv'
  rcases Value.node?_spelled hs with hv | ⟨k, rfl, hv⟩ <;>
    rcases Value.node?_spelled ht with hw | ⟨l, rfl, hw⟩
  · cases atoms hv hw
    rw [hs, ht]
  · cases atoms hv hw
  · cases atoms hv hw
  · exact apart _ hm _ hn equal

/-- Contexts that agree on all names have structurally equal projections. -/
theorem structurallyEqual_of_gather {p q : Parts} (texts : ∀ n ∈ names, n.isText = true)
    (agree : ∀ n ∈ names, AgreeOn c d n)
    (hp : gather c ⟨[], []⟩ (names.map Value.spelled) = .ok p)
    (hq : gather d ⟨[], []⟩ (names.map Value.spelled) = .ok q)
    (record : p.Record c (names.map Value.spelled)) :
    StructurallyEqual p.toValue q.toValue := by
  have alike : p.Alike q := by
    refine alike_of_gather (fun n hn => ?_) ⟨.nil, rfl⟩ hp hq
    obtain ⟨m, hm, rfl⟩ := List.mem_map.mp hn
    exact (agreeOn_spelled (texts m hm)).mpr (agree m hm)
  have itself {n : Value} (hn : n ∈ names.map Value.spelled) : StructurallyEqual n n := by
    obtain ⟨m, hm, rfl⟩ := List.mem_map.mp hn
    exact .refl (Value.isStructured_spelled (texts m hm) 0)
  exact structurallyEqual_of_alike alike (fun e he => itself (record.found e he).1)
    fun m hm => itself (record.missing m hm).1

end Shown

end ContextProjection

namespace Morph

open ContextProjection

variable {U : Type} (h : Host U) {head : Header} {slot : CacheSlot} {names : List Value}

/-- What building a key comes to when the projection lists names. -/
theorem project_of_only (made : ContextProjection.only names = .ok slot.rule.projection)
    (c : Value) :
    Engine.project h slot.rule.projection c =
      Engine.ofExcept (keyed names (c.resolve h.cells)) := by
  obtain ⟨kind, listed, -⟩ := only_eq_ok made
  rw [Engine.project, kind, listed]
  rfl

theorem cacheKey_of_fingerprints (has : head.cache = some slot)
    (made : ContextProjection.only names = .ok slot.rule.projection) {x c u : Value} {a b : Digest}
    (input : fingerprint h.cells x = .ok a) (keyed : keyed names (c.resolve h.cells) = .ok u)
    (part : fingerprint h.cells u = .ok b) (w : World U) :
    (cacheKey h head x c).runFrom w = (.ok (some ⟨head.name.text, a, b⟩), w) := by
  have found : (Engine.fingerprints h x (Engine.project h slot.rule.projection c)).runFrom w =
      (.ok (some (a, b)), w) := by
    rw [project_of_only h made, keyed, Engine.fingerprints, Engine.runFrom_orElse, input,
      Engine.runFrom_bind_ok (Engine.runFrom_ofExcept _ w),
      Engine.runFrom_bind_ok (Engine.runFrom_ofExcept _ w), part,
      Engine.runFrom_bind_ok (Engine.runFrom_ofExcept _ w)]
    rfl
  simp only [cacheKey, has]
  rw [Engine.runFrom_bind_ok found]
  rfl

/-- A projection that lists names looks at nothing else of a context: contexts that hold the same
under them have the same key, or fail to have one alike. Where names that are hashed alike read alike
and can be encoded, for an input with a fingerprint and contexts that show structured values, there are
keys, and these are the same just when the contexts agree on every name, unless different byte strings
have the same hash. -/
theorem cacheKey_separates (has : head.cache = some slot)
    (made : ContextProjection.only names = .ok slot.rule.projection) :
    (∀ x c d, (∀ n ∈ names, (c.resolve h.cells).part? n = (d.resolve h.cells).part? n) →
      cacheKey h head x c = cacheKey h head x d) ∧
    (ReadApart names → (∀ n ∈ names, isNamed 1 n = true) →
      ∀ x a c d, fingerprint h.cells x = .ok a →
      Shows names (c.resolve h.cells) → Shows names (d.resolve h.cells) →
      ∃ k l u v,
        (∀ w, (cacheKey h head x c).runFrom w = (.ok (some k), w)) ∧
        (∀ w, (cacheKey h head x d).runFrom w = (.ok (some l), w)) ∧
        keyed (names.map Value.spelled) (c.resolve h.cells) = .ok u ∧
        keyed (names.map Value.spelled) (d.resolve h.cells) = .ok v ∧
        ((∀ n ∈ names, AgreeOn (c.resolve h.cells) (d.resolve h.cells) n) → k = l) ∧
        (k = l → (∀ n ∈ names, AgreeOn (c.resolve h.cells) (d.resolve h.cells) n) ∨
          Collide depthLimit u v)) := by
  obtain ⟨-, -, texts⟩ := only_eq_ok made
  refine ⟨fun x c d same => ?_, fun apart encodable x a c d input hc hd => ?_⟩
  · have projections : Engine.project h slot.rule.projection c =
        Engine.project h slot.rule.projection d := by
      rw [project_of_only h made, project_of_only h made, keyed_eq, keyed_eq, gather_congr same]
    simp only [cacheKey, has, projections]
  · obtain ⟨u, p, keyedC, gatheredC, recordC, structuredC, printC⟩ :=
      hc.fingerprint_keyed texts encodable h.cells
    obtain ⟨v, q, keyedD, gatheredD, recordD, structuredD, printD⟩ :=
      hd.fingerprint_keyed texts encodable h.cells
    refine ⟨_, _, p.toValue, q.toValue, cacheKey_of_fingerprints h has made input keyedC printC,
      cacheKey_of_fingerprints h has made input keyedD printD, by rw [keyed_eq, gatheredC]; rfl,
      by rw [keyed_eq, gatheredD]; rfl, fun agree => ?_, fun same => ?_⟩
    · have equal := structurallyEqual_of_gather texts agree gatheredC gatheredD recordC
      rw [summary, summary, message_eq_of_structurallyEqual equal]
    · have digests : summary depthLimit p.toValue = summary depthLimit q.toValue :=
        congrArg CacheKey.context same
      refine (structurallyEqual_or_collide structuredC structuredD digests).imp_left fun equal => ?_
      have agreed := agreeOn_of_structurallyEqual (apart.spelled texts)
        (isText_of_mem_map_spelled texts) recordC recordD
        (fun n hn => (hc.spelled texts).exists_part n hn) equal
      intro n hn
      exact (agreeOn_spelled (texts n hn)).mp (agreed _ (List.mem_map_of_mem hn))

/-- A header with a cache that goes by the given names alone. -/
def headerOf (names : List Value) : Header :=
  ⟨0, ("greet" : Text), { MorphMetadata.default with memoizable := true },
    some ⟨⟨.text "greet", .none, 2, ⟨.keys, .tuple names, .none⟩⟩, .int 2, .moving⟩, fun _ => rfl⟩

/-- A header with a cache that goes by the user alone. -/
def userHeader : Header := headerOf [.text "user"]

/-- A function under another name does no harm to a key, and a user who is present as nothing is told
from one who is missing. -/
theorem cacheKey_userHeader :
    let context (es : List (Text × Value)) : Value := .record es
    let key (c : Value) := cacheKey Request.countingHost userHeader (.int 1) c
    key (context [("user", .text "ada"), ("trace", .function 1 false)]) =
        key (context [("user", .text "ada")]) ∧
      ∃ k l u v,
        (∀ w, (key (context [("user", .none)])).runFrom w = (.ok (some k), w)) ∧
        (∀ w, (key (context [])).runFrom w = (.ok (some l), w)) ∧
        (k = l → Collide depthLimit u v) := by
  intro context key
  have made : ContextProjection.only [.text "user"] =
      .ok ⟨.keys, .tuple [.text "user"], .none⟩ := rfl
  have has : userHeader.cache = some ⟨⟨.text "greet", .none, 2, ⟨.keys, .tuple [.text "user"], .none⟩⟩,
      .int 2, .moving⟩ := rfl
  obtain ⟨sameParts, separates⟩ := cacheKey_separates Request.countingHost has made
  have apart : ReadApart [.text "user"] :=
    readApart_of_plain fun n hn => ⟨"user", List.mem_singleton.mp hn⟩
  have encodable : ∀ n ∈ [Value.text "user"], isNamed 1 n = true := fun n hn => by
    rw [List.mem_singleton.mp hn]
    rfl
  have user (v : Value) (rest : List (Text × Value)) :
      ((context (("user", v) :: rest)).resolve []).part? (.text "user") = .ok (some v) := by
    have same : (Value.text "user").same (.text "user") = true := by
      rw [Value.same_of_texts rfl rfl]
      decide
    simp [context, Value.record, Value.resolve, Value.part?, Value.entries?, Value.find?, same]
  refine ⟨sameParts _ _ _ ?_, ?_⟩
  · intro n hn
    rw [List.mem_singleton.mp hn]
    exact (user _ _).trans (user _ _).symm
  · obtain ⟨k, l, u, v, first, second, -, -, -, differ⟩ :=
      separates apart encodable (.int 1) _ (context [("user", .none)]) (context [])
        (fingerprint_of_isNamed _ (by decide +kernel) (by decide +kernel))
        (fun n hn => by rw [List.mem_singleton.mp hn]; exact Or.inr ⟨.none, user _ _, rfl, rfl⟩)
        (fun n hn => by rw [List.mem_singleton.mp hn]; exact Or.inl rfl)
    refine ⟨k, l, u, v, first, second, fun same => (differ same).resolve_left fun agree => ?_⟩
    rcases agree _ List.mem_cons_self with ⟨lacking, -⟩ | ⟨_, _, -, held, -⟩
    · cases lacking.symm.trans (user .none [])
    · cases held

/-! ### Names and values that cannot be told apart -/

/-- The value under a name in a context that holds nothing else. -/
theorem part?_record {n : Value} {s : Text} (reads : n.text? = some s) (t : Text) (v : Value) :
    (Value.record [(t, v)]).part? n = .ok (if t = s then some v else none) := by
  have same : (Value.text t).same n = decide (t = s) := Value.same_of_texts rfl reads
  have parts : (Value.record [(t, v)]).part? n =
      .ok (Value.find? [(Value.text t, v)] n) := rfl
  rw [parts, Value.find?, List.find?_cons, same]
  by_cases named : t = s
  · rw [if_pos named, decide_eq_true named]
    rfl
  · rw [if_neg named, decide_eq_false named]
    rfl

/-- Contexts whose projections are hashed alike have the same key. -/
theorem cacheKey_eq_of_digest_eq (has : head.cache = some slot)
    (made : ContextProjection.only names = .ok slot.rule.projection) {x c d u v : Value}
    {a b : Digest} (input : fingerprint h.cells x = .ok a)
    (first : keyed names (c.resolve h.cells) = .ok u)
    (second : keyed names (d.resolve h.cells) = .ok v) (found : fingerprint h.cells u = .ok b)
    (same : digest h.cells depthLimit u = digest h.cells depthLimit v) :
    ∃ k, (∀ w, (cacheKey h head x c).runFrom w = (.ok (some k), w)) ∧
      ∀ w, (cacheKey h head x d).runFrom w = (.ok (some k), w) := by
  have found' : fingerprint h.cells v = .ok b := by
    rw [fingerprint, fingerprintWithin_eq_ok_iff] at found ⊢
    rw [← same, found]
  exact ⟨_, cacheKey_of_fingerprints h has made input first found,
    cacheKey_of_fingerprints h has made input second found'⟩

/-- A member of a text enumeration that goes by the dotted name `shapes.Mode.ON`. -/
def modeMember (value : Text) : Value :=
  .member ⟨⟨⟨"shapes", "Mode"⟩, true, [("ON", .text value)]⟩, "ON", .text value⟩

/-- A member whose name is a surrogate. -/
def surrogateMember : Value :=
  let name : Text := ⟨[.ofNat 0xD800]⟩
  .member ⟨⟨⟨"shapes", "Mode"⟩, true, [(name, .text "on")]⟩, name, .text "on"⟩

/-- Five nanoseconds, as a point in time or a span. -/
def nanoseconds (type : Text → Bool → ElementType) : Value :=
  .scalar ⟨type "[ns]" false, [5, 0, 0, 0, 0, 0, 0, 0]⟩

/-- A point in time and a span are taken for each other, and so are two members that go by one dotted
name. A name that cannot be encoded leaves a call without a key. -/
theorem cacheKey_confuses :
    let key (names : List Value) (context : List (Text × Value)) :=
      cacheKey Request.countingHost (headerOf names) (.int 1) (.record context)
    let modes := [modeMember "on", modeMember "yes"]
    (∃ k, (∀ w, (key [.text "user"] [("user", nanoseconds .instant)]).runFrom w = (.ok (some k), w)) ∧
        ∀ w, (key [.text "user"] [("user", nanoseconds .duration)]).runFrom w = (.ok (some k), w)) ∧
      (nanoseconds .instant).typeName ≠ (nanoseconds .duration).typeName ∧
      (∃ k, (∀ w, (key modes [("on", .int 1)]).runFrom w = (.ok (some k), w)) ∧
        ∀ w, (key modes [("yes", .int 1)]).runFrom w = (.ok (some k), w)) ∧
      (Value.record [("on", .int 1)]).part? (modeMember "on") = .ok (some (.int 1)) ∧
      (Value.record [("yes", .int 1)]).part? (modeMember "on") = .ok none ∧
      ((key [surrogateMember] []).runFrom ⟨fun _ => .empty, 0⟩).1.isOk = false := by
  intro key modes
  have input : fingerprint [] (.int 1) = .ok (summary depthLimit (.int 1)) :=
    fingerprint_of_isNamed _ (by decide +kernel) (by decide +kernel)
  have held {n : Value} {t : Text} (reads : n.text? = some t) (v : Value) :
      (Value.record [(t, v)]).part? n = .ok (some v) := by
    rw [part?_record reads, if_pos rfl]
  have lacking {n : Value} {s t : Text} (reads : n.text? = some s) (other : t ≠ s) (v : Value) :
      (Value.record [(t, v)]).part? n = .ok none := by
    rw [part?_record reads, if_neg other]
  have user (v : Value) : keyed [.text "user"] (.record [("user", v)]) =
      .ok (Parts.toValue ⟨[(.text "user", v)], []⟩) := by
    rw [keyed_eq, gather_of_found (held rfl v)]
    rfl
  have on : keyed modes (.record [("on", .int 1)]) =
      .ok (Parts.toValue ⟨[(modeMember "on", .int 1)], [modeMember "yes"]⟩) := by
    rw [keyed_eq, gather_of_found (held rfl _), gather_of_missing (lacking rfl (by decide) _)]
    rfl
  have yes : keyed modes (.record [("yes", .int 1)]) =
      .ok (Parts.toValue ⟨[(modeMember "yes", .int 1)], [modeMember "on"]⟩) := by
    rw [keyed_eq, gather_of_missing (lacking rfl (by decide) _), gather_of_found (held rfl _)]
    rfl
  have five (type : Text → Bool → ElementType) (counts : digest [] (depthLimit - 2) (.int 5) =
      digest [] (depthLimit - 2) (nanoseconds type)) :
      digest [] depthLimit (Parts.toValue ⟨[(.text "user", .int 5)], []⟩) =
        digest [] depthLimit (Parts.toValue ⟨[(.text "user", nanoseconds type)], []⟩) :=
    digest_toValue_congr (k := depthLimit - 2) (congrArg (fun d => [_, d]) counts) rfl
  refine ⟨?_, by decide, ?_, held rfl _, lacking rfl (by decide) _, by decide +kernel⟩
  · have found : fingerprint [] (Parts.toValue ⟨[(.text "user", nanoseconds .instant)], []⟩) =
        .ok (summary depthLimit (Parts.toValue ⟨[(.text "user", .int 5)], []⟩)) := by
      rw [fingerprint, fingerprintWithin_eq_ok_iff, ← five .instant rfl,
        ← fingerprintWithin_eq_ok_iff]
      exact fingerprint_of_isNamed _ (by decide +kernel) (by decide +kernel)
    exact cacheKey_eq_of_digest_eq _ rfl rfl input (user _) (user _) found
      ((five .instant rfl).symm.trans (five .duration rfl))
  · refine cacheKey_eq_of_digest_eq _ rfl rfl input on yes
      (fingerprint_of_isNamed _ (by decide +kernel) (by decide +kernel)) ?_
    exact digest_toValue_congr (k := depthLimit - 2) rfl rfl

end Morph

end MorphEngine
