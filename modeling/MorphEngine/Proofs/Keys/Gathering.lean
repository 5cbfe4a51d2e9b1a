import MorphEngine.Morph.Run
import MorphEngine.Proofs.Fingerprint.Decision
import MorphEngine.Proofs.Memo.Transparency
import MorphEngine.Proofs.Names

/-!
# What is gathered from a context

A projection that lists names goes through them once: what the context holds under a name is found,
any other name is missing. In the end each name is on one of the two sides, under its text. Contexts
that agree on all names have parts that are structurally equal, and contexts whose parts are
structurally equal agree on all names, as long as names that are hashed alike read alike.
-/

namespace MorphEngine

open Fingerprint

namespace Value

/-- Keys are the same as names that read the same, or are not. -/
theorem same_of_text_eq {k m n : Value} {t : Text} (hm : m.text? = some t)
    (hn : n.text? = some t) : k.same m = k.same n := by
  cases hk : k.text? with
  | none => rw [same_eq_false_of_text hk hm, same_eq_false_of_text hk hn]
  | some s => rw [same_of_texts hk hm, same_of_texts hk hn]

/-- What a context holds under a name depends on the text of the name. -/
theorem part?_of_text_eq {m n : Value} {t : Text} (hm : m.text? = some t) (hn : n.text? = some t)
    (context : Value) : context.part? m = context.part? n := by
  unfold part?
  cases context.entries? with
  | none => rw [hm, hn]
  | some es =>
    have predicates : (fun e : Value × Value => e.1.same m) = fun e => e.1.same n :=
      funext fun e => same_of_text_eq hm hn
    simp only [find?, predicates]

end Value

namespace ContextProjection

/-! ### What is gathered -/

theorem gather_of_found {c n v : Value} (held : c.part? n = .ok (some v)) (p : Parts)
    (ns : List Value) :
    gather c p (n :: ns) = gather c { p with found := Value.insert n v p.found } ns := by
  rw [gather, held]
  rfl

theorem gather_of_missing {c n : Value} (held : c.part? n = .ok none) (p : Parts)
    (ns : List Value) :
    gather c p (n :: ns) = gather c { p with missing := p.missing ++ [n] } ns := by
  rw [gather, held]
  rfl

/-- Parts that are gathered depend only on what the context holds under the names. -/
theorem gather_congr {c d : Value} {names : List Value}
    (same : ∀ n ∈ names, c.part? n = d.part? n) (parts : Parts) :
    gather c parts names = gather d parts names := by
  induction names generalizing parts with
  | nil => rfl
  | cons n ns ih =>
    rw [List.forall_mem_cons] at same
    rw [gather, gather, same.1]
    cases d.part? n with
    | error f => rfl
    | ok found => cases found <;> exact ih same.2 _

/-- What the parts gathered from a context say about the names that they were gathered for. -/
structure Parts.Record (c : Value) (seen : List Value) (p : Parts) : Prop where
  found : ∀ e ∈ p.found, e.1 ∈ seen ∧ c.part? e.1 = .ok (some e.2)
  missing : ∀ m ∈ p.missing, m ∈ seen ∧ c.part? m = .ok none
  finds : ∀ n ∈ seen, ∀ v, c.part? n = .ok (some v) →
    ∃ e ∈ p.found, e.1.text? = n.text? ∧ e.2 = v
  lacks : ∀ n ∈ seen, c.part? n = .ok none → n ∈ p.missing

theorem mem_insert {n v : Value} {es : List (Value × Value)} {e : Value × Value}
    (he : e ∈ Value.insert n v es) :
    e ∈ es ∨ e.2 = v ∧ (e.1 = n ∨ e.1.same n = true ∧ ∃ u, (e.1, u) ∈ es) := by
  induction es with
  | nil =>
    cases List.mem_singleton.mp he
    exact Or.inr ⟨rfl, Or.inl rfl⟩
  | cons first es ih =>
    obtain ⟨k, u⟩ := first
    rw [Value.insert] at he
    split at he
    · next agrees =>
      rcases List.mem_cons.mp he with rfl | later
      · exact Or.inr ⟨rfl, Or.inr ⟨agrees, u, List.mem_cons_self⟩⟩
      · exact Or.inl (List.mem_cons_of_mem _ later)
    · rcases List.mem_cons.mp he with rfl | later
      · exact Or.inl List.mem_cons_self
      · refine (ih later).imp (List.mem_cons_of_mem _) fun ⟨value, key⟩ => ⟨value, ?_⟩
        exact key.imp_right fun ⟨agrees, u, hu⟩ => ⟨agrees, u, List.mem_cons_of_mem _ hu⟩

theorem exists_mem_insert (n v : Value) (es : List (Value × Value)) :
    ∃ k, (k, v) ∈ Value.insert n v es ∧ (k = n ∨ k.same n = true ∧ ∃ u, (k, u) ∈ es) := by
  induction es with
  | nil => exact ⟨n, List.mem_singleton_self _, Or.inl rfl⟩
  | cons first es ih =>
    obtain ⟨k, u⟩ := first
    rw [Value.insert]
    split
    · next agrees => exact ⟨k, List.mem_cons_self, Or.inr ⟨agrees, u, List.mem_cons_self⟩⟩
    · obtain ⟨k', among, key⟩ := ih
      refine ⟨k', List.mem_cons_of_mem _ among, ?_⟩
      exact key.imp_right fun ⟨agrees, u, hu⟩ => ⟨agrees, u, List.mem_cons_of_mem _ hu⟩

theorem mem_insert_of_mem {n v : Value} {es : List (Value × Value)} {e : Value × Value}
    (he : e ∈ es) :
    e ∈ Value.insert n v es ∨ e.1.same n = true ∧ (e.1, v) ∈ Value.insert n v es := by
  induction es with
  | nil => cases he
  | cons first es ih =>
    obtain ⟨k, u⟩ := first
    rw [Value.insert]
    split
    · next agrees =>
      rcases List.mem_cons.mp he with rfl | later
      · exact Or.inr ⟨agrees, List.mem_cons_self⟩
      · exact Or.inl (List.mem_cons_of_mem _ later)
    · rcases List.mem_cons.mp he with rfl | later
      · exact Or.inl List.mem_cons_self
      · exact (ih later).imp (List.mem_cons_of_mem _) fun ⟨agrees, among⟩ =>
          ⟨agrees, List.mem_cons_of_mem _ among⟩

section Gathering

variable {c : Value} {seen names : List Value} {p q : Parts} {n : Value}

/-- A found part joins the record; under a name that was seen already nothing changes. -/
theorem Parts.Record.insert (record : p.Record c seen) (texts : ∀ m ∈ seen, m.isText = true)
    (isText : n.isText = true) {v : Value} (held : c.part? n = .ok (some v)) :
    ({ p with found := Value.insert n v p.found } : Parts).Record c (seen ++ [n]) := by
  obtain ⟨t, reads⟩ := Option.isSome_iff_exists.mp isText
  have agreed {k : Value} (hk : k ∈ seen) (agrees : k.same n = true) : k.text? = some t := by
    obtain ⟨s, reads'⟩ := Option.isSome_iff_exists.mp (texts k hk)
    rw [Value.same_of_texts reads' reads, decide_eq_true_eq] at agrees
    rw [reads', agrees]
  refine ⟨fun e he => ?_, fun m hm => ?_, fun m hm u hu => ?_, fun m hm lacking => ?_⟩
  · rcases mem_insert he with old | ⟨value, key⟩
    · obtain ⟨among, part⟩ := record.found e old
      exact ⟨List.mem_append_left _ among, part⟩
    · rw [value]
      rcases key with key | ⟨agrees, u, old⟩
      · rw [key]
        exact ⟨List.mem_append_right _ (List.mem_singleton_self n), held⟩
      · have among := (record.found _ old).1
        refine ⟨List.mem_append_left _ among, ?_⟩
        rw [Value.part?_of_text_eq (agreed among agrees) reads, held]
  · obtain ⟨among, part⟩ := record.missing m hm
    exact ⟨List.mem_append_left _ among, part⟩
  · rcases List.mem_append.mp hm with old | new
    · obtain ⟨e, he, key, value⟩ := record.finds m old u hu
      rcases mem_insert_of_mem (n := n) (v := v) he with stays | ⟨agrees, changed⟩
      · exact ⟨e, stays, key, value⟩
      · refine ⟨_, changed, key, ?_⟩
        have same := (record.found e he).2
        rw [Value.part?_of_text_eq (agreed (record.found e he).1 agrees) reads, held] at same
        cases same
        exact value
    · cases List.mem_singleton.mp new
      cases held.symm.trans hu
      obtain ⟨k, among, key⟩ := exists_mem_insert n v p.found
      refine ⟨_, among, ?_, rfl⟩
      rcases key with rfl | ⟨agrees, w, old⟩
      · rfl
      · rw [agreed (record.found _ old).1 agrees, reads]
  · rcases List.mem_append.mp hm with old | new
    · exact record.lacks m old lacking
    · cases List.mem_singleton.mp new
      cases held.symm.trans lacking

theorem Parts.Record.lack (record : p.Record c seen) (held : c.part? n = .ok none) :
    ({ p with missing := p.missing ++ [n] } : Parts).Record c (seen ++ [n]) := by
  refine ⟨fun e he => ?_, fun m hm => ?_, fun m hm u hu => ?_, fun m hm lacking => ?_⟩
  · obtain ⟨among, part⟩ := record.found e he
    exact ⟨List.mem_append_left _ among, part⟩
  · rcases List.mem_append.mp hm with old | new
    · obtain ⟨among, part⟩ := record.missing m old
      exact ⟨List.mem_append_left _ among, part⟩
    · cases List.mem_singleton.mp new
      exact ⟨List.mem_append_right _ (List.mem_singleton_self n), held⟩
  · rcases List.mem_append.mp hm with old | new
    · exact record.finds m old u hu
    · cases List.mem_singleton.mp new
      cases held.symm.trans hu
  · rcases List.mem_append.mp hm with old | new
    · exact List.mem_append_left _ (record.lacks m old lacking)
    · exact List.mem_append_right _ new

theorem record_of_gather (gathered : gather c p names = .ok q) (record : p.Record c seen)
    (texts : ∀ m ∈ seen ++ names, m.isText = true) : q.Record c (seen ++ names) := by
  induction names generalizing p seen with
  | nil =>
    cases gathered
    rw [List.append_nil]
    exact record
  | cons n ns ih =>
    have rest : ∀ m ∈ (seen ++ [n]) ++ ns, m.isText = true := by
      rw [List.append_assoc]
      exact texts
    rw [← List.singleton_append, ← List.append_assoc]
    cases held : c.part? n with
    | error f =>
      rw [gather, held] at gathered
      cases gathered
    | ok found =>
      cases found with
      | none =>
        rw [gather_of_missing held] at gathered
        exact ih gathered (record.lack held) rest
      | some v =>
        rw [gather_of_found held] at gathered
        refine ih gathered (record.insert (fun m hm => texts m (List.mem_append_left _ hm)) ?_ held)
          rest
        exact texts n (List.mem_append_right _ List.mem_cons_self)

end Gathering

/-! ### Two contexts side by side -/

/-- Two contexts both lack what is named, or hold structurally equal values under the name. -/
def AgreeOn (c d n : Value) : Prop :=
  (c.part? n = .ok none ∧ d.part? n = .ok none) ∨
    ∃ v w, c.part? n = .ok (some v) ∧ d.part? n = .ok (some w) ∧ StructurallyEqual v w

/-- Parts with the same names, and structurally equal values under those that were found. -/
structure Parts.Alike (p q : Parts) : Prop where
  found : List.Forall₂ (fun e f => e.1 = f.1 ∧ StructurallyEqual e.2 f.2) p.found q.found
  missing : p.missing = q.missing

theorem insert_alike {n v w : Value} {es fs : List (Value × Value)}
    (alike : List.Forall₂ (fun e f => e.1 = f.1 ∧ StructurallyEqual e.2 f.2) es fs)
    (equal : StructurallyEqual v w) :
    List.Forall₂ (fun e f => e.1 = f.1 ∧ StructurallyEqual e.2 f.2)
      (Value.insert n v es) (Value.insert n w fs) := by
  induction alike with
  | nil => exact .cons ⟨rfl, equal⟩ .nil
  | @cons e f es fs first rest ih =>
    rw [Value.insert, Value.insert, first.1]
    split
    · exact .cons ⟨rfl, equal⟩ rest
    · exact .cons ⟨rfl, first.2⟩ ih

/-- Contexts that agree on all names have parts alike. -/
theorem alike_of_gather {c d : Value} {names : List Value} {p q p' q' : Parts}
    (agree : ∀ n ∈ names, AgreeOn c d n) (alike : p.Alike q)
    (hp : gather c p names = .ok p') (hq : gather d q names = .ok q') : p'.Alike q' := by
  induction names generalizing p q with
  | nil =>
    cases hp
    cases hq
    exact alike
  | cons n ns ih =>
    rw [List.forall_mem_cons] at agree
    rcases agree.1 with ⟨hc, hd⟩ | ⟨v, w, hc, hd, equal⟩
    · rw [gather_of_missing hc] at hp
      rw [gather_of_missing hd] at hq
      refine ih agree.2 ?_ hp hq
      exact ⟨alike.found, by rw [alike.missing]⟩
    · rw [gather_of_found hc] at hp
      rw [gather_of_found hd] at hq
      refine ih agree.2 ?_ hp hq
      exact ⟨insert_alike alike.found equal, alike.missing⟩

/-- The gathered parts as they are hashed. -/
def Parts.toValue (p : Parts) : Value := .tuple [.table p.found, .tuple p.missing]

theorem keyed_eq (names : List Value) (c : Value) :
    keyed names c = Parts.toValue <$> gather c ⟨[], []⟩ names := by
  rw [keyed, map_eq_pure_bind]
  rfl

theorem structurallyEqual_of_alike {p q : Parts} (alike : p.Alike q)
    (keys : ∀ e ∈ p.found, StructurallyEqual e.1 e.1)
    (lacking : ∀ m ∈ p.missing, StructurallyEqual m m) :
    StructurallyEqual p.toValue q.toValue := by
  have found : StructurallyEqual (.table p.found) (.table q.found) := by
    refine .table rfl rfl (.refl _) ?_ ?_
    · have names : p.found.map (·.1) = q.found.map (·.1) := by
        rw [← List.forall₂_eq_eq_eq, List.forall₂_map_left_iff, List.forall₂_map_right_iff]
        exact alike.found.imp fun e f same => same.1
      rw [← names, List.forall₂_same]
      intro k hk
      obtain ⟨e, he, rfl⟩ := List.mem_map.mp hk
      exact keys e he
    · rw [List.forall₂_map_left_iff, List.forall₂_map_right_iff]
      exact alike.found.imp fun e f same => same.2
  have missing : StructurallyEqual (.tuple p.missing) (.tuple q.missing) := by
    rw [← alike.missing]
    exact .sequence rfl rfl (List.forall₂_same.mpr lacking)
  exact .sequence rfl rfl (.cons found (.cons missing .nil))

/-- Names that are hashed alike read alike. Plain texts do, and so do members of enumerations as long
as no two of these go by the same names. -/
def ReadApart (names : List Value) : Prop :=
  ∀ m ∈ names, ∀ n ∈ names, StructurallyEqual m n → m.text? = n.text?

theorem readApart_of_plain {names : List Value} (plain : ∀ n ∈ names, ∃ t, n = .text t) :
    ReadApart names := by
  intro m hm n hn equal
  obtain ⟨s, rfl⟩ := plain m hm
  obtain ⟨t, rfl⟩ := plain n hn
  cases equal with
  | atom hv hw =>
    cases hv
    cases hw
    rfl
  | _ hv => cases hv

section Separation

variable {c d : Value} {names : List Value} {p q : Parts}

/-- Of two lists that are related item by item, what is in the one has its like in the other. -/
theorem exists_of_forall₂ {α : Type} {R : α → α → Prop} {xs ys : List α}
    (items : List.Forall₂ R xs ys) {x : α} (hx : x ∈ xs) : ∃ y ∈ ys, R x y := by
  induction items with
  | nil => cases hx
  | cons first _ ih =>
    rcases List.mem_cons.mp hx with rfl | later
    · exact ⟨_, List.mem_cons_self, first⟩
    · obtain ⟨y, hy, equal⟩ := ih later
      exact ⟨y, List.mem_cons_of_mem _ hy, equal⟩

/-- Of two structurally equal tables, an entry of the one has its equal in the other. -/
theorem exists_of_tables {es fs : List (Value × Value)}
    (equal : StructurallyEqual (.table es) (.table fs)) {e : Value × Value} (he : e ∈ es) :
    ∃ f ∈ fs, StructurallyEqual e.1 f.1 ∧ StructurallyEqual e.2 f.2 := by
  cases equal with
  | atom hv hw => cases hv
  | sequence hv hw items => cases hv
  | collection hv hw order members => cases hv
  | @table _ _ _ _ es' _ hv hw order keys values =>
    cases hv
    cases hw
    rw [List.forall₂_map_left_iff, List.forall₂_map_right_iff] at keys values
    have entries : List.Forall₂
        (fun e f => StructurallyEqual e.1 f.1 ∧ StructurallyEqual e.2 f.2) es' fs :=
      List.Forall₂.mp (fun _ _ => And.intro) keys values
    exact exists_of_forall₂ entries (order.mem_iff.mp he)

/-- Contexts with structurally equal parts agree on every name. -/
theorem agreeOn_of_structurallyEqual (apart : ReadApart names)
    (texts : ∀ n ∈ names, n.isText = true) (hp : p.Record c names) (hq : q.Record d names)
    (shows : ∀ n ∈ names, ∃ part, c.part? n = .ok part)
    (equal : StructurallyEqual p.toValue q.toValue) : ∀ n ∈ names, AgreeOn c d n := by
  have parts : StructurallyEqual (.table p.found) (.table q.found) ∧
      StructurallyEqual (.tuple p.missing) (.tuple q.missing) := by
    cases equal with
    | sequence hv hw items =>
      cases hv
      cases hw
      cases items with
      | cons found rest =>
        cases rest with
        | cons missing _ => exact ⟨found, missing⟩
    | _ hv => cases hv
  obtain ⟨found, missing⟩ := parts
  intro n hn
  obtain ⟨t, reads⟩ := Option.isSome_iff_exists.mp (texts n hn)
  obtain ⟨part, held⟩ := shows n hn
  cases part with
  | none =>
    have items : List.Forall₂ StructurallyEqual p.missing q.missing := by
      cases missing with
      | sequence hv hw items =>
        cases hv
        cases hw
        exact items
      | _ hv => cases hv
    obtain ⟨m, hm, same⟩ := exists_of_forall₂ items (hp.lacks n hn held)
    obtain ⟨among, lacking⟩ := hq.missing m hm
    have reads' : m.text? = some t := (apart n hn m among same).symm.trans reads
    refine Or.inl ⟨held, ?_⟩
    rw [Value.part?_of_text_eq reads reads', lacking]
  | some v =>
    obtain ⟨e, he, key, rfl⟩ := hp.finds n hn v held
    obtain ⟨f, hf, keys, values⟩ := exists_of_tables found he
    obtain ⟨among, holds⟩ := hq.found f hf
    have reads' : f.1.text? = some t := by
      rw [← apart e.1 (hp.found e he).1 f.1 among keys, key, reads]
    refine Or.inr ⟨e.2, f.2, held, ?_, values⟩
    rw [Value.part?_of_text_eq reads reads', holds]

end Separation

end ContextProjection

end MorphEngine
