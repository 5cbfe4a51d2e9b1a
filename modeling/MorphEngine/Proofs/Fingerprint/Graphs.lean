import Mathlib.Data.Finset.Card
import Mathlib.Logic.Relation
import MorphEngine.Proofs.Fingerprint.Layers

/-!
# Cycles and sharing

Containers that can be met more than once are cells, so values make up a graph. A walk keeps the cells
that it is inside of and leaves each of them again, whether or not a digest comes out. So a cell met
again within itself ends the walk, and one met again beside itself is walked as if it stood there
alone: the fingerprint is that of the tree in which every cell is replaced by its content, and so is the
fault of a class whose name cannot be encoded.
-/

namespace MorphEngine.Fingerprint

/-! ### A walk leaves what it has entered -/

/-- The cells that a walk is inside of are the same before and after, however it ends. -/
def Restores {α : Type} (walk : Walk α) : Prop := ∀ active, (walk.run active).2 = active

namespace Restores

variable {α β : Type}

theorem pure (a : α) : Restores (pure a) := fun _ => rfl

theorem throw (o : Obstacle) : Restores (throw o : Walk α) := fun _ => rfl

theorem bind {walk : Walk α} {next : α → Walk β} (first : Restores walk)
    (second : ∀ a, Restores (next a)) : Restores (walk >>= next) := by
  intro active
  rw [bind_run, first active]
  cases (walk.run active).1 with
  | ok a => exact second a active
  | error o => rfl

theorem map {walk : Walk α} {f : α → β} (restores : Restores walk) : Restores (f <$> walk) := by
  intro active
  rw [map_run, restores active]

theorem mapM {f : α → Walk β} {xs : List α} (each : ∀ x ∈ xs, Restores (f x)) :
    Restores (xs.mapM f) := by
  induction xs with
  | nil => exact pure []
  | cons x xs ih =>
    rw [List.forall_mem_cons] at each
    rw [List.mapM_cons]
    exact each.1.bind fun _ => (ih each.2).bind fun _ => pure _

theorem inside {v content : Value} {walk : Walk α} (restores : Restores walk) :
    Restores (inside v content walk) := by
  cases v with
  | cell i owner =>
    intro active
    rw [inside_cell]
    split
    · rfl
    · rw [restores, List.erase_cons_head]
  | _ => exact restores

end Restores

theorem digest_restores (cells : Cells) (n : Nat) (v : Value) : Restores (digest cells n v) := by
  induction n generalizing v with
  | zero => exact .throw .tooDeep
  | succ n ih =>
    rw [digest_succ]
    cases layer cells v with
    | whole message => exact .pure _
    | parts xs message =>
      refine .inside (.map (.bind (.mapM fun x _ => ih x) fun ds => ?_))
      cases message ds with
      | ok s => exact .pure s
      | error f => exact .throw (.fault f)
    | through u => exact ih u
    | ends o => exact .throw o

/-! ### The graph of a value -/

namespace Layer

theorem next_ofInt (n : Int) : (ofInt n).next = [] := by
  unfold ofInt
  split <;> rfl

theorem next_ofName (name : Text) : (ofName name).next = [] := by
  unfold ofName
  split <;> rfl

theorem next_ofTime (t : Moment.Item) : (ofTime t).next = [] := by
  cases t with
  | count n => exact next_ofInt n
  | _ => rfl

theorem next_ofAtom {u : Value} {a : Atom} (atom : node? u = some (.atom a)) :
    (ofContent u.bare).next = [] := by
  rw [node?] at atom
  cases content : u.bare with
  | int n => exact next_ofInt n
  | member m => exact next_ofName _
  | none | bool | real | complex | text | bytes | buffer => rfl
  | _ =>
    rw [content] at atom
    cases atom

/-- A scalar goes on to an atom or, when it is a record, to its fields. -/
theorem next_ofScalar {s : Scalar} {x : Value} (hx : x ∈ (ofScalar s).next) :
    (∃ fields, s.type = .record fields ∧ x = .tuple (recordItems fields s.bytes)) ∨
      (x.bare = x ∧ ∃ a, node? x = some (.atom a)) := by
  unfold ofScalar at hx
  split at hx
  · cases hx
  · next record =>
    exact Or.inl ⟨_, record, List.mem_singleton.mp hx⟩
  · rw [next_ofTime] at hx
    cases hx
  · next untimed held _ _ =>
    cases List.mem_singleton.mp hx
    exact Or.inr (atom_of_item? untimed held)
  · cases hx

end Layer

theorem sizeOf_little (t : ElementType) : sizeOf t.little = sizeOf t := by
  have order (big : Bool) : sizeOf big = 1 := by cases big <;> rfl
  cases t <;> simp only [ElementType.little, ElementType.flag.sizeOf_spec,
    ElementType.signed.sizeOf_spec, ElementType.unsigned.sizeOf_spec,
    ElementType.floating.sizeOf_spec, ElementType.complex.sizeOf_spec,
    ElementType.text.sizeOf_spec, ElementType.instant.sizeOf_spec,
    ElementType.duration.sizeOf_spec, order]

/-- The fields of a record are scalars of smaller types, or atoms. -/
theorem recordItems_cases {fields : List ElementType} {bs : List UInt8} {x : Value}
    (hx : x ∈ recordItems fields bs) :
    (∃ s : Scalar, x = .scalar s ∧ sizeOf s.type < sizeOf (ElementType.record fields)) ∨
      (x.bare = x ∧ ∃ a, node? x = some (.atom a)) := by
  have small {fields : List ElementType} {bs : List UInt8} {s : Scalar}
      (hs : s ∈ Value.fieldScalars fields bs) : sizeOf s.type < sizeOf fields := by
    induction fields generalizing bs with
    | nil => cases hs
    | cons t rest ih =>
      rw [List.cons.sizeOf_spec]
      rcases List.mem_cons.mp hs with rfl | later
      · have same : sizeOf (Scalar.little ⟨t, bs.take t.size⟩).type = sizeOf t := sizeOf_little t
        omega
      · have := ih later
        omega
  obtain ⟨s, hs, rfl⟩ := List.mem_map.mp hx
  have smaller : sizeOf s.type < sizeOf (ElementType.record fields) := by
    have := small hs
    rw [ElementType.record.sizeOf_spec]
    omega
  split
  · exact Or.inl ⟨s, rfl, smaller⟩
  · next untimed =>
    have untimed : (Value.scalar s).time? = none := Option.not_isSome_iff_eq_none.mp untimed
    cases held : Value.item? s with
    | none => exact Or.inl ⟨s, rfl, smaller⟩
    | some w => exact Or.inr (atom_of_item? untimed held)

/-- The parts of a content are smaller than it, scalars apart. -/
theorem Layer.next_ofContent {u x : Value} (hx : x ∈ (ofContent u).next) :
    sizeOf x < sizeOf u ∨ ∃ s, u = .scalar s ∧ x ∈ (ofScalar s).next := by
  cases u with
  | scalar s => exact Or.inr ⟨s, rfl, hx⟩
  | int n =>
    rw [ofContent, next_ofInt] at hx
    cases hx
  | member m =>
    rw [ofContent, next_ofName] at hx
    cases hx
  | list xs | tuple xs | set xs | frozenSet xs =>
    have := List.sizeOf_lt_of_mem (show x ∈ xs from hx)
    simp only [Value.list.sizeOf_spec, Value.tuple.sizeOf_spec, Value.set.sizeOf_spec,
      Value.frozenSet.sizeOf_spec]
    omega
  | objectArray shape xs =>
    have := List.sizeOf_lt_of_mem (show x ∈ xs from hx)
    rw [Value.objectArray.sizeOf_spec]
    omega
  | pair a b =>
    have among : x = a ∨ x = b := by simpa [ofContent, next] using hx
    rw [Value.pair.sizeOf_spec]
    rcases among with rfl | rfl <;> omega
  | table es =>
    obtain ⟨⟨key, value⟩, he, among⟩ :=
      List.mem_flatMap.mp (show x ∈ es.flatMap fun e => [e.1, e.2] from hx)
    have among : x = key ∨ x = value := by simpa using among
    have := List.sizeOf_lt_of_mem he
    have := Prod.mk.sizeOf_spec key value
    rw [Value.table.sizeOf_spec]
    rcases among with rfl | rfl <;> omega
  | object owner fs =>
    obtain ⟨⟨name, value⟩, hf, among⟩ :=
      List.mem_flatMap.mp (show x ∈ fs.flatMap fun f => [.text f.1, f.2] from hx)
    have among : x = .text name ∨ x = value := by simpa using among
    have := List.sizeOf_lt_of_mem hf
    have := Prod.mk.sizeOf_spec name value
    have := Value.text.sizeOf_spec name
    rw [Value.object.sizeOf_spec]
    rcases among with rfl | rfl <;> omega
  | _ => cases hx

section Graph

variable (cells : Cells)

/-- The walk of the first value goes on to the second one. -/
def Edge (v w : Value) : Prop := w ∈ (layer cells v).next

/-- One value is met on the walk of the other. -/
def Reaches : Value → Value → Prop := Relation.ReflTransGen (Edge cells)

def IsOwnAncestor (v : Value) : Prop := Relation.TransGen (Edge cells) v v

/-- A cell that is met and goes on to anything stands for a container, and only cells do. -/
def IsTidy (v : Value) : Prop :=
  ∀ u, Reaches cells v u →
    (layer cells u).next = [] ∨ u.resolve cells = u ∨
      ∃ i owner xs message, u = .cell i owner ∧ layer cells u = .parts xs message

/-- Nothing is nested deeper than in so many levels. -/
def nestsWithin : Nat → Value → Bool
  | 0, _ => false
  | n + 1, v => (layer cells v).next.all (nestsWithin n)

/-- The tree that a value stands for, to so many levels: cells are replaced by what they hold. -/
def unfolded : Nat → Value → Value
  | 0, v => v
  | n + 1, v =>
    match (v.resolve cells).bare with
    | .list xs => .list (xs.map (unfolded n))
    | .tuple xs => .tuple (xs.map (unfolded n))
    | .pair a b => .pair (unfolded n a) (unfolded n b)
    | .set xs => .set (xs.map (unfolded n))
    | .frozenSet xs => .frozenSet (xs.map (unfolded n))
    | .table es => .table (es.map fun e => (unfolded n e.1, unfolded n e.2))
    | .object owner fs => .object owner (fs.map fun f => (f.1, unfolded n f.2))
    | .objectArray shape xs => .objectArray shape (xs.map (unfolded n))
    | u => u

variable {cells} {v w : Value}

theorem IsTidy.of_edge (tidy : IsTidy cells v) (edge : Edge cells v w) : IsTidy cells w :=
  fun u reaches => tidy u (.head edge reaches)

/-! ### Induction along a walk -/

/-- The cells that a walk is not inside of. -/
def outside (cells : Cells) (active : List Nat) : Finset Nat :=
  Finset.range cells.length \ active.toFinset

theorem outside_lt {active : List Nat} {i : Nat} (bound : i < cells.length) (met : i ∉ active) :
    (outside cells (i :: active)).card < (outside cells active).card := by
  rw [outside, List.toFinset_cons, Finset.sdiff_insert]
  refine Finset.card_erase_lt_of_mem ?_
  rw [Finset.mem_sdiff, Finset.mem_range, List.mem_toFinset]
  exact ⟨bound, met⟩

theorem edges_of_atom {a : Atom} (atom : node? v = some (.atom a)) : ¬ Edge cells v w := by
  intro edge
  rw [Edge, layer, resolve_of_node atom, Layer.next_ofAtom atom] at edge
  cases edge

theorem edge_of_parts {xs : List Value} {message : Message}
    (top : layer cells v = .parts xs message) (hw : w ∈ xs) : Edge cells v w := by
  rw [Edge, top]
  exact hw

/-- The place of a cell that stands for a container is among the contents. -/
theorem lt_of_parts {i : Nat} {owner : ClassName} {xs : List Value}
    {message : Message} (top : layer cells (.cell i owner) = .parts xs message) :
    i < cells.length := by
  by_contra beyond
  have stays : (Value.cell i owner).resolve cells = .cell i owner := by
    rw [Value.resolve, List.getD_eq_getElem?_getD, List.getElem?_eq_none (by omega),
      Option.getD_none]
  rw [layer, stays] at top
  cases top

section Induction

variable {P : List Nat → Value → Prop}
  (other : ∀ active v,
    (∀ i owner xs message, v = .cell i owner → layer cells v ≠ .parts xs message) →
    (∀ x, Edge cells v x → P active x) → P active v)

include other

theorem holds_of_atom {a : Atom} (atom : node? v = some (.atom a)) (active : List Nat) :
    P active v := by
  refine other active v (fun i owner _ _ same => ?_) fun x edge => absurd edge (edges_of_atom atom)
  rw [same] at atom
  cases atom

/-- The walk of a scalar ends, since the fields of a record have smaller types. -/
theorem holds_below_scalar (active : List Nat) (s : Scalar) {x : Value}
    (hx : x ∈ (Layer.ofScalar s).next) : P active x := by
  induction size : sizeOf s.type using Nat.strong_induction_on generalizing s x with
  | _ size ih =>
    rcases Layer.next_ofScalar hx with ⟨fields, record, rfl⟩ | ⟨-, a, atom⟩
    · refine other active _ (by nofun) fun y hy => ?_
      rcases recordItems_cases hy with ⟨s', rfl, smaller⟩ | ⟨-, a, atom⟩
      · refine other active _ (by nofun) fun z hz => ih _ ?_ s' hz rfl
        rw [← size, record]
        exact smaller
      · exact holds_of_atom other atom active
    · exact holds_of_atom other atom active

/-- What holds of a value when it holds of all that its walk goes on to, holds of every value. Within
a cell that stands for a container it may be assumed only if the cell is not met inside itself. -/
theorem walk_induction
    (cell : ∀ active i owner xs message, layer cells (.cell i owner) = .parts xs message →
      (i ∉ active → ∀ x ∈ xs, P (i :: active) x) → P active (.cell i owner))
    (active : List Nat) (tidy : IsTidy cells v) : P active v := by
  induction count : (outside cells active).card using Nat.strong_induction_on
    generalizing active v with
  | _ count ih =>
    induction size : sizeOf v using Nat.strong_induction_on generalizing v with
    | _ size inner =>
      by_cases entered : ∃ i owner xs message,
        v = .cell i owner ∧ layer cells v = .parts xs message
      · obtain ⟨i, owner, xs, message, rfl, top⟩ := entered
        refine cell active i owner xs message top fun met x hx => ?_
        exact ih _ (count ▸ outside_lt (lt_of_parts top) met) _
          (tidy.of_edge (edge_of_parts top hx)) rfl
      · refine other active v (fun i owner xs message same top =>
          entered ⟨i, owner, xs, message, same, top⟩) fun x edge => ?_
        rcases tidy v .refl with none | stays | isCell
        · rw [Edge, none] at edge
          cases edge
        · have below : x ∈ (Layer.ofContent v.bare).next := by
            rw [Edge, layer, stays] at edge
            exact edge
          rcases Layer.next_ofContent below with smaller | ⟨s, -, hx⟩
          · refine inner _ ?_ (tidy.of_edge edge) rfl
            have : sizeOf v.bare ≤ sizeOf v := by
              cases v with
              | marked i u =>
                rw [Value.bare, Value.marked.sizeOf_spec]
                omega
              | _ => exact Nat.le_refl _
            omega
          · exact holds_below_scalar other active s hx
        · exact absurd isCell entered

end Induction

/-! ### Every walk ends -/

/-- From some number of levels on, a walk does the same however many are allowed. -/
def Settles (cells : Cells) (active : List Nat) (v : Value) : Prop :=
  ∃ N, ∀ n ≥ N, (digest cells n v).run active = (digest cells N v).run active

/-- What holds of each thing from some number on holds of all from some number on. -/
theorem exists_common {Q : Value → Nat → Prop} (mono : ∀ x m n, m ≤ n → Q x m → Q x n)
    {xs : List Value} (each : ∀ x ∈ xs, ∃ n, Q x n) : ∃ n, ∀ x ∈ xs, Q x n := by
  induction xs with
  | nil => exact ⟨0, by nofun⟩
  | cons x xs ih =>
    rw [List.forall_mem_cons] at each
    obtain ⟨m, first⟩ := each.1
    obtain ⟨n, later⟩ := ih each.2
    refine ⟨max m n, List.forall_mem_cons.mpr ⟨mono x m _ (by omega) first, fun y hy => ?_⟩⟩
    exact mono y n _ (by omega) (later y hy)

theorem mapM_run_congr {f g : Value → Walk Digest} {xs : List Value} {active : List Nat}
    (restores : ∀ x, Restores (f x)) (same : ∀ x ∈ xs, (f x).run active = (g x).run active) :
    (xs.mapM f).run active = (xs.mapM g).run active := by
  induction xs with
  | nil => rfl
  | cons x xs ih =>
    rw [List.forall_mem_cons] at same
    rw [List.mapM_cons, List.mapM_cons, bind_run, bind_run, ← same.1, restores x active]
    cases ((f x).run active).1 with
    | error o => rfl
    | ok d =>
      have rest := ih same.2
      exact congrArg (fun r : Except Obstacle (List Digest) × List Nat =>
        ExceptT.bindCont (fun ds => (pure (d :: ds) : Walk (List Digest))) r.1 r.2) rest

theorem settles_of_succ {active : List Nat} {N : Nat}
    (same : ∀ n ≥ N, (digest cells (n + 1) v).run active = (digest cells (N + 1) v).run active) :
    Settles cells active v := by
  refine ⟨N + 1, fun n large => ?_⟩
  obtain ⟨k, rfl⟩ : ∃ k, n = k + 1 := ⟨n - 1, by omega⟩
  exact same k (by omega)

/-- Values that settle do so together. -/
theorem assembled_settles {active : List Nat} {xs : List Value} (message : Message)
    (each : ∀ x ∈ xs, Settles cells active x) :
    ∃ N, ∀ n ≥ N, (Blake2b.hash <$> assembled (digest cells n) xs message).run active =
      (Blake2b.hash <$> assembled (digest cells N) xs message).run active := by
  obtain ⟨N, common⟩ := exists_common (fun x m n le settled k large =>
    (settled k (by omega)).trans (settled n le).symm) each
  refine ⟨N, fun n large => ?_⟩
  have parts := mapM_run_congr (digest_restores cells n) fun x hx => common x hx n large
  rw [map_run, map_run, assembled, assembled, bind_run, bind_run, parts]

theorem settles (active : List Nat) (tidy : IsTidy cells v) : Settles cells active v := by
  refine walk_induction (P := Settles cells) ?_ ?_ active tidy
  · intro active v notEntered each
    cases top : layer cells v with
    | whole message =>
      refine settles_of_succ (N := 0) fun n _ => ?_
      rw [digest_succ, digest_succ, top]
      rfl
    | ends o =>
      refine settles_of_succ (N := 0) fun n _ => ?_
      rw [digest_succ, digest_succ, top]
      rfl
    | through u =>
      obtain ⟨N, settled⟩ := each u (by rw [Edge, top]; exact List.mem_singleton_self u)
      refine settles_of_succ (N := N) fun n large => ?_
      rw [digest_succ, digest_succ, top]
      exact settled n large
    | parts xs message =>
      have noCell (i : Nat) (owner : ClassName) : v ≠ .cell i owner :=
        fun same => notEntered i owner xs message same top
      obtain ⟨N, settled⟩ := assembled_settles message fun x hx => each x (edge_of_parts top hx)
      refine settles_of_succ (N := N) fun n large => ?_
      rw [digest_succ, digest_succ, top, Layer.walk, Layer.walk, inside_of_ne_cell noCell,
        inside_of_ne_cell noCell, settled n large]
  · intro active i owner xs message top each
    by_cases met : i ∈ active
    · refine settles_of_succ (N := 0) fun n _ => ?_
      rw [digest_succ, digest_succ, top, Layer.walk, Layer.walk, inside_cell, inside_cell,
        if_pos (List.contains_iff_mem.mpr met), if_pos (List.contains_iff_mem.mpr met)]
    · obtain ⟨N, settled⟩ := assembled_settles message (each met)
      refine settles_of_succ (N := N) fun n large => ?_
      rw [digest_succ, digest_succ, top, Layer.walk, Layer.walk, inside_cell, inside_cell,
        settled n large]

/-! ### A value within itself -/

theorem mapM_eq_ok {f : Value → Walk Digest} {xs : List Value} {ds : List Digest}
    {active : List Nat} (restores : ∀ x, Restores (f x))
    (walked : ((xs.mapM f).run active).1 = .ok ds) :
    ∀ x ∈ xs, ∃ d, ((f x).run active).1 = .ok d := by
  induction xs generalizing ds with
  | nil => nofun
  | cons x xs ih =>
    rw [List.mapM_cons, bind_run, restores x active] at walked
    cases first : ((f x).run active).1 with
    | error o =>
      rw [first] at walked
      cases walked
    | ok d =>
      rw [first] at walked
      have rest : (((fun ds => d :: ds) <$> xs.mapM f).run active).1 = .ok ds := by
        rw [map_eq_pure_bind]
        exact walked
      obtain ⟨ds', later, -⟩ := map_eq_ok rest
      exact List.forall_mem_cons.mpr ⟨⟨d, first⟩, ih later⟩

/-- A walk with a digest has digests of all that it goes on to. -/
theorem ok_of_edge {n : Nat} {active : List Nat} {d : Digest}
    (walked : ((digest cells (n + 1) v).run active).1 = .ok d) (edge : Edge cells v w) :
    ∃ active' d', ((digest cells n w).run active').1 = .ok d' := by
  rw [digest_succ] at walked
  rw [Edge] at edge
  cases top : layer cells v with
  | whole | ends =>
    rw [top] at edge
    cases edge
  | through u =>
    rw [top] at edge walked
    cases List.mem_singleton.mp edge
    exact ⟨active, d, walked⟩
  | parts xs message =>
    rw [top] at edge walked
    rw [Layer.walk] at walked
    obtain ⟨active', entered⟩ := inside_eq_ok walked
    obtain ⟨s, written, -⟩ := map_eq_ok entered
    obtain ⟨ds, walkedAll, -⟩ := assembled_eq_ok written
    exact ⟨active', mapM_eq_ok (digest_restores cells n) walkedAll w edge⟩

/-- On the way to a value that is its own ancestor there is always a further step. -/
theorem exists_edge_of_isOwnAncestor (reaches : Reaches cells v w) (own : IsOwnAncestor cells w) :
    ∃ x, Edge cells v x ∧ Reaches cells x w := by
  rcases Relation.ReflTransGen.cases_head reaches with rfl | further
  · exact Relation.TransGen.head'_iff.mp own
  · exact further

theorem ne_ok_of_isOwnAncestor {n : Nat} {active : List Nat} {d : Digest}
    (reaches : Reaches cells v w) (own : IsOwnAncestor cells w) :
    ((digest cells n v).run active).1 ≠ .ok d := by
  intro walked
  induction n generalizing v active d with
  | zero => cases walked
  | succ n ih =>
    obtain ⟨x, edge, later⟩ := exists_edge_of_isOwnAncestor reaches own
    obtain ⟨active', d', walked'⟩ := ok_of_edge walked edge
    exact ih later walked'

/-! ### Nesting -/

theorem nestsWithin_mono {m n : Nat} (le : m ≤ n) (nests : nestsWithin cells m v = true) :
    nestsWithin cells n v = true := by
  induction m generalizing n v with
  | zero => cases nests
  | succ m ih =>
    obtain ⟨k, rfl⟩ : ∃ k, n = k + 1 := ⟨n - 1, by omega⟩
    rw [nestsWithin, List.all_eq_true] at nests ⊢
    exact fun x hx => ih (by omega) (nests x hx)

theorem nestsWithin_of_edge {n : Nat} (nests : nestsWithin cells (n + 1) v = true)
    (edge : Edge cells v w) : nestsWithin cells n w = true := by
  rw [nestsWithin, List.all_eq_true] at nests
  exact nests w edge

/-- What is nested in finitely many levels is not met within itself. -/
theorem not_isOwnAncestor_of_nestsWithin {n : Nat} (nests : nestsWithin cells n v = true)
    (reaches : Reaches cells v w) : ¬ IsOwnAncestor cells w := by
  intro own
  induction n generalizing v with
  | zero => cases nests
  | succ n ih =>
    obtain ⟨x, edge, later⟩ := exists_edge_of_isOwnAncestor reaches own
    exact ih (nestsWithin_of_edge nests edge) later

theorem layer_cell_eq {i : Nat} {owner owner' : ClassName} (bound : i < cells.length) :
    layer cells (.cell i owner') = layer cells (.cell i owner) := by
  rw [layer, layer, Value.resolve, Value.resolve, List.getD_eq_getElem?_getD,
    List.getD_eq_getElem?_getD, List.getElem?_eq_getElem bound, Option.getD_some, Option.getD_some]

/-- No cell that a walk is inside of is met on it. -/
def IsClear (cells : Cells) (active : List Nat) (v : Value) : Prop :=
  ∀ i ∈ active, ∀ owner, ¬ Reaches cells v (.cell i owner)

/-- Within a cell that is not its own ancestor, the cell is not met again. -/
theorem IsClear.enter {active : List Nat} {i : Nat} {owner : ClassName} {xs : List Value}
    {message : Message} {x : Value}
    (top : layer cells (.cell i owner) = .parts xs message) (hx : x ∈ xs)
    (clear : IsClear cells active (.cell i owner))
    (alone : ∀ owner', Reaches cells x (.cell i owner') → ¬ IsOwnAncestor cells (.cell i owner')) :
    IsClear cells (i :: active) x := by
  have edge (owner' : ClassName) : Edge cells (.cell i owner') x := by
    rw [Edge, layer_cell_eq (lt_of_parts top), top]
    exact hx
  intro j hj owner' reaches
  rcases List.mem_cons.mp hj with rfl | older
  · exact alone owner' reaches (Relation.TransGen.head' (edge owner') reaches)
  · exact clear j older owner' (.head (edge owner) reaches)

/-- When nothing is its own ancestor, nesting has a bound. -/
theorem exists_nestsWithin (tidy : IsTidy cells v)
    (acyclic : ∀ u, Reaches cells v u → ¬ IsOwnAncestor cells u) :
    ∃ n, nestsWithin cells n v = true := by
  have bounded (active : List Nat) (v : Value) (xs : List Value)
      (same : (layer cells v).next = xs) (each : ∀ x ∈ xs, ∃ n, nestsWithin cells n x = true) :
      ∃ n, nestsWithin cells n v = true := by
    obtain ⟨n, common⟩ := exists_common
      (Q := fun x n => nestsWithin cells n x = true) (fun x m n => nestsWithin_mono) each
    exact ⟨n + 1, by rw [nestsWithin, same, List.all_eq_true]; exact common⟩
  have general := walk_induction (v := v)
    (P := fun active v => (∀ u, Reaches cells v u → ¬ IsOwnAncestor cells u) →
      IsClear cells active v → ∃ n, nestsWithin cells n v = true) ?_ ?_ [] tidy
  · exact general acyclic (by nofun)
  · intro active v _ each acyclic clear
    refine bounded active v _ rfl fun x hx => ?_
    exact each x hx (fun u reaches => acyclic u (.head hx reaches))
      fun i hi owner reaches => clear i hi owner (.head hx reaches)
  · intro active i owner xs message top each acyclic clear
    have met : i ∉ active := fun hi => clear i hi owner .refl
    refine bounded active _ xs (by rw [top]; rfl) fun x hx => ?_
    have edge := edge_of_parts top hx
    have later (u : Value) (reaches : Reaches cells x u) : ¬ IsOwnAncestor cells u :=
      acyclic u (.head edge reaches)
    exact each met x hx later (clear.enter top hx fun owner' reaches => later _ reaches)

/-! ### Sharing -/

theorem IsClear.of_edge {active : List Nat} (clear : IsClear cells active v)
    (edge : Edge cells v w) : IsClear cells active w :=
  fun i hi owner reaches => clear i hi owner (.head edge reaches)

/-- A layer with other values to go on to. -/
def Layer.onNext (f : Value → Value) : Layer → Layer
  | .parts xs message => .parts (xs.map f) message
  | .through u => .through (f u)
  | .whole message => .whole message
  | .ends o => .ends o

theorem Layer.onNext_eq_self {f : Value → Value} {l : Layer} (fixed : ∀ x ∈ l.next, f x = x) :
    l.onNext f = l := by
  cases l with
  | parts xs message =>
    have same : xs.map f = xs := (List.map_congr_left fixed).trans (List.map_id' xs)
    rw [onNext, same]
  | through u => rw [onNext, fixed u (List.mem_singleton_self u)]
  | _ => rfl

theorem unfolded_of_atom {a : Atom} (bare : v.bare = v) (atom : node? v = some (.atom a))
    (n : Nat) : unfolded cells n v = v := by
  cases n with
  | zero => rfl
  | succ n =>
    rw [unfolded, resolve_of_node atom, bare]
    rw [node?, bare] at atom
    cases v <;> first | rfl | cases atom

theorem unfolded_scalar (n : Nat) (s : Scalar) : unfolded cells n (.scalar s) = .scalar s := by
  cases n <;> rfl

theorem unfolded_below_scalar {s : Scalar} {x : Value} (hx : x ∈ (Layer.ofScalar s).next)
    (n : Nat) : unfolded cells n x = x := by
  rcases Layer.next_ofScalar hx with ⟨fields, -, rfl⟩ | ⟨bare, a, atom⟩
  · cases n with
    | zero => rfl
    | succ n =>
      have items : (recordItems fields s.bytes).map (unfolded cells n) =
          recordItems fields s.bytes := by
        refine (List.map_congr_left fun y hy => ?_).trans (List.map_id' _)
        rcases recordItems_cases hy with ⟨s', rfl, -⟩ | ⟨bare, a, atom⟩
        · exact unfolded_scalar n s'
        · exact unfolded_of_atom bare atom n
      exact congrArg Value.tuple items
  · exact unfolded_of_atom bare atom n

/-- The tree of a value has the layers of the value itself. -/
theorem layer_unfolded (n : Nat) (goesOn : ∀ o, layer cells v ≠ .ends o) :
    layer [] (unfolded cells (n + 1) v) = (layer cells v).onNext (unfolded cells n) := by
  rw [layer] at goesOn
  rw [unfolded, layer.eq_def cells v]
  generalize (v.resolve cells).bare = u at goesOn ⊢
  cases u with
  | int k =>
    refine (Layer.onNext_eq_self (f := unfolded cells n) (l := Layer.ofInt k) ?_).symm
    rw [Layer.next_ofInt]
    exact List.forall_mem_nil _
  | member m =>
    refine (Layer.onNext_eq_self (f := unfolded cells n) (l := Layer.ofName _) ?_).symm
    rw [Layer.next_ofName]
    exact List.forall_mem_nil _
  | scalar s =>
    exact (Layer.onNext_eq_self fun x hx => unfolded_below_scalar hx n).symm
  | table es =>
    simp only [layer, Value.resolve, Value.bare, Layer.ofContent, Layer.onNext, List.map_flatMap,
      List.flatMap_map, List.map_cons, List.map_nil]
  | object owner fs =>
    have name (t : Text) : unfolded cells n (.text t) = .text t :=
      unfolded_of_atom rfl (a := .text t) rfl n
    simp only [layer, Value.resolve, Value.bare, Layer.ofContent, Layer.onNext, List.map_flatMap,
      List.flatMap_map, List.map_cons, List.map_nil, name]
  | none | bool | real | complex | text | bytes | buffer | array | builtin | list | tuple | pair
  | set | frozenSet | objectArray | emptyContext => rfl
  | _ => exact absurd rfl (goesOn _)

/-- An object is met on the walk whose class has a name that cannot be encoded. -/
def LacksName (cells : Cells) (v : Value) : Prop :=
  ∃ u owner fs, Reaches cells v u ∧ (u.resolve cells).bare = .object owner fs ∧
    isEncodable owner.dotted = false

/-- Inside of some cells the one walk does what the other one does wherever it starts: it comes to a
result, or to the fault of a name if any name is lacking. -/
inductive RunsAs {α : Type} (lacking : Prop) (active : List Nat) (walk walk' : Walk α) : Prop
  | result {a : α} (runs : walk.run active = (.ok a, active)) (gives : Gives walk' (.ok a))
  | fault {f : Fault} (lacks : lacking) (names : IsNameFault f)
      (runs : walk.run active = (.error (.fault f), active))
      (gives : Gives walk' (.error (.fault f)))

namespace RunsAs

variable {α β : Type} {lacking : Prop} {active : List Nat} {walk walk' : Walk α}

theorem pure (a : α) : RunsAs lacking active (pure a) (pure a) := .result rfl (.pure a)

theorem bind {next next' : α → Walk β} (first : RunsAs lacking active walk walk')
    (second : ∀ a, RunsAs lacking active (next a) (next' a)) :
    RunsAs lacking active (walk >>= next) (walk' >>= next') := by
  cases first with
  | fault lacks names runs gives =>
    exact .fault lacks names (by rw [bind_run, runs]; rfl) (gives.bind_error next')
  | @result a runs gives =>
    have goesOn : (walk >>= next).run active = (next a).run active := by
      rw [bind_run, runs]
      rfl
    cases second a with
    | result runs' gives' => exact .result (goesOn.trans runs') (gives.bind_ok gives')
    | fault lacks names runs' gives' =>
      exact .fault lacks names (goesOn.trans runs') (gives.bind_ok gives')

theorem map (f : α → β) (runs : RunsAs lacking active walk walk') :
    RunsAs lacking active (f <$> walk) (f <$> walk') := by
  rw [map_eq_pure_bind, map_eq_pure_bind]
  exact runs.bind fun a => .pure (f a)

theorem mapM {f g : Value → Walk α} {h : Value → Value} {xs : List Value}
    (each : ∀ x ∈ xs, RunsAs lacking active (f x) (g (h x))) :
    RunsAs lacking active (xs.mapM f) ((xs.map h).mapM g) := by
  induction xs with
  | nil => exact .pure []
  | cons x xs ih =>
    rw [List.forall_mem_cons] at each
    rw [List.map_cons, List.mapM_cons, List.mapM_cons]
    exact each.1.bind fun a => (ih each.2).bind fun as => .pure (a :: as)

theorem mono {lacking' : Prop} (implies : lacking → lacking')
    (runs : RunsAs lacking active walk walk') : RunsAs lacking' active walk walk' := by
  cases runs with
  | result runs gives => exact .result runs gives
  | fault lacks names runs gives => exact .fault (implies lacks) names runs gives

end RunsAs

theorem LacksName.of_edge (edge : Edge cells v w) (lacks : LacksName cells w) :
    LacksName cells v := by
  obtain ⟨u, owner, fs, reaches, content, unencodable⟩ := lacks
  exact ⟨u, owner, fs, .head edge reaches, content, unencodable⟩

namespace Layer

def isParts : Layer → Bool
  | parts _ _ => true
  | _ => false

theorem isParts_ofInt (n : Int) : (ofInt n).isParts = false := by
  unfold ofInt
  split <;> rfl

theorem isParts_ofName (name : Text) : (ofName name).isParts = false := by
  unfold ofName
  split <;> rfl

theorem isParts_ofScalar (s : Scalar) : (ofScalar s).isParts = false := by
  unfold ofScalar
  split
  case h_3 =>
    unfold ofTime
    split
    case h_2 => exact isParts_ofInt _
    all_goals rfl
  all_goals rfl

end Layer

/-- Digests make up no message only under the name of a class that cannot be encoded. -/
theorem lacksName_of_message {xs : List Value} {message : Message} {ds : List Digest} {f : Fault}
    (top : layer cells v = .parts xs message) (fails : message ds = .error f) :
    LacksName cells v ∧ IsNameFault f := by
  rw [layer] at top
  have parts : (Layer.ofContent (v.resolve cells).bare).isParts = true := by
    rw [top]
    rfl
  cases content : (v.resolve cells).bare with
  | object owner fs =>
    rw [content] at top
    cases top
    rw [objectMessage] at fails
    cases fault : nameFault? ("dataclass:" ++ owner.module ++ "." ++ owner.name) with
    | none =>
      rw [fault] at fails
      cases fails
    | some g =>
      rw [fault] at fails
      cases fails
      refine ⟨⟨v, owner, fs, .refl, content, ?_⟩, isNameFault_of_nameFault? fault⟩
      rw [← isEncodable_dataclass, ← Bool.not_eq_true, ← nameFault?_eq_none_iff, fault]
      exact Option.some_ne_none _
  | int n =>
    rw [content] at parts
    cases (Layer.isParts_ofInt n).symm.trans parts
  | member m =>
    rw [content] at parts
    cases (Layer.isParts_ofName _).symm.trans parts
  | scalar s =>
    rw [content] at parts
    cases (Layer.isParts_ofScalar s).symm.trans parts
  | list | tuple | pair | set | frozenSet | objectArray | table | emptyContext =>
    rw [content] at top
    cases top
    cases fails
  | _ =>
    rw [content] at top
    cases top

/-- A walk that is not inside of what it meets does what the walk of the tree does. -/
theorem digest_unfolded {n : Nat} {active : List Nat} (nests : nestsWithin cells n v = true)
    (goesOn : ∀ u, Reaches cells v u → ∀ o, layer cells u ≠ .ends o)
    (clear : IsClear cells active v) :
    RunsAs (LacksName cells v) active (digest cells n v) (digest [] n (unfolded cells n v)) := by
  induction n generalizing v active with
  | zero => cases nests
  | succ n ih =>
    have below {x : Value} {active' : List Nat} (edge : Edge cells v x)
        (clear : IsClear cells active' x) :
        RunsAs (LacksName cells v) active' (digest cells n x) (digest [] n (unfolded cells n x)) := by
      refine .mono (.of_edge edge) (ih (nestsWithin_of_edge nests edge) (fun u reaches => ?_) clear)
      exact goesOn u (.head edge reaches)
    have tree := layer_unfolded n (goesOn v .refl)
    rw [digest_succ, digest_succ, tree]
    cases top : layer cells v with
    | ends o => exact absurd top (goesOn v .refl o)
    | whole message => exact .pure _
    | through u =>
      have edge : Edge cells v u := by
        rw [Edge, top]
        exact List.mem_singleton_self u
      exact below edge (clear.of_edge edge)
    | parts xs message =>
      have noCell (i : Nat) (owner : ClassName) : unfolded cells (n + 1) v ≠ .cell i owner := by
        intro same
        rw [same, top] at tree
        exact absurd (lt_of_parts tree) (Nat.not_lt_zero i)
      rw [Layer.onNext, Layer.walk, Layer.walk, inside_of_ne_cell noCell]
      have wrap {active' : List Nat} (clear : ∀ x ∈ xs, IsClear cells active' x) :
          RunsAs (LacksName cells v) active' (Blake2b.hash <$> assembled (digest cells n) xs message)
            (Blake2b.hash <$> assembled (digest [] n) (xs.map (unfolded cells n)) message) := by
        have parts := RunsAs.mapM fun x hx => below (edge_of_parts top hx) (clear x hx)
        refine (parts.bind fun ds => ?_).map _
        cases written : message ds with
        | ok s => exact .pure s
        | error f =>
          obtain ⟨lacks, names⟩ := lacksName_of_message top written
          exact .fault lacks names rfl fun _ => rfl
      by_cases isCell : ∃ i owner, v = .cell i owner
      · obtain ⟨i, owner, rfl⟩ := isCell
        have met : ¬ active.contains i = true := fun hi =>
          clear i (List.contains_iff_mem.mp hi) owner .refl
        have entered := wrap fun x hx => clear.enter top hx fun owner' reaches =>
          not_isOwnAncestor_of_nestsWithin nests (.head (edge_of_parts top hx) reaches)
        cases entered with
        | result runs gives =>
          refine .result ?_ gives
          rw [inside_cell, if_neg met, runs, List.erase_cons_head]
        | fault lacks names runs gives =>
          refine .fault lacks names ?_ gives
          rw [inside_cell, if_neg met, runs, List.erase_cons_head]
      · rw [inside_of_ne_cell fun i owner same => isCell ⟨i, owner, same⟩]
        exact wrap fun x hx => clear.of_edge (edge_of_parts top hx)

/-- A walk with a digest meets no name that cannot be encoded. -/
theorem ne_ok_of_lacksName {n : Nat} {active : List Nat} {d : Digest}
    (lacks : LacksName cells v) : ((digest cells n v).run active).1 ≠ .ok d := by
  obtain ⟨u, owner, fs, reaches, content, unencodable⟩ := lacks
  induction reaches using Relation.ReflTransGen.head_induction_on generalizing n active d with
  | refl =>
    intro walked
    cases n with
    | zero => cases walked
    | succ n =>
      rw [digest_succ, layer, content, Layer.ofContent, Layer.walk] at walked
      obtain ⟨active', entered⟩ := inside_eq_ok walked
      obtain ⟨s, written, -⟩ := map_eq_ok entered
      obtain ⟨ds, -, message⟩ := assembled_eq_ok written
      unfold objectMessage at message
      split at message
      · next named =>
        rw [nameFault?_eq_none_iff, isEncodable_dataclass, unencodable] at named
        cases named
      · cases message
  | head edge _ ih =>
    intro walked
    cases n with
    | zero => cases walked
    | succ n =>
      obtain ⟨active', d', walked'⟩ := ok_of_edge walked edge
      exact ih walked'

/-- A value that goes on to nothing ends its walk, or has a fingerprint. -/
theorem ne_ends_of_fingerprint {levels : Nat}
    (leaf : (layer cells v).next = [] → ∃ d, fingerprintWithin levels cells v = .ok d)
    (o : Obstacle) : layer cells v ≠ .ends o := by
  intro top
  obtain ⟨d, found⟩ := leaf (by rw [top]; rfl)
  rw [fingerprintWithin_eq_ok_iff] at found
  cases levels with
  | zero => cases found
  | succ n =>
    rw [digest_succ, top] at found
    cases found

/-- Walks leave the cells that they enter, and end. A value on whose walk anything is met within
itself has no fingerprint, whatever nesting can be walked. When nothing is, the nesting has a bound;
and if all that goes on to nothing has a fingerprint and the nesting can be walked, the value has the
fingerprint of the tree that it stands for. Neither has one just when the name of a class that is met
cannot be encoded; both then have the fault of such a name. -/
theorem fingerprint_of_graph (tidy : IsTidy cells v) :
    (∀ n u active, ((digest cells n u).run active).2 = active) ∧
      (∃ N, ∀ n ≥ N, (digest cells n v).run [] = (digest cells N v).run []) ∧
      (∀ c, Reaches cells v c → IsOwnAncestor cells c →
        ∀ levels d, fingerprintWithin levels cells v ≠ .ok d) ∧
      ((∀ c, Reaches cells v c → ¬ IsOwnAncestor cells c) →
        (∃ n, nestsWithin cells n v = true) ∧
        ∀ levels, nestsWithin cells levels v = true →
          (∀ u, Reaches cells v u → (layer cells u).next = [] →
            ∃ d, fingerprintWithin levels cells u = .ok d) →
          fingerprintWithin levels cells v =
              fingerprintWithin levels [] (unfolded cells levels v) ∧
            (¬ LacksName cells v → ∃ d, fingerprintWithin levels cells v = .ok d) ∧
            (LacksName cells v →
              ∃ f, IsNameFault f ∧ fingerprintWithin levels cells v = .error f)) := by
  refine ⟨digest_restores cells, settles [] tidy, fun c reaches own levels d found => ?_,
    fun acyclic => ⟨exists_nestsWithin tidy acyclic, fun levels nests leaves => ?_⟩⟩
  · exact ne_ok_of_isOwnAncestor reaches own (fingerprintWithin_eq_ok_iff.mp found)
  · have clear : IsClear cells [] v := by nofun
    have walks := digest_unfolded nests
      (fun u reaches => ne_ends_of_fingerprint (leaves u reaches)) clear
    cases walks with
    | @result d runs gives =>
      have found : fingerprintWithin levels cells v = .ok d := by rw [fingerprintWithin, runs]
      refine ⟨?_, fun _ => ⟨d, found⟩, fun lacks => ?_⟩
      · rw [found, fingerprintWithin, gives []]
      · exact absurd (fingerprintWithin_eq_ok_iff.mp found) (ne_ok_of_lacksName lacks)
    | @fault f lacks names runs gives =>
      have fails : fingerprintWithin levels cells v = .error f := by rw [fingerprintWithin, runs]
      refine ⟨?_, fun named => absurd lacks named, fun _ => ⟨f, names, fails⟩⟩
      rw [fails, fingerprintWithin, gives []]

end Graph

/-- A list that stands twice in a tuple. -/
def sampleGraph : Cells × Value :=
  ([.list [.int 1]], .tuple [.cell 0 (.builtin "list"), .cell 0 (.builtin "list")])

theorem reached_sampleGraph {u : Value} (reaches : Reaches sampleGraph.1 sampleGraph.2 u) :
    u = sampleGraph.2 ∨ u = .cell 0 (.builtin "list") ∨ u = .int 1 := by
  induction reaches with
  | refl => exact Or.inl rfl
  | @tail u w _ edge ih =>
    rcases ih with rfl | rfl | rfl
    · have among : w ∈ [Value.cell 0 (.builtin "list"), .cell 0 (.builtin "list")] := edge
      rcases List.mem_cons.mp among with rfl | again
      · exact Or.inr (Or.inl rfl)
      · exact Or.inr (Or.inl (List.mem_singleton.mp again))
    · have among : w ∈ [Value.int 1] := edge
      exact Or.inr (Or.inr (List.mem_singleton.mp among))
    · exact absurd edge (edges_of_atom (a := .int 1) rfl)

/-- A container that stands in two places is walked in both. -/
theorem fingerprint_sampleGraph :
    ∃ d, fingerprint sampleGraph.1 sampleGraph.2 = .ok d ∧
      fingerprint [] (.tuple [.list [.int 1], .list [.int 1]]) = .ok d := by
  have nests : nestsWithin sampleGraph.1 depthLimit sampleGraph.2 = true := by decide +kernel
  have tidy : IsTidy sampleGraph.1 sampleGraph.2 := by
    intro u reaches
    rcases reached_sampleGraph reaches with rfl | rfl | rfl
    · exact Or.inr (Or.inl rfl)
    · exact Or.inr (Or.inr ⟨0, _, [.int 1], sequenceMessage "list", rfl, rfl⟩)
    · exact Or.inr (Or.inl rfl)
  have named : ¬ LacksName sampleGraph.1 sampleGraph.2 := by
    rintro ⟨u, owner, fs, reaches, content, -⟩
    rcases reached_sampleGraph reaches with rfl | rfl | rfl <;> cases content
  obtain ⟨-, -, -, acyclic⟩ := fingerprint_of_graph tidy
  have leaves : ∀ u, Reaches sampleGraph.1 sampleGraph.2 u → (layer sampleGraph.1 u).next = [] →
      ∃ d, fingerprintWithin depthLimit sampleGraph.1 u = .ok d := by
    intro u reaches leaf
    rcases reached_sampleGraph reaches with rfl | rfl | rfl
    · cases leaf
    · cases leaf
    · exact ⟨_, fingerprint_of_isNamed _ (by decide +kernel) (by decide +kernel)⟩
  obtain ⟨same, found, -⟩ :=
    (acyclic fun c reaches => not_isOwnAncestor_of_nestsWithin nests reaches).2 _ nests leaves
  obtain ⟨d, first⟩ := found named
  exact ⟨d, first, same.symm.trans first⟩

end MorphEngine.Fingerprint
