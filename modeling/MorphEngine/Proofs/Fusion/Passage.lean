import MorphEngine.Proofs.Fusion.Partition

/-!
# Coming to a group

A list of stages and what fusion makes of it are run side by side, on either path. As long as the
members of every group come through as one fused stage as they do by themselves, the two runs stay
together. They part at the first group where the members stumble.
-/

namespace MorphEngine

namespace Fusion

open Morph

section Members

variable {U : Type} (h : Host U) (context : Value)

/-- The members run one after the other on the direct path until the transformation of one of them
ends in a certain way. -/
inductive ComesTo (ending : Except Fault (Reply U) → Prop) : List Stage → Value → World U → Prop
  | here {label : Name} {m : Morph} {rest : List Stage} {v : Value} {w : World U}
      (ends : ending ((transform h m v context).runFrom w).1) :
      ComesTo ending (.mk label m :: rest) v w
  | later {label : Name} {m : Morph} {rest : List Stage} {v v' : Value} {w w' : World U}
      (ran : (callOnce m.head label context (transform h m v context)).runFrom w = (.ok v', w'))
      (comes : ComesTo ending rest v' w') : ComesTo ending (.mk label m :: rest) v w

/-- A transformation that ends in a fault whose message cannot be written. -/
def RaisesUnwritten (ended : Except Fault (Reply U)) : Prop :=
  ∃ f, ended = .error f ∧ f.IsUnwritten

variable {h context}

/-- Unless a member raises a fault whose message cannot be written, the members put their labels on
what they raise. -/
theorem isSettled_of_runMembers {ending : Except Fault (Reply U) → Prop}
    (unwritten : ∀ r, RaisesUnwritten r → ending r) {members : List Stage} {v : Value}
    {w w' : World U} {f : Fault} (through : ¬ ComesTo h context ending members v w)
    (failed : (runMembers h members v context).runFrom w = (.error f, w')) : f.IsSettled := by
  induction members generalizing v w with
  | nil =>
    rw [runMembers] at failed
    cases failed
  | cons s rest ih =>
    cases s with
    | mk label m =>
      rw [runMembers] at failed
      rcases ran : (callOnce m.head label context (transform h m v context)).runFrom w
        with ⟨g | v', w₁⟩
      · rw [Engine.runFrom_bind_error ran] at failed
        cases failed
        refine isSettled_of_callOnce (fun g w₁ raised silent => through (.here ?_)) ran
        exact unwritten _ ⟨g, by rw [raised], silent⟩
      · rw [Engine.runFrom_bind_ok ran] at failed
        exact ih (fun comes => through (.later ran comes)) failed

end Members

/-- A way to run stages one after the other, with what keeps the members of a group from coming
through. -/
structure Passage {U : Type} (h : Host U) (context : Value) where
  run : List Stage → Value → Engine U Value
  Stumbles : List Stage → Value → World U → Prop
  append : ∀ s t v, run (s ++ t) v = run s v >>= run t
  declared : ∀ {head members v w}, IsGroup head members → ¬ Stumbles members v w →
    (run members v).runFrom w = (runMembers h members v context).runFrom w
  fused : ∀ {head members v w} (label : Name), IsGroup head members → ¬ Stumbles members v w →
    (run [.mk label (.fused head members)] v).runFrom w =
      (runMembers h members v context).runFrom w

namespace Passage

variable {U : Type} {h : Host U} {context : Value} (p : Passage h context)

/-- The run of the fused stages comes to a group whose members stumble. The label is the one of the
group. -/
inductive Parts (label : Name) : List Stage → List Stage → Value → World U → Prop
  | here {head : Header} {members declared result : List Stage} {v : Value} {w : World U}
      (group : IsGroup head members) (stumbles : p.Stumbles members v w) :
      Parts label (members ++ declared) (.mk label (.fused head members) :: result) v w
  | pastStage {s : Stage} {declared result : List Stage} {v v' : Value} {w w' : World U}
      (ran : (p.run [s] v).runFrom w = (.ok v', w')) (rest : Parts label declared result v' w') :
      Parts label (s :: declared) (s :: result) v w
  | pastGroup {head : Header} {members declared result : List Stage} {name : Name} {v v' : Value}
      {w w' : World U} (group : IsGroup head members) (through : ¬ p.Stumbles members v w)
      (ran : (runMembers h members v context).runFrom w = (.ok v', w'))
      (rest : Parts label declared result v' w') :
      Parts label (members ++ declared) (.mk name (.fused head members) :: result) v w

theorem run_cons (s : Stage) (rest : List Stage) (v : Value) :
    p.run (s :: rest) v = p.run [s] v >>= p.run rest :=
  p.append [s] rest v

/-- Fused or not, stages do the same unless the runs part. -/
theorem run_eq_or_parts {declared result : List Stage} (fuses : Fuses declared result) (v : Value)
    (w : World U) :
    (p.run result v).runFrom w = (p.run declared v).runFrom w ∨
      ∃ label, p.Parts label declared result v w := by
  induction fuses generalizing v w with
  | nil => exact Or.inl rfl
  | @keep s declared result rest ih =>
    rw [p.run_cons s result, p.run_cons s declared]
    rcases ran : (p.run [s] v).runFrom w with ⟨f | v', w'⟩
    · rw [Engine.runFrom_bind_error ran, Engine.runFrom_bind_error ran]
      exact Or.inl rfl
    · rw [Engine.runFrom_bind_ok ran, Engine.runFrom_bind_ok ran]
      rcases ih v' w' with same | ⟨label, parts⟩
      · exact Or.inl same
      · exact Or.inr ⟨label, .pastStage ran parts⟩
  | @group head members group label declared result rest ih =>
    by_cases stumbles : p.Stumbles members v w
    · exact Or.inr ⟨label, .here group stumbles⟩
    · have alone := p.declared group stumbles
      have together := p.fused label group stumbles
      rw [p.run_cons, p.append]
      rcases ran : (runMembers h members v context).runFrom w with ⟨f | v', w'⟩
      · rw [ran] at alone together
        rw [Engine.runFrom_bind_error alone, Engine.runFrom_bind_error together]
        exact Or.inl rfl
      · rw [ran] at alone together
        rw [Engine.runFrom_bind_ok alone, Engine.runFrom_bind_ok together]
        rcases ih v' w' with same | ⟨label, parts⟩
        · exact Or.inl same
        · exact Or.inr ⟨label, .pastGroup group stumbles ran parts⟩

variable {p}

/-- Runs that part have come to the same point before a group whose members stumble. -/
theorem Parts.exists_group {label : Name} {declared result : List Stage} {v : Value} {w : World U}
    (parts : p.Parts label declared result v w) :
    ∃ head members declared' result' v' w', IsGroup head members ∧ p.Stumbles members v' w' ∧
      (∀ s ∈ members, s ∈ declared) ∧
      (p.run declared v).runFrom w = (p.run (members ++ declared') v').runFrom w' ∧
      (p.run result v).runFrom w =
        (p.run (.mk label (.fused head members) :: result') v').runFrom w' := by
  induction parts with
  | @here head members declared result v w group stumbles =>
    exact ⟨head, members, declared, result, v, w, group, stumbles,
      fun s hs => List.mem_append_left _ hs, rfl, rfl⟩
  | @pastStage s declared result v v' w w' ran rest ih =>
    obtain ⟨head, members, declared', result', v₁, w₁, group, stumbles, among, alone, together⟩ :=
      ih
    refine ⟨head, members, declared', result', v₁, w₁, group, stumbles,
      fun t ht => List.mem_cons_of_mem _ (among t ht), ?_, ?_⟩
    · rw [p.run_cons, Engine.runFrom_bind_ok ran, alone]
    · rw [p.run_cons, Engine.runFrom_bind_ok ran, together]
  | @pastGroup head members declared result name v v' w w' group through ran rest ih =>
    obtain ⟨head₁, members₁, declared', result', v₁, w₁, group₁, stumbles, among, alone,
      together⟩ := ih
    refine ⟨head₁, members₁, declared', result', v₁, w₁, group₁, stumbles,
      fun t ht => List.mem_append_right _ (among t ht), ?_, ?_⟩
    · rw [p.append, Engine.runFrom_bind_ok ((p.declared group through).trans ran), alone]
    · rw [p.run_cons, Engine.runFrom_bind_ok ((p.fused name group through).trans ran), together]

end Passage

end Fusion

end MorphEngine
