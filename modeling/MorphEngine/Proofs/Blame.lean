import MorphEngine.Proofs.Engine

/-!
# Faults that no one blames again

A fault is settled when it already names the morph that failed, or ends the program; blaming it on
another label leaves it as it is. Blaming settles every fault that can be written. One that cannot
be written gives way to the fault of not being able to write it, which is blamed in turn by the next
label further out.
-/

namespace MorphEngine

/-- A text can always be written as running text, so a name can. -/
theorem Name.plain_isSome (n : Name) : n.given.plain.isSome = true := by
  have reads := n.reads
  cases h : n.given with
  | text t => rfl
  | member m =>
    simp only [Value.plain, Value.bare]
    split <;> rfl
  | scalar s => rfl
  | _ =>
    rw [h] at reads
    cases reads

theorem Name.isDeeperThan_eq_false (n : Name) :
    n.given.isDeeperThan Value.nestingLimit = false := by
  have reads := n.reads
  cases h : n.given with
  | text t => rfl
  | member m => rfl
  | scalar s => rfl
  | _ =>
    rw [h] at reads
    cases reads

namespace Fault

/-- A fault that names the morph that failed, or ends the program. -/
inductive IsSettled : Fault → Prop
  | named (name : Value) (cause : Fault) (context : Value) (chained : Bool) :
      IsSettled (.transform name cause context chained)
  | ending {f : Fault} (ends : f.endsProgram = true) : IsSettled f

theorem IsSettled.blame_eq {f : Fault} (settled : f.IsSettled) (label : Name) (context : Value) :
    f.blame label context = f := by
  cases settled with
  | named name cause ctx chained => rfl
  | ending ends =>
    cases f with
    | transform name cause ctx chained => rfl
    | plain kind message => exact if_pos ends
    | carrying kind argument => exact if_pos ends

/-- One fault takes the place of another one whose message cannot be written. -/
structure GivesWay (f g : Fault) : Prop where
  goesOn : f.endsProgram = false
  unwritten : f.written = .error g

/-- A fault that no label can be put on, because its message cannot be written. -/
def IsUnwritten (f : Fault) : Prop := ∃ g, f.GivesWay g

/-- Nothing can be written of a value with a number of too many digits. -/
theorem isUnwritten_of_lacking {kind : FaultKind} {v : Value} (goesOn : kind.endsProgram = false)
    (shallow : v.isDeeperThan Value.nestingLimit = false)
    (lacking : argumentText? kind v = none) : (carrying kind v).IsUnwritten := by
  refine ⟨tooManyDigits, goesOn, ?_⟩
  rw [written, Value.written, shallow, lacking]
  rfl

theorem eq_of_written_eq_error {v : Value} {text : Value → Option Text} {g : Fault}
    (failed : v.written text = .error g) : g = tooDeepToShow ∨ g = tooManyDigits := by
  unfold Value.written at failed
  split at failed
  · cases failed
    exact Or.inl rfl
  · split at failed
    · cases failed
    · cases failed
      exact Or.inr rfl

section GivesWay

variable {f g : Fault} (gives : f.GivesWay g)

include gives

theorem GivesWay.cases : g = tooDeepToShow ∨ g = tooManyDigits := by
  have failed := gives.unwritten
  cases f with
  | carrying kind v => exact eq_of_written_eq_error failed
  | plain kind message => cases failed
  | transform name cause context chained => cases failed

theorem GivesWay.not_isSettled : ¬ f.IsSettled := by
  intro settled
  cases settled with
  | named name cause ctx chained => cases gives.unwritten
  | ending ends => exact absurd (ends.symm.trans gives.goesOn) (by decide)

/-- What takes the place of a fault does not name a morph. -/
theorem GivesWay.not_isSettled_right : ¬ g.IsSettled := by
  intro settled
  rcases gives.cases with rfl | rfl <;>
  · cases settled with
    | ending ends => exact absurd ends (by decide)

/-- What takes the place of a fault can be written itself. -/
theorem GivesWay.written_right : ¬ g.IsUnwritten := by
  rintro ⟨k, again⟩
  rcases gives.cases with rfl | rfl <;> cases again.unwritten

theorem GivesWay.leaveDeferred_right : g.leaveDeferred = g := by
  rcases gives.cases with rfl | rfl <;> rfl

end GivesWay

/-- Names are texts, so only the cause can keep a fault from being made under a name. -/
theorem ofCause_name (label : Name) (cause : Fault) (context : Value) (chained : Bool) :
    ofCause label.given cause context chained =
      cause.written.map fun _ => .transform label.given cause context chained := by
  obtain ⟨t, plain⟩ := Option.isSome_iff_exists.mp label.plain_isSome
  have written : label.given.written Value.plain = .ok t := by
    unfold Value.written
    rw [if_neg (Bool.eq_false_iff.mp label.isDeeperThan_eq_false), plain]
  rw [ofCause, written]
  cases cause.written <;> rfl

/-- What blaming makes of a fault that is not settled. -/
theorem blame_of_not_isSettled {f : Fault} (unsettled : ¬ f.IsSettled) (label : Name)
    (context : Value) :
    f.blame label context =
      match f.written with
      | .ok _ => .transform label.given f context true
      | .error g => g := by
  have goesOn : ¬ f.endsProgram = true := fun ends => unsettled (.ending ends)
  have made := ofCause_name label f context true
  cases writes : f.written <;> rw [writes] at made <;>
  cases f with
  | transform name cause ctx chained => exact absurd (.named name cause ctx chained) unsettled
  | plain kind message | carrying kind argument =>
    rw [blame, if_neg goesOn, made]
    · rfl
    · nofun

theorem GivesWay.blame_eq {f g : Fault} (gives : f.GivesWay g) (label : Name) (context : Value) :
    f.blame label context = g := by
  rw [blame_of_not_isSettled gives.not_isSettled, gives.unwritten]

/-- Blaming settles every fault that can be written. -/
theorem blame_isSettled {f : Fault} (written : ¬ f.IsUnwritten) (label : Name) (context : Value) :
    (f.blame label context).IsSettled := by
  by_cases settled : f.IsSettled
  · rw [settled.blame_eq]
    exact settled
  · have goesOn : f.endsProgram = false := Bool.eq_false_iff.mpr fun ends => settled (.ending ends)
    rw [blame_of_not_isSettled settled]
    cases writes : f.written with
    | ok t => exact .named _ _ _ _
    | error g => exact absurd ⟨g, goesOn, writes⟩ written

/-- The next label further out is put on what has taken the place of a fault. -/
theorem GivesWay.blame_again {f g : Fault} (gives : f.GivesWay g) (label : Name)
    (context : Value) : g.blame label context = .transform label.given g context true := by
  rw [blame_of_not_isSettled gives.not_isSettled_right]
  rcases gives.cases with rfl | rfl <;> rfl

theorem IsSettled.leaveDeferred_eq {f : Fault} (settled : f.IsSettled) : f.leaveDeferred = f := by
  have kept : f.kind ≠ .other "StopIteration" := by
    cases settled with
    | named name cause ctx chained =>
      show FaultKind.other "TransformError" ≠ FaultKind.other "StopIteration"
      decide
    | ending ends =>
      intro same
      rw [endsProgram, same] at ends
      exact absurd ends (by decide)
  exact if_neg kept

/-- A blamed fault is never the end of an iteration, so it can leave a deferred computation. -/
theorem leaveDeferred_blame (f : Fault) (label : Name) (context : Value) :
    (f.blame label context).leaveDeferred = f.blame label context := by
  by_cases unwritten : f.IsUnwritten
  · obtain ⟨g, gives⟩ := unwritten
    rw [gives.blame_eq, gives.leaveDeferred_right]
  · exact (blame_isSettled unwritten label context).leaveDeferred_eq

/-- The fault under a label, unless it names a morph already or ends the program. -/
def under (label : Name) (context : Value) : Fault → Fault
  | .transform name cause ctx chained => .transform name cause ctx chained
  | f => if f.endsProgram then f else .transform label.given f context true

section Under

variable {f : Fault}

theorem IsSettled.under_eq (settled : f.IsSettled) (label : Name) (context : Value) :
    f.under label context = f := by
  cases settled with
  | named name cause ctx chained => rfl
  | ending ends =>
    cases f with
    | transform name cause ctx chained => rfl
    | plain kind message => exact if_pos ends
    | carrying kind argument => exact if_pos ends

theorem under_of_not_isSettled (unsettled : ¬ f.IsSettled) (label : Name) (context : Value) :
    f.under label context = .transform label.given f context true := by
  have goesOn : ¬ f.endsProgram = true := fun ends => unsettled (.ending ends)
  cases f with
  | transform name cause ctx chained => exact absurd (.named name cause ctx chained) unsettled
  | plain kind message => exact if_neg goesOn
  | carrying kind argument => exact if_neg goesOn

theorem under_isSettled (f : Fault) (label : Name) (context : Value) :
    (f.under label context).IsSettled := by
  by_cases settled : f.IsSettled
  · rw [settled.under_eq]
    exact settled
  · rw [under_of_not_isSettled settled]
    exact .named _ _ _ _

/-- Blame puts its label on every fault that can be written. -/
theorem blame_eq_under (written : ¬ f.IsUnwritten) (label : Name) (context : Value) :
    f.blame label context = f.under label context := by
  by_cases settled : f.IsSettled
  · rw [settled.blame_eq, settled.under_eq]
  · rw [under_of_not_isSettled settled, blame_of_not_isSettled settled]
    cases writes : f.written with
    | ok t => rfl
    | error g =>
      have goesOn : f.endsProgram = false := Bool.eq_false_iff.mpr fun ends => settled (.ending ends)
      exact absurd ⟨g, goesOn, writes⟩ written

end Under

end Fault

end MorphEngine
