import MorphEngine.Text

/-!
The four ways to ask for the order of two things, and how an answer follows from the order that two
things have.
-/

namespace MorphEngine

inductive Relation where
  | less
  | atMost
  | greater
  | atLeast
deriving DecidableEq

namespace Relation

/-- The same question with the two things exchanged. -/
def reverse : Relation → Relation
  | less => greater
  | atMost => atLeast
  | greater => less
  | atLeast => atMost

def symbol : Relation → Text
  | less => "<"
  | atMost => "<="
  | greater => ">"
  | atLeast => ">="

/-- The name of the question when it is asked of elements. -/
def callName : Relation → Text
  | less => "less"
  | atMost => "less_equal"
  | greater => "greater"
  | atLeast => "greater_equal"

/-- The answer for two things in an order; things without one answer no. -/
def admits : Relation → Option Ordering → Bool
  | less, o => o == some .lt
  | atMost, o => o == some .lt || o == some .eq
  | greater, o => o == some .gt
  | atLeast, o => o == some .gt || o == some .eq

end Relation

end MorphEngine
