import Mathlib.Data.List.Nodup
import Mathlib.Data.List.Perm.Subperm
import MorphEngine.Fusion
import MorphEngine.Proofs.Fingerprint.Bytes

/-!
# Free names

The search for a free name tries a base and then its numbered forms in order until it meets one that
is not taken. No two of these are the same text, so the names that are taken, being finitely many,
cannot hold all of them, and the search ends, however the names look.
-/

namespace MorphEngine

namespace Fusion

/-- The base with a number behind it. -/
def numbered (base : Text) (n : Nat) : Text := base ++ "@" ++ Text.ofNat n

/-- The search that is at a name, with the numbers from `suffix` on ahead of it, ends at the name
found. -/
inductive Finds (taken : List Text) (base : Text) : Text → Nat → Text → Prop
  | free {name : Text} {suffix : Nat} (free : name ∉ taken) : Finds taken base name suffix name
  | next {name found : Text} {suffix : Nat} (hit : name ∈ taken)
      (later : Finds taken base (numbered base suffix) (suffix + 1) found) :
      Finds taken base name suffix found

variable {taken : List Text} {base name found : Text} {suffix : Nat}

theorem Finds.not_mem (finds : Finds taken base name suffix found) : found ∉ taken := by
  induction finds with
  | free free => exact free
  | next _ _ ih => exact ih

/-- Whatever is found begins as the base does. -/
theorem Finds.begins (finds : Finds taken base name suffix found)
    (begins : base.points <+: name.points) : base.points <+: found.points := by
  induction finds with
  | free _ => exact begins
  | next _ _ ih =>
    refine ih ?_
    rw [numbered, Text.points_append, Text.points_append, List.append_assoc]
    exact List.prefix_append _ _

/-- The names that the search looks at when it goes on for so many numbers. -/
def ahead (base name : Text) (suffix count : Nat) : List Text :=
  name :: (List.range' suffix count).map (numbered base)

theorem numbered_injective (base : Text) : Function.Injective (numbered base) := by
  intro m n same
  have points : (numbered base m).points = (numbered base n).points := congrArg Text.points same
  simp only [numbered, Text.points_append, List.append_assoc, List.append_cancel_left_eq] at points
  exact Text.ofNat_injective (congrArg Text.mk points)

theorem numbered_ne_base (base : Text) (n : Nat) : numbered base n ≠ base := by
  intro same
  have points : (numbered base n).points = base.points := congrArg Text.points same
  simp only [numbered, Text.points_append, List.append_assoc, List.append_right_eq_self] at points
  cases points

theorem ahead_nodup (base : Text) (suffix count : Nat) : (ahead base base suffix count).Nodup := by
  refine List.nodup_cons.mpr ⟨?_, (List.nodup_range' ..).map (numbered_injective base)⟩
  intro among
  obtain ⟨n, _, same⟩ := List.mem_map.mp among
  exact numbered_ne_base base n same

/-- Of one name more than are taken, one is free. -/
theorem exists_free_ahead (taken : List Text) (base : Text) (suffix : Nat) :
    ∃ name ∈ ahead base base suffix taken.length, name ∉ taken := by
  by_contra none
  have all : ahead base base suffix taken.length ⊆ taken :=
    fun name among => Classical.byContradiction fun free => none ⟨name, among, free⟩
  have bound := ((ahead_nodup base suffix taken.length).subperm all).length_le
  rw [ahead, List.length_cons, List.length_map, List.length_range'] at bound
  omega

/-- With a free name ahead that its fuel reaches, the search ends at the name that it gives. -/
theorem finds_of_free_ahead (fuel : Nat) (some : ∃ n ∈ ahead base name suffix fuel, n ∉ taken) :
    Finds taken base name suffix (freeName taken base (fuel + 1) name suffix) := by
  induction fuel generalizing name suffix with
  | zero =>
    obtain ⟨n, here, free⟩ := some
    rw [List.mem_singleton.mp here] at free
    rw [freeName, if_neg (mt List.contains_iff_mem.mp free)]
    exact .free free
  | succ fuel ih =>
    rw [freeName]
    by_cases hit : name ∈ taken
    · rw [if_pos (List.contains_iff_mem.mpr hit)]
      refine .next hit (ih ?_)
      obtain ⟨n, among, free⟩ := some
      rcases List.mem_cons.mp among with rfl | later
      · exact absurd hit free
      · rw [List.range'_succ] at later
        exact ⟨n, later, free⟩
    · rw [if_neg (mt List.contains_iff_mem.mp hit)]
      exact .free hit

/-- The search from a base ends, whatever is taken. -/
theorem finds_freeName (taken : List Text) (base : Text) (suffix : Nat) :
    Finds taken base base suffix (freeName taken base (taken.length + 1) base suffix) :=
  finds_of_free_ahead taken.length (exists_free_ahead taken base suffix)

end Fusion

end MorphEngine
