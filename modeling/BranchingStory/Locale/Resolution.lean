import BranchingStory.Diagnostic
import BranchingStory.Locale.Bundle
import BranchingStory.Locale.Registry

/-!
# Resolving texts

A text is asked for by key and language.  It is taken from the first language of
the chain that has it.  A text that no language of the chain has is a *miss*: its
key is shown in its place, so a lookup never fails.  A resolver answers lookups
and keeps its misses for a later report.
-/

namespace BranchingStory

/-! ## One lookup -/

/-- A text that was found. -/
structure Found where
  text : String
  source : String
  direction : Direction
  unregistered : Bool
deriving DecidableEq, Repr

/-- A text that was not found. -/
structure Miss where
  key : String
  language : String
  unregistered : Bool
deriving DecidableEq, Repr

/-- The answer to a lookup. -/
inductive Resolution where
  | found (found : Found)
  | missing (miss : Miss)
deriving DecidableEq, Repr

namespace Resolution

/-- What is shown: the wording, or the key of a miss. -/
def display : Resolution → String
  | found f => f.text
  | missing m => m.key

/-- The lookup missed. -/
def isMissing : Resolution → Bool
  | found _ => false
  | missing _ => true

end Resolution

/-- Looks a text up in the languages of the chain. -/
def Registry.resolve (r : Registry) (b : Bundle) (key language : String) : Resolution :=
  let unregistered := !r.contains language
  match (r.chain language).findSome? fun code => (b.get? key code).map (code, ·) with
  | some (code, text) => .found ⟨text, code, r.direction code, unregistered⟩
  | none => .missing ⟨key, language, unregistered⟩

/-! ## Misses -/

/-- Misses are ordered by key, then by language. -/
def Miss.order : Miss → Miss → Ordering :=
  compareLex (compareOn Miss.key)
    (compareLex (compareOn Miss.language) (compareOn Miss.unregistered))

instance : Std.TransCmp Miss.order := inferInstanceAs (Std.TransCmp (compareLex _ _))

instance : Std.LawfulEqCmp Miss.order where
  eq_of_compare {a b} h := by
    simp only [Miss.order, compareLex, compareOn, Ordering.then_eq_eq,
      Std.LawfulEqOrd.compare_eq_iff_eq] at h
    obtain ⟨hk, hl, hu⟩ := h
    cases a
    cases b
    simp_all

/-- Some misses in order. -/
abbrev Misses := Std.ExtTreeSet Miss Miss.order

/-- A bundle and a registry to look texts up in, and the misses so far. -/
structure Resolver where
  registry : Registry
  bundle : Bundle
  misses : Misses := ∅
deriving DecidableEq, Repr

namespace Resolver

/-- Looks a text up and notes a miss. -/
def resolve (r : Resolver) (key language : String) : Resolution × Resolver :=
  match r.registry.resolve r.bundle key language with
  | .found f => (.found f, r)
  | .missing m => (.missing m, { r with misses := r.misses.insert m })

/-- The misses as diagnostics, in order. -/
def diagnostics (r : Resolver) : List Diagnostic :=
  r.misses.toList.map fun m => .missingTranslation r.bundle.surface m.language m.key

end Resolver

end BranchingStory
