import BranchingStory.Decimal.Rounded
import BranchingStory.Json.Record
import BranchingStory.Locale.Resolution

/-!
# Auditing translations

An audit compares each language with the reference language: a text that the
reference language has and another lacks is a gap.  It covers every registered
language and every other one that the bundle has some text in.
-/

namespace BranchingStory

/-- The gaps of each language. -/
structure Audit where
  surface : String
  reference : String
  referenceKeys : Nat
  /-- For each other language the keys of its gaps, in order.  A language without
  gaps is listed with none. -/
  missing : Std.ExtTreeMap String (List String) compare
deriving DecidableEq, Repr

/-- The keys of the texts that the reference language has and another lacks: the difference of
the keys of the two. -/
def Bundle.gaps (b : Bundle) (reference language : String) : List String :=
  (b.keysFor reference).filter fun key => !(b.keysFor language).contains key

/-- The languages to audit. -/
def Bundle.auditedLanguages (b : Bundle) (r : Registry) (reference : String) : List String :=
  ((b.languages.insertMany r.codes).erase reference).toList

/-- The gaps of every language to audit. -/
def Bundle.audit (b : Bundle) (r : Registry) (reference : String) : Audit :=
  { surface := b.surface
    reference := reference
    referenceKeys := (b.keysFor reference).length
    missing := .ofList ((b.auditedLanguages r reference).map fun l => (l, b.gaps reference l)) }

namespace Audit

/-- How many gaps there are in all languages. -/
def totalMissing (a : Audit) : Nat := a.missing.values.flatten.length

/-- No language has a gap. -/
def isComplete (a : Audit) : Bool := a.missing.values.all List.isEmpty

/-- The languages with a gap, in order. -/
def incompleteLanguages (a : Audit) : List String :=
  (a.missing.filter fun _ keys => !keys.isEmpty).keys

/-- The share of texts that a language has, of `total` texts of which it lacks
`missing`, in percent.  Of no texts it has all. -/
def percent (total missing : Nat) : Float :=
  if total = 0 then 100 else Float.ofNat (total - missing) * 100 / Float.ofNat total

/-- The share of the texts of the reference language that an audited language has, in
percent. -/
def coverage? (a : Audit) (language : String) : Option Float :=
  a.missing[language]?.map fun keys => percent a.referenceKeys keys.length

/-- The gaps as diagnostics, by language and then by key. -/
def diagnostics (a : Audit) : List Diagnostic :=
  a.missing.toList.flatMap fun (language, keys) =>
    keys.map (.missingTranslation a.surface language ·)

/-- The audit field by field. -/
def toJson (a : Audit) : Json :=
  .object [("surface", .string a.surface), ("reference", .string a.reference),
    ("reference_keys", .nat a.referenceKeys),
    ("missing", Json.ofMap (Json.ofList .string) a.missing)]

end Audit

end BranchingStory
