/-
  Extraction: scripts into a catalog.

  A script is read against a reference, the catalog of the last time, and adds
  to an output.  First its directives are saved in order, then the identifiers
  it uses are looked up.

  * `save` sets the source text of a directive.  If the reference has the same
    source text there, up to case, its translations are carried over.
  * `resolve` takes an identifier that the output does not know from the
    reference, with all its translations and at its own place; one that the
    reference does not know either is an orphan.
  * A `Report` counts what happened; reports add up.
-/
import MissionText.Catalog.Search
import MissionText.Script.Directive
import MissionText.Script.Identifier

namespace MissionText

/-! ## Reports -/

/-- An identifier that a script uses, with the number of its line. -/
structure IdentifierUse where
  line : Nat
  identifier : String
  deriving Repr, DecidableEq

/-- What happened to some scripts. -/
structure Report where
  /-- Directives with a text. -/
  directives : Nat
  /-- Translations carried over for an unchanged source text. -/
  carried : Nat
  /-- Keys taken from the reference because a script uses them. -/
  resolved : Nat
  /-- Uses of identifiers that no catalog knows. -/
  orphans : List IdentifierUse
  deriving Repr, DecidableEq

namespace Report

/-- The report on no script. -/
def empty : Report := ⟨0, 0, 0, []⟩

/-- The report on the scripts of both. -/
def add (a b : Report) : Report :=
  ⟨a.directives + b.directives, a.carried + b.carried, a.resolved + b.resolved,
    a.orphans ++ b.orphans⟩

end Report

/-! ## Directives -/

namespace Directive

/-- The address of a directive's key in a language. -/
def address (d : Directive) (language : String) : Address :=
  ⟨d.package, d.container, d.key, language⟩

/-- The translations that a directive carries over from a reference. -/
def carriedFrom (reference : Project) (d : Directive) : List Translation :=
  match reference.translation? (d.address originalTag) with
  | none => []
  | some saved =>
    if sameFolded saved.text d.text then
      (reference.translations d.package d.container d.key).filter (!·.isOriginal)
    else []

/-- The output with a directive, and the number of translations carried
    over. -/
def save (reference : Project) (d : Directive) (output : Project) : Project × Nat :=
  let carried := d.carriedFrom reference
  (((output.set (d.address originalTag) d.text).setAll
    (carried.map fun t => (d.address t.language, t.text))), carried.length)

end Directive

/-- The output after directives, and the report on them. -/
def saveAll (reference : Project) : List Directive → Project → Project × Report
  | [], output => (output, .empty)
  | d :: ds, output =>
    let (output, carried) := d.save reference output
    let (output, report) := saveAll reference ds output
    (output, Report.add ⟨if d.text.isEmpty then 0 else 1, carried, 0, []⟩ report)

/-! ## Identifiers -/

/-- The texts of a key at its place. -/
def KeyMatch.writes (m : KeyMatch) : List (Address × String) :=
  m.key.translations.map fun t => (⟨m.package, m.container, m.key.id, t.language⟩, t.text)

/-- The output after the use of an identifier in a line, and the report on
    it. -/
def resolveOne (reference : Project) (use : IdentifierUse) (output : Project) : Project × Report :=
  match output.findKey? use.identifier with
  | some _ => (output, .empty)
  | none =>
    match reference.findKey? use.identifier with
    | none => (output, ⟨0, 0, 0, [use]⟩)
    | some found => (output.setAll found.writes, ⟨0, 0, 1, []⟩)

/-- The output after the use of identifiers, and the report on them. -/
def resolveAll (reference : Project) : List IdentifierUse → Project → Project × Report
  | [], output => (output, .empty)
  | use :: uses, output =>
    let (output, report) := resolveOne reference use output
    let (output, reports) := resolveAll reference uses output
    (output, report.add reports)

/-- The identifiers that a script uses, with their lines counted from one. -/
def identifierUses (content : List Char) : List IdentifierUse :=
  (Text.lines content).zipIdx.flatMap fun (line, index) =>
    (identifiers line).map fun name => ⟨index + 1, String.ofList name⟩

/-! ## Scripts -/

/-- The output after a script of a base name, and the report on it. -/
def extract (reference : Project) (base content : String) (output : Project) :
    Project × Report :=
  let (output, directives) := saveAll reference (scan base content.toList) output
  let (output, uses) := resolveAll reference (identifierUses content.toList) output
  (output, directives.add uses)

end MissionText
