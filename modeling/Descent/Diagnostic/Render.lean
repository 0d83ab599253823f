import Descent.Diagnostic
import Descent.Snippet.Layout

/-! # Rendering diagnostics

Diagnostics are shown as reports on their source, one after the other.
-/

namespace Descent

open Descent.Text

namespace Diagnostic

/-- The range that is marked for a diagnostic: its own, or for an empty one the byte behind it,
within the source. -/
def markedRange (d : Diagnostic) (sourceLength : Nat) : Nat × Nat :=
  if d.start = d.stop then (d.start, min (d.start + 1) sourceLength) else (d.start, d.stop)

def report (d : Diagnostic) (path : Option String) (sourceLength : Nat) : Snippet.Report :=
  let range := d.markedRange sourceLength
  { message := d.message, start := range.1, stop := range.2, path }

/-- The reports of some diagnostics on a source. -/
def render (ds : List Diagnostic) (source : String) (path : Option String) (colored : Bool) :
    String :=
  let cs := source.toList
  "\n".intercalate (ds.map fun d => (d.report path (byteLength cs)).render colored cs)

end Diagnostic

end Descent
