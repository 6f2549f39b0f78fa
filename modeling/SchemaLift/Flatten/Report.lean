/-!
# Reports

What a flattening pass did: the names it registered, those it reused, and the pointers that lead
nowhere, each of them once.
-/

namespace SchemaLift

/-- The report of a pass. -/
structure Report where
  /-- The names of registered schemas, in the order of registration. -/
  registered : List String := []
  /-- The names that inline schemas were folded into, once for each of them. -/
  reused : List String := []
  unresolved : List String := []
  generateMetadata : Bool := false
deriving DecidableEq, Repr

namespace Report

/-- Nothing was registered and nothing reused. -/
def isNoop (report : Report) : Bool :=
  report.registered.isEmpty && report.reused.isEmpty

/-- Note a pointer that leads nowhere. -/
def noteUnresolved (report : Report) (pointer : String) : Report :=
  if report.unresolved.contains pointer then report
  else { report with unresolved := report.unresolved ++ [pointer] }

/-- A pointer is noted afterwards. -/
theorem mem_unresolved_noteUnresolved (report : Report) (pointer : String) :
    pointer ∈ (report.noteUnresolved pointer).unresolved := by
  unfold noteUnresolved
  split <;> simp_all

end Report

end SchemaLift
