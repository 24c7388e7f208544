import CallTargets.Decimal
import CallTargets.Store
/-!
# Reports

One line for each call through a pointer that may reach anything: where it is, and the
names of what it may reach.
-/

namespace CallTargets

namespace Report

/-- The place of a call, or a mark for one that is not known. -/
def location (p : Program) (v : ValueId) : String :=
  (((p.callSite? v).bind CallSite.loc).map SourceLoc.text).getD "<unknown>:0:0"

def line (p : Program) (v : ValueId) (callees : OrdSet FunctionId) : String :=
  location p v ++ "|" ++
    Text.joinWith "," (callees.toList.map fun f => Normal.functionName (p.functionName f))

def lines (p : Program) (s : Store) : List String :=
  (s.callees.toList.filter fun (v, callees) =>
    !callees.isEmpty && (v ∈ s.indirectCalls || v ∈ s.virtualCalls)).map
    fun (v, callees) => line p v callees

def write {m : Type → Type} [Monad m] (put : String → m Unit) (flush : m Unit)
    (lines : List String) : m Nat := do
  lines.forM fun line => put (line ++ "\n")
  flush
  return lines.length

def text (p : Program) (s : Store) : String :=
  (lines p s).foldl (fun text line => text ++ line ++ "\n") ""

def failure (reason : String) : String := "failed to write results: " ++ reason

end Report

def Stats.average (n : Stats) : String := Decimal.quotientText 6 n.callTargets n.validCalls

end CallTargets
