import LiveCalls.Source

/-!
# Diagnostics

One problem report, tied to the place that caused it where that is known. Reports go to a sink one
after the other. A log keeps them from it until it is known whether they matter.
-/

namespace LiveCalls

/-- A problem in words. -/
structure Diagnostic where
  site : Option Site
  message : String
  deriving DecidableEq, Repr, Inhabited

namespace Diagnostic

/-- The report on one line, its site first. -/
def text (d : Diagnostic) : String :=
  match d.site with
  | some site => site.text ++ " " ++ d.message
  | none => d.message

/-- The report attributed to `site`, unless it has a site of its own. -/
def attributedTo (site : Option Site) (d : Diagnostic) : Diagnostic :=
  { d with site := d.site.or site }

end Diagnostic

/-- Reports that are held back, the oldest first. -/
structure RetainingLog where
  retained : List Diagnostic
  deriving DecidableEq, Repr, Inhabited

namespace RetainingLog

def new : RetainingLog := ⟨[]⟩

def report (log : RetainingLog) (d : Diagnostic) : RetainingLog := ⟨log.retained ++ [d]⟩

/-- The sink after everything that was held back went to it. What has no site is attributed to
`site`. -/
def flushInto (log : RetainingLog) (site : Option Site) (sink : List Diagnostic) :
    List Diagnostic :=
  sink ++ log.retained.map (Diagnostic.attributedTo site)

/-- The sink after everything that was held back was dropped. -/
def discard (_ : RetainingLog) (sink : List Diagnostic) : List Diagnostic := sink

end RetainingLog

end LiveCalls
