import QueryWire.Expr.Equality

namespace QueryWire

/-- One setting, with expressions of any type `ε`. -/
inductive Setting (ε : Type) where
  /-- The time the page is read at. -/
  | ts (time : ε)
  /-- The cursor the page follows. -/
  | after (cursor : ε)
  /-- The cursor the page precedes. -/
  | before (cursor : ε)
  /-- The greatest number of elements. -/
  | size (count : ε)
  /-- Whether the page has the set's events instead of its elements. -/
  | events (on : Bool)
  /-- Whether each element comes with its source sets. -/
  | sources (on : Bool)

/-- The settings of a page, each as it was made last. -/
structure Pagination (ε : Type := Expr) where
  resource : ε
  ts : Option ε := none
  after : Option ε := none
  before : Option ε := none
  size : Option ε := none
  events : Bool := false
  sources : Bool := false

namespace Pagination

variable {ε ν : Type}

def ofResource (resource : ε) : Pagination ε := { resource }

def set (page : Pagination ε) : Setting ε → Pagination ε
  | .ts time => { page with ts := some time }
  | .after cursor => { page with after := some cursor }
  | .before cursor => { page with before := some cursor }
  | .size count => { page with size := some count }
  | .events on => { page with events := on }
  | .sources on => { page with sources := on }

def flag [Leaf ν] (on : Bool) : Option (Expr ν) :=
  if on then some (.boolean true) else none

def toCall [Leaf ν] (page : Pagination (Expr ν)) : Call ν :=
  Call.mk "paginate" page.resource []
    |>.field? "ts" page.ts
    |>.field? "after" page.after
    |>.field? "before" page.before
    |>.field? "size" page.size
    |>.field? "events" (flag page.events)
    |>.field? "sources" (flag page.sources)

def toExpr [Leaf ν] (page : Pagination (Expr ν)) : Expr ν := page.toCall.toExpr

def same (page other : Pagination) : Bool :=
  page.resource.same other.resource && Expr.same? page.ts other.ts &&
    Expr.same? page.after other.after && Expr.same? page.before other.before &&
    Expr.same? page.size other.size && page.events == other.events &&
    page.sources == other.sources

end Pagination

end QueryWire
