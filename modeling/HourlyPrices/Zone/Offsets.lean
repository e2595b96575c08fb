import HourlyPrices.Time.Local

/-!
# Offset tables

An offset table says how far the clocks of a place are ahead of UTC at each second: by an initial
offset, and from each change on by the offset of that change. It answers in both directions: what
the clock shows at a second, and at which seconds the clock shows a given time. When clocks go
forward a time may never be shown, and when they go back it may be shown twice.
-/

namespace HourlyPrices

/-- From the second `since` of UTC on, clocks are `offset` seconds ahead of UTC. -/
structure OffsetChange where
  since : Int
  offset : Int
  deriving DecidableEq

/-- An initial offset and the changes from it, in the order of time. -/
structure OffsetTable where
  initial : Int
  changes : List OffsetChange

namespace OffsetTable

/-- The offset at second `s` of UTC, where `o` is in force before the changes. -/
def offsetFrom (o : Int) : List OffsetChange → Int → Int
  | [], _ => o
  | c :: cs, s => if s < c.since then o else offsetFrom c.offset cs s

/-- The offset at second `s` of UTC. -/
def offsetAt (z : OffsetTable) (s : Int) : Int := offsetFrom z.initial z.changes s

/-- Whether second `s` lies at or after a start, if there is one. -/
def reaches (start : Option Int) (s : Int) : Bool :=
  match start with
  | none => true
  | some t => t ≤ s

/-- The seconds from `start` on at which the clock shows `l`, in the order of time, where `o` is in
force before the changes. -/
def showingFrom (start : Option Int) (o : Int) : List OffsetChange → Int → List Int
  | [], l => if reaches start (l - o) then [l - o] else []
  | c :: cs, l =>
    (if reaches start (l - o) ∧ l - o < c.since then [l - o] else []) ++
      showingFrom (some c.since) c.offset cs l

/-- The seconds of UTC at which the clock shows the second `l`, in the order of time. -/
def showing (z : OffsetTable) (l : Int) : List Int := showingFrom none z.initial z.changes l

end OffsetTable

end HourlyPrices
