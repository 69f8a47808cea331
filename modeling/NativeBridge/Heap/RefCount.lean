/-! Reference counts.

    A count is a 32-bit word. Its largest value marks an object that is never freed: taking and
    dropping references leave it alone, so a count that climbs there stays there. -/

namespace NativeBridge

/-- Number of references to an object, or the mark of an immortal one. -/
abbrev RefCount := UInt32

namespace RefCount

/-- The mark of an object that is never freed. -/
def pinned : RefCount := 0xffffffff

/-- The count of a new object. -/
def fresh : RefCount := 1

/-- One reference more. -/
def retain (count : RefCount) : RefCount := if count = pinned then count else count + 1

/-- One reference less; `none` when that was the last one. -/
def release (count : RefCount) : Option RefCount :=
  if count = pinned then some count
  else if count = 1 then none
  else some (count - 1)

end RefCount

end NativeBridge
