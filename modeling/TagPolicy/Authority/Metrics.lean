import TagPolicy.Cache.Slot
import TagPolicy.Policy.Decision

/-!
Counters of decisions, cache lookups and compilations, and the most recent latencies of decisions.
Percentages and latencies are shown as binary floating point numbers; a latency is kept as a number
of nanoseconds, so sorting is exact.
-/

namespace TagPolicy

structure Counters where
  requests : Nat
  allowed : Nat
  denied : Nat
  /-- Denials that no rule decided. -/
  defaultDenials : Nat
  cacheHits : Nat
  cacheMisses : Nat
  cacheCorruptions : Nat
  compilations : Nat
deriving DecidableEq, Repr

namespace Counters

def zero : Counters := ⟨0, 0, 0, 0, 0, 0, 0, 0⟩

instance : Inhabited Counters := ⟨zero⟩

def countHit (counters : Counters) : Counters :=
  { counters with cacheHits := counters.cacheHits + 1 }

def countMiss (counters : Counters) : Counters :=
  { counters with cacheMisses := counters.cacheMisses + 1 }

def countCorruption (counters : Counters) : Counters :=
  { counters with cacheCorruptions := counters.cacheCorruptions + 1 }

def countCompilation (counters : Counters) : Counters :=
  { counters with compilations := counters.compilations + 1 }

def countLookup (counters : Counters) : Lookup → Counters
  | .hit _ => counters.countHit
  | .miss none => counters.countMiss
  | .miss (some _) => counters.countCorruption.countMiss

def countRequest (counters : Counters) (allowed byDefault : Bool) : Counters :=
  let counters := { counters with requests := counters.requests + 1 }
  if allowed then { counters with allowed := counters.allowed + 1 }
  else
    { counters with
      denied := counters.denied + 1
      defaultDenials := counters.defaultDenials + if byDefault then 1 else 0 }

def countDecision (counters : Counters) (decision : Decision) : Counters :=
  counters.countRequest decision.isAllowed decision.rule.isNone

/-- A part of a whole, which is counted in 64 bits; nothing is no part of nothing. -/
def rate (part rest : Nat) : Float :=
  let whole := (part + rest) % UInt64.size
  if whole = 0 then 0.0 else part.toFloat / whole.toFloat

def cacheHitRate (counters : Counters) : Float := rate counters.cacheHits counters.cacheMisses

def allowRate (counters : Counters) : Float := rate counters.allowed counters.denied

def exposed (name help : String) (count : Nat) : String :=
  s!"# HELP {name} {help}\n# TYPE {name} counter\n{name} {count}\n"

def exposition (counters : Counters) : String :=
  "\n".intercalate
    [exposed "racktag_requests_total" "Total number of authorization requests" counters.requests,
      exposed "racktag_allowed_total" "Number of allowed decisions" counters.allowed,
      exposed "racktag_denied_total" "Number of denied decisions" counters.denied,
      exposed "racktag_cache_hits_total" "Compiled table cache hits" counters.cacheHits,
      exposed "racktag_cache_misses_total" "Compiled table cache misses" counters.cacheMisses,
      exposed "racktag_cache_corruptions_total" "Corrupted cache slots discarded"
        counters.cacheCorruptions,
      exposed "racktag_compilations_total" "Rule source compilations" counters.compilations]

end Counters

/-- The most recent latencies, in nanoseconds, the oldest first. -/
structure Latencies where
  recent : Array Nat
deriving DecidableEq, Repr

namespace Latencies

def window : Nat := 10000

def empty : Latencies := ⟨#[]⟩

instance : Inhabited Latencies := ⟨empty⟩

def record (latencies : Latencies) (nanoseconds : Nat) : Latencies :=
  if latencies.recent.size < window then ⟨latencies.recent.push nanoseconds⟩
  else ⟨(latencies.recent.extract 1 latencies.recent.size).push nanoseconds⟩

/-- A time in milliseconds. Whole seconds and the rest are converted apart and added. -/
def milliseconds (nanoseconds : Nat) : Float :=
  ((nanoseconds / 1000000000).toFloat + (nanoseconds % 1000000000).toFloat / 1000000000.0) * 1000.0

def sorted (latencies : Latencies) : Array Float :=
  ((latencies.recent.toList.mergeSort fun left right => decide (left ≤ right)).map
    milliseconds).toArray

def mean (sorted : Array Float) : Float :=
  if sorted.isEmpty then 0.0 else sorted.foldl (· + ·) 0.0 / sorted.size.toFloat

def percentile (sorted : Array Float) (part : Float) : Float :=
  let index := (sorted.size.toFloat * part).toUInt64.toNat
  sorted.getD (min index (sorted.size - 1)) 0.0

end Latencies

structure Metrics where
  counters : Counters
  latencies : Latencies
deriving DecidableEq, Repr

def Metrics.zero : Metrics := ⟨.zero, .empty⟩

instance : Inhabited Metrics := ⟨Metrics.zero⟩

end TagPolicy
