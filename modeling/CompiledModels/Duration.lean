import CompiledModels.Number.Power

/-!
Spans of time and instants, both counted in nanoseconds. An instant has a greatest value, beyond
which no deadline can be set.
-/

namespace CompiledModels

structure Duration where
  nanos : Nat
  deriving DecidableEq

namespace Duration

def ofMillis (n : Nat) : Duration := ⟨n * 1000000⟩
def ofMicros (n : Nat) : Duration := ⟨n * 1000⟩
def ofSeconds (n : Nat) : Duration := ⟨n * 1000000000⟩

def millis (d : Duration) : Nat := d.nanos / 1000000

def seconds (d : Duration) : Nat := d.nanos / 1000000000

end Duration

structure Instant where
  nanos : Nat
  deriving DecidableEq

namespace Instant

def last : Instant := ⟨2 ^ 63 * 1000000000 - 1⟩

def after? (i : Instant) (d : Duration) : Option Instant :=
  let n := i.nanos + d.nanos
  if n ≤ last.nanos then some ⟨n⟩ else none

end Instant

end CompiledModels
