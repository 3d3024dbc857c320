/-!
# Source spans

A half-open range of offsets into the host's source text. The engine never reads source text: the
host says where a value stands when it turns a problem into a diagnostic. Offsets are 32-bit words,
so larger ones are cut to their low 32 bits.
-/
namespace LiveTypes

/-- The range from `start` up to, but not including, `stop`. -/
structure Span where
  start : UInt32
  stop : UInt32
deriving DecidableEq

namespace Span

/-- The span between two offsets, each cut to 32 bits: `from_usize`. -/
def between (start stop : Nat) : Span := ⟨start.toUInt32, stop.toUInt32⟩

/-- The placeholder of a value that the host cannot locate. -/
def nowhere : Span := ⟨0, 0⟩

/-- Where a report about the span begins. -/
def offset (s : Span) : Nat := s.start.toNat

/-- The span as a pair of offsets. -/
def range (s : Span) : Nat × Nat := (s.start.toNat, s.stop.toNat)

/-- The text of a span: its two ends around two dots. -/
def describe (s : Span) : String := toString s.start.toNat ++ ".." ++ toString s.stop.toNat

end Span
end LiveTypes
