/-
Spans: half-open ranges of byte offsets into a source text.

Every token and every syntax node carries one.  Offsets count the bytes of the
UTF-8 form, so a span can be handed to any tool that works on the file itself.
-/

namespace Scrutiny

/-- The bytes from `start` up to, and not including, `stop`. -/
structure Span where
  start : Nat
  stop : Nat
deriving DecidableEq, Repr, Inhabited

namespace Span

/-- The empty range at `offset`. -/
def point (offset : Nat) : Span := ⟨offset, offset⟩

/-- From where `a` starts to where `b` stops. -/
def cover (a b : Span) : Span := ⟨a.start, b.stop⟩

end Span

end Scrutiny
