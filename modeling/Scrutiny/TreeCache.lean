/-
Trees kept for texts that come again.

A text is known by its digest.  Failures are kept too, so that a text is looked at
once for as long as the cache remembers it.
-/
import Scrutiny.Cache
import Scrutiny.Digest
import Scrutiny.Tree

namespace Scrutiny

/-- The tree of a text, or why it has none. -/
abbrev TreeOutcome := Except SyntaxFailure Tree

/-- A cache of trees by the digests of their texts. -/
abbrev TreeCache := Cache Digest TreeOutcome

/-- The tree of a text, from the cache or else built and kept. -/
def TreeCache.parse (cache : TreeCache) (source : String) : TreeOutcome × TreeCache :=
  let key := Digest.ofText source
  match cache.get key with
  | (some outcome, cache) => (outcome, cache)
  | (none, cache) =>
    let outcome := buildTree source
    (outcome, cache.insert key outcome)

end Scrutiny
