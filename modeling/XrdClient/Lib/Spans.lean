/-
  Lib/Spans.lean --- texts that a row of parts takes, one piece each.

  A pattern is a row of parts; what one part takes is a test on texts.  `spans` tries
  every way to cut a text; the lemmas are the ways to cut a row.
-/
import Mathlib

set_option autoImplicit false

namespace XrdClient.Lib.Spans

variable {σ α : Type}

/-- The text is cut into one piece for each part, which takes it. -/
def spans (takes : α → List σ → Bool) : List α → List σ → Bool
  | [], s => s.isEmpty
  | p :: ps, s =>
    (List.range (s.length + 1)).any fun k => takes p (s.take k) && spans takes ps (s.drop k)

variable {takes : α → List σ → Bool} {p : α} {ps qs : List α} {s : List σ}

end XrdClient.Lib.Spans
