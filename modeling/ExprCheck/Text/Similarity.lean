/-!
# Similarity of words

How alike two words are, from zero to one. Characters that the words share at nearly the same place
are paired; the similarity is the mean of three shares: the paired characters in the first word,
those in the second, and the pairs that are in order among all pairs. It is a floating-point number,
rounded at each step: of words whose mean is just seven tenths, some are rated above it.
-/

namespace ExprCheck.Text

/-- Mark the first character of a word that equals `c`, is not marked yet and stands at a place from
`low` to `high - 1`; the word begins at place `place`. -/
def markFirst? (c : Char) (low high : Nat) :
    Nat → List (Char × Bool) → Option (List (Char × Bool))
  | _, [] => none
  | place, (d, marked) :: rest =>
    if low ≤ place && place < high && c = d && !marked then some ((d, true) :: rest)
    else (markFirst? c low high (place + 1) rest).map ((d, marked) :: ·)

/-- Pair the characters of a word that begins at place `place` with those of another, at most
`reach` places away: the paired characters of the first, and the second with its paired ones
marked. -/
def pairUp (reach : Nat) : Nat → List Char → List (Char × Bool) → List Char × List (Char × Bool)
  | _, [], other => ([], other)
  | place, c :: rest, other =>
    match markFirst? c (place - reach) (place + reach + 1) 0 other with
    | some other =>
      let (paired, other) := pairUp reach (place + 1) rest other
      (c :: paired, other)
    | none => pairUp reach (place + 1) rest other

/-- What share `part` is of `whole`. -/
def share (part whole : Nat) : Float := part.toFloat / whole.toFloat

/-- The similarity of two words. -/
def similarity (a b : List Char) : Float :=
  let (paired, marked) := pairUp (max a.length b.length / 2 - 1) 0 a (b.map (·, false))
  let others := (marked.filter (·.2)).map (·.1)
  let m := paired.length
  let misplaced := ((paired.zip others).countP fun (c, d) => c ≠ d) / 2
  if m = 0 then 0 else (share m a.length + share m b.length + share (m - misplaced) m) / 3

/-- Of the words whose similarity to `word` is above seven tenths, the most similar one; of several
the last. -/
def mostSimilar? (word : String) (words : List String) : Option String :=
  let rated := words.map fun w => (w, similarity word.toList w.toList)
  let better (best : Option (String × Float)) (next : String × Float) :=
    match best with
    | some (w, rating) => if rating ≤ next.2 then some next else some (w, rating)
    | none => if 0.7 < next.2 then some next else none
  (rated.foldl better none).map (·.1)

end ExprCheck.Text
