/-!
# Sums, means and extremes of lists of doubles

A sum of doubles depends on the order of its additions. Short lists are added
from left to right; from eight numbers on, eight partial sums run side by side
and are joined in pairs; lists of more than 128 numbers are split in two.
-/

namespace Reckoner.Number

/-- Adds whole groups of eight to eight running sums; returns the sums and the
fewer than eight numbers left over. -/
def addEights (sums : List Float) : List Float → List Float × List Float
  | a :: b :: c :: d :: e :: f :: g :: h :: rest =>
    addEights (List.zipWith (· + ·) sums [a, b, c, d, e, f, g, h]) rest
  | rest => (sums, rest)

/-- Eight sums joined in pairs, the pairs in pairs, and the two halves. -/
def joinEight : List Float → Float
  | [a, b, c, d, e, f, g, h] => ((a + b) + (c + d)) + ((e + f) + (g + h))
  | sums => sums.foldl (· + ·) 0.0

/-- The sum of at most 128 numbers. -/
def blockSum : List Float → Float
  | a :: b :: c :: d :: e :: f :: g :: h :: rest =>
    let (sums, left) := addEights [a, b, c, d, e, f, g, h] rest
    left.foldl (· + ·) (joinEight sums)
  | few => few.foldl (· + ·) (-0.0)

/-- The sum of any number of numbers; a long list is split at a multiple of eight. -/
def pairwiseSum (xs : List Float) : Float :=
  if 128 < xs.length then
    let half := xs.length / 2 - xs.length / 2 % 8
    pairwiseSum (xs.take half) + pairwiseSum (xs.drop half)
  else blockSum xs
termination_by xs.length
decreasing_by
  · simp only [List.length_take]; omega
  · simp only [List.length_drop]; omega

/-- The sum; the empty sum is zero, and so is the sum of negative zeros. -/
def sum (xs : List Float) : Float :=
  0.0 + pairwiseSum xs

/-- The arithmetic mean. -/
def mean (xs : List Float) : Float :=
  sum xs / xs.length.toFloat

/-- The smaller of two numbers; not-a-number wins, and of equal ones, such as the
two zeros, the second. -/
def smaller (a b : Float) : Float :=
  if a < b || a.isNaN then a else b

/-- The greater of two numbers; not-a-number wins, and of equal ones, such as the
two zeros, the second. -/
def greater (a b : Float) : Float :=
  if b < a || a.isNaN then a else b

/-- The least number of a list that is not empty. -/
def least : List Float → Float
  | [] => 0.0 / 0.0
  | x :: xs => xs.foldl smaller x

/-- The greatest number of a list that is not empty. -/
def greatest : List Float → Float
  | [] => 0.0 / 0.0
  | x :: xs => xs.foldl greater x

end Reckoner.Number
