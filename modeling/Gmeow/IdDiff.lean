import Mathlib

/-!
# Comparing the tokens of two names

`idDiff` compares the claims of an observation with those of an entity, attribute by attribute. For
the tokens of names this is `nameScore`: it adds up what speaks for and against one identity. The
numbers are those of an ordered field: no rounding is modelled. The weight of a claim is a parameter.

* `nameTokenMatch` — when two tokens match;
* `matchNames`, `nameScore` — the loop over the tokens, and what it says.
-/

namespace Gmeow

/-! ## Claims -/

/-- `Interval`; a bound that is not there is none. -/
structure Interval : Type where
  first : Option Int
  last : Option Int

/-- One interval begins after the other has ended. -/
def Interval.after (i o : Interval) : Bool :=
  match i.first, o.last with
  | some first, some last => last < first
  | _, _ => false

/-- `Overlaps`. -/
def Interval.overlaps (i o : Interval) : Bool := !i.after o && !o.after i

/-- `scoredClaim`, as far as names are compared by it. -/
structure DiffClaim (F : Type) : Type where
  value : String
  vec : List F
  valid : Interval
  ulid : String := ""
  supersedes : List String := []

/-- `idDiffParams`, as far as names are compared with them. -/
structure IdDiffParams (F : Type) : Type where
  tauName : F
  w : DiffClaim F → F

section Weights

variable {F : Type} [Field F] [LinearOrder F]

/-! ## Matches -/

/-- `cosineSimilarity`: the vectors have length one. -/
def cosineSimilarity (a b : List F) : F := (List.zipWith (· * ·) a b).sum

/-- `linkedBySupersedes`. -/
def linkedBySupersedes (a b : DiffClaim F) : Bool :=
  a.supersedes.contains b.ulid || b.supersedes.contains a.ulid

/-- `supersedesAcross`. -/
def supersedesAcross (av bv : List (DiffClaim F)) : Bool :=
  av.any fun a => bv.any fun b => linkedBySupersedes a b

/-- `initialMatch`. -/
def initialMatch (a b : String) : Bool :=
  match a.toList, b.toList with
  | [x], y :: _ => x = y
  | x :: _, [y] => y = x
  | _, _ => false

/-- `nameTokenMatch`. -/
def nameTokenMatch (a b : DiffClaim F) (tau : F) : Bool :=
  decide (a.value = b.value) || initialMatch a.value b.value ||
    decide (tau ≤ cosineSimilarity a.vec b.vec)

/-! ## The evidence of names -/

variable (p : IdDiffParams F)

/-- The largest of some masses, or zero. -/
def bestMass (masses : List F) : F := masses.foldl (fun best m => if best < m then m else best) 0

/-- One token of the inner loop of `nameScore`, with its place and whether it is matched. -/
def betterMatch (ca : DiffClaim F) (best : Option Nat × F) (item : (DiffClaim F × Bool) × Nat) :
    Option Nat × F :=
  let ((cb, matched), j) := item
  if matched || !ca.valid.overlaps cb.valid then best
  else if nameTokenMatch ca cb p.tauName = false then best
  else
    let m := min (p.w ca) (p.w cb)
    if best.2 < m then (some j, m) else best

/-- The inner loop of `nameScore`: the place of the best match that is left, and its mass. -/
def bestNameMatch (ca : DiffClaim F) (bv : List (DiffClaim F)) (matchedB : List Bool) :
    Option Nat × F :=
  ((bv.zip matchedB).zipIdx).foldl (betterMatch p ca) (none, 0)

/-- The matches so far. -/
structure NameMatches (F : Type) : Type where
  matchedA : List Bool
  matchedB : List Bool
  shared : F

/-- One token of the outer loop of `nameScore`. -/
def matchName (bv : List (DiffClaim F)) (st : NameMatches F) (ca : DiffClaim F) : NameMatches F :=
  match bestNameMatch p ca bv st.matchedB with
  | (some j, mass) =>
    { matchedA := st.matchedA ++ [true], matchedB := st.matchedB.set j true,
      shared := st.shared + mass }
  | (none, _) => { st with matchedA := st.matchedA ++ [false] }

/-- The outer loop of `nameScore`. -/
def matchNames (av bv : List (DiffClaim F)) : NameMatches F :=
  av.foldl (matchName p bv) { matchedA := [], matchedB := bv.map fun _ => false, shared := 0 }

/-- The tokens that are not matched. -/
def unmatched (claims : List (DiffClaim F)) (matched : List Bool) : List (DiffClaim F) :=
  ((claims.zip matched).filter fun item => !item.2).map Prod.fst

/-- `substantiveUnmatched`. -/
def substantiveUnmatched (claims : List (DiffClaim F)) (matched : List Bool) : Bool :=
  (unmatched claims matched).any fun c => decide (1 < c.value.length)

/-- `maxUnmatchedMass`. -/
def maxUnmatchedMass (claims : List (DiffClaim F)) (matched : List Bool) : F :=
  bestMass ((unmatched claims matched).map p.w)

/-- `nameScore`. -/
def nameScore (av bv : List (DiffClaim F)) : F × F :=
  let st := matchNames p av bv
  if substantiveUnmatched av st.matchedA && substantiveUnmatched bv st.matchedB &&
      !supersedesAcross av bv then
    (0, min (maxUnmatchedMass p av st.matchedA) (maxUnmatchedMass p bv st.matchedB))
  else (st.shared, 0)

end Weights

end Gmeow
