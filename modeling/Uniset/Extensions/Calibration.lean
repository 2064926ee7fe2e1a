import Uniset.Lib.GuardedRun
import Uniset.Lib.Scaling

/-! A calibration diagram: the line through its points, with a cache of values.  Numbers are exact;
for the way back, where they are not, see `CalibrationInverse`. -/

namespace Uniset.Extensions

open Uniset.Lib

/-- No value. -/
def outOfRange : Int := 9223372036854775807

/-- Of the numbers that a `long` can hold, but not one that is rounded to `outOfRange`. -/
def InLong (q : ℚ) : Prop := -9223372036854775808 ≤ q ∧ q ≤ 9223372036854775806

structure Point where
  x : ℚ
  y : ℚ
  deriving DecidableEq

/-- A segment between two points, with its slope. -/
structure Part where
  p_left : Point
  p_right : Point
  k : ℚ
  deriving DecidableEq

namespace Part

/-- The slope of a segment. -/
def slope (p_left p_right : Point) : ℚ :=
  if (p_right.y = 0 ∧ p_left.y = 0) ∨ (p_right.x = 0 ∧ p_left.x = 0) then 0
  else (p_right.y - p_left.y) / (p_right.x - p_left.x)

def new (pleft pright : Point) : Part :=
  if pright.x < pleft.x then ⟨pright, pleft, slope pright pleft⟩
  else ⟨pleft, pright, slope pleft pright⟩

variable (p : Part)

def left_x : ℚ := p.p_left.x

def left_y : ℚ := p.p_left.y

def right_x : ℚ := p.p_right.x

def right_y : ℚ := p.p_right.y

def checkX (x : ℚ) : Prop := ¬(x < p.left_x ∨ p.right_x < x)

instance (x : ℚ) : Decidable (p.checkX x) := inferInstanceAs (Decidable (¬_))

def calcY (x : ℚ) : ℚ := p.k * (x - p.left_x) + p.left_y

/-- None is `ValueOutOfRange`. -/
def getY (x : ℚ) : Option ℚ :=
  if ¬p.checkX x then none
  else if x = p.left_x then some p.left_y
  else if x = p.right_x then some p.right_y
  else some (p.calcY x)

end Part

/-- The segments between neighbouring points. -/
def parts : List Point → List Part
  | p :: q :: points => Part.new p q :: parts (q :: points)
  | _ => []

/-- A diagram as it is built: its segments are sorted by their right ends, those with one right end
in any order. -/
structure Calibration where
  points : List Point
  pvec : List Part
  accepted : points ≠ []
  coords : ∀ p ∈ points, InLong p.x ∧ InLong p.y
  perm : pvec.Perm (parts points)
  sorted : pvec.Pairwise fun p q => p.right_x ≤ q.right_x

structure CacheInfo where
  val : Int
  raw : Int
  cnt : Nat
  deriving DecidableEq

namespace CacheInfo

/-- An entry that nothing is stored in. -/
def unused : CacheInfo := ⟨0, outOfRange, 0⟩

/-- The order of the cache: entries that are used more often come first. -/
def before (c r : CacheInfo) : Bool :=
  if r.raw = outOfRange then true
  else if c.raw = outOfRange then false
  else decide (r.cnt < c.cnt)

end CacheInfo

structure ValueCache where
  szCache : Nat
  cache : List CacheInfo
  numCacheResort : Nat
  numCallToCache : Nat
  deriving DecidableEq

namespace ValueCache

def new : ValueCache := ⟨5, .replicate 5 .unused, 20, 5⟩

/-- Puts an entry in front of all if it is before the first, else behind the last one that it is not
before. -/
def insertEntry (sorted : List CacheInfo) (c : CacheInfo) : List CacheInfo :=
  if sorted.head?.any c.before then c :: sorted
  else
    (sorted.reverse.dropWhile c.before).reverse ++ c :: (sorted.reverse.takeWhile c.before).reverse

/-- `std::sort`: up to 16 entries are inserted one by one, whatever their order is.  To sort more of
them is defined only if `before` is an order, which it is not for unused entries. -/
def sort (cache : List CacheInfo) : Option (List CacheInfo) :=
  if cache.length ≤ 16 ∨ ∀ c ∈ cache, c.raw ≠ outOfRange then some (cache.foldl insertEntry [])
  else none

/-- The first entry for a raw value, counted once more. -/
def find (raw : Int) : List CacheInfo → Option (Int × List CacheInfo)
  | [] => none
  | c :: cache =>
    if c.raw = raw then some (c.val, { c with cnt := (c.cnt + 1) % 18446744073709551616 } :: cache)
    else (find raw cache).map fun (val, cache) => (val, c :: cache)

variable (s : ValueCache)

/-- The last entry is replaced. -/
def insertToCache (raw val : Int) : Option ValueCache := do
  let cache ← sort (s.cache.dropLast ++ [⟨val, raw, 0⟩])
  return { s with cache }

def setCacheResortCycle (n : Nat) : ValueCache :=
  { s with numCacheResort := n, numCallToCache := n }

def setCacheSize (sz : Nat) : Option ValueCache := do
  let cache ← sort s.cache
  return { s with cache := cache.take sz ++ .replicate (sz - cache.length) .unused, szCache := sz }

end ValueCache

namespace Calibration

variable (d : Calibration)

def leftRaw : Int := (d.pvec.head?.map fun p => truncate p.left_x).getD 0

def leftVal : Int := (d.pvec.head?.map fun p => truncate p.left_y).getD 0

def rightRaw : Int := (d.pvec.getLast?.map fun p => truncate p.right_x).getD 0

def rightVal : Int := (d.pvec.getLast?.map fun p => truncate p.right_y).getD 0

/-- The recursion may not end: each call takes one of `fuel`. -/
def find_range (pvec : List Part) (raw : ℚ) : Nat → Nat → Nat → Option Part
  | 0, _, _ => none
  | fuel + 1, beg, last => do
    let b ← pvec[beg]?
    if b.checkX raw then some b
    else
      let e ← pvec[last]?
      if e.checkX raw then some e
      else
        let it ← pvec[beg + (last - beg) / 2]?
        if raw < it.left_x then find_range pvec raw fuel beg (beg + (last - beg) / 2)
        else if it.right_x < raw then find_range pvec raw fuel (beg + (last - beg) / 2) last
        else some it

/-- The value of a segment that was found, rounded. -/
def valueOf (fit : Part) (raw : Int) : Int :=
  match fit.getY raw with
  | some q => lround q
  | none => outOfRange

/-- The value, and the cache after the call. -/
def getValue (fuel : Nat) (s : ValueCache) (raw : Int) (crop_raw : Bool) : Option (Int × ValueCache) :=
  if raw < d.leftRaw then some (if crop_raw then d.leftVal else outOfRange, s)
  else if d.rightRaw < raw then some (if crop_raw then d.rightVal else outOfRange, s)
  else
    match if s.szCache ≠ 0 then ValueCache.find raw s.cache else none with
    | some (val, cache) =>
      let numCallToCache := (s.numCallToCache + 18446744073709551615) % 18446744073709551616
      if numCallToCache ≠ 0 then some (val, { s with cache, numCallToCache })
      else do
        let cache ← ValueCache.sort cache
        return (val, { s with cache, numCallToCache := s.numCacheResort })
    | none => do
      let fit ← find_range d.pvec raw fuel 0 (d.pvec.length - 1)
      if s.szCache ≠ 0 then
        let s ← s.insertToCache raw (valueOf fit raw)
        return (valueOf fit raw, s)
      else return (valueOf fit raw, s)

end Calibration

end Uniset.Extensions
