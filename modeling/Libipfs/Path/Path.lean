import Libipfs.Namesys.IsDomain

/-!
# Paths

* `pathSplitN`      cutting a path; a limit leaves out what is behind one segment more;
* `pathCleanPath`   the lexical processing of a path, segment by segment.
-/

namespace Ipfs
open CSem

/-- every caller gives a delimiter of one character; all segments when `n` is negative -/
def pathSplitN (p : List UInt8) (delim : UInt8) (n : Int) : Option (List (List UInt8)) :=
  if n = 0 then none
  else if n < 0 then some (p.splitOn delim)
  else some ((p.splitOn delim).take (n.toNat + 1))

def strncat (dst src : List UInt8) (n : Nat) : List UInt8 := dst ++ src.take n

/-- the path so far, and one more segment; the buffer has room for `l` characters -/
def cleanSegment (l : Nat) (r segment : List UInt8) : List UInt8 :=
  if segment = [] ∧ r = [] then [47]
  else if segment = [46, 46] then
    match strrchr 47 r with
    | some s => if 0 < s then r.take s else r
    | none => r
  else if segment ≠ [] ∧ segment.head? ≠ some 47 ∧ segment ≠ [46] then
    let r :=
      if r = [] then strncat r [46, 47] (l - r.length)
      else if r.getLast? ≠ some 47 then strncat r [47] (l - r.length)
      else r
    strncat r segment (l - r.length)
  else r

/-- the segments of the path are put together again -/
def pathCleanPath (str : List UInt8) : Option (List UInt8) :=
  (pathSplitN str 47 (-1)).map fun path => path.foldl (cleanSegment (str.length + 2)) []

end Ipfs
