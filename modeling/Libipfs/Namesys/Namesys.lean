import Libipfs.Path.Path

/-!
# Names

A name is made a path, or handed to a resolver again and again.  The parser of a path writes
nothing: a text of two segments is refused, one with three slashes is compared as a whole with
`/ipfs/` and with `/ipns/`, and a CID is never decoded.

* `pathParse_eq_none`   the buffer is not written;
* `namesysResolveN_not_safe`   so no name is resolved: the buffer is read, or the two functions
                               call each other for ever;
* `not_resolvesBounded`   **no name is resolved in a bounded number of steps**.
-/

set_option linter.unusedVariables false

namespace Ipfs
open CSem

/-! ## errors -/

def errAllocFailed : Int := 1
def errResolveRecursion : Int := 8
def errBadPath : Int := 14
def errNoComponents : Int := 15
def errCidDecode : Int := 16

def ipfsName : List UInt8 := asciiBytes "/ipfs/"
def ipnsName : List UInt8 := asciiBytes "/ipns/"

/-! ## parsing a path -/

/-- the error and what is written to the destination; the call of the decoder is commented out,
so the CID is null -/
def pathParseFromCid (txt : List UInt8) : Int × Option (List UInt8) :=
  if txt = [] then (errNoComponents, none)
  else (errCidDecode, none)

/-- the error and what is written to the destination -/
def pathParse (txt : List UInt8) : Int × Option (List UInt8) :=
  if txt = [] then (errNoComponents, none)
  else if txt.head? ≠ some 47 ∨ txt.tail.contains 47 = false then
    let (err, dst) := pathParseFromCid (if txt.head? = some 47 then txt.tail else txt)
    if err = 0 then (err, dst.map fun cid => ipfsName ++ cid)
    else (err, dst)
  else if txt.count 47 < 3 then (errBadPath, none)
  else if txt = ipfsName then pathParseFromCid (cutAt 47 (txt.drop 6)).1
  else if txt ≠ ipnsName then (errBadPath, none)
  else (0, none)

/-! ## resolving a name -/

/-- `strlen(p)` and the copy, for the array that the parser was given; an empty one is reported -/
def copyParsed (p : Option (List UInt8)) : Exec (Int × List UInt8) := do
  match p with
  | none => .error .uninitialized
  | some p => .ok (if p = [] then errAllocFailed else 0, p)

/-- `DefaultDepthLimit` -/
def defaultDepthLimit : Int := 32

/-- the error and the path; the depth is not looked at -/
def namesysResolveN : Nat → List UInt8 → Int → Exec (Int × List UInt8)
  | 0, _, _ => .error .diverges
  | fuel + 1, name, depth =>
    if ipfsName <+: name then copyParsed (pathParse name).2
    else if name.head? = some 47 then copyParsed (pathParse (ipfsName ++ name.tail)).2
    else namesysResolveN fuel name defaultDepthLimit

/-! ## the loop over a resolver -/

/-- an error is not zero -/
abbrev ResolveError : Type := { err : Int // err ≠ 0 }

/-- what a resolver makes of a name -/
abbrev NameResolver : Type := List UInt8 → Except ResolveError (List UInt8)

/-- the number of calls of the resolver, the error, and the results; `address` are the bytes of
the pointer that is stored for a string, which are compared in place of the string.  The name is
not replaced by the result, it only moves on. -/
def namesysBaseResolve (address : List UInt8 → List UInt8) (r : NameResolver)
    (prefixes : List (List UInt8)) : Nat → List UInt8 → Exec (Nat × Int × Option (List UInt8))
  | 0, _ => .error .diverges
  | depth + 1, str =>
    match r str with
    | .error err => .ok (1, err.1, none)
    | .ok p =>
      if ipfsName <+: address p then .ok (1, 0, some p)
      else if depth = 0 then .ok (1, errResolveRecursion, some p)
      else
        match prefixes.find? fun q => q <+: p with
        | none => .ok (1, 0, some p)
        | some q => do
          require .outOfBounds (prefixes.length = 1 → q.length ≤ str.length)
          let (calls, outcome) ← namesysBaseResolve address r prefixes depth
            (if prefixes.length = 1 then str.drop q.length else str)
          .ok (calls + 1, outcome)

/-! ## what a name should be resolved to -/

/-- without the first of the prefixes that it has -/
def withoutNamePrefix (prefixes : List (List UInt8)) (p : List UInt8) : List UInt8 :=
  match prefixes.find? fun q => q <+: p with
  | none => p
  | some q => p.drop q.length

/-- the first `/ipfs/` path among so many results, each made of the one before -/
def followNames (r : NameResolver) (prefixes : List (List UInt8)) :
    Nat → List UInt8 → Int × Option (List UInt8)
  | 0, _ => (errResolveRecursion, none)
  | depth + 1, name =>
    match r name with
    | .error err => (err.1, none)
    | .ok p =>
      if ipfsName <+: p then (0, some p)
      else followNames r prefixes depth (withoutNamePrefix prefixes p)

/-- the two functions return, after at most `depth` calls, and the loop with the right outcome -/
def ResolvesBounded (address : List UInt8 → List UInt8) (r : NameResolver)
    (prefixes : List (List UInt8)) (name : List UInt8) (depth : Nat) : Prop :=
  (∃ fuel, Safe (namesysResolveN fuel name depth)) ∧
    ∃ calls err path, namesysBaseResolve address r prefixes depth name = .ok (calls, err, path) ∧
      calls ≤ depth ∧ err = (followNames r prefixes depth name).1 ∧
      (err = 0 → path = (followNames r prefixes depth name).2)

/-! ## the two functions -/

theorem pathParseFromCid_eq_none (txt : List UInt8) : (pathParseFromCid txt).2 = none := by
  unfold pathParseFromCid
  split
  · rfl
  · rfl

/-- the destination is not written -/
theorem pathParse_eq_none (txt : List UInt8) : (pathParse txt).2 = none := by
  unfold pathParse
  by_cases hempty : txt = []
  · rw [if_pos hempty]
  rw [if_neg hempty]
  by_cases hone : txt.head? ≠ some 47 ∨ txt.tail.contains 47 = false
  · rw [if_pos hone]
    generalize (if txt.head? = some 47 then txt.tail else txt) = rest
    dsimp only
    rw [pathParseFromCid_eq_none rest]
    by_cases herr : (pathParseFromCid rest).1 = 0
    · rw [if_pos herr]
      rfl
    · rw [if_neg herr]
  rw [if_neg hone]
  by_cases hslashes : txt.count 47 < 3
  · rw [if_pos hslashes]
  rw [if_neg hslashes]
  by_cases hipfs : txt = ipfsName
  · rw [if_pos hipfs]
    exact pathParseFromCid_eq_none _
  rw [if_neg hipfs]
  by_cases hipns : txt ≠ ipnsName
  · rw [if_pos hipns]
  · rw [if_neg hipns]

/-- **no name is resolved** -/
theorem namesysResolveN_not_safe (fuel : Nat) (name : List UInt8) (depth : Int) :
    ¬ Safe (namesysResolveN fuel name depth) := by
  induction fuel generalizing depth with
  | zero => exact not_safe_error _
  | succ fuel ih =>
    unfold namesysResolveN
    by_cases hipfs : ipfsName <+: name
    · rw [if_pos hipfs, pathParse_eq_none]
      exact not_safe_error _
    · rw [if_neg hipfs]
      by_cases hslash : name.head? = some 47
      · rw [if_pos hslash, pathParse_eq_none]
        exact not_safe_error _
      · rw [if_neg hslash]
        exact ih defaultDepthLimit

/-- **no name is resolved in a bounded number of steps** -/
theorem not_resolvesBounded (address : List UInt8 → List UInt8) (r : NameResolver)
    (prefixes : List (List UInt8)) (name : List UInt8) (depth : Nat) :
    ¬ ResolvesBounded address r prefixes name depth := by
  rintro ⟨⟨fuel, hsafe⟩, -⟩
  exact namesysResolveN_not_safe fuel name depth hsafe

/-! ## a name of one step -/

/-- the name `a` stands for `/ipfs/b` -/
def oneName : NameResolver := fun name =>
  if name = asciiBytes "a" then .ok (asciiBytes "/ipfs/b") else .error ⟨7, by decide⟩

/-- pointers to the heap -/
def heapAddress : List UInt8 → List UInt8 := fun _ => [0x90, 0x12, 0x40, 0x55, 0x55, 0x55, 0, 0]

/-- even the path that a name stands for is not found: with one step left it is an error -/
theorem not_resolvesBounded_oneName :
    ¬ ResolvesBounded heapAddress oneName [ipnsName] (asciiBytes "a") 1 := by
  rintro ⟨-, calls, err, path, hrun, -, herr, -⟩
  have hcode : namesysBaseResolve heapAddress oneName [ipnsName] 1 (asciiBytes "a") =
      .ok (1, errResolveRecursion, some (asciiBytes "/ipfs/b")) := by decide
  have hright : (followNames oneName [ipnsName] 1 (asciiBytes "a")).1 = 0 := by decide
  rw [hcode] at hrun
  obtain ⟨-, hrun⟩ := Prod.mk.inj (Except.ok.inj hrun)
  obtain ⟨rfl, -⟩ := Prod.mk.inj hrun
  rw [hright] at herr
  exact absurd herr (by decide)

end Ipfs
