import Libipfs.Path.Path

/-!
# Links in the DNS

A TXT record `dnslink=<path>` makes a domain a link to a path, which may begin with another
domain.  What is looked up is a finite map from domains to their records.

* `dnslinkParseTxt`, `dnslinkParseLinkDomain`   a record, and a link to another domain;
* `dnslinkResolveOnce`, `dnslinkResolveN`       one step, and as many as the depth allows;
* `documented`                  the recursion that the comments describe;
* `Resolution.MetBy`            a run does what they describe;
* `dnslinkResolveOnce_eq`       a step never stores a path, as it gives away a null pointer;
* `metBy_iff`                   **a resolution is as described** when the first step has no record
                                to look at.
-/

set_option linter.unusedVariables false

namespace Ipfs
open CSem

inductive ResolveErr where
  | allocFailed
  | resolveFailed
  | invalidDomain
  | invalidDNSLink
  | invalidParam
  | resolveLimit
  deriving DecidableEq, Repr

def ValidDomain (d : List UInt8) : Prop := isdomainIsDomain d = .ok true

instance (d : List UInt8) : Decidable (ValidDomain d) :=
  inferInstanceAs (Decidable (isdomainIsDomain d = .ok true))

/-- a finite map from valid domains to their TXT records -/
abbrev TxtMap : Type := List ({ d : List UInt8 // ValidDomain d } × List (List UInt8))

/-- nothing for a domain that is not in the map -/
def TxtMap.lookupTxt (zone : TxtMap) (name : List UInt8) : Option (List (List UInt8)) :=
  (zone.find? fun entry => decide (entry.1.1 = name)).map Prod.snd

/-! ## the code -/

/-- `dnslink` -/
def dnslinkName : List UInt8 := [100, 110, 115, 108, 105, 110, 107]

/-- `dns` -/
def dnsName : List UInt8 := [100, 110, 115]

/-- `/dns/` -/
def dnsPrefix : List UInt8 := 47 :: (dnsName ++ [47])

/-- no error, and the path of a record that has two parts -/
def takeParts : List (List UInt8) → Option ResolveErr × Option (List UInt8)
  | [name, path] =>
    if name = dnslinkName ∧ path.head? = some 47 then (none, pathCleanPath path)
    else (some .invalidDNSLink, none)
  | _ => (some .invalidDNSLink, none)

/-- `hasPath` when there is a place for the path -/
def dnslinkParseTxt (hasPath : Bool) (txt : List UInt8) :
    Option ResolveErr × Option (List UInt8) :=
  if hasPath = false then (some .invalidParam, none)
  else
    match pathSplitN txt 61 2 with
    | none => (some .allocFailed, none)
    | some parts => takeParts parts

/-- the records, up to the first that is taken -/
def parseRecords (hasPath : Bool) : List (List UInt8) → Option ResolveErr → Option (List UInt8) →
    Option ResolveErr × Option (List UInt8)
  | [], err, path => (err, path)
  | txt :: records, err, path =>
    match dnslinkParseTxt hasPath txt with
    | (none, path) => (none, path)
    | (some err, path) => parseRecords hasPath records (some err) path

/-- the place for the path is `*p`, which has been set to a null pointer -/
def dnslinkResolveOnce (zone : TxtMap) (domain : List UInt8) :
    Exec (Option ResolveErr × Option (List UInt8)) := do
  if ← isdomainIsDomain domain then
    match zone.lookupTxt domain with
    | none => .ok (some .resolveFailed, none)
    | some records => .ok (parseRecords false records (some .resolveFailed) none)
  else .ok (some .invalidDomain, none)

/-- the domain and the segment behind it; the segments that follow are left out -/
def dnslinkParseLinkDomain (txt : List UInt8) :
    Exec (Option ResolveErr × Option (List UInt8 × Option (List UInt8))) :=
  match pathSplitN txt 47 4 with
  | some (first :: second :: domain :: rest) =>
    if first ≠ [] ∨ second ≠ dnsName then .ok (some .invalidDNSLink, none)
    else do
      if ← isdomainIsDomain domain then .ok (none, some (domain, rest.head?))
      else .ok (some .invalidDomain, none)
  | _ => .ok (some .invalidDNSLink, none)

/-- a copy into one of the buffers of 500 bytes, the last of which is not written -/
def copyTail (src : List UInt8) : Exec (List UInt8) := do
  require .uninitialized (src.length < 499)
  .ok src

/-- a buffer that may not have been written -/
def initialized (buf : Option (List UInt8)) : Exec (List UInt8) :=
  match buf with
  | none => .error .uninitialized
  | some text => .ok text

/-- the code, and what is stored through `p`; the value at the limit stays in `tail` -/
def resolveLoop (zone : TxtMap) : Nat → List UInt8 → Option (List UInt8) →
    Exec (Option ResolveErr × Option (List UInt8))
  | 0, domain, tail => do
    let buf ← initialized tail
    let tail := strncat dnsPrefix domain (499 - dnsPrefix.length)
    let tail := strncat tail buf (499 - tail.length)
    .ok (some .resolveLimit, none)
  | depth + 1, domain, tail => do
    match ← dnslinkResolveOnce zone domain with
    | (some err, _) => .ok (some err, none)
    | (none, link) => do
      let link ← deref link
      require .outOfBounds (dnsPrefix.length ≤ link.length + 1)
      if ¬ dnsPrefix <+: link then do
        let tail ← initialized tail
        let l := link.length + tail.length
        -- `*p[l]` is the pointer `l` places behind `p`
        require .outOfBounds (l = 0)
        .ok (none, some (strncat (link.take l) tail (l - link.length)))
      else do
        match ← dnslinkParseLinkDomain link with
        | (some err, _) => .ok (some err, none)
        | (none, parts) => do
          let (d, rest) ← deref parts
          let buf ← initialized tail
          let buf ← copyTail buf
          let rest ← deref rest
          let tail ← copyTail rest
          resolveLoop zone depth (d.take 499) (some (strncat tail buf (499 - tail.length)))

/-- the domain is copied into 500 bytes; `tail` is not written -/
def dnslinkResolveN (zone : TxtMap) (d : List UInt8) (depth : Nat) :
    Exec (Option ResolveErr × Option (List UInt8)) :=
  resolveLoop zone depth (d.take 499) none

/-! ## what the comments describe -/

/-- what a resolution comes to -/
inductive Resolution where
  | found (path : List UInt8)
  | limit (last : List UInt8)
  | failed (err : ResolveErr)
  deriving DecidableEq, Repr

/-- the path of a record, which may have more equals signs in it -/
def txtLink (txt : List UInt8) : Option (List UInt8) :=
  match cutAt 61 txt with
  | (name, some path) => if name = dnslinkName ∧ path.head? = some 47 then some path else none
  | (_, none) => none

/-- the first link among the records of a domain -/
def domainLink (zone : TxtMap) (domain : List UInt8) : Except ResolveErr (List UInt8) :=
  if ¬ ValidDomain domain then .error .invalidDomain
  else
    match (zone.lookupTxt domain).getD [] with
    | [] => .error .resolveFailed
    | txt :: records =>
      match (txt :: records).findSome? txtLink with
      | none => .error .invalidDNSLink
      | some link => .ok link

/-- the domain of a link to one, and what comes behind it, from the slash on -/
def linkDomain (link : List UInt8) : Option (List UInt8 × List UInt8) :=
  if dnsPrefix <+: link then
    let link := link.drop dnsPrefix.length
    some (link.takeWhile (· ≠ 47), link.dropWhile (· ≠ 47))
  else none

/-- **the recursion**; `tail` is what the links so far have behind their domains -/
def documented (zone : TxtMap) : Nat → List UInt8 → List UInt8 → Resolution
  | 0, domain, tail => .limit (dnsPrefix ++ (domain ++ tail))
  | depth + 1, domain, tail =>
    match domainLink zone domain with
    | .error err => .failed err
    | .ok link =>
      match linkDomain link with
      | none => .found (link ++ tail)
      | some (domain, rest) =>
        if ValidDomain domain then documented zone depth domain (rest ++ tail)
        else .failed .invalidDomain

/-- the last value may be followed by a slash -/
def Resolution.MetBy (run : Exec (Option ResolveErr × Option (List UInt8))) : Resolution → Prop
  | .found path => run = .ok (none, some path)
  | .limit last => ∃ value, run = .ok (some .resolveLimit, some value) ∧
      (value = last ∨ value = last ++ [47])
  | .failed err => ∃ value, run = .ok (some err, value)

/-! ## one step -/

section
variable {zone : TxtMap} {domain tail txt name path : List UInt8} {depth : Nat}

theorem txtMap_valid {records : List (List UInt8)} (h : zone.lookupTxt domain = some records) :
    ValidDomain domain := by
  obtain ⟨entry, hfind, -⟩ := Option.map_eq_some_iff.1 h
  have hfound := List.find?_some hfind
  have hname : entry.1.1 = domain := of_decide_eq_true hfound
  rw [← hname]
  exact entry.1.2

/-- nothing is taken when there is no place for it -/
theorem parseRecords_null {records : List (List UInt8)} {err : Option ResolveErr} :
    parseRecords false records err none =
      (if records = [] then err else some .invalidParam, none) := by
  induction records generalizing err with
  | nil => rfl
  | cons txt records ih =>
    have hstep : parseRecords false (txt :: records) err none =
        parseRecords false records (some .invalidParam) none := rfl
    rw [hstep, ih, if_neg (List.cons_ne_nil _ _), ite_self]

/-- what is wrong with a domain that has no records -/
def emptyError (domain : List UInt8) : ResolveErr :=
  if ValidDomain domain then .resolveFailed else .invalidDomain

/-- **a step never stores a path** -/
theorem dnslinkResolveOnce_eq (hdomain : domain ≠ []) :
    dnslinkResolveOnce zone domain =
      .ok (some (if (zone.lookupTxt domain).getD [] = [] then emptyError domain
        else .invalidParam), none) := by
  unfold dnslinkResolveOnce emptyError
  by_cases hvalid : ValidDomain domain
  · rw [show isdomainIsDomain domain = .ok true from hvalid, ok_bind, if_pos rfl]
    cases hrecords : zone.lookupTxt domain with
    | none =>
      rw [if_pos hvalid]
      rfl
    | some records =>
      show Except.ok (parseRecords false records (some .resolveFailed) none) = _
      rw [parseRecords_null, Option.getD_some, if_pos hvalid]
      split
      · rfl
      · rfl
  · have hfalse : isdomainIsDomain domain = .ok false := by
      obtain ⟨valid, h⟩ := safe_isdomainIsDomain.2 hdomain
      cases valid with
      | false => exact h
      | true => exact absurd h hvalid
    have hlookup : zone.lookupTxt domain = none :=
      Option.eq_none_iff_forall_not_mem.2 fun records h => hvalid (txtMap_valid h)
    rw [hfalse, ok_bind, hlookup, if_neg hvalid]
    rfl

theorem dnslinkResolveN_eq (hdepth : 0 < depth) (hdomain : domain ≠ []) :
    dnslinkResolveN zone domain depth =
      .ok (some (if (zone.lookupTxt (domain.take 499)).getD [] = [] then
        emptyError (domain.take 499) else .invalidParam), none) := by
  obtain ⟨steps, rfl⟩ := Nat.exists_eq_add_of_lt hdepth
  have htake : domain.take 499 ≠ [] := fun h =>
    (List.take_eq_nil_iff.1 h).elim (by decide) hdomain
  unfold dnslinkResolveN
  rw [resolveLoop, dnslinkResolveOnce_eq htake, ok_bind]

/-! ## the whole recursion -/

/-- a domain has its own errors, whatever the steps to it -/
theorem documented_ne : documented zone depth domain tail ≠ .failed .invalidParam := by
  induction depth generalizing domain tail with
  | zero =>
    intro h
    cases h
  | succ depth ih =>
    rw [documented]
    cases hlink : domainLink zone domain with
    | error err =>
      intro h
      obtain rfl : err = .invalidParam := Resolution.failed.inj h
      unfold domainLink at hlink
      split at hlink
      · cases hlink
      split at hlink
      · cases hlink
      split at hlink
      · cases hlink
      · cases hlink
    | ok link =>
      dsimp only
      cases hdomain : linkDomain link with
      | none =>
        intro h
        cases h
      | some pair =>
        obtain ⟨next, rest⟩ := pair
        dsimp only
        split
        · exact ih
        · intro h
          cases h

theorem documented_of_unread (hdepth : 0 < depth) (h : (zone.lookupTxt domain).getD [] = []) :
    documented zone depth domain tail = .failed (emptyError domain) := by
  obtain ⟨steps, rfl⟩ := Nat.exists_eq_add_of_lt hdepth
  have hlink : domainLink zone domain = .error (emptyError domain) := by
    unfold domainLink emptyError
    rw [h]
    by_cases hvalid : ValidDomain domain
    · rw [if_neg (not_not_intro hvalid), if_pos hvalid]
    · rw [if_pos hvalid, if_neg hvalid]
  rw [Nat.zero_add, documented, hlink]

/-- a run that stores nothing ends in an error -/
theorem eq_failed_of_metBy {resolution : Resolution} {err : ResolveErr}
    (h : resolution.MetBy (.ok (some err, none))) : resolution = .failed err := by
  cases resolution with
  | found path => cases h
  | limit last =>
    obtain ⟨value, hrun, -⟩ := h
    cases hrun
  | failed err' =>
    obtain ⟨value, hrun⟩ := h
    cases hrun
    rfl

end

/-- there is no record to look at; 499 bytes of the domain are looked up -/
structure Unread (zone : TxtMap) (domain : List UInt8) (depth : Nat) : Prop where
  steps : 0 < depth
  nonempty : domain ≠ []
  records : (zone.lookupTxt (domain.take 499)).getD [] = []
  long : 499 < domain.length →
    documented zone depth domain [] = .failed (emptyError (domain.take 499))

/-- **a resolution is as described** iff its first step has no record to look at -/
theorem metBy_iff (zone : TxtMap) (domain : List UInt8) (depth : Nat) :
    (documented zone depth domain []).MetBy (dnslinkResolveN zone domain depth) ↔
      Unread zone domain depth := by
  constructor
  · intro h
    have hdepth : 0 < depth := by
      apply Nat.pos_of_ne_zero
      rintro rfl
      obtain ⟨value, hrun, -⟩ := h
      cases hrun
    have hdomain : domain ≠ [] := by
      rintro rfl
      obtain ⟨steps, rfl⟩ := Nat.exists_eq_add_of_lt hdepth
      obtain ⟨value, hrun⟩ := h
      cases hrun
    -- the code ends in an error, and so does the recursion
    rw [dnslinkResolveN_eq hdepth hdomain] at h
    have hfailed : documented zone depth domain [] =
        .failed (if (zone.lookupTxt (domain.take 499)).getD [] = [] then
          emptyError (domain.take 499) else .invalidParam) := eq_failed_of_metBy h
    have hrecords : (zone.lookupTxt (domain.take 499)).getD [] = [] := by
      by_contra hne
      rw [if_neg hne] at hfailed
      exact documented_ne hfailed
    rw [if_pos hrecords] at hfailed
    exact ⟨hdepth, hdomain, hrecords, fun _ => hfailed⟩
  · intro h
    have hfailed : documented zone depth domain [] = .failed (emptyError (domain.take 499)) := by
      by_cases hlen : 499 < domain.length
      · exact h.long hlen
      · have hrecords := h.records
        rw [List.take_of_length_le (Nat.le_of_not_lt hlen)] at hrecords ⊢
        exact documented_of_unread h.steps hrecords
    rw [dnslinkResolveN_eq h.steps h.nonempty, hfailed, if_pos h.records]
    exact ⟨none, rfl⟩

/-- a link from `a.com` to the path `/b` -/
def linkedDomain : TxtMap :=
  [(⟨[97, 46, 99, 111, 109], by decide⟩, [dnslinkName ++ [61, 47, 98]])]

theorem not_forall_metBy :
    ¬ ∀ (zone : TxtMap) (domain : List UInt8) (depth : Nat),
      (documented zone depth domain []).MetBy (dnslinkResolveN zone domain depth) := by
  intro h
  have hrun := h linkedDomain [97, 46, 99, 111, 109] 16
  have hfound : documented linkedDomain 16 [97, 46, 99, 111, 109] [] = .found [47, 98] := by
    decide
  rw [hfound] at hrun
  have hcode : dnslinkResolveN linkedDomain [97, 46, 99, 111, 109] 16 =
      .ok (some .invalidParam, none) := by decide
  have hpath : dnslinkResolveN linkedDomain [97, 46, 99, 111, 109] 16 =
      .ok (none, some [47, 98]) := hrun
  rw [hcode] at hpath
  cases hpath

end Ipfs
