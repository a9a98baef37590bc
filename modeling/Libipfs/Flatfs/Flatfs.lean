import Libipfs.Os.Utils
import Mathlib.Logic.Function.Basic

/-!
# Flat files

A file for each key, in a directory that is named after the first 16 characters of the key.  The
file is written under another name and moved.

* `flatfsGetFullFilename`, `flatfsPut`   the names, and the write;
* `FlatKey`                    a key: slashes, and a name without one;
* `flatfsGetFullFilename_eq_some`   the name of a file, and the room that it takes;
* `flatFullFilename_injective`      different names are files of their own;
* `flatfs_iff`                 **when the report of a write is right**: hardly ever for two bytes or
                               more, since the items are counted and not the bytes.
-/

namespace Ipfs
open CSem Libp2p

/-! ## the names -/

/-- `pos` is an `int` -/
def skipSlashes : Nat → List UInt8 → Exec (List UInt8)
  | _, [] => .ok []
  | pos, c :: text =>
    if c = 47 then do
      require .overflow (pos + 1 < 2 ^ 31)
      skipSlashes (pos + 1) text
    else .ok (c :: text)

/-- `none` when the function returns 0, here and below -/
def flatfsRemovePreceedingSlash (text : List UInt8) (maxSize : Nat) :
    Exec (Option (List UInt8)) :=
  if maxSize < text.length + 1 then .ok none
  else do
    let rest ← skipSlashes 0 text
    let out ← strcpy maxSize rest
    .ok (some out)

/-- 16 characters at least -/
def padPrefix (size : Nat) (buffer : List UInt8) : Exec (List UInt8) :=
  if buffer.length < 16 then strcat size buffer (List.replicate (16 - buffer.length) 95)
  else .ok buffer

def flatfsGetDirectory (datastorePath proposedFilename : List UInt8) (maxLength : Nat) :
    Exec (Option (List UInt8)) :=
  if maxLength < datastorePath.length + 17 then .ok none
  else do
    match ← flatfsRemovePreceedingSlash proposedFilename maxLength with
    | none => .ok none
    | some buffer => do
      let buffer ← padPrefix maxLength buffer
      -- it may be too long, cut it
      filepathJoin datastorePath (buffer.take 16) maxLength

/-- `.data` -/
def dataSuffix : List UInt8 := [46, 100, 97, 116, 97]

def flatfsGetFilename (proposedFilename : List UInt8) (maxLength : Nat) :
    Exec (Option (List UInt8)) := do
  match ← flatfsRemovePreceedingSlash proposedFilename maxLength with
  | none => .ok none
  | some buffer =>
    if maxLength < buffer.length + 6 then .ok none
    else do
      let buffer ← strcat maxLength buffer dataSuffix
      let derived ← strcpy maxLength buffer
      .ok (some derived)

def flatfsGetFullFilename (datastorePath proposedFilename : List UInt8) (maxLength : Nat) :
    Exec (Option (List UInt8)) := do
  match ← flatfsRemovePreceedingSlash proposedFilename maxLength with
  | none => .ok none
  | some _ => do
    match ← flatfsGetDirectory datastorePath proposedFilename maxLength with
    | none => .ok none
    | some directory => do
      match ← flatfsGetFilename proposedFilename maxLength with
      | none => .ok none
      | some actualFilename => filepathJoin directory actualFilename maxLength

/-! ## the file system -/

/-- what there is under each name -/
abbrev FlatFiles : Type := List UInt8 → Option (List UInt8)

/-- the answers of the calls; a write may take a part of the bytes, and of those some may be lost
when the file is closed -/
structure FileSystem where
  writeable : List UInt8 → Bool
  directoryExists : List UInt8 → Bool
  mkdir : List UInt8 → Bool
  fopen : List UInt8 → Bool
  accepted : Nat → Nat
  accepted_le : ∀ n, accepted n ≤ n
  kept : Nat → Nat
  kept_le : ∀ n, kept n ≤ n
  rename : List UInt8 → List UInt8 → Bool

def FileSystem.createDirectory (sys : FileSystem) (directory : List UInt8) : Bool :=
  if sys.writeable directory then true
  else if sys.directoryExists directory then false
  else sys.mkdir directory

/-- the bytes of an item are all written, or the item is not counted -/
def FileSystem.fwrite (sys : FileSystem) (size : Nat) : Nat :=
  if size ≠ 0 ∧ sys.accepted size = size then 1 else 0

/-- what is in the file when it is closed -/
def FileSystem.written (sys : FileSystem) (bytes : List UInt8) : List UInt8 :=
  bytes.take (sys.kept (sys.accepted bytes.length))

/-- `.tmp` -/
def tempSuffix : List UInt8 := [46, 116, 109, 112]

/-- a directory of 16 characters, two slashes, the suffix and a zero byte -/
def flatfsLength (datastorePath key : List UInt8) : Nat :=
  datastorePath.length + key.length + 24

/-- what is returned, and the files -/
def flatfsPut (sys : FileSystem) (files : FlatFiles) (datastorePath key bytes : List UInt8) :
    Exec (Bool × FlatFiles) := do
  let filenameLength := flatfsLength datastorePath key
  match ← flatfsGetDirectory datastorePath key filenameLength with
  | none => .ok (false, files)
  | some directory =>
    if sys.createDirectory directory = false then .ok (false, files)
    else do
      match ← flatfsGetFullFilename datastorePath key filenameLength with
      | none => .ok (false, files)
      | some full => do
        let temp ← strcat (filenameLength + 5) full tempSuffix
        -- the file is not looked at
        require .null (sys.fopen temp = true)
        let bytesWritten := sys.fwrite bytes.length
        let files := Function.update files temp (some (sys.written bytes))
        if sys.rename temp full = false then .ok (false, files)
        else
          let files := Function.update (Function.update files full (files temp)) temp none
          .ok (bytesWritten == bytes.length, files)

/-! ## keys -/

/-- slashes in front, and no other; no zero but the one behind it -/
structure FlatKey where
  slashes : Nat
  name : List UInt8
  noSlash : 47 ∉ name
  noZero : 0 ∉ name
  nonempty : slashes + name.length ≠ 0

def FlatKey.text (key : FlatKey) : List UInt8 := List.replicate key.slashes 47 ++ key.name

/-- 16 characters -/
def flatPrefix (name : List UInt8) : List UInt8 :=
  (name ++ List.replicate (16 - name.length) 95).take 16

def flatDirectory (path name : List UInt8) : List UInt8 := joinPath path (flatPrefix name)

def flatFullFilename (path name : List UInt8) : List UInt8 :=
  joinPath (flatDirectory path name) (name ++ dataSuffix)

section
variable {key key' : FlatKey} {path name name' out : List UInt8} {maxLength pos n : Nat}

theorem length_flatPrefix (name : List UInt8) : (flatPrefix name).length = 16 := by
  unfold flatPrefix
  rw [List.length_take, List.length_append, List.length_replicate]
  omega

theorem not_mem_flatPrefix (h : 47 ∉ name) : 47 ∉ flatPrefix name := by
  intro hmem
  rcases List.mem_append.1 (List.mem_of_mem_take hmem) with hname | hpad
  · exact h hname
  · exact absurd (List.eq_of_mem_replicate hpad) (by decide)

theorem head_ne_of_not_mem {text : List UInt8} (h : 47 ∉ text) : text.head? ≠ some 47 :=
  fun hhead => h (List.mem_of_mem_head? hhead)

theorem not_mem_filename (h : 47 ∉ name) : 47 ∉ name ++ dataSuffix := by
  intro hmem
  rcases List.mem_append.1 hmem with hname | hsuffix
  · exact h hname
  · exact absurd hsuffix (by decide)

/-- a directory does not end in a slash -/
theorem getLast?_flatDirectory (h : 47 ∉ name) :
    (flatDirectory path name).getLast? ≠ some 47 := by
  have hne : flatPrefix name ≠ [] := by
    intro hnil
    have hlen := length_flatPrefix name
    rw [hnil] at hlen
    cases hlen
  have hlast : (flatDirectory path name).getLast? = (flatPrefix name).getLast? := by
    unfold flatDirectory joinPath
    split
    · rw [List.getLast?_append_of_ne_nil _ (List.cons_ne_nil _ _), List.getLast?_cons_of_ne_nil hne]
    · exact List.getLast?_append_of_ne_nil _ hne
  rw [hlast]
  exact fun hmem => not_mem_flatPrefix h (List.mem_of_getLast? hmem)

theorem flatFullFilename_eq (h : 47 ∉ name) :
    flatFullFilename path name = flatDirectory path name ++ 47 :: (name ++ dataSuffix) :=
  joinPath_pos ⟨getLast?_flatDirectory h, head_ne_of_not_mem (not_mem_filename h)⟩

/-- of the path alone -/
theorem length_flatDirectory (h : 47 ∉ name) :
    (flatDirectory path name).length = path.length + 16 + if path.getLast? = some 47 then 0 else 1 := by
  have hhead := head_ne_of_not_mem (not_mem_flatPrefix h)
  unfold flatDirectory
  rw [length_joinPath, length_flatPrefix]
  by_cases hslash : path.getLast? = some 47
  · rw [if_pos hslash, if_neg fun hneeds => hneeds.1 hslash]
  · rw [if_neg hslash, if_pos ⟨hslash, hhead⟩]

/-- **different names are files of their own** -/
theorem flatFullFilename_injective (h : 47 ∉ name) (h' : 47 ∉ name')
    (heq : flatFullFilename path name = flatFullFilename path name') : name = name' := by
  rw [flatFullFilename_eq h, flatFullFilename_eq h'] at heq
  have hlen : (flatDirectory path name).length = (flatDirectory path name').length := by
    rw [length_flatDirectory h, length_flatDirectory h']
  have hfile := (List.append_inj heq hlen).2
  exact List.append_cancel_right (List.cons.inj hfile).2

/-! ## the names a key gets -/

theorem skipSlashes_eq_ok (hname : name.head? ≠ some 47) (hpos : pos < 2 ^ 31) :
    skipSlashes pos (List.replicate n 47 ++ name) = .ok out ↔ pos + n < 2 ^ 31 ∧ out = name := by
  induction n generalizing pos with
  | zero =>
    have hstop : skipSlashes pos name = .ok name := by
      cases name with
      | nil => rfl
      | cons c name => rw [skipSlashes, if_neg fun h => hname (by rw [h]; rfl)]
    rw [List.replicate_zero, List.nil_append, hstop, Except.ok.injEq]
    exact ⟨fun h => ⟨hpos, h.symm⟩, fun h => h.2.symm⟩
  | succ n ih =>
    rw [List.replicate_succ, List.cons_append, skipSlashes, if_pos rfl, require_bind_eq_ok]
    constructor
    · rintro ⟨hnext, h⟩
      obtain ⟨hle, rfl⟩ := (ih hnext).1 h
      exact ⟨by omega, rfl⟩
    · rintro ⟨hle, rfl⟩
      exact ⟨by omega, (ih (by omega)).2 ⟨by omega, rfl⟩⟩

theorem length_text (key : FlatKey) : key.text.length = key.slashes + key.name.length := by
  unfold FlatKey.text
  rw [List.length_append, List.length_replicate]

theorem removePreceedingSlash_eq_some :
    flatfsRemovePreceedingSlash key.text maxLength = .ok (some out) ↔
      key.text.length < maxLength ∧ key.slashes < 2 ^ 31 ∧ out = key.name := by
  have hlen := length_text key
  have hskip : ∀ rest, skipSlashes 0 key.text = .ok rest ↔
      0 + key.slashes < 2 ^ 31 ∧ rest = key.name :=
    fun rest => skipSlashes_eq_ok (head_ne_of_not_mem key.noSlash) (by decide)
  unfold flatfsRemovePreceedingSlash
  by_cases hroom : maxLength < key.text.length + 1
  · rw [if_pos hroom]
    exact iff_of_false (fun h => by cases h) fun h => by omega
  · rw [if_neg hroom, bind_eq_ok]
    constructor
    · rintro ⟨rest, hrest, h⟩
      obtain ⟨hslashes, rfl⟩ := (hskip rest).1 hrest
      rw [strcpy_pos (by omega), ok_bind] at h
      cases h
      exact ⟨by omega, by omega, rfl⟩
    · rintro ⟨-, hslashes, rfl⟩
      refine ⟨key.name, (hskip _).2 ⟨by omega, rfl⟩, ?_⟩
      rw [strcpy_pos (by omega), ok_bind]

theorem padPrefix_eq (h : 17 ≤ maxLength) :
    padPrefix maxLength name = .ok (name ++ List.replicate (16 - name.length) 95) := by
  unfold padPrefix
  by_cases hshort : name.length < 16
  · rw [if_pos hshort, strcat_pos (by rw [List.length_replicate]; omega)]
  · rw [if_neg hshort, Nat.sub_eq_zero_of_le (by omega), List.replicate_zero, List.append_nil]

theorem getDirectory_eq_some :
    flatfsGetDirectory path key.text maxLength = .ok (some out) ↔
      (path.length + 17 ≤ maxLength ∧ (flatDirectory path key.name).length < maxLength ∧
        key.text.length < maxLength) ∧ key.slashes < 2 ^ 31 ∧ path ≠ [] ∧
        out = flatDirectory path key.name := by
  unfold flatfsGetDirectory
  by_cases hroom : maxLength < path.length + 17
  · rw [if_pos hroom]
    exact iff_of_false (fun h => by cases h) fun h => by omega
  · rw [if_neg hroom, bind_eq_ok]
    constructor
    · rintro ⟨buffer, hbuffer, h⟩
      cases buffer with
      | none => cases h
      | some buffer =>
        obtain ⟨hkey, hslashes, rfl⟩ := removePreceedingSlash_eq_some.1 hbuffer
        dsimp only at h
        rw [padPrefix_eq (by omega), ok_bind] at h
        obtain ⟨hne, hfits, rfl⟩ := filepathJoin_eq_some.1 h
        exact ⟨⟨by omega, hfits, hkey⟩, hslashes, hne, rfl⟩
    · rintro ⟨⟨-, hfits, hkey⟩, hslashes, hne, rfl⟩
      refine ⟨some key.name, removePreceedingSlash_eq_some.2 ⟨hkey, hslashes, rfl⟩, ?_⟩
      dsimp only
      rw [padPrefix_eq (by omega), ok_bind]
      exact filepathJoin_eq_some.2 ⟨hne, hfits, rfl⟩

theorem getFilename_eq_some :
    flatfsGetFilename key.text maxLength = .ok (some out) ↔
      (key.name.length + 6 ≤ maxLength ∧ key.text.length < maxLength) ∧ key.slashes < 2 ^ 31 ∧
        out = key.name ++ dataSuffix := by
  have hsuffix : dataSuffix.length = 5 := rfl
  unfold flatfsGetFilename
  rw [bind_eq_ok]
  constructor
  · rintro ⟨buffer, hbuffer, h⟩
    cases buffer with
    | none => cases h
    | some buffer =>
      obtain ⟨hkey, hslashes, rfl⟩ := removePreceedingSlash_eq_some.1 hbuffer
      dsimp only at h
      by_cases hroom : maxLength < key.name.length + 6
      · rw [if_pos hroom] at h
        cases h
      · rw [if_neg hroom, strcat_pos (by omega), ok_bind,
          strcpy_pos (by rw [List.length_append]; omega), ok_bind] at h
        cases h
        exact ⟨⟨by omega, hkey⟩, hslashes, rfl⟩
  · rintro ⟨⟨hroom, hkey⟩, hslashes, rfl⟩
    refine ⟨some key.name, removePreceedingSlash_eq_some.2 ⟨hkey, hslashes, rfl⟩, ?_⟩
    dsimp only
    rw [if_neg (by omega), strcat_pos (by omega), ok_bind,
      strcpy_pos (by rw [List.length_append]; omega), ok_bind]

/-- **the name of a file**, and the room that it takes -/
theorem getFullFilename_eq_some :
    flatfsGetFullFilename path key.text maxLength = .ok (some out) ↔
      (path.length + 17 ≤ maxLength ∧ key.text.length < maxLength ∧
        (flatFullFilename path key.name).length < maxLength) ∧ key.slashes < 2 ^ 31 ∧ path ≠ [] ∧
        out = flatFullFilename path key.name := by
  have hlen : (flatFullFilename path key.name).length =
      (flatDirectory path key.name).length + (key.name.length + 6) := by
    rw [flatFullFilename_eq key.noSlash, List.length_append, List.length_cons, List.length_append]
    rfl
  unfold flatfsGetFullFilename
  rw [bind_eq_ok]
  constructor
  · rintro ⟨buffer, hbuffer, h⟩
    cases buffer with
    | none => cases h
    | some buffer =>
      obtain ⟨directory, hdirectory, h⟩ := bind_eq_ok.1 h
      cases directory with
      | none => cases h
      | some directory =>
        obtain ⟨file, hfile, h⟩ := bind_eq_ok.1 h
        cases file with
        | none => cases h
        | some file =>
          obtain ⟨⟨hpath, -, hkey⟩, hslashes, hne, rfl⟩ := getDirectory_eq_some.1 hdirectory
          obtain ⟨-, -, rfl⟩ := getFilename_eq_some.1 hfile
          obtain ⟨-, hfits, rfl⟩ := filepathJoin_eq_some.1 h
          exact ⟨⟨hpath, hkey, hfits⟩, hslashes, hne, rfl⟩
  · rintro ⟨⟨hpath, hkey, hfits⟩, hslashes, hne, rfl⟩
    have hdirectory : flatDirectory path key.name ≠ [] := by
      intro hnil
      have hdir := @length_flatDirectory path key.name key.noSlash
      rw [hnil] at hdir
      exact absurd hdir (by rw [List.length_nil]; omega)
    refine ⟨some key.name, removePreceedingSlash_eq_some.2 ⟨hkey, hslashes, rfl⟩, ?_⟩
    dsimp only
    rw [getDirectory_eq_some.2 ⟨⟨hpath, by omega, hkey⟩, hslashes, hne, rfl⟩, ok_bind]
    dsimp only
    rw [getFilename_eq_some.2 ⟨⟨by omega, hkey⟩, hslashes, rfl⟩, ok_bind]
    exact filepathJoin_eq_some.2 ⟨hdirectory, hfits, rfl⟩

end

/-! ## the law -/

/-- the file of the key has the bytes in it if and only if the write says so -/
def FlatfsReports (sys : FileSystem) (files : FlatFiles) (path key bytes : List UInt8) : Prop :=
  ∃ ret files' full, flatfsPut sys files path key bytes = .ok (ret, files') ∧
    flatfsGetFullFilename path key (flatfsLength path key) = .ok (some full) ∧
    (ret = true ↔ files' full = some bytes)

/-- two keys with one file -/
def SameFile (path key key' : List UInt8) : Prop :=
  ∃ full maxLength maxLength', flatfsGetFullFilename path key maxLength = .ok (some full) ∧
    flatfsGetFullFilename path key' maxLength' = .ok (some full)

/-- the bytes are in the file when the bytes are counted as one item, and there is one byte or none;
or there are more and not all of them are in the file -/
def FileSystem.CountsRight (sys : FileSystem) (size : Nat) : Prop :=
  size = 0 ∨ (size = 1 ∧ (sys.accepted 1 = 1 → sys.kept 1 = 1)) ∨
    (2 ≤ size ∧ sys.kept (sys.accepted size) < size)

/-- the answers of the calls under which the report is right -/
def FileSystem.Favourable (sys : FileSystem) (files : FlatFiles) (path name bytes : List UInt8) :
    Prop :=
  let full := flatFullFilename path name
  if sys.createDirectory (flatDirectory path name) = false then files full ≠ some bytes
  else sys.fopen (full ++ tempSuffix) = true ∧
    if sys.rename (full ++ tempSuffix) full = false then files full ≠ some bytes
    else sys.CountsRight bytes.length

section
variable {sys : FileSystem} {files : FlatFiles} {path name bytes : List UInt8} {key : FlatKey}

/-- the buffers of the write are large enough -/
theorem fits_flatfsLength (path : List UInt8) (key : FlatKey) :
    path.length + 17 ≤ flatfsLength path key.text ∧
      key.text.length < flatfsLength path key.text ∧
      (flatFullFilename path key.name).length < flatfsLength path key.text := by
  have hfull : (flatFullFilename path key.name).length =
      (flatDirectory path key.name).length + (key.name.length + 6) := by
    rw [flatFullFilename_eq key.noSlash, List.length_append, List.length_cons, List.length_append]
    rfl
  have hdir := @length_flatDirectory path key.name key.noSlash
  have hkey := length_text key
  unfold flatfsLength
  split at hdir
  · omega
  · omega

theorem temp_ne (full : List UInt8) : full ++ tempSuffix ≠ full := by
  intro h
  have hlen := congrArg List.length h
  rw [List.length_append] at hlen
  exact absurd hlen (by simp [tempSuffix])

/-- a key whose slashes are counted, below a path -/
theorem flatfsPut_eq (hpath : path ≠ []) (hslashes : key.slashes < 2 ^ 31) :
    flatfsPut sys files path key.text bytes =
      (let full := flatFullFilename path key.name
      let temp := full ++ tempSuffix
      if sys.createDirectory (flatDirectory path key.name) = false then .ok (false, files)
      else do
        require .null (sys.fopen temp = true)
        let files := Function.update files temp (some (sys.written bytes))
        if sys.rename temp full = false then .ok (false, files)
        else .ok (sys.fwrite bytes.length == bytes.length,
          Function.update (Function.update files full (files temp)) temp none)) := by
  obtain ⟨hlong, hkey, hfull⟩ := fits_flatfsLength path key
  have hdir : (flatDirectory path key.name).length < flatfsLength path key.text := by
    rw [flatFullFilename_eq key.noSlash, List.length_append] at hfull
    omega
  have hroom : (flatFullFilename path key.name).length + tempSuffix.length <
      flatfsLength path key.text + 5 := by
    have hsuffix : tempSuffix.length = 4 := rfl
    omega
  unfold flatfsPut
  dsimp only
  rw [getDirectory_eq_some.2 ⟨⟨hlong, hdir, hkey⟩, hslashes, hpath, rfl⟩, ok_bind]
  dsimp only
  rw [getFullFilename_eq_some.2 ⟨⟨hlong, hkey, hfull⟩, hslashes, hpath, rfl⟩, ok_bind]
  dsimp only
  rw [strcat_pos hroom, ok_bind]

/-- a part of the bytes is all of them when there are enough -/
theorem written_eq_iff (sys : FileSystem) (bytes : List UInt8) :
    sys.written bytes = bytes ↔ sys.kept (sys.accepted bytes.length) = bytes.length := by
  have hacc := sys.accepted_le bytes.length
  have hkept := sys.kept_le (sys.accepted bytes.length)
  unfold FileSystem.written
  rw [List.take_eq_self_iff]
  omega

/-- **the count**: the items that `fwrite` returns are none or one -/
theorem countsRight_iff (sys : FileSystem) (bytes : List UInt8) :
    ((sys.fwrite bytes.length == bytes.length) = true ↔ sys.written bytes = bytes) ↔
      sys.CountsRight bytes.length := by
  rw [written_eq_iff, beq_iff_eq]
  unfold FileSystem.CountsRight FileSystem.fwrite
  generalize bytes.length = size
  have hacc := sys.accepted_le size
  have hkept := sys.kept_le (sys.accepted size)
  obtain rfl | rfl | hlarge : size = 0 ∨ size = 1 ∨ 2 ≤ size := by omega
  · have hzero : sys.kept (sys.accepted 0) = 0 := by omega
    rw [if_neg fun h => h.1 rfl]
    exact iff_of_true (iff_of_true rfl hzero) (.inl rfl)
  · by_cases hone : sys.accepted 1 = 1
    · rw [if_pos ⟨Nat.one_ne_zero, hone⟩, hone]
      constructor
      · exact fun h => .inr (.inl ⟨rfl, fun _ => h.1 rfl⟩)
      · rintro (h | ⟨-, h⟩ | ⟨h, -⟩)
        · exact absurd h Nat.one_ne_zero
        · exact iff_of_true rfl (h rfl)
        · exact absurd h (by decide)
    · rw [if_neg fun h => hone h.2]
      refine iff_of_true (iff_of_false Nat.zero_ne_one fun h => ?_)
        (.inr (.inl ⟨rfl, fun h => absurd h hone⟩))
      omega
  · have hitems : ¬ (if size ≠ 0 ∧ sys.accepted size = size then 1 else 0) = size := by
      split
      · omega
      · omega
    constructor
    · intro h
      have hlost : ¬ sys.kept (sys.accepted size) = size := fun hall => hitems (h.2 hall)
      exact .inr (.inr ⟨hlarge, by omega⟩)
    · rintro (h | ⟨h, -⟩ | ⟨-, h⟩)
      · omega
      · omega
      · exact iff_of_false hitems (Nat.ne_of_lt h)

/-- **a write whose report is right** -/
theorem flatfsReports_iff (hpath : path ≠ []) (hslashes : key.slashes < 2 ^ 31) :
    FlatfsReports sys files path key.text bytes ↔ sys.Favourable files path key.name bytes := by
  obtain ⟨hlong, hkey, hfits⟩ := fits_flatfsLength path key
  have hname : flatfsGetFullFilename path key.text (flatfsLength path key.text) =
      .ok (some (flatFullFilename path key.name)) :=
    getFullFilename_eq_some.2 ⟨⟨hlong, hkey, hfits⟩, hslashes, hpath, rfl⟩
  -- the report of a run that ends with these files
  have hreport : ∀ ret files', flatfsPut sys files path key.text bytes = .ok (ret, files') →
      (FlatfsReports sys files path key.text bytes ↔
        (ret = true ↔ files' (flatFullFilename path key.name) = some bytes)) := by
    intro ret files' hput
    constructor
    · rintro ⟨ret', files'', full, hput', hfull, h⟩
      rw [hput] at hput'
      rw [hname] at hfull
      cases hput'
      cases hfull
      exact h
    · exact fun h => ⟨ret, files', _, hput, hname, h⟩
  have heq := @flatfsPut_eq sys files path bytes key hpath hslashes
  unfold FileSystem.Favourable
  dsimp only at heq ⊢
  by_cases hdir : sys.createDirectory (flatDirectory path key.name) = false
  · rw [if_pos hdir] at heq ⊢
    rw [hreport _ _ heq]
    exact ⟨fun h hfile => Bool.false_ne_true (h.2 hfile), fun h => iff_of_false Bool.false_ne_true h⟩
  rw [if_neg hdir] at heq ⊢
  by_cases hopen : sys.fopen (flatFullFilename path key.name ++ tempSuffix) = true
  swap
  · -- a null file is written to
    rw [require_neg hopen, error_bind] at heq
    refine iff_of_false ?_ fun h => hopen h.1
    rintro ⟨ret, files', full, hput, -⟩
    rw [heq] at hput
    cases hput
  rw [require_pos hopen, ok_bind] at heq
  rw [and_iff_right hopen]
  by_cases hrename : sys.rename (flatFullFilename path key.name ++ tempSuffix)
      (flatFullFilename path key.name) = false
  · rw [if_pos hrename] at heq ⊢
    rw [hreport _ _ heq, Function.update_of_ne (temp_ne _).symm]
    exact ⟨fun h hfile => Bool.false_ne_true (h.2 hfile), fun h => iff_of_false Bool.false_ne_true h⟩
  · rw [if_neg hrename] at heq ⊢
    rw [hreport _ _ heq, Function.update_of_ne (temp_ne _).symm, Function.update_self,
      Function.update_self, Option.some.injEq]
    exact countsRight_iff sys bytes

end

/-- **flat files**: the report of a write is right, with all names inside their buffers, when there
is a path, the slashes are fewer than 2^31 and the calls answer favourably; and keys that differ
behind their slashes have files of their own -/
theorem flatfs_iff (sys : FileSystem) (files : FlatFiles) (path : CString) (bytes : List UInt8) :
    (∀ key : FlatKey, FlatfsReports sys files path.text key.text bytes ↔
      path.text ≠ [] ∧ key.slashes < 2 ^ 31 ∧ sys.Favourable files path.text key.name bytes) ∧
    ∀ key key' : FlatKey, SameFile path.text key.text key'.text → key.name = key'.name := by
  constructor
  · intro key
    by_cases hok : path.text ≠ [] ∧ key.slashes < 2 ^ 31
    · rw [flatfsReports_iff hok.1 hok.2]
      exact ⟨fun h => ⟨hok.1, hok.2, h⟩, fun h => h.2.2⟩
    · refine iff_of_false ?_ fun h => hok ⟨h.1, h.2.1⟩
      rintro ⟨ret, files', full, -, hfull, -⟩
      obtain ⟨-, hslashes, hpath, -⟩ := getFullFilename_eq_some.1 hfull
      exact hok ⟨hpath, hslashes⟩
  · rintro key key' ⟨full, maxLength, maxLength', h, h'⟩
    obtain ⟨-, -, -, rfl⟩ := getFullFilename_eq_some.1 h
    obtain ⟨-, -, -, heq⟩ := getFullFilename_eq_some.1 h'
    exact flatFullFilename_injective key.noSlash key'.noSlash heq

/-- nothing fails -/
def reliableSystem : FileSystem where
  writeable _ := true
  directoryExists _ := true
  mkdir _ := true
  fopen _ := true
  accepted n := n
  accepted_le n := Nat.le_refl n
  kept n := n
  kept_le n := Nat.le_refl n
  rename _ _ := true

/-- **two bytes** are in the file of the key `k` below `/d`, and the write reports a failure; and the
names below an empty path are made with a character in front of it -/
theorem not_flatfs :
    ¬ FlatfsReports reliableSystem (fun _ => none) (asciiBytes "/d") (asciiBytes "k") [1, 2] ∧
      ¬ FlatfsReports reliableSystem (fun _ => none) [] (asciiBytes "k") [1] := by
  constructor
  · rintro ⟨ret, files', full, hput, hfull, h⟩
    have hname : flatfsGetFullFilename (asciiBytes "/d") (asciiBytes "k")
        (flatfsLength (asciiBytes "/d") (asciiBytes "k")) =
          .ok (some (asciiBytes "/d/k_______________/k.data")) := by decide
    rw [hname] at hfull
    cases hfull
    have hret : (flatfsPut reliableSystem (fun _ => none) (asciiBytes "/d") (asciiBytes "k")
        [1, 2]).map (fun r => (r.1, r.2 (asciiBytes "/d/k_______________/k.data"))) =
          .ok (false, some [1, 2]) := by decide
    rw [hput] at hret
    obtain ⟨hfalse, hfile⟩ := Prod.mk.inj (Except.ok.inj hret)
    exact Bool.false_ne_true (hfalse.symm.trans (h.2 hfile))
  · rintro ⟨ret, files', full, -, hfull, -⟩
    have hfault : flatfsGetFullFilename [] (asciiBytes "k") (flatfsLength [] (asciiBytes "k")) =
        .error .outOfBounds := by decide
    rw [hfault] at hfull
    cases hfull

end Ipfs
