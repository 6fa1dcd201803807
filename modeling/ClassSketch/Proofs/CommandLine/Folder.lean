import ClassSketch.CommandLine.Folder

/-!
# Writing a file

A path that can be written leads to a file or to a vacant place (`Folder.Opens`).
Writing puts the bytes there and changes nothing else (`Folder.holds_put`). The path
still leads to the same place afterwards, through the same directories, so the file
is read back through it (`Folder.read_put`) : a directory on the way is no file, and
stays a directory whatever is put at another place (`Folder.place_put`). So a machine
with such files writes what it can open (`Folder.writesOpened_host`).
-/

namespace ClassSketch.CommandLine

/-- Of two changes of one file, the second remains. -/
theorem Host.Holds.trans {host : Host} {files mid after : host.Files} {place : host.Place}
    {old bytes : List UInt8} (h : host.Holds files place old mid)
    (h' : host.Holds mid place bytes after) : host.Holds files place bytes after where
  file := h'.file
  others q hq := (h'.others q hq).trans (h.others q hq)
  rest := h'.rest.trans h.rest

namespace Folder

variable {folder : Folder} {parts : List String} {bytes : List UInt8}

/-! ## Places -/

/-- What is at a place. -/
def place (folder : Folder) (parts : List String) : Place :=
  match folder.files.lookup parts with
  | some bytes => .file parts bytes
  | none =>
    if folder.directories.contains parts || folder.files.any fun f => parts.isPrefixOf f.1 then
      .directory parts
    else .vacant parts

/-- A place that can be written : there is a file or nothing. -/
def IsFree (parts : List String) (found : Place) : Prop :=
  (∃ bytes, found = .file parts bytes) ∨ found = .vacant parts

/-- The path leads to a place that can be written. -/
def Opens (folder : Folder) (p : Path) (parts : List String) : Prop :=
  IsFree parts (folder.locate p)

theorem lookup_cons_of_ne {p q : List String} (h : q ≠ p)
    (files : List (List String × List UInt8)) :
    List.lookup q ((p, bytes) :: files) = files.lookup q := by
  rw [List.lookup_cons, beq_eq_false_iff_ne.2 h]

theorem lookup_append_of_ne {q : List String} (h : q ≠ parts)
    (files : List (List String × List UInt8)) :
    (files ++ [(parts, bytes)]).lookup q = files.lookup q := by
  rw [List.lookup_append, lookup_cons_of_ne h, List.lookup_nil, Option.or_none]

/-- Replacing a file changes no other. -/
theorem lookup_replace (files : List (List String × List UInt8)) (q : List String) :
    (files.map fun f => if f.1 = parts then (parts, bytes) else f).lookup q =
      if q = parts then (files.lookup q).map fun _ => bytes else files.lookup q := by
  induction files with
  | nil => simp
  | cons f files ih =>
    obtain ⟨p, old⟩ := f
    rw [List.map_cons]
    by_cases hq : q = p
    · subst hq
      by_cases hp : q = parts
      · simp [hp]
      · simp [hp]
    · rw [lookup_cons_of_ne hq, ← ih]
      split
      · next hp => exact lookup_cons_of_ne (fun h => hq (h.trans hp.symm)) _
      · exact lookup_cons_of_ne hq _

theorem any_iff : (folder.files.any fun f => f.1 == parts) = true ↔
    (folder.files.lookup parts).isSome := by
  rw [List.lookup_isSome_iff, List.any_eq_true]
  simp only [beq_iff_eq, @eq_comm _ parts]

/-- The file that was put is found. -/
theorem lookup_put (folder : Folder) (parts : List String) (bytes : List UInt8) :
    (folder.put parts bytes).files.lookup parts = some bytes := by
  unfold put
  split
  · next hany =>
    obtain ⟨old, hold⟩ := Option.isSome_iff_exists.1 (any_iff.1 hany)
    rw [lookup_replace, if_pos rfl, hold]
    rfl
  · next hany =>
    have hnone := Option.not_isSome_iff_eq_none.1 fun h => hany (any_iff.2 h)
    rw [List.lookup_append, hnone, Option.none_or, List.lookup_cons_self]

/-- All other files are as before. -/
theorem lookup_put_of_ne {q : List String} (hq : q ≠ parts) :
    (folder.put parts bytes).files.lookup q = folder.files.lookup q := by
  unfold put
  split
  · rw [lookup_replace, if_neg hq]
  · exact lookup_append_of_ne hq _

/-- No directory comes or goes. -/
theorem directories_put (folder : Folder) (parts : List String) (bytes : List UInt8) :
    (folder.put parts bytes).directories = folder.directories := by
  unfold put
  split <;> rfl

/-! ## Following a path -/

theorem not_isFree_directory {dir : List String} : ¬IsFree parts (.directory dir) := by
  rintro (⟨bytes, hfile⟩ | hvacant)
  · cases hfile
  · cases hvacant

theorem not_isFree_fault {f : PathFault} : ¬IsFree parts (.fault f) := by
  rintro (⟨bytes, hfile⟩ | hvacant)
  · cases hfile
  · cases hvacant

/-- At each place there is a file, a directory or nothing. -/
theorem place_cases (folder : Folder) (parts : List String) :
    (∃ bytes, folder.place parts = .file parts bytes) ∨ folder.place parts = .directory parts ∨
      folder.place parts = .vacant parts := by
  unfold place
  split
  · next bytes _ => exact Or.inl ⟨bytes, rfl⟩
  · split
    · exact Or.inr (Or.inl rfl)
    · exact Or.inr (Or.inr rfl)

theorem eq_of_isFree_place {q : List String} (h : IsFree parts (folder.place q)) : q = parts := by
  rcases place_cases folder q with ⟨old, hplace⟩ | hplace | hplace <;> rw [hplace] at h
  · rcases h with ⟨bytes, hfile⟩ | hvacant
    · cases hfile
      rfl
    · cases hvacant
  · exact absurd h not_isFree_directory
  · rcases h with ⟨bytes, hfile⟩ | hvacant
    · cases hfile
    · cases hvacant
      rfl

theorem follow_directory (dir : List String) (name : String) :
    folder.follow (.directory dir) name =
      if name = ".." then .directory (above dir)
      else if maxName < name.utf8ByteSize then .fault .nameTooLong
      else folder.place (dir ++ [name]) :=
  rfl

/-- No path leads on from a fault. -/
theorem foldl_follow_fault (names : List String) (f : PathFault) :
    names.foldl folder.follow (.fault f) = .fault f := by
  induction names with
  | nil => rfl
  | cons name names ih => exact ih

/-- A path to a free place goes through directories up to its last part. -/
theorem follow_cases {dir names : List String} {name : String}
    (hfree : IsFree parts ((name :: names).foldl folder.follow (.directory dir))) :
    (names = [] ∧ ∀ other : Folder, other.follow (.directory dir) name = other.place parts) ∨
      ∃ dir', folder.follow (.directory dir) name = .directory dir' ∧
        IsFree parts (names.foldl folder.follow (.directory dir')) := by
  rw [List.foldl_cons, follow_directory] at hfree
  split at hfree
  · next hup => exact Or.inr ⟨above dir, by rw [follow_directory, if_pos hup], hfree⟩
  · next hup =>
    split at hfree
    · rw [foldl_follow_fault] at hfree
      exact absurd hfree not_isFree_fault
    · next hshort =>
      have hfollow : ∀ other : Folder,
          other.follow (.directory dir) name = other.place (dir ++ [name]) := fun other => by
        rw [follow_directory, if_neg hup, if_neg hshort]
      cases names with
      | nil =>
        obtain rfl := eq_of_isFree_place hfree
        exact Or.inl ⟨rfl, hfollow⟩
      | cons next names =>
        -- Nothing lies in a file or in what does not exist.
        rcases place_cases folder (dir ++ [name]) with ⟨old, hplace⟩ | hplace | hplace
        · rw [hplace, List.foldl_cons, follow, foldl_follow_fault] at hfree
          exact absurd hfree not_isFree_fault
        · rw [hplace] at hfree
          exact Or.inr ⟨_, (hfollow folder).trans hplace, hfree⟩
        · rw [hplace, List.foldl_cons, follow, foldl_follow_fault] at hfree
          exact absurd hfree not_isFree_fault

/-- A path that leads to a free place ends in a name which is free in its directory. -/
theorem isFree_place_of_foldl {names dir : List String}
    (hfree : IsFree parts (names.foldl folder.follow (.directory dir))) :
    IsFree parts (folder.place parts) := by
  induction names generalizing dir with
  | nil => exact absurd hfree not_isFree_directory
  | cons name names ih =>
    rcases follow_cases hfree with ⟨rfl, hlast⟩ | ⟨dir', -, hrest⟩
    · rwa [List.foldl_cons, List.foldl_nil, hlast] at hfree
    · exact ih hrest

/-! ## After writing -/

theorem exists_mem_put {f : List String × List UInt8} (hf : f ∈ folder.files) :
    ∃ g ∈ (folder.put parts bytes).files, g.1 = f.1 := by
  unfold put
  split
  · refine ⟨_, List.mem_map_of_mem hf, ?_⟩
    split
    · next h => exact h.symm
    · rfl
  · exact ⟨f, List.mem_append_left _ hf, rfl⟩

/-- A directory is listed or has a file below it. -/
theorem place_eq_directory_iff {q : List String} : folder.place q = .directory q ↔
    folder.files.lookup q = none ∧
      (q ∈ folder.directories ∨ ∃ f ∈ folder.files, q.isPrefixOf f.1 = true) := by
  have hbool :
      (folder.directories.contains q || folder.files.any fun f => q.isPrefixOf f.1) = true ↔
        q ∈ folder.directories ∨ ∃ f ∈ folder.files, q.isPrefixOf f.1 = true := by
    rw [Bool.or_eq_true, List.contains_iff_mem, List.any_eq_true]
  unfold place
  cases folder.files.lookup q with
  | some old => simp
  | none =>
    simp only [true_and, ← hbool]
    split
    · next hdir => exact ⟨fun _ => hdir, fun _ => rfl⟩
    · next hdir => exact ⟨nofun, fun h => absurd h hdir⟩

/-- A directory stays one when a file is put at another place. -/
theorem place_put {q : List String} (hq : q ≠ parts) (h : folder.place q = .directory q) :
    (folder.put parts bytes).place q = .directory q := by
  obtain ⟨hlookup, hdir⟩ := place_eq_directory_iff.1 h
  refine place_eq_directory_iff.2 ⟨(lookup_put_of_ne hq).trans hlookup, ?_⟩
  rcases hdir with hlisted | ⟨f, hf, hfront⟩
  · exact Or.inl (directories_put folder parts bytes ▸ hlisted)
  · obtain ⟨g, hg, hsame⟩ := exists_mem_put hf
    exact Or.inr ⟨g, hg, hsame ▸ hfront⟩

theorem place_put_self : (folder.put parts bytes).place parts = .file parts bytes := by
  unfold place
  rw [lookup_put]

/-- A file at a free place closes no way through the directories. -/
theorem follow_put {dir dir' : List String} {name : String}
    (hfree : IsFree parts (folder.place parts))
    (h : folder.follow (.directory dir) name = .directory dir') :
    (folder.put parts bytes).follow (.directory dir) name = .directory dir' := by
  rw [follow_directory] at h ⊢
  split
  · next hup => rwa [if_pos hup] at h
  · next hup =>
    rw [if_neg hup] at h
    split
    · next hlong => rwa [if_pos hlong] at h
    · next hshort =>
      rw [if_neg hshort] at h
      rcases place_cases folder (dir ++ [name]) with ⟨old, hplace⟩ | hplace | hplace
      · rw [hplace] at h
        cases h
      · have hne : dir ++ [name] ≠ parts := by
          rintro rfl
          rw [hplace] at hfree
          exact not_isFree_directory hfree
        rw [place_put hne hplace, ← hplace, h]
      · rw [hplace] at h
        cases h

/-- The path that led to the free place leads to the file now. -/
theorem foldl_follow_put {names dir : List String}
    (hfree : IsFree parts (names.foldl folder.follow (.directory dir))) :
    names.foldl (folder.put parts bytes).follow (.directory dir) = .file parts bytes := by
  have hplace := isFree_place_of_foldl hfree
  induction names generalizing dir with
  | nil => exact absurd hfree not_isFree_directory
  | cons name names ih =>
    rw [List.foldl_cons]
    rcases follow_cases hfree with ⟨rfl, hlast⟩ | ⟨dir', hstep, hrest⟩
    · rw [hlast]
      exact place_put_self
    · rw [follow_put hplace hstep]
      exact ih hrest

/-- The path leads to the file that was put at its place. -/
theorem locate_put {p : Path} (h : folder.Opens p parts) :
    (folder.put parts bytes).locate p = .file parts bytes := by
  unfold Opens locate at h
  unfold locate
  split
  · next hnull =>
    rw [if_pos hnull] at h
    exact absurd h not_isFree_fault
  · next hlegal =>
    rw [if_neg hlegal] at h
    split
    · next hlong =>
      rw [if_pos hlong] at h
      exact absurd h not_isFree_fault
    · next hshort =>
      rw [if_neg hshort] at h
      exact foldl_follow_put h

/-- A place that can be opened can be opened again. -/
theorem opens_put {p : Path} (h : folder.Opens p parts) (bytes : List UInt8) :
    (folder.put parts bytes).Opens p parts :=
  Or.inl ⟨bytes, locate_put h⟩

/-- What was put at a place is read there. -/
theorem read_put {p : Path} (h : folder.Opens p parts) :
    (folder.put parts bytes).read p = .ok bytes := by
  rw [read, locate_put h]

/-- A path that can be opened leads to a free place, where an empty file is then. -/
theorem create_eq_ok_iff {p : Path} {opened : Folder} :
    folder.create p = .ok (parts, opened) ↔ folder.Opens p parts ∧ opened = folder.put parts [] := by
  unfold create Opens
  cases folder.locate p with
  | file place old =>
    constructor
    · rintro ⟨⟩
      exact ⟨Or.inl ⟨old, rfl⟩, rfl⟩
    · rintro ⟨⟨bytes, ⟨⟩⟩ | ⟨⟨⟩⟩, rfl⟩
      rfl
  | vacant place =>
    constructor
    · rintro ⟨⟩
      exact ⟨Or.inr rfl, rfl⟩
    · rintro ⟨⟨bytes, ⟨⟩⟩ | ⟨⟨⟩⟩, rfl⟩
      rfl
  | directory dir => exact ⟨nofun, fun h => absurd h.1 not_isFree_directory⟩
  | fault f => exact ⟨nofun, fun h => absurd h.1 not_isFree_fault⟩

/-! ## A machine with the files of a folder -/

section Host

variable (memory : Nat) (encodeFault? : String → Option EncodeFault)

/-- A folder in which a file was put holds it, and is otherwise the same. -/
theorem holds_put (folder : Folder) (parts : List String) (bytes : List UInt8) :
    (host memory encodeFault?).Holds folder parts bytes (folder.put parts bytes) where
  file := lookup_put folder parts bytes
  others _ hq := lookup_put_of_ne hq
  rest := directories_put folder parts bytes

/-- The host of folders opens what the folder opens. -/
theorem opens_host_iff {p : Path} :
    (host memory encodeFault?).Opens folder p parts ↔ folder.Opens p parts := by
  constructor
  · rintro ⟨opened, hopened⟩
    exact (create_eq_ok_iff.1 hopened).1
  · exact fun h => ⟨_, create_eq_ok_iff.2 ⟨h, rfl⟩⟩

/-- A folder writes what it can open : the file that was opened stands at the end of the path
and is replaced. -/
theorem writesOpened_host : (host memory encodeFault?).WritesOpened where
  empties h := by
    obtain ⟨-, rfl⟩ := create_eq_ok_iff.1 h
    exact holds_put memory encodeFault? _ _ _
  writes h bytes := by
    obtain ⟨hopens, rfl⟩ := create_eq_ok_iff.1 h
    exact ⟨_, rfl, read_put (opens_put hopens []),
      (holds_put memory encodeFault? _ _ []).trans (holds_put memory encodeFault? _ _ bytes)⟩

end Host

end Folder

end ClassSketch.CommandLine
