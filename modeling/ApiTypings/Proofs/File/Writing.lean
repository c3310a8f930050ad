/-
# Files that were written

Writing a file makes the directories around it and changes one place.  Directories stay what they
are, so a path that leads somewhere keeps leading there, and a file keeps its content until a later
one is written to its place.

* `locate_of_keepsDirectories` : where a path leads does not change;
* `read_of_write`, `read_of_write_other` : what files hold after one was written;
* `read_of_writeFiles` : a file holds its content unless a later one took its place;
* `name_of_locate_join` : a name without slashes is the last one on a path that ends with it.
-/
import ApiTypings.CommandLine.Run
import ApiTypings.File.Tree
import ApiTypings.Proofs.Dotted
import ApiTypings.Proofs.Outcome

namespace ApiTypings

namespace FileTree

variable {t t' : FileTree} {path other content : String}

/-! ## What stays -/

/-- Whatever stands at a place of one tree stands there in the other. -/
def Extends (t t' : FileTree) : Prop :=
  ∀ place entry, t.get? place = some entry → t'.get? place = some entry

/-- Every directory of one tree is one of the other. -/
def KeepsDirectories (t t' : FileTree) : Prop :=
  ∀ place, t.get? place = some .directory → t'.get? place = some .directory

theorem Extends.refl (t : FileTree) : Extends t t := fun _ _ h => h

theorem Extends.trans {t'' : FileTree} (h : Extends t t') (h' : Extends t' t'') : Extends t t'' :=
  fun place entry hentry => h' place entry (h place entry hentry)

theorem Extends.keepsDirectories (h : Extends t t') : KeepsDirectories t t' :=
  fun place hplace => h place .directory hplace

theorem KeepsDirectories.refl (t : FileTree) : KeepsDirectories t t := fun _ h => h

theorem KeepsDirectories.trans {t'' : FileTree} (h : KeepsDirectories t t')
    (h' : KeepsDirectories t' t'') : KeepsDirectories t t'' :=
  fun place hplace => h' place (h place hplace)

/-- Only a place that is no directory can be changed. -/
theorem isOuter_of_get?_ne {place : Place} (h : t.get? place ≠ some .directory) :
    isOuter place = false := by
  cases houter : isOuter place with
  | false => rfl
  | true => exact absurd (by rw [get?, if_pos houter]) h

/-! ## Where paths lead -/

theorem entryOf?_eq_ok {directory : Place} {name : String} {entry : Option FileEntry} :
    t.entryOf? directory name = .ok entry ↔
      name.utf8ByteSize ≤ nameLimit ∧ t.get? (directory ++ [name]) = entry := by
  unfold entryOf?
  by_cases hlong : name.utf8ByteSize > nameLimit
  · simp [if_pos hlong, Nat.not_le.2 hlong]
  · simp [if_neg hlong, Nat.le_of_not_lt hlong]

/-- A directory that was entered can be entered again. -/
theorem enter_of_keepsDirectories (h : KeepsDirectories t t') {place place' : Place}
    {name : String} (henter : t.enter place name = .ok place') :
    t'.enter place name = .ok place' := by
  unfold enter at henter ⊢
  split at henter
  · rename_i hidle
    rw [if_pos hidle, henter]
  · rename_i hidle
    rw [if_neg hidle]
    split at henter
    · rename_i hup
      rw [if_pos hup, henter]
    · rename_i hup
      rw [if_neg hup]
      obtain ⟨entry, hentry, hrest⟩ := bind_eq_ok.1 henter
      match entry, hrest with
      | some .directory, hrest =>
        obtain ⟨hlength, hget⟩ := entryOf?_eq_ok.1 hentry
        exact bind_eq_ok.2 ⟨_, entryOf?_eq_ok.2 ⟨hlength, h _ hget⟩, hrest⟩

theorem foldlM_enter_of_keepsDirectories (h : KeepsDirectories t t') {names : List String}
    {place place' : Place} (hfold : names.foldlM t.enter place = .ok place') :
    names.foldlM t'.enter place = .ok place' := by
  induction names generalizing place with
  | nil => exact hfold
  | cons name names ih =>
    rw [List.foldlM_cons] at hfold ⊢
    obtain ⟨next, hnext, hrest⟩ := bind_eq_ok.1 hfold
    exact bind_eq_ok.2 ⟨next, enter_of_keepsDirectories h hnext, ih hrest⟩

/-- Whether a path can lead anywhere at all. -/
def IsPossible (path : String) : Prop :=
  path.toList.contains '\x00' = false ∧ path.isEmpty = false ∧ path.utf8ByteSize < pathLimit

/-- Where the names of a path lead, given last one first. -/
def follow (t : FileTree) (first : Place) (reversed : List String) : Except FileError Target :=
  match reversed.dropWhile (·.isEmpty) with
  | [] => .ok ⟨first, none, true⟩
  | last :: before => do
    let directory ← before.reverse.foldlM t.enter first
    if last = "." ∨ last = ".." then return ⟨← t.enter directory last, none, true⟩
    return ⟨directory, some last, reversed.head? = some ""⟩

/-- A path leads where its names lead, if it can lead anywhere. -/
theorem locate_eq_ok {target : Target} : t.locate path = .ok target ↔
    IsPossible path ∧ t.follow (if Path.isAbsolute path then rootPlace else [])
      (Path.names path).reverse = .ok target := by
  unfold locate IsPossible
  cases hnul : path.toList.contains '\x00' with
  | true => simp [throw, throwThe, MonadExceptOf.throw, bind, Except.bind]
  | false =>
    cases hempty : path.isEmpty with
    | true => simp [throw, throwThe, MonadExceptOf.throw, bind, Except.bind]
    | false =>
      by_cases hlong : path.utf8ByteSize ≥ pathLimit
      · simp [hlong, Nat.not_lt.2 hlong, throw, throwThe, MonadExceptOf.throw, bind, Except.bind]
      · simp only [if_neg hlong, Nat.lt_of_not_le hlong, true_and, follow]
        rfl

/-- Where names lead does not change while directories stay. -/
theorem follow_of_keepsDirectories (h : KeepsDirectories t t') {first : Place}
    {reversed : List String} {target : Target} (hfollow : t.follow first reversed = .ok target) :
    t'.follow first reversed = .ok target := by
  unfold follow at hfollow ⊢
  split at hfollow
  · exact hfollow
  · rename_i last before hnames
    obtain ⟨directory, hdirectory, hrest⟩ := bind_eq_ok.1 hfollow
    refine bind_eq_ok.2 ⟨directory, foldlM_enter_of_keepsDirectories h hdirectory, ?_⟩
    split at hrest
    · rename_i hdots
      rw [if_pos hdots]
      obtain ⟨place, hplace, hpure⟩ := bind_eq_ok.1 hrest
      exact bind_eq_ok.2 ⟨place, enter_of_keepsDirectories h hplace, hpure⟩
    · rename_i hdots
      rw [if_neg hdots]
      exact hrest

/-- Where a path leads does not change while directories stay. -/
theorem locate_of_keepsDirectories (h : KeepsDirectories t t') {target : Target}
    (hlocate : t.locate path = .ok target) : t'.locate path = .ok target := by
  obtain ⟨hpossible, hfollow⟩ := locate_eq_ok.1 hlocate
  exact locate_eq_ok.2 ⟨hpossible, follow_of_keepsDirectories h hfollow⟩

/-- Two paths lead to one place. -/
def SamePlace (t : FileTree) (path other : String) : Prop :=
  ∃ target, t.locate path = .ok target ∧ t.locate other = .ok target

theorem SamePlace.of_keepsDirectories (h : KeepsDirectories t t')
    (hsame : t.SamePlace path other) : t'.SamePlace path other := by
  obtain ⟨target, hpath, hother⟩ := hsame
  exact ⟨target, locate_of_keepsDirectories h hpath, locate_of_keepsDirectories h hother⟩

/-! ## Reading and writing -/

/-- `path` leads to the name `name` in `directory`, where a file can stand. -/
def LeadsTo (t : FileTree) (path : String) (directory : Place) (name : String) : Prop :=
  t.locate path = .ok ⟨directory, some name, false⟩ ∧ name.utf8ByteSize ≤ nameLimit

/-- What is read is the content of the file to which the path leads. -/
theorem read_eq_ok : t.read path = .ok content ↔ ∃ directory name,
    t.LeadsTo path directory name ∧ t.get? (directory ++ [name]) = some (.file content) := by
  unfold read
  rw [bind_eq_ok]
  constructor
  · rintro ⟨⟨directory, name, slashed⟩, hlocate, hread⟩
    match name, hread with
    | some name, hread =>
      obtain ⟨entry, hentry, hread⟩ := bind_eq_ok.1 hread
      obtain ⟨hlength, hget⟩ := entryOf?_eq_ok.1 hentry
      match entry, slashed, hread with
      | some (.file found), false, hread =>
        obtain rfl := pure_eq_ok.1 hread
        exact ⟨directory, name, ⟨hlocate, hlength⟩, hget⟩
  · rintro ⟨directory, name, ⟨hlocate, hlength⟩, hget⟩
    refine ⟨_, hlocate, bind_eq_ok.2 ⟨_, entryOf?_eq_ok.2 ⟨hlength, hget⟩, rfl⟩⟩

/-- Writing changes the place to which the path leads, which is no directory. -/
theorem write_eq_ok (h : t.write path content = .ok t') : ∃ directory name,
    t.LeadsTo path directory name ∧ t.get? (directory ++ [name]) ≠ some .directory ∧
    t' = t.put (directory ++ [name]) (.file content) := by
  unfold write at h
  obtain ⟨⟨directory, name, slashed⟩, hlocate, hwrite⟩ := bind_eq_ok.1 h
  match name, slashed, hwrite with
  | some name, false, hwrite =>
    obtain ⟨entry, hentry, hwrite⟩ := bind_eq_ok.1 hwrite
    obtain ⟨hlength, hget⟩ := entryOf?_eq_ok.1 hentry
    refine ⟨directory, name, ⟨hlocate, hlength⟩, ?_⟩
    split at hwrite
    · exact absurd hwrite (by simp [throw, throwThe, MonadExceptOf.throw])
    · rename_i hentry
      exact ⟨fun hdirectory => hentry (hget.symm.trans hdirectory), (pure_eq_ok.1 hwrite).symm⟩

/-- Making a directory changes a place where nothing is. -/
theorem makeDirectory_eq_ok (h : t.makeDirectory path = .ok t') : ∃ place,
    t.get? place = none ∧ t' = t.put place .directory := by
  unfold makeDirectory at h
  obtain ⟨⟨directory, name, slashed⟩, -, hmake⟩ := bind_eq_ok.1 h
  match name, hmake with
  | some name, hmake =>
    obtain ⟨entry, hentry, hmake⟩ := bind_eq_ok.1 hmake
    obtain ⟨-, hget⟩ := entryOf?_eq_ok.1 hentry
    match entry, hmake with
    | none, hmake => exact ⟨_, hget, (pure_eq_ok.1 hmake).symm⟩

/-- Writing leaves directories alone. -/
theorem keepsDirectories_of_write (h : t.write path content = .ok t') : KeepsDirectories t t' := by
  obtain ⟨directory, name, -, hget, rfl⟩ := write_eq_ok h
  intro place hplace
  have hne : place ≠ directory ++ [name] := by
    rintro rfl
    exact hget hplace
  rw [get?_put _ _ _ _ (isOuter_of_get?_ne hget), if_neg hne, hplace]

/-- Making a directory leaves everything else alone. -/
theorem extends_of_makeDirectory (h : t.makeDirectory path = .ok t') : Extends t t' := by
  obtain ⟨place, hnone, rfl⟩ := makeDirectory_eq_ok h
  intro other entry hother
  have hne : other ≠ place := by
    rintro rfl
    exact absurd (hnone.symm.trans hother) (by simp)
  have hne' : t.get? place ≠ some .directory := by simp [hnone]
  rw [get?_put _ _ _ _ (isOuter_of_get?_ne hne'), if_neg hne, hother]

/-- A file holds what was written to it. -/
theorem read_of_write (h : t.write path content = .ok t') : t'.read path = .ok content := by
  have hkeeps := keepsDirectories_of_write h
  obtain ⟨directory, name, ⟨hlocate, hlength⟩, hget, rfl⟩ := write_eq_ok h
  refine read_eq_ok.2 ⟨directory, name, ⟨locate_of_keepsDirectories hkeeps hlocate, hlength⟩, ?_⟩
  rw [get?_put _ _ _ _ (isOuter_of_get?_ne hget), if_pos rfl]

/-- A file holds what it held when another place was written to. -/
theorem read_of_write_other {held : String} (h : t.write path content = .ok t')
    (hread : t.read other = .ok held) (hplace : ¬ t.SamePlace path other) :
    t'.read other = .ok held := by
  have hkeeps := keepsDirectories_of_write h
  obtain ⟨directory, name, ⟨hlocate, hlength⟩, hget, rfl⟩ := write_eq_ok h
  obtain ⟨directory', name', ⟨hlocate', hlength'⟩, hget'⟩ := read_eq_ok.1 hread
  have hne : directory' ++ [name'] ≠ directory ++ [name] := by
    intro heq
    obtain ⟨rfl, hname⟩ := List.append_inj' heq rfl
    obtain rfl := List.singleton_inj.1 hname
    exact hplace ⟨_, hlocate, hlocate'⟩
  have hlocate'' := locate_of_keepsDirectories hkeeps hlocate'
  refine read_eq_ok.2 ⟨directory', name', ⟨hlocate'', hlength'⟩, ?_⟩
  rw [get?_put _ _ _ _ (isOuter_of_get?_ne hget), if_neg hne, hget']

/-- A file holds what it held when directories were made. -/
theorem read_of_extends (h : Extends t t') (hread : t.read path = .ok content) :
    t'.read path = .ok content := by
  obtain ⟨directory, name, ⟨hlocate, hlength⟩, hget⟩ := read_eq_ok.1 hread
  exact read_eq_ok.2 ⟨directory, name,
    ⟨locate_of_keepsDirectories h.keepsDirectories hlocate, hlength⟩, h _ _ hget⟩

/-! ## Making directories -/

/-- An action leaves alone everything that it finds. -/
def OnlyAdds {α : Type} (action : StateM FileTree α) : Prop :=
  ∀ t : FileTree, Extends t (action.run t).2

theorem OnlyAdds.pure {α : Type} (a : α) : OnlyAdds (Pure.pure a) := fun t => Extends.refl t

theorem OnlyAdds.bind {α β : Type} {action : StateM FileTree α} {next : α → StateM FileTree β}
    (h : OnlyAdds action) (hnext : ∀ a, OnlyAdds (next a)) : OnlyAdds (action >>= next) :=
  fun t => (h t).trans (hnext _ _)

theorem onlyAdds_makeDirectory (path : String) : OnlyAdds (access.makeDirectory path) := by
  intro t
  show Extends t (change (·.makeDirectory path) t).2
  unfold change
  split
  · rename_i hmake
    exact extends_of_makeDirectory hmake
  · exact Extends.refl t

theorem onlyAdds_ensureDirectory (path : String) : OnlyAdds (access.ensureDirectory path) := by
  refine (onlyAdds_makeDirectory path).bind fun made => ?_
  cases made with
  | ok _ => exact OnlyAdds.pure _
  | error e =>
    refine OnlyAdds.bind (fun t => Extends.refl t) fun found => ?_
    cases found with
    | true => exact OnlyAdds.pure _
    | false => exact OnlyAdds.pure _

theorem onlyAdds_ensureDirectories (paths : List String) :
    OnlyAdds (access.ensureDirectories paths) := by
  induction paths with
  | nil => exact OnlyAdds.pure _
  | cons path above ih =>
    refine (onlyAdds_ensureDirectory path).bind fun made => ?_
    split
    · refine ih.bind fun result => ?_
      cases result with
      | ok _ => exact onlyAdds_ensureDirectory path
      | error e => exact OnlyAdds.pure _
    · exact OnlyAdds.pure _

/-! ## Steps of a command -/

/-- A step succeeds on one tree and leaves another. -/
def Runs {α : Type} (step : FileAccess.Step (StateM FileTree) α) (t : FileTree) (a : α)
    (t' : FileTree) : Prop := step.run.run t = (.ok a, t')

/-- Two steps succeed when the first one does, and the second one on what it leaves. -/
theorem runs_bind {α β : Type} {step : FileAccess.Step (StateM FileTree) α}
    {next : α → FileAccess.Step (StateM FileTree) β} {b : β} (h : Runs (step >>= next) t b t') :
    ∃ a t₁, Runs step t a t₁ ∧ Runs (next a) t₁ b t' := by
  unfold Runs at h
  rw [ExceptT.run_bind, StateT.run_bind] at h
  cases hstep : step.run.run t with
  | mk result t₁ =>
    rw [hstep] at h
    match result, hstep, h with
    | .ok a, hstep, h => exact ⟨a, t₁, hstep, h⟩

/-- A step whose failure has a place succeeds when its action does. -/
theorem runs_orFail {α : Type} {action : StateM FileTree (Except FileError α)}
    {cause : FileError → CommandError} {a : α}
    (h : Runs (FileAccess.orFail action cause) t a t') : action.run t = (.ok a, t') := by
  obtain ⟨result, t₁, hlift, hrest⟩ := runs_bind h
  have hmap : (Except.ok (action.run t).1, (action.run t).2) = (.ok result, t₁) := hlift
  obtain ⟨hresult, rfl⟩ := Prod.mk.inj hmap
  obtain rfl := Except.ok.inj hresult
  cases haction : action.run t with
  | mk result t₁ =>
    rw [haction] at hrest
    cases result with
    | error e => exact absurd (congrArg Prod.fst hrest) (by simp)
    | ok b =>
      obtain ⟨hvalue, rfl⟩ := Prod.mk.inj (show (Except.ok b, t₁) = (.ok a, t') from hrest)
      rw [Except.ok.inj hvalue]

/-- Writing a file makes directories, and then writes to one place. -/
theorem runs_writeFile {file : OutputFile} (h : Runs (access.writeFile file) t () t') :
    ∃ t₁, Extends t t₁ ∧ t₁.write file.path file.content = .ok t' := by
  obtain ⟨_, t₁, hmake, h⟩ := runs_bind h
  obtain ⟨_, t₂, hwrite, hreport⟩ := runs_bind h
  obtain rfl : t₂ = t' := congrArg Prod.snd hreport
  have hextends := onlyAdds_ensureDirectories (Path.directoriesAbove file.path) t
  rw [runs_orFail hmake] at hextends
  refine ⟨t₁, hextends, ?_⟩
  have hchange : change (·.write file.path file.content) t₁ = (.ok (), t₂) := runs_orFail hwrite
  unfold change at hchange
  split at hchange
  · rename_i hok
    exact hok.trans (congrArg Except.ok (congrArg Prod.snd hchange))
  · exact absurd (congrArg Prod.fst hchange) (by simp)

/-- Writing files leaves directories alone. -/
theorem keepsDirectories_of_runs {files : List OutputFile}
    (h : Runs (access.writeFiles files) t () t') : KeepsDirectories t t' := by
  induction files generalizing t with
  | nil =>
    obtain rfl : t = t' := congrArg Prod.snd h
    exact KeepsDirectories.refl t
  | cons file files ih =>
    obtain ⟨_, t₂, hfile, hrest⟩ := runs_bind h
    obtain ⟨t₁, hextends, hwrite⟩ := runs_writeFile hfile
    exact (hextends.keepsDirectories.trans (keepsDirectories_of_write hwrite)).trans (ih hrest)

/-- A file holds what it held unless one of the files that are written takes its place. -/
theorem read_of_writeFiles_other {files : List OutputFile}
    (h : Runs (access.writeFiles files) t () t') (hread : t.read path = .ok content)
    (hother : ∀ file ∈ files, ¬ t'.SamePlace file.path path) : t'.read path = .ok content := by
  induction files generalizing t with
  | nil =>
    obtain rfl : t = t' := congrArg Prod.snd h
    exact hread
  | cons file files ih =>
    rw [List.forall_mem_cons] at hother
    obtain ⟨_, t₂, hfile, hrest⟩ := runs_bind h
    obtain ⟨t₁, hextends, hwrite⟩ := runs_writeFile hfile
    have hkeeps : KeepsDirectories t₁ t' :=
      (keepsDirectories_of_write hwrite).trans (keepsDirectories_of_runs hrest)
    -- two paths that lead to one place now still do when everything is written
    have hplace : ¬ t₁.SamePlace file.path path := fun hsame =>
      hother.1 (hsame.of_keepsDirectories hkeeps)
    exact ih hrest (read_of_write_other hwrite (read_of_extends hextends hread) hplace) hother.2

/-- A file that was written holds its content unless a later one took its place. -/
theorem read_of_writeFiles {before after : List OutputFile} {file : OutputFile}
    (h : Runs (access.writeFiles (before ++ file :: after)) t () t')
    (hlater : ∀ later ∈ after, ¬ t'.SamePlace later.path file.path) :
    t'.read file.path = .ok file.content := by
  induction before generalizing t with
  | nil =>
    obtain ⟨_, t₂, hfile, hrest⟩ := runs_bind h
    obtain ⟨t₁, -, hwrite⟩ := runs_writeFile hfile
    exact read_of_writeFiles_other hrest (read_of_write hwrite) hlater
  | cons earlier before ih =>
    obtain ⟨_, t₂, -, hrest⟩ := runs_bind h
    exact ih hrest

/-! ## Names without slashes -/

/-- What stands behind a slash is the last name of a path. -/
theorem names_append_slash (directory : String) {name : String} (h : '/' ∉ name.toList) :
    Path.names (directory ++ "/" ++ name) = Path.names directory ++ [name] := by
  have hchars : (directory ++ "/" ++ name).toList = directory.toList ++ '/' :: name.toList := by
    simp
  rw [Path.names, Text.pieces, hchars, Text.cut_append_separator, Text.cut_of_not_mem h,
    List.map_append, List.map_singleton, String.ofList_toList]
  rfl

/-- A name without slashes is the last one on a path that ends with it. -/
theorem names_join (directory : String) {name : String} (h : '/' ∉ name.toList) :
    ∃ before, Path.names (Path.join directory name) = before ++ [name] := by
  have hrelative : Path.isAbsolute name = false := by
    rw [Path.isAbsolute, Bool.eq_false_iff]
    intro habsolute
    obtain ⟨rest, rfl⟩ := Text.beginsWith_iff.1 habsolute
    exact h (by simp)
  unfold Path.join
  rw [hrelative, Bool.false_or]
  split
  · refine ⟨[], ?_⟩
    rw [Path.names, Text.pieces, Text.cut_of_not_mem h, List.map_singleton, String.ofList_toList]
    rfl
  · split
    · rename_i hslash
      obtain ⟨above, habove⟩ := Option.isSome_iff_exists.1 hslash
      obtain ⟨cs, hcs, rfl⟩ := Option.map_eq_some_iff.1 habove
      have hdirectory : directory = .ofList cs ++ "/" := by
        rw [← String.toList_inj, Text.stripSuffix?_eq_some.1 hcs]
        simp
      rw [hdirectory]
      exact ⟨_, names_append_slash _ h⟩
    · exact ⟨_, names_append_slash _ h⟩

/-- A path that ends with a name leads to that name, if the name has no slashes and is none of those
that say something else. -/
theorem name_of_locate_join {directory name : String} {target : Target}
    (hslash : '/' ∉ name.toList) (hidle : Path.isIdle name = false) (hup : name ≠ "..")
    (h : t.locate (Path.join directory name) = .ok target) : target.name = some name := by
  obtain ⟨-, hfollow⟩ := locate_eq_ok.1 h
  obtain ⟨before, hnames⟩ := names_join directory hslash
  rw [Path.isIdle, Bool.or_eq_false_iff] at hidle
  have hne : ¬ name.isEmpty = true := by simp [hidle.1]
  rw [hnames, List.reverse_concat, follow, List.dropWhile_cons_of_neg hne] at hfollow
  obtain ⟨place, -, hrest⟩ := bind_eq_ok.1 hfollow
  have hdots : ¬ (name = "." ∨ name = "..") := not_or.2 ⟨by simpa using hidle.2, hup⟩
  rw [if_neg hdots] at hrest
  obtain rfl := pure_eq_ok.1 hrest
  rfl

end FileTree

end ApiTypings
