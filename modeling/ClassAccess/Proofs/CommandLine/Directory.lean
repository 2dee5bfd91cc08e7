import ClassAccess.CommandLine.Directory

/-!
# Directories are file systems

* `blocked?_eq_none_iff` -- when nothing stands in the way of a path;
* `opened_eq_ok_iff`, `write_eq_iff` -- **when a path opens something, and when a file is written**;
* `place_eq_of_compared` -- equal paths lead to one place;
* `LawfulFileSystem Directory` -- what is relied on of a file system is so of a directory.
-/

namespace ClassAccess.Directory

variable {d d' : Directory} {path q : String} {data : Bytes} {file : OpenFile}

/-! ## 1. Opening and writing -/

/-- **Nothing stands in the way of a path** if it is not empty and passes folders only. -/
theorem blocked?_eq_none_iff :
    d.blocked? path = none ↔ path ≠ "" ∧ ∀ place ∈ passed path, d.isFolder place = true := by
  unfold blocked?
  split
  · rename_i hempty
    exact iff_of_false nofun fun h => h.1 hempty
  · rename_i hpath
    rw [Option.map_eq_none_iff, List.find?_eq_none]
    simp only [Bool.not_eq_true', Bool.not_eq_false]
    exact (and_iff_right hpath).symm

/-- **What a path opens**: a folder, or a file, unless it ends with a slash. -/
theorem opened_eq_ok_iff : d.opened path = .ok file ↔ d.blocked? path = none ∧
    (d.isFolder (place path) = true ∧ file = .folder ∨
      d.isFolder (place path) = false ∧ endsWithSlash path = false ∧
        ∃ data, d.files.get? (place path) = some data ∧ file = .holding data) := by
  unfold opened
  cases d.blocked? path with
  | some fault => exact iff_of_false nofun fun h => nomatch h.1
  | none =>
      cases d.isFolder (place path) with
      | true => simp [eq_comm (a := file)]
      | false =>
          cases d.files.get? (place path) with
          | none => simp
          | some data => cases endsWithSlash path <;> simp [eq_comm (a := file)]

example : ["A", "./A", "x/../A", "A/", "A/.", "y/../A", "x/B", "x"].map
    (read? { files := Listing.ofList [("A", [1])], folders := ["x"] }) =
      [some [1], some [1], some [1], none, none, none, none, none] := by decide +kernel

/-- **When a file is written**: if nothing stands in its way, not even a folder in its place, and
    its path does not end with a slash. -/
theorem write_eq_iff : d.write path data = (d', none) ↔ d.blocked? path = none ∧
    d.isFolder (place path) = false ∧ endsWithSlash path = false ∧
      d' = { d with files := d.files.insert (place path) data } := by
  unfold write
  cases d.blocked? path with
  | some fault => simp
  | none =>
      cases d.isFolder (place path) with
      | true => simp
      | false => cases endsWithSlash path <;> simp [eq_comm (a := d')]

example : ["A", "x//B", "B/", "x", "x/.", "A/B", "y/B", ""].map
    (fun path => (write { files := Listing.ofList [("A", [1])], folders := ["x"] } path []).2) =
      [none, none, some .folder, some .folder, some .folder, some .notFolder, some .missing,
        some .missing] := by decide +kernel

/-! ## 2. Equal paths -/

/-- Single dots lead nowhere. -/
theorem foldl_step_filter (absolute : Bool) (parts reached : List String) :
    (parts.filter (· ≠ ".")).foldl (step absolute) reached =
      parts.foldl (step absolute) reached := by
  rw [List.foldl_filter]
  congr 1
  funext reached part
  by_cases h : part = "." <;> simp [step, h]

/-- Two paths that are compared as equal have the same parts, single dots apart. -/
theorem filter_parts_eq_compared (path : String) :
    (parts path).filter (· ≠ ".") = (Path.compared path).2.filter (· ≠ ".") := by
  unfold parts Path.compared
  have hsplit := List.take_append_drop 1 (Path.split path)
  generalize (Path.split path).take 1 = front, (Path.split path).drop 1 = rest at hsplit ⊢
  rw [← hsplit]
  simp only [List.filter_append, List.filter_filter]
  congr 2
  funext part
  by_cases h : part = "." <;> simp [h]

/-- **Equal paths lead to one place.** -/
theorem place_eq_of_compared (h : Path.compared path = Path.compared q) : place path = place q := by
  have hparts : (parts path).filter (· ≠ ".") = (parts q).filter (· ≠ ".") := by
    rw [filter_parts_eq_compared, filter_parts_eq_compared, h]
  have habsolute : Path.isAbsolute path = Path.isAbsolute q := congrArg Prod.fst h
  rw [place, placeOf, ← foldl_step_filter, hparts, foldl_step_filter, habsolute]
  rfl

/-! ## 3. Laws -/

theorem isFolder_insert (d : Directory) (files : Listing String Bytes) (place : String) :
    isFolder { d with files } place = d.isFolder place := rfl

/-- A written file is no folder, so it stands in the way of no path that was free. -/
theorem blocked?_insert (d : Directory) (files : Listing String Bytes) (path : String) :
    blocked? { d with files } path = none ↔ d.blocked? path = none := by
  rw [blocked?_eq_none_iff, blocked?_eq_none_iff]
  rfl

/-- **A directory does what a file system has to do.** -/
instance : LawfulFileSystem Directory where
  opened_written h := by
    obtain ⟨hblocked, hfolder, hslash, rfl⟩ := write_eq_iff.1 h
    exact opened_eq_ok_iff.2 ⟨(blocked?_insert _ _ _).2 hblocked,
      .inr ⟨hfolder, hslash, _, Listing.get?_update_self _ _ _, rfl⟩⟩
  opened_others h hq := by
    obtain ⟨-, -, -, rfl⟩ := write_eq_iff.1 h
    refine opened_eq_ok_iff.trans (Iff.trans ?_ opened_eq_ok_iff.symm)
    rw [blocked?_insert, isFolder_insert, Listing.insert,
      Listing.get?_update_of_ne _ _ fun hplace => hq hplace.symm]
  opened_equal h hq hfile := by
    obtain ⟨hblocked, hfolder, hslash, -⟩ := write_eq_iff.1 h
    have hplace := place_eq_of_compared hq
    obtain ⟨-, hfile⟩ := opened_eq_ok_iff.1 hfile
    rw [← hplace, hfolder] at hfile
    rcases hfile with ⟨hfalse, -⟩ | ⟨-, -, hdata⟩
    · cases hfalse
    · exact opened_eq_ok_iff.2 ⟨hblocked, .inr ⟨hfolder, hslash, hdata⟩⟩

end ClassAccess.Directory
