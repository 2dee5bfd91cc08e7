import ClassAccess.CommandLine
import ClassAccess.Proofs.CommandLine.Directory
import ClassAccess.Proofs.TransformSet.Lines
import ClassAccess.Proofs.TransformSet.Twice
import Mathlib.Data.List.Perm.Basic

/-!
# Applying directives on the command line

A command that applies directives reads all its files, merges the directives and changes the class
before it writes anything. It writes one file at most. All of this is so in any file system that
does what it has to do.

* `FileSystem.Written`, `written_of_write` -- a file system in which one file was written, and what
  stays as it was;
* `load_ok_iff` -- files of directives are loaded exactly if all of them are texts, and as the set
  of those texts;
* `Yields`, `Fails` -- what comes of a class, and why nothing does: **one or the other is the
  case**, and `transformed` tells which;
* `Yields.again` -- what has come of a class stays as it is, wherever it was written;
* `run_of_error`, `run_check`, `run_write` -- the outcome case by case;
* `run_apply` -- **the outcome of a command that applies directives**.
-/

namespace ClassAccess

/-! ## 1. File systems -/

theorem OpenFile.eq_holding {file : OpenFile} {data : Bytes} (h : file.map = .ok data) :
    file = .holding data := by
  obtain ⟨read, map, agree⟩ := file
  cases h
  cases agree data rfl
  rfl

namespace FileSystem

variable {σ : Type} [FileSystem σ] {d d' : σ} {path q : String} {data : Bytes}

/-- The text of a file, if the file can be read and is UTF-8. -/
def text? (d : σ) (path : String) : Option String := (read? d path).bind Utf8.decode?

/-- `texts` are the texts of some files. -/
def Texts (d : σ) (paths texts : List String) : Prop :=
  List.Forall₂ (fun path text => text? d path = some text) paths texts

theorem read?_eq_some_iff :
    read? d path = some data ↔ ∃ file, opened d path = .ok file ∧ file.read = .ok data := by
  unfold read?
  cases opened d path with
  | error fault => exact iff_of_false nofun fun h => nomatch h
  | ok file => cases hread : file.read <;> simp [Except.toOption, hread]

theorem map?_eq_some_iff : map? d path = some data ↔ opened d path = .ok (.holding data) := by
  unfold map?
  cases opened d path with
  | error fault => exact iff_of_false nofun nofun
  | ok file =>
      refine Iff.trans (b := file.map = .ok data) ?_ ⟨fun h => ?_, fun h => ?_⟩
      · cases hmap : file.map <;> simp [Except.toOption, hmap]
      · rw [OpenFile.eq_holding h]
      · rw [Except.ok.inj h]
        rfl

/-- Whether some bytes can be written to a file. -/
def Writable (d : σ) (path : String) (data : Bytes) : Prop := ∃ d', write d path data = (d', none)

/-- `d'` is `d` with some bytes in the file that a path leads to. What other paths open is as it
    was. -/
structure Written (d : σ) (path : String) (data : Bytes) (d' : σ) : Prop where
  holds : opened d' path = .ok (.holding data)
  others : ∀ q, ¬ SameFile d path q → ∀ file, opened d' q = .ok file ↔ opened d q = .ok file

theorem Written.read? (h : Written d path data d') : read? d' path = some data :=
  read?_eq_some_iff.2 ⟨_, h.holds, rfl⟩

theorem Written.map? (h : Written d path data d') : map? d' path = some data :=
  map?_eq_some_iff.2 h.holds

theorem Written.text?_of_not_same (h : Written d path data d') (hq : ¬ SameFile d path q) :
    text? d' q = text? d q := by
  have hread : FileSystem.read? d' q = FileSystem.read? d q := by
    ext data
    simp only [read?_eq_some_iff, h.others q hq]
  rw [text?, text?, hread]

variable [LawfulFileSystem σ]

/-- **Writing a file changes that file alone.** -/
theorem written_of_write (h : write d path data = (d', none)) : Written d path data d' where
  holds := LawfulFileSystem.opened_written h
  others _ hq _ := LawfulFileSystem.opened_others h hq

/-- A file that has the bytes already, perhaps under another spelling of its path, need not be
    written. -/
theorem written_self (hwritable : Writable d path data) (hq : Path.compared path = Path.compared q)
    (h : FileSystem.map? d q = some data) : Written d path data d := by
  obtain ⟨d', hwrite⟩ := hwritable
  exact ⟨LawfulFileSystem.opened_equal hwrite hq (map?_eq_some_iff.1 h), fun _ _ _ => Iff.rfl⟩

end FileSystem

namespace Command

open FileSystem

variable {σ : Type} [FileSystem σ] {d d' : σ} {paths transforms transforms' : List String}
  {path input : String} {output : Option String} {check : Bool} {data out : Bytes}
  {s s' : TransformSet} {outcome : Outcome σ}

/-! ## 2. Loading -/

/-- A file that is a text goes to the set, and loading goes on. -/
theorem load_cons_of_text {text : String} (h : text? d path = some text) (paths : List String)
    (s : TransformSet) : load d (path :: paths) s = load d paths (s.readText text) := by
  obtain ⟨data, hdata, htext⟩ := Option.bind_eq_some_iff.1 h
  obtain ⟨file, hfile, hread⟩ := read?_eq_some_iff.1 hdata
  simp only [load, hfile, hread, Except.mapError, bind, Except.bind, s.readBytes_of_text htext]

/-- What is loaded was loaded from a text first. -/
theorem exists_text_of_load_cons (h : load d (path :: paths) s = .ok s') :
    ∃ text, text? d path = some text := by
  obtain ⟨file, hfile, h⟩ := Outcome.exists_of_bind_ok h
  obtain ⟨data, hdata, h⟩ := Outcome.exists_of_bind_ok h
  have hread : FileSystem.read? d path = some data :=
    read?_eq_some_iff.2
      ⟨file, Outcome.mapError_eq_ok_iff.1 hfile, Outcome.mapError_eq_ok_iff.1 hdata⟩
  cases htext : Utf8.decode? data with
  | some text => exact ⟨text, by rw [text?, hread, Option.bind_some, htext]⟩
  | none =>
      have hfault := s.readBytes_of_not_text htext
      cases hset : s.readBytes data with
      | mk s'' fault =>
          rw [hset] at h hfault
          cases hfault
          cases h

/-- **Files of directives are loaded exactly if all of them are texts**, and their directives are
    read one text after the other. -/
theorem load_ok_iff : load d paths s = .ok s' ↔
    ∃ texts, Texts d paths texts ∧ s' = texts.foldl TransformSet.readText s := by
  induction paths generalizing s with
  | nil =>
      rw [load, Except.ok.injEq]
      constructor
      · intro h
        exact ⟨[], .nil, h.symm⟩
      · intro h
        obtain ⟨texts, htexts, hs⟩ := h
        cases htexts
        exact hs.symm
  | cons path paths ih =>
      constructor
      · intro h
        obtain ⟨text, htext⟩ := exists_text_of_load_cons h
        rw [load_cons_of_text htext, ih] at h
        obtain ⟨texts, htexts, hs⟩ := h
        exact ⟨text :: texts, .cons htext htexts, hs⟩
      · intro h
        obtain ⟨texts, htexts, hs⟩ := h
        cases htexts with
        | cons htext htexts =>
            rw [load_cons_of_text htext, ih]
            exact ⟨_, htexts, hs⟩

/-! ## 3. What comes of a class -/

/-- Why directives cannot be applied to a class file: a file cannot be opened, or then be read or
    mapped, a file of directives is not UTF-8, or the directives cannot be applied to what is in the
    class file. -/
inductive Fails (d : σ) (transforms : List String) (input : String) : Prop
  | unread {path : String} (hpath : path ∈ transforms) (hnone : FileSystem.read? d path = none)
  | unmapped (hnone : FileSystem.map? d input = none)
  | notText {path : String} {data : Bytes} (hpath : path ∈ transforms)
      (hdata : FileSystem.read? d path = some data) (hnot : Utf8.decode? data = none)
  | refused {texts : List String} {data : Bytes} {fault : Fault} (htexts : Texts d transforms texts)
      (hdata : FileSystem.map? d input = some data)
      (hfault : (TransformSet.ofTexts texts).transform data = .error fault)

/-- The directives of some files make `out` of the bytes `data` of a class file, in whatever order
    they are merged. -/
def Yields (d : σ) (transforms : List String) (input : String) (data out : Bytes) : Prop :=
  ∃ texts, Texts d transforms texts ∧ FileSystem.map? d input = some data ∧
    ∀ texts' : List String, texts'.Perm texts →
      (TransformSet.ofTexts texts').transform data = .ok out

/-- One order tells for all of them. -/
theorem yields_of_transform {texts : List String} (htexts : Texts d transforms texts)
    (hmap : FileSystem.map? d input = some data)
    (hout : (TransformSet.ofTexts texts).transform data = .ok out) :
    Yields d transforms input data out := by
  refine ⟨texts, htexts, hmap, fun texts' hperm => ?_⟩
  rw [TransformSet.ofTexts_perm hperm, hout]

/-- **What is computed of a class is what the directives make of it.** -/
theorem transformed_ok_iff :
    transformed d transforms input = .ok (data, out) ↔ Yields d transforms input data out := by
  constructor
  · intro h
    obtain ⟨set, hset, h⟩ := Outcome.exists_of_bind_ok h
    obtain ⟨file, hfile, h⟩ := Outcome.exists_of_bind_ok h
    obtain ⟨bytes, hbytes, h⟩ := Outcome.exists_of_bind_ok h
    obtain ⟨result, hresult, h⟩ := Outcome.exists_of_bind_ok h
    cases h
    rw [Outcome.mapError_eq_ok_iff] at hfile hbytes hresult
    obtain ⟨texts, htexts, rfl⟩ := load_ok_iff.1 hset
    rw [TransformSet.foldl_readText_eq_ofTexts] at hresult
    rw [OpenFile.eq_holding hbytes] at hfile
    exact yields_of_transform htexts (map?_eq_some_iff.2 hfile) hresult
  · intro h
    obtain ⟨texts, htexts, hmap, hout⟩ := h
    have hload : load d transforms {} = .ok (TransformSet.ofTexts texts) :=
      load_ok_iff.2 ⟨texts, htexts, (TransformSet.foldl_readText_eq_ofTexts texts).symm⟩
    simp only [transformed, hload, map?_eq_some_iff.1 hmap, OpenFile.holding, Except.mapError, bind,
      Except.bind, hout texts (List.Perm.refl _)]
    rfl

/-- Directives make one thing of a class. -/
theorem Yields.unique {data' out' : Bytes} (h : Yields d transforms input data out)
    (h' : Yields d transforms input data' out') : data = data' ∧ out = out' := by
  rw [← transformed_ok_iff] at h h'
  rw [h, Except.ok.injEq, Prod.mk.injEq] at h'
  exact h'

/-- **Directives that cannot be applied make nothing of the class.** -/
theorem Fails.not_yields (h : Fails d transforms input) : ¬ Yields d transforms input data out := by
  intro hyields
  obtain ⟨texts, htexts, hmap, hout⟩ := hyields
  have hloaded : ∀ path ∈ transforms, ∃ text, text? d path = some text := by
    intro path hpath
    obtain ⟨text, -, htext⟩ := Outcome.exists_of_forall₂ htexts hpath
    exact ⟨text, htext⟩
  cases h with
  | unread hpath hnone =>
      obtain ⟨text, htext⟩ := hloaded _ hpath
      rw [text?, hnone] at htext
      cases htext
  | unmapped hnone =>
      rw [hnone] at hmap
      cases hmap
  | notText hpath hdata hnot =>
      obtain ⟨text, htext⟩ := hloaded _ hpath
      rw [text?, hdata, Option.bind_some, hnot] at htext
      cases htext
  | refused htexts' hdata hfault =>
      have hsame : texts = _ := List.right_unique_forall₂' (fun _ _ _ h h' =>
        Option.some_inj.1 (h.symm.trans h')) htexts htexts'
      rw [hdata, Option.some_inj] at hmap
      rw [← hsame, hmap, hout texts (List.Perm.refl _)] at hfault
      cases hfault

/-- **Directives that do not fail make something of the class.** -/
theorem exists_yields (h : ¬ Fails d transforms input) :
    ∃ data out, Yields d transforms input data out := by
  have htext : ∀ path ∈ transforms, ∃ text, text? d path = some text := by
    intro path hpath
    cases hdata : FileSystem.read? d path with
    | none => exact absurd (.unread hpath hdata) h
    | some data =>
        cases htext : Utf8.decode? data with
        | none => exact absurd (.notText hpath hdata htext) h
        | some text => exact ⟨text, by rw [text?, hdata, Option.bind_some, htext]⟩
  obtain ⟨texts, htexts⟩ := Outcome.exists_forall₂ htext
  cases hdata : FileSystem.map? d input with
  | none => exact absurd (.unmapped hdata) h
  | some data =>
      cases hout : (TransformSet.ofTexts texts).transform data with
      | error fault => exact absurd (.refused htexts hdata hout) h
      | ok out => exact ⟨data, out, yields_of_transform htexts hdata hout⟩

theorem Fails.exists_failure (h : Fails d transforms input) :
    ∃ failure, transformed d transforms input = .error failure := by
  cases htransformed : transformed d transforms input with
  | error failure => exact ⟨failure, rfl⟩
  | ok both => exact absurd (transformed_ok_iff.1 htransformed) h.not_yields

/-- The files of directives may be named in any order. -/
theorem Yields.perm (h : Yields d transforms input data out) (hperm : transforms'.Perm transforms) :
    Yields d transforms' input data out := by
  obtain ⟨texts, htexts, hmap, hout⟩ := h
  obtain ⟨texts', htexts', hperm'⟩ := List.perm_comp_forall₂ hperm htexts
  exact ⟨texts', htexts', hmap, fun texts'' h => hout texts'' (h.trans hperm')⟩

/-- **What has come of a class stays as it is** when the same directives are applied to it where it
    was written. -/
theorem Yields.again (h : Yields d transforms input data out) (hwritten : Written d path out d')
    (hpath : ∀ t ∈ transforms, ¬ SameFile d path t) : Yields d' transforms path out out := by
  obtain ⟨texts, htexts, -, hout⟩ := h
  refine ⟨texts, ?_, hwritten.map?, fun texts' hperm => ?_⟩
  · -- the files of directives are none that was written
    refine (Outcome.forall₂_mem htexts).imp fun t text ht => ?_
    rw [hwritten.text?_of_not_same (hpath t ht.1), ht.2.2]
  · obtain ⟨l, hl, hfixed⟩ := TransformSet.exists_fixed (hout texts' hperm)
    exact TransformSet.transform_of_fixed hl hfixed

/-! ## 4. Outcomes -/

/-- A command that fails before it writes leaves everything as it is. -/
theorem run_of_error {failure : Failure} (h : transformed d transforms input = .error failure) :
    (apply transforms input output check).run d = .failed d failure := by
  cases check with
  | false =>
      show Outcome.of d (applied d transforms input output) = _
      rw [applied, h]
      rfl
  | true =>
      show Outcome.of d (checked d transforms input) = _
      rw [checked, h]
      rfl

/-- **A check** leaves the files as they are, and tells whether the class would change. -/
theorem run_check (h : Yields d transforms input data out) :
    ((apply transforms input output true).run d).directory = d ∧
      ((apply transforms input output true).run d).exitCode = if out = data then 0 else 1 := by
  have hrun : checked d transforms input =
      if data = out then .ok { directory := d }
      else .ok { exitCode := 1, stdout := input ++ ": would be modified\n", directory := d } := by
    rw [checked, transformed_ok_iff.2 h]
    rfl
  rw [run, hrun]
  simp only [eq_comm (a := out)]
  split <;> exact ⟨rfl, rfl⟩

/-- **A command that writes** leaves in the file what was made of the class, be it written or be it
    there already. -/
theorem run_write [LawfulFileSystem σ] (h : Yields d transforms input data out)
    (hwritable : Writable d (output.getD input) out) :
    ((apply transforms input output false).run d).exitCode = 0 ∧ Written d (output.getD input) out
      ((apply transforms input output false).run d).directory := by
  have hstart := transformed_ok_iff.2 h
  by_cases hsame : data = out ∧ Path.compared (output.getD input) = Path.compared input
  · have hrun : applied d transforms input output = .ok { directory := d } := by
      rw [applied, hstart]
      exact if_pos hsame
    obtain ⟨texts, -, hmap, -⟩ := h
    rw [run, hrun]
    exact ⟨rfl, written_self hwritable hsame.2 (hsame.1 ▸ hmap)⟩
  · obtain ⟨d', hwrite⟩ := hwritable
    have hrun : applied d transforms input output = .ok { directory := d' } := by
      rw [applied, hstart]
      refine (if_neg hsame).trans ?_
      rw [hwrite]
      rfl
    rw [run, hrun]
    exact ⟨rfl, written_of_write hwrite⟩

/-- **The outcome of a command that applies directives.** If the directives cannot be applied, it
    exits with 1 and leaves all files as they are. Otherwise they make something of the class file,
    whatever the order in which they are merged. A command that only checks leaves all files as they
    are, and exits with 1 exactly if the class would not stay as it is. Any other one exits with 0
    and writes the file that it is to write, if that can be written and holds no directives, and no
    other one; a check of that file against the same directives then exits with 0. -/
theorem run_apply [LawfulFileSystem σ]
    (h : (apply transforms input output check).run d = outcome) :
    (Fails d transforms input → outcome.exitCode = 1 ∧ outcome.directory = d) ∧
      (¬ Fails d transforms input → ∃ data out, Yields d transforms input data out ∧
        (check = true →
          outcome.directory = d ∧ outcome.exitCode = if out = data then 0 else 1) ∧
        (check = false → Writable d (output.getD input) out →
          (∀ t ∈ transforms, ¬ SameFile d (output.getD input) t) →
          outcome.exitCode = 0 ∧ Written d (output.getD input) out outcome.directory ∧
          ∀ transforms' : List String, transforms'.Perm transforms →
            ((apply transforms' (output.getD input) none true).run outcome.directory).exitCode =
              0)) := by
  subst h
  refine ⟨fun hfails => ?_, fun hfails => ?_⟩
  · obtain ⟨failure, hfailure⟩ := hfails.exists_failure
    rw [run_of_error hfailure]
    exact ⟨rfl, rfl⟩
  · obtain ⟨data, out, hyields⟩ := exists_yields hfails
    refine ⟨data, out, hyields, fun hcheck => ?_, fun hcheck hwritable hpath => ?_⟩
    · rw [hcheck]
      exact run_check hyields
    · rw [hcheck]
      obtain ⟨hcode, hwritten⟩ := run_write hyields hwritable
      refine ⟨hcode, hwritten, fun transforms' hperm => ?_⟩
      have hagain := (hyields.again hwritten hpath).perm hperm
      rw [(run_check hagain).2, if_pos rfl]

/-- A directory with the class of `Layout.sharedRow` and two files of directives. -/
def sharedDirectory : Directory where
  files := Listing.ofList [("A", Layout.sharedRow), ("s", Utf8.encode "public A m()V\n"),
    ("t", Utf8.encode "default A m()V\n")]

/-- Its files lie in no folder, and nothing stands in their way. -/
theorem place_sharedDirectory : ∀ name ∈ ["A", "s", "t"], Directory.place name = name ∧
    sharedDirectory.blocked? name = none ∧ sharedDirectory.isFolder name = false ∧
    Directory.endsWithSlash name = false := by decide +kernel

theorem opened_sharedDirectory {name : String} (hname : name ∈ ["A", "s", "t"]) {data : Bytes}
    (hdata : sharedDirectory.files.get? name = some data) :
    opened sharedDirectory name = .ok (.holding data) := by
  obtain ⟨hplace, hblocked, hfolder, hslash⟩ := place_sharedDirectory name hname
  refine Directory.opened_eq_ok_iff.2 ⟨hblocked, .inr ⟨?_, hslash, data, ?_, rfl⟩⟩
  · rwa [hplace]
  · rwa [hplace]

/-- Both files together ask for what `publicShared` asks for, which changes the class. -/
theorem yields_sharedDirectory : ∃ out, out ≠ Layout.sharedRow ∧
    Yields sharedDirectory ["s", "t"] "A" Layout.sharedRow out := by
  have htext : ∀ name ∈ ["A", "s", "t"], ∀ text,
      sharedDirectory.files.get? name = some (Utf8.encode text) →
        text? sharedDirectory name = some text := by
    intro name hname text hdata
    rw [text?, read?_eq_some_iff.2 ⟨_, opened_sharedDirectory hname hdata, rfl⟩, Option.bind_some,
      Utf8.decode?_encode]
  have htexts : Texts sharedDirectory ["s", "t"] ["public A m()V\n", "default A m()V\n"] :=
    .cons (htext "s" (by decide) _ rfl) (.cons (htext "t" (by decide) _ rfl) .nil)
  have hclass : FileSystem.map? sharedDirectory "A" = some Layout.sharedRow :=
    map?_eq_some_iff.2 (opened_sharedDirectory (by decide) rfl)
  have hset : TransformSet.ofTexts ["public A m()V\n", "default A m()V\n"] =
      TransformSet.publicShared := by decide +kernel
  obtain ⟨out, hout⟩ := TransformSet.exists_transform_sharedRow
  have hnew : TransformSet.publicShared.transform Layout.sharedRow ≠ .ok Layout.sharedRow := by
    decide +kernel
  exact ⟨out, fun hsame => hnew (hsame ▸ hout), yields_of_transform htexts hclass (hset ▸ hout)⟩

/-- The class is changed where it is. A check tells so before, and finds nothing to change
    afterwards. A path that makes a folder of the class cannot be opened: the command exits with 1
    and leaves everything as it is. -/
theorem run_apply_shared :
    ((apply ["s", "t"] "A" none true).run sharedDirectory).exitCode = 1 ∧
      (∃ outcome out, (apply ["s", "t"] "A" none false).run sharedDirectory = outcome ∧
        outcome.exitCode = 0 ∧ out ≠ Layout.sharedRow ∧
        outcome.directory.read? "A" = some out ∧
        ((apply ["t", "s"] "A" none true).run outcome.directory).exitCode = 0) ∧
      ∃ outcome, (apply ["s", "t"] "A/" none false).run sharedDirectory = outcome ∧
        outcome.exitCode = 1 ∧ outcome.directory = sharedDirectory := by
  obtain ⟨out, hnew, hyields⟩ := yields_sharedDirectory
  have hgood : ¬ Fails sharedDirectory ["s", "t"] "A" := fun h => h.not_yields hyields
  refine ⟨?_, ?_, ?_⟩
  · have hrun : (apply ["s", "t"] "A" none true).run sharedDirectory = _ := rfl
    obtain ⟨-, hruns⟩ := run_apply hrun
    obtain ⟨data', out', hyields', hcheck, -⟩ := hruns hgood
    obtain ⟨rfl, rfl⟩ := hyields.unique hyields'
    rw [(hcheck rfl).2, if_neg hnew]
  · have hrun : (apply ["s", "t"] "A" none false).run sharedDirectory = _ := rfl
    have hwritable : Writable sharedDirectory "A" out := by
      obtain ⟨hplace, hblocked, hfolder, hslash⟩ := place_sharedDirectory "A" (by decide)
      exact ⟨_, Directory.write_eq_iff.2 ⟨hblocked, hplace.symm ▸ hfolder, hslash, rfl⟩⟩
    have hothers : ∀ t ∈ ["s", "t"], ¬ SameFile sharedDirectory "A" t := by
      have hplace : ∀ t ∈ ["s", "t"], Directory.place "A" ≠ Directory.place t := by decide +kernel
      exact hplace
    obtain ⟨-, hruns⟩ := run_apply hrun
    obtain ⟨data', out', hyields', -, hwrite⟩ := hruns hgood
    obtain ⟨rfl, rfl⟩ := hyields.unique hyields'
    obtain ⟨hcode, hwritten, hagain⟩ := hwrite rfl hwritable hothers
    exact ⟨_, out, hrun, hcode, hnew, hwritten.read?, hagain ["t", "s"] (List.Perm.swap _ _ _)⟩
  · have hrun : (apply ["s", "t"] "A/" none false).run sharedDirectory = _ := rfl
    have hclosed : FileSystem.map? sharedDirectory "A/" = none := by
      have hopened : ∀ file, opened sharedDirectory "A/" ≠ .ok file := by
        intro file hfile
        obtain ⟨-, ⟨hfolder, -⟩ | ⟨-, hslash, -⟩⟩ := Directory.opened_eq_ok_iff.1 hfile
        · exact absurd hfolder (by decide +kernel)
        · exact absurd hslash (by decide)
      rw [Option.eq_none_iff_forall_ne_some]
      exact fun data hdata => hopened _ (map?_eq_some_iff.1 hdata)
    exact ⟨_, hrun, (run_apply hrun).1 (.unmapped hclosed)⟩

end Command

end ClassAccess
