import Mathlib
import PixelShader.CommandLine.Disk
import PixelShader.Proofs.Supported
/-!
# What is put on a disk is found there

A path leads to a place for a file (`Disk.Leads`) when the walk along it ends in a directory of the disk and its last name
can be one of a file.  A file put there is found there (`find_keep`): a walk only asks which names are taken, and none is
given up when a file is put, so every walk that went well goes the same way afterwards (`Grows.walk`).  A path that leads
to no such place leaves the disk as it is (`put_cases`), so that saving makes a file exactly where one can be made
(`find_savePicture`).
-/
namespace PixelShader.CommandLine.Disk

/-- The path leads to a place for a file, in a directory that exists and under a name that is no directory's. -/
inductive Leads (d : Disk) (path : String) : List String → Prop
  | intro {directory : List String} {name : String} (short : path.utf8ByteSize ≤ maxPathLength)
      (walk : d.walk (.start path) (pathNames path).dropLast = .ok (.inside directory))
      (isDirectory : d.isDirectory (.inside directory) = true)
      (last : (pathNames path).getLast? = some name) (noDot : name ≠ ".") (noDots : name ≠ "..")
      (noSlash : endsInSlash path = false) (shortName : name.utf8ByteSize ≤ maxNameLength)
      (free : d.isDirectory (.inside (directory ++ [name])) = false) : Leads d path (directory ++ [name])

/-- A file can be made at the path: its name has the extension of some format, and it leads to a place for a file. -/
def Writable (d : Disk) (path : String) : Prop :=
  (∃ format, formatToWrite path = .ok format) ∧ ∃ names, d.Leads path names

theorem guard_eq_ok {ε α : Type} {c : Prop} [Decidable c] {fault : ε} {k : PUnit → Except ε α} {x : Except ε α} {a : α} :
    (if c then throw fault >>= k else x) = .ok a ↔ ¬ c ∧ x = .ok a := by
  split
  · rename_i hc
    exact ⟨fun h => (nomatch (show Except.error fault = .ok a from h)), fun h => absurd hc h.1⟩
  · rename_i hc
    exact ⟨fun h => ⟨hc, h⟩, fun h => h.2⟩

/-! ## Disks that have more names -/

def Grows (d d' : Disk) : Prop := ∀ e ∈ d.files, ∃ f, (e.1, f) ∈ d'.files

section
variable {d d' : Disk} {path : String} {names : List String} {f : ByteArray}

theorem grows_keep : d.Grows (d.keep names f) := by
  intro e he
  by_cases hn : e.1 = names
  · exact ⟨f, by simp [keep, hn]⟩
  · exact ⟨e.2, by simp [keep, hn, he]⟩

theorem Grows.holds (h : d.Grows d') (hh : d.holds names = true) : d'.holds names = true := by
  obtain ⟨e, he, hp⟩ := List.any_eq_true.1 hh
  obtain ⟨g, hg⟩ := h e he
  exact List.any_eq_true.2 ⟨_, hg, hp⟩

theorem Grows.isDirectory (h : d.Grows d') {l : Location} (hl : d.isDirectory l = true) : d'.isDirectory l = true := by
  cases l with
  | outside => rfl
  | inside names =>
    rcases Bool.or_eq_true_iff.1 hl with hn | hn
    · exact Bool.or_eq_true_iff.2 (.inl hn)
    · obtain ⟨e, he, hp⟩ := List.any_eq_true.1 hn
      obtain ⟨g, hg⟩ := h e he
      exact Bool.or_eq_true_iff.2 (.inr (List.any_eq_true.2 ⟨_, hg, hp⟩))

theorem Grows.enter (h : d.Grows d') {l m : Location} {name : String} (he : d.enter l name = .ok m) :
    d'.enter l name = .ok m := by
  unfold Disk.enter at he ⊢
  by_cases hdot : name = "."
  · rwa [if_pos hdot] at he ⊢
  by_cases hdots : name = ".."
  · rwa [if_neg hdot, if_pos hdots] at he ⊢
  by_cases hlong : maxNameLength < name.utf8ByteSize
  · rw [if_neg hdot, if_neg hdots, if_pos hlong] at he
    cases he
  rw [if_neg hdot, if_neg hdots, if_neg hlong] at he ⊢
  cases l with
  | outside => cases he
  | inside names =>
    simp only at he ⊢
    by_cases hh : d.holds (names ++ [name]) = true
    · rw [if_pos hh] at he
      rwa [if_pos (h.holds hh)]
    · rw [if_neg hh] at he
      cases he

theorem walk_cons_eq_ok {l m : Location} {name : String} {rest : List String} :
    d.walk l (name :: rest) = .ok m ↔
      d.isDirectory l = true ∧ ∃ n, d.enter l name = .ok n ∧ d.walk n rest = .ok m := by
  rw [walk, guard_eq_ok, Bool.not_eq_true', Bool.not_eq_false, except_bind_eq_ok]

theorem Grows.walk (h : d.Grows d') {l m : Location} (hw : d.walk l names = .ok m) : d'.walk l names = .ok m := by
  induction names generalizing l with
  | nil => exact hw
  | cons name rest ih =>
    obtain ⟨hl, n, hn, hw⟩ := walk_cons_eq_ok.1 hw
    exact walk_cons_eq_ok.2 ⟨h.isDirectory hl, n, h.enter hn, ih hw⟩

theorem walk_concat {l m n : Location} {name : String} (hw : d.walk l names = .ok m) (hm : d.isDirectory m = true)
    (he : d.enter m name = .ok n) : d.walk l (names ++ [name]) = .ok n := by
  induction names generalizing l with
  | nil =>
    obtain rfl : l = m := Except.ok.inj hw
    exact walk_cons_eq_ok.2 ⟨hm, n, he, rfl⟩
  | cons first rest ih =>
    obtain ⟨hl, k, hk, hw⟩ := walk_cons_eq_ok.1 hw
    exact walk_cons_eq_ok.2 ⟨hl, k, hk, ih hw⟩

/-! ## Putting and finding -/

theorem lookup_keep : (d.keep names f).files.lookup names = some f := by
  have hnone : (d.files.filter (·.1 != names)).lookup names = none := by
    rw [List.lookup_eq_none_iff]
    intro e he
    have hne : e.1 ≠ names := by simpa using (List.mem_filter.1 he).2
    exact bne_iff_ne.2 hne.symm
  rw [keep, List.lookup_append, hnone]
  simp

theorem isDirectory_keep_self (hfree : d.isDirectory (.inside names) = false) :
    (d.keep names f).isDirectory (.inside names) = false := by
  rw [isDirectory, Bool.or_eq_false_iff, List.any_eq_false] at hfree ⊢
  refine ⟨hfree.1, fun e he => ?_⟩
  rcases List.mem_append.1 he with he | he
  · exact hfree.2 e (List.mem_filter.1 he).1
  · rw [List.mem_singleton.1 he]
    simp

/-- **A file that is put at a path is found there.** -/
theorem Leads.find_keep (h : d.Leads path names) : (d.keep names f).find path = .ok f := by
  obtain ⟨short, walk, isDir, last, noDot, noDots, noSlash, shortName, free⟩ := h
  rename_i directory name
  have hsplit : pathNames path = (pathNames path).dropLast ++ [name] :=
    (List.dropLast_append_getLast? name last).symm
  have henter : (d.keep (directory ++ [name]) f).enter (.inside directory) name = .ok (.inside (directory ++ [name])) := by
    have hholds : (d.keep (directory ++ [name]) f).holds (directory ++ [name]) = true :=
      List.any_eq_true.2 ⟨(directory ++ [name], f), by simp [keep], by simp⟩
    simp only [Disk.enter, if_neg noDot, if_neg noDots, if_neg (Nat.not_lt.2 shortName), if_pos hholds]
  have hwalk := walk_concat (grows_keep.walk walk) (grows_keep.isDirectory isDir) henter
  rw [← hsplit] at hwalk
  have hfile := @isDirectory_keep_self d (directory ++ [name]) f free
  rw [find, guard_eq_ok, except_bind_eq_ok]
  refine ⟨Nat.not_lt.2 short, _, hwalk, ?_⟩
  rw [guard_eq_ok, guard_eq_ok]
  refine ⟨Bool.not_eq_true _ ▸ hfile, Bool.not_eq_true _ ▸ noSlash, ?_⟩
  simp only [lookup_keep]
  rfl

theorem Leads.put (h : d.Leads path names) : d.put path f = .ok (d.keep names f) := by
  obtain ⟨short, walk, isDir, last, noDot, noDots, noSlash, shortName, free⟩ := h
  rw [Disk.put, guard_eq_ok, except_bind_eq_ok]
  refine ⟨Nat.not_lt.2 short, _, walk, ?_⟩
  rw [guard_eq_ok]
  refine ⟨by simp [isDir], ?_⟩
  rw [last]
  split
  · rename_i hn
    cases hn
  · rename_i hn
    exact absurd (Option.some.inj hn) noDot
  · rename_i hn
    exact absurd (Option.some.inj hn) noDots
  · rename_i hn
    cases hn
    rw [if_neg (by simp [noSlash]), putIn, if_neg (Nat.not_lt.2 shortName)]
    simp only [free, Bool.false_eq_true, if_false]

theorem put_cases (h : d.put path f = .ok d') : (∃ names, d.Leads path names ∧ d' = d.keep names f) ∨ d' = d := by
  rw [Disk.put, guard_eq_ok, except_bind_eq_ok] at h
  obtain ⟨short, l, walk, h⟩ := h
  rw [guard_eq_ok] at h
  obtain ⟨isDir, h⟩ := h
  split at h
  · cases h
  · cases h
  · cases h
  · rename_i name noDot noDots last
    split at h
    · cases h
    · rename_i noSlash
      unfold putIn at h
      split at h
      · cases h
      · rename_i shortName
        cases l with
        | outside => exact .inr (Except.ok.inj h).symm
        | inside directory =>
          simp only at h
          split at h
          · cases h
          · rename_i free
            refine .inl ⟨_, .intro (Nat.not_lt.1 short) walk (by simpa using isDir) last ?_ ?_ (by simpa using noSlash)
              (Nat.not_lt.1 shortName) (by simpa using free), (Except.ok.inj h).symm⟩
            · rintro rfl
              exact noDot rfl
            · rintro rfl
              exact noDots rfl

/-! ## Saving pictures -/

variable {p : Picture}

theorem Leads.savePicture {format : PictureFormat} (h : d.Leads path names) (hf : formatToWrite path = .ok format) :
    asFiles.savePicture path p d =
      (checkWrite format, d.keep names (if format = .png then Png.encode p else .empty)) := by
  simp [Files.savePicture, hf, asFiles, bind, StateT.bind, h.put, pure, StateT.pure]

theorem savePicture_cases (d : Disk) (path : String) (p : Picture) :
    (asFiles.savePicture path p d).2 = d ∨ d.Writable path := by
  cases hf : formatToWrite path with
  | error fault => exact .inl (by simp [Files.savePicture, hf, pure, StateT.pure])
  | ok format =>
    cases hput : d.put path (if format = .png then Png.encode p else .empty) with
    | error fault =>
      exact .inl (by simp [Files.savePicture, hf, asFiles, bind, StateT.bind, hput, pure, StateT.pure])
    | ok d' =>
      rcases put_cases hput with ⟨names, hleads, -⟩ | rfl
      · exact .inr ⟨⟨format, hf⟩, names, hleads⟩
      · exact .inl (by simp [Files.savePicture, hf, asFiles, bind, StateT.bind, hput, pure, StateT.pure])

/-- **Saving makes a file exactly where one can be made.** -/
theorem find_savePicture (hnew : ∀ f, d.find path ≠ .ok f) :
    (∃ f, (asFiles.savePicture path p d).2.find path = .ok f) ↔ d.Writable path := by
  constructor
  · rintro ⟨f, hf⟩
    rcases savePicture_cases d path p with hd | hw
    · rw [hd] at hf
      exact absurd hf (hnew f)
    · exact hw
  · rintro ⟨⟨format, hformat⟩, names, hleads⟩
    rw [hleads.savePicture hformat]
    exact ⟨_, hleads.find_keep⟩

end
end PixelShader.CommandLine.Disk
