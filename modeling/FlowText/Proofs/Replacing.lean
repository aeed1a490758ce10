import FlowText.Command.Files
import Mathlib.Data.List.Basic

/-!
# Files that are replaced

A plain path names a file in the folder that paths start from, and the scratch file for it stands
beside it under another name (`Path.scratch_of_plain`, `Path.plain?_scratchName`). Any other path may
lead anywhere, but only through folders. Files that come and go leave the folders as they are, and so
every path leads where it led before (`Directory.SameFolders.place`).

So replacing a file that may be written does not fail: afterwards it has the new text, its scratch
file is gone, and at all other places stands what stood there (`Directory.exists_replaced`).
-/

namespace FlowText

namespace Command

/-- What comes next goes on from where an action has led. -/
theorem run_bind {σ α β : Type} {act : StateM σ α} {next : α → StateM σ β} {s s' : σ} {a : α}
    (h : act.run s = (a, s')) : (act >>= next).run s = (next a).run s' := by
  rw [StateT.run_bind, h]
  rfl

/-! ### Paths -/

namespace Path

/-- The parts of a path hold no slash. -/
theorem slash_not_mem_of_mem_cut {cs part : List Char} (h : part ∈ cut cs) : '/' ∉ part := by
  induction cs generalizing part with
  | nil =>
    obtain rfl := List.mem_singleton.1 h
    exact List.not_mem_nil
  | cons c cs ih =>
    rw [cut] at h
    split at h
    · rcases List.mem_cons.1 h with rfl | h
      · exact List.not_mem_nil
      · exact ih h
    next hc =>
    split at h
    · obtain rfl := List.mem_singleton.1 h
      simpa using Ne.symm hc
    · next hcut =>
      rw [hcut] at ih
      rcases List.mem_cons.1 h with rfl | h
      · simpa [Ne.symm hc] using ih List.mem_cons_self
      · exact ih (List.mem_cons_of_mem _ h)

/-- What holds no slash is not cut. -/
theorem cut_of_slash_not_mem {cs : List Char} (h : '/' ∉ cs) : cut cs = [cs] := by
  induction cs with
  | nil => rfl
  | cons c cs ih =>
    obtain ⟨hc, hcs⟩ := List.ne_and_not_mem_of_not_mem_cons h
    rw [cut, if_neg (Ne.symm hc), ih hcs]

/-- A plain path starts where it is read, and its last part alone leads on. -/
theorem cut_of_plain {path name : String} (h : plain? path = some name) :
    isRooted path = false ∧ isHere name.toList = false ∧ name.toList ≠ ['.', '.'] ∧
      ∃ before, cut path.toList = before ++ [name.toList] ∧ ∀ b ∈ before, isHere b = true := by
  rw [plain?] at h
  split at h
  · cases h
  next hroot =>
  split at h
  · next part before hcut =>
    split at h
    · cases h
    next hpart =>
    cases h
    simp only [Bool.or_eq_true, Bool.not_eq_true', not_or, Bool.not_eq_true, Bool.not_eq_false,
      beq_iff_eq, List.all_eq_true] at hpart
    obtain ⟨⟨hhere, hup⟩, hbefore⟩ := hpart
    rw [String.toList_ofList]
    refine ⟨Bool.eq_false_iff.2 hroot, hhere, hup, before.reverse, ?_, ?_⟩
    · rw [← List.reverse_reverse (cut path.toList), hcut, List.reverse_cons]
    · exact fun b hb => hbefore b (List.mem_reverse.1 hb)
  · cases h

/-- A plain path has one part that names something, and that is the name. -/
theorem parts_of_plain {path name : String} (h : plain? path = some name) :
    parts path = [name.toList] ∧ '/' ∉ name.toList := by
  obtain ⟨-, hhere, -, before, hcut, hbefore⟩ := cut_of_plain h
  have hnone : before.filter (!isHere ·) = [] := by
    rw [List.filter_eq_nil_iff]
    intro b hb
    simp [hbefore b hb]
  have hmem : name.toList ∈ cut path.toList := hcut ▸ List.mem_append_right _ List.mem_cons_self
  refine ⟨?_, slash_not_mem_of_mem_cut hmem⟩
  rw [parts, hcut, List.filter_append, hnone, List.nil_append, List.filter_singleton, hhere]
  rfl

/-- The name of the scratch file for a file in the current directory. -/
def scratchName (name : String) : String := String.ofList ('.' :: name.toList ++ ".tmp".toList)

/-- The scratch file has another name than the file. -/
theorem scratchName_ne (name : String) : scratchName name ≠ name := by
  intro h
  have hlength := congrArg (fun s : String => s.toList.length) h
  simp only [scratchName, String.toList_ofList, List.length_append, List.length_cons] at hlength
  omega

/-- The scratch file for a plain path is named after it. -/
theorem scratch_of_plain {path name : String} (h : plain? path = some name) :
    scratch path = scratchName name := by
  obtain ⟨hroot, -, hup, -⟩ := cut_of_plain h
  obtain ⟨hparts, -⟩ := parts_of_plain h
  have hname : name? path = some name.toList := by
    rw [name?, hparts]
    simp [hup]
  rw [scratch, home, hname, hparts, hroot]
  simp [scratchName]

/-- The scratch file stands in the current directory, too. -/
theorem plain?_scratchName {path name : String} (h : plain? path = some name) :
    plain? (scratchName name) = some (scratchName name) := by
  obtain ⟨-, hslash⟩ := parts_of_plain h
  have hchars : (scratchName name).toList = '.' :: name.toList ++ ".tmp".toList :=
    String.toList_ofList
  have hcut : cut (scratchName name).toList = [(scratchName name).toList] := by
    refine cut_of_slash_not_mem ?_
    rw [hchars]
    simp [hslash]
  have hroot : isRooted (scratchName name) = false := by
    rw [isRooted, hchars]
    rfl
  have hlong : 5 ≤ (scratchName name).toList.length := by
    rw [hchars]
    simp
  -- the name is too long for one that stands for a place
  have hplace : ∀ place : List Char, place.length < 5 → (scratchName name).toList ≠ place := by
    rintro _ hshort rfl
    exact absurd hlong (Nat.not_le.2 hshort)
  have hhere : isHere (scratchName name).toList = false := by
    rw [isHere, Bool.or_eq_false_iff, List.isEmpty_eq_false_iff, beq_eq_false_iff_ne]
    exact ⟨hplace [] (by decide), hplace ['.'] (by decide)⟩
  have hup : ((scratchName name).toList == ['.', '.']) = false :=
    beq_eq_false_iff_ne.2 (hplace ['.', '.'] (by decide))
  rw [plain?, hroot, hcut]
  simp [hhere, hup]

/-- **Apart.** The first path leads neither to the file of the second one nor to its scratch
file. -/
structure Apart (other path : String) : Prop where
  file : plain? other ≠ plain? path
  scratch : plain? other ≠ plain? (scratch path)

end Path

/-! ### Directories -/

namespace Directory

variable {d d' : Directory} {path name text p q : String}

/-- A file is found at the place where it is put, and otherwise what was there. -/
theorem at?_put (h : p ≠ "") (bytes : ByteArray) (other : String) :
    (d.put p bytes).at? other =
      if p = other then some (.file bytes) else d.at? other := by
  rw [at?, at?, put, Keyed.find?_insert]
  by_cases hroot : other = ""
  · rw [if_pos hroot, if_pos hroot, if_neg fun hp => h (hp.trans hroot)]
  · rw [if_neg hroot, if_neg hroot]
    split <;> rfl

/-- Nothing is found at a place that was cleared, and otherwise what was there. -/
theorem at?_drop (h : p ≠ "") (other : String) :
    (d.drop p).at? other = if other = p then none else d.at? other := by
  rw [at?, at?, drop, Keyed.find?_erase]
  by_cases hroot : other = ""
  · rw [if_pos hroot, if_pos hroot, if_neg fun hp => h (hp.symm.trans hroot)]
  · rw [if_neg hroot, if_neg hroot]
    split <;> rfl

/-! ### Paths lead through folders -/

/-- **The same folders**, and paths start from the same one. -/
structure SameFolders (d d' : Directory) : Prop where
  home : d'.home = d.home
  folder : ∀ place, d'.at? place = some .folder ↔ d.at? place = some .folder

/-- Nothing is changed. -/
theorem SameFolders.refl (d : Directory) : d.SameFolders d := ⟨rfl, fun _ => .rfl⟩

/-- A change of files can be undone. -/
theorem SameFolders.symm (h : d.SameFolders d') : d'.SameFolders d :=
  ⟨h.home.symm, fun place => (h.folder place).symm⟩

/-- One change of files after the other keeps the folders. -/
theorem SameFolders.trans {d'' : Directory} (h : d.SameFolders d') (h' : d'.SameFolders d'') :
    d.SameFolders d'' :=
  ⟨h'.home.trans h.home, fun place => (h'.folder place).trans (h.folder place)⟩

/-- A path leads on from folders only. -/
theorem step_eq_ok_iff {part : List Char} :
    d.step q part = .ok p ↔ d.at? q = some .folder ∧ next q part = p := by
  rw [step]
  split <;> next h => simp [h]

/-- The parts of a path lead to the same place through the same folders. -/
theorem SameFolders.foldlM_step (h : d.SameFolders d') {parts : List (List Char)}
    (hp : parts.foldlM d.step q = .ok p) : parts.foldlM d'.step q = .ok p := by
  induction parts generalizing q with
  | nil => exact hp
  | cons part parts ih =>
    rw [List.foldlM_cons] at hp ⊢
    cases hq : d.step q part with
    | error reason =>
      rw [hq] at hp
      cases hp
    | ok q' =>
      obtain ⟨hfolder, hnext⟩ := step_eq_ok_iff.1 hq
      rw [hq] at hp
      rw [step_eq_ok_iff.2 ⟨(h.folder q).2 hfolder, hnext⟩]
      exact ih hp

/-- A path leads where it led before. -/
theorem SameFolders.place (h : d.SameFolders d') (hp : d.place path = .ok p) :
    d'.place path = .ok p := by
  rw [Directory.place] at hp ⊢
  split
  · next he => rw [if_pos he] at hp; exact hp
  · next he =>
    rw [if_neg he] at hp
    rw [h.home]
    exact h.foldlM_step hp

/-- A plain path leads to its name, from where paths start. -/
theorem place_of_plain (h : Path.plain? path = some name) :
    d.place path = d.step d.home name.toList := by
  obtain ⟨hroot, -, -, before, hcut, hbefore⟩ := Path.cut_of_plain h
  have hne : path ≠ "" := by
    rintro rfl
    cases h
  have hfold : (before ++ [name.toList]).foldlM d.step d.home = d.step d.home name.toList := by
    clear hcut
    induction before with
    | nil => exact bind_pure _
    | cons b before ih =>
      obtain ⟨hb, hbefore⟩ := List.forall_mem_cons.1 hbefore
      rw [List.cons_append, List.foldlM_cons]
      cases hhome : d.at? d.home with
      | none => simp only [step, hhome]; rfl
      | some e =>
        cases e with
        | file bytes => simp only [step, hhome]; rfl
        | folder =>
          have hstay : d.step d.home b = .ok d.home :=
            step_eq_ok_iff.2 ⟨hhome, if_pos hb⟩
          rw [hstay]
          exact ih hbefore
  rw [place, if_neg hne, hroot, hcut]
  exact hfold

/-- So it leads there if that is a folder, and nowhere else. -/
theorem place_eq_ok_iff (h : Path.plain? path = some name) :
    d.place path = .ok p ↔ d.at? d.home = some .folder ∧ inside d.home name = p := by
  obtain ⟨-, hhere, hup, -⟩ := Path.cut_of_plain h
  have hnext : next d.home name.toList = inside d.home name := by
    rw [next, hhere, if_neg Bool.false_ne_true, if_neg hup, String.ofList_toList]
  rw [place_of_plain h, step_eq_ok_iff, hnext]

/-- A file may be written where a path leads, unless there is a folder. -/
theorem spot_eq_ok_iff :
    d.spot path = .ok p ↔ d.place path = .ok p ∧ d.at? p ≠ some .folder := by
  rw [spot]
  cases d.place path with
  | error e => exact ⟨nofun, fun h => nomatch h.1⟩
  | ok q =>
    change (if d.at? q = some .folder then Except.error isFolder else .ok q) = .ok p ↔ _
    split <;> grind

/-- A path that may be written may still be written. -/
theorem SameFolders.spot (h : d.SameFolders d') (hp : d.spot path = .ok p) :
    d'.spot path = .ok p := by
  obtain ⟨hplace, hno⟩ := spot_eq_ok_iff.1 hp
  exact spot_eq_ok_iff.2 ⟨h.place hplace, fun hf => hno ((h.folder p).1 hf)⟩

/-- What is read depends on what stands where the path leads. -/
theorem SameFolders.bytes (h : d.SameFolders d') (hp : d.place path = .ok p)
    (he : d'.at? p = d.at? p) : d'.bytes path = d.bytes path := by
  rw [Directory.bytes, Directory.bytes, hp, h.place hp]
  exact congrArg contents he

/-- The bytes that a path leads to are read. -/
theorem bytes_of_file {b : ByteArray} (hp : d.place path = .ok p) (he : d.at? p = some (.file b)) :
    d.bytes path = .ok b := by
  rw [bytes, hp]
  exact congrArg contents he

/-- Where nothing stands, nothing is read. -/
theorem bytes_of_none (hp : d.place path = .ok p) (he : d.at? p = none) :
    d.bytes path = .error missing := by
  rw [bytes, hp]
  exact congrArg contents he

/-! ### Files are put, and taken away -/

/-- The root is a folder. -/
theorem ne_root_of_ne_folder (h : d.at? p ≠ some .folder) : p ≠ "" := by
  rintro rfl
  exact h rfl

/-- A file is no folder. -/
theorem file_ne_folder (b : ByteArray) : some (Entry.file b) ≠ some .folder := by
  intro h
  cases h

/-- Files come and go between the folders. -/
theorem sameFolders_put (h : d.at? p ≠ some .folder) (b : ByteArray) :
    d.SameFolders (d.put p b) := by
  refine ⟨rfl, fun place => ?_⟩
  rw [at?_put (ne_root_of_ne_folder h)]
  split
  · next hp => exact iff_of_false (file_ne_folder b) (hp ▸ h)
  · exact .rfl

/-- Puts a file at a place by way of a scratch place, which is cleared again. -/
def putBy (d : Directory) (q p : String) (b : ByteArray) : Directory := ((d.put q b).put p b).drop q

/-- The file is at its place, and the scratch place is clear. -/
theorem at?_putBy (hq : d.at? q ≠ some .folder) (hp : d.at? p ≠ some .folder)
    (b : ByteArray) (other : String) :
    (d.putBy q p b).at? other =
      if other = q then none else if p = other then some (.file b) else d.at? other := by
  rw [putBy, at?_drop (ne_root_of_ne_folder hq), at?_put (ne_root_of_ne_folder hp),
    at?_put (ne_root_of_ne_folder hq)]
  split
  · rfl
  · next hne => rw [if_neg (Ne.symm hne)]

/-- No folder comes or goes on the way. -/
theorem sameFolders_putBy (hq : d.at? q ≠ some .folder) (hp : d.at? p ≠ some .folder)
    (b : ByteArray) : d.SameFolders (d.putBy q p b) := by
  refine ⟨rfl, fun place => ?_⟩
  rw [at?_putBy hq hp]
  split
  · next h => exact iff_of_false (Option.some_ne_none _).symm (h ▸ hq)
  split
  · next h => exact iff_of_false (file_ne_folder b) (h ▸ hp)
  · exact .rfl

/-! ### Replacing -/

/-- A change that is not refused is made. -/
theorem run_changing {change : Directory → Except String Directory} (h : change d = .ok d') :
    (changing change).run d = (.ok (), d') := by
  change changing change d = _
  rw [changing, h]

/-- A file is written where its path leads. -/
theorem run_write (h : d.spot path = .ok p) (b : ByteArray) :
    (files.write path b).run d = (.ok (), d.put p b) := by
  refine run_changing ?_
  rw [h]
  rfl

/-- A file that is renamed leaves its place. -/
theorem renamed_eq {source target : String} {b : ByteArray} (hq : d.place source = .ok q)
    (he : d.at? q = some (.file b)) (hp : d.spot target = .ok p) (hne : q ≠ p) :
    d.renamed source target = .ok ((d.put p b).drop q) := by
  rw [renamed, bytes_of_file hq he, hq, hp]
  exact congrArg Except.ok (if_neg hne)

/-- The scratch file is written, and then it takes the place of the file. -/
theorem run_replace (hp : d.spot path = .ok p) (hq : d.spot (Path.scratch path) = .ok q)
    (hne : q ≠ p) (text : String) :
    (files.replace path text).run d = (.ok (), d.putBy q p text.toUTF8) := by
  obtain ⟨hplace, hfolder⟩ := spot_eq_ok_iff.1 hq
  have hput := sameFolders_put hfolder text.toUTF8
  have hwritten : (d.put q text.toUTF8).at? q = some (.file text.toUTF8) := by
    rw [at?_put (ne_root_of_ne_folder hfolder), if_pos rfl]
  refine (run_bind (run_write hq _)).trans ?_
  exact run_bind (run_changing (renamed_eq (hput.place hplace) hwritten (hput.spot hp) hne))

/-- **Writable.** The path names a file in the folder that paths start from, and there is no folder
in place of that file or of its scratch file. -/
structure Writable (d : Directory) (path : String) : Prop where
  plain : (Path.plain? path).isSome
  file : ∃ place, d.spot path = .ok place
  scratch : ∃ place, d.spot (Path.scratch path) = .ok place

/-- The path of a file that may be written leads somewhere. -/
theorem Writable.exists_place (h : d.Writable path) : ∃ place, d.place path = .ok place :=
  h.file.imp fun _ hp => (spot_eq_ok_iff.1 hp).1

/-- So does the path of its scratch file. -/
theorem Writable.exists_scratch (h : d.Writable path) :
    ∃ place, d.place (Path.scratch path) = .ok place :=
  h.scratch.imp fun _ hp => (spot_eq_ok_iff.1 hp).1

/-- It stays so if files come and go. -/
theorem Writable.sameFolders (hw : d.Writable path) (h : d.SameFolders d') : d'.Writable path :=
  ⟨hw.plain, hw.file.imp fun _ => h.spot, hw.scratch.imp fun _ => h.spot⟩

/-- The scratch file of a plain path has a plain path, too, and another name. -/
theorem plain_scratch (h : (Path.plain? path).isSome) :
    (Path.plain? (Path.scratch path)).isSome ∧
      Path.plain? (Path.scratch path) ≠ Path.plain? path := by
  obtain ⟨name, hname⟩ := Option.isSome_iff_exists.1 h
  rw [Path.scratch_of_plain hname, Path.plain?_scratchName hname, hname]
  exact ⟨rfl, fun he => Path.scratchName_ne name (Option.some.inj he)⟩

/-- The scratch files for different plain paths are different. -/
theorem scratch_ne {other : String} (h : (Path.plain? path).isSome)
    (hother : (Path.plain? other).isSome) (hne : Path.plain? other ≠ Path.plain? path) :
    Path.plain? (Path.scratch other) ≠ Path.plain? (Path.scratch path) := by
  obtain ⟨name, hname⟩ := Option.isSome_iff_exists.1 h
  obtain ⟨name', hname'⟩ := Option.isSome_iff_exists.1 hother
  rw [Path.scratch_of_plain hname, Path.plain?_scratchName hname, Path.scratch_of_plain hname',
    Path.plain?_scratchName hname']
  intro he
  refine hne ?_
  rw [hname, hname']
  simpa [Path.scratchName, String.ofList_inj] using he

/-- Different names stand at different places. -/
theorem place_ne {other : String} (hplain : (Path.plain? path).isSome)
    (hother : (Path.plain? other).isSome) (hne : Path.plain? other ≠ Path.plain? path)
    (hp : d.place path = .ok p) : d.place other ≠ .ok p := by
  obtain ⟨name, hname⟩ := Option.isSome_iff_exists.1 hplain
  obtain ⟨name', hname'⟩ := Option.isSome_iff_exists.1 hother
  intro hq
  obtain ⟨-, rfl⟩ := (place_eq_ok_iff hname).1 hp
  obtain ⟨-, hsame⟩ := (place_eq_ok_iff hname').1 hq
  refine hne ?_
  rw [hname, hname']
  simpa [inside] using hsame

/-- **Replaced.** If there is a path, its file has got a new text, by way of its scratch file. -/
structure Replaced (d : Directory) (path? : Option String) (text : String) (d' : Directory) :
    Prop where
  folders : d.SameFolders d'
  /-- the file has the text -/
  file : ∀ path ∈ path?, d'.bytes path = .ok text.toUTF8
  /-- there is no scratch file -/
  scratch : ∀ path ∈ path?, d'.bytes (Path.scratch path) = .error missing
  /-- at all other places stands what stood there -/
  others : ∀ place, (∀ path ∈ path?, d.place path ≠ .ok place ∧
    d.place (Path.scratch path) ≠ .ok place) → d'.at? place = d.at? place

/-- Without a path nothing is replaced. -/
theorem replaced_none (d : Directory) (text : String) : d.Replaced none text d :=
  ⟨.refl d, nofun, nofun, fun _ _ => rfl⟩

/-- **A writable file can be replaced.** -/
theorem exists_replaced (h : d.Writable path) (text : String) :
    ∃ d', (files.replace path text).run d = (.ok (), d') ∧ d.Replaced path text d' := by
  obtain ⟨p, hp⟩ := h.file
  obtain ⟨q, hq⟩ := h.scratch
  obtain ⟨hpp, hpf⟩ := spot_eq_ok_iff.1 hp
  obtain ⟨hqp, hqf⟩ := spot_eq_ok_iff.1 hq
  obtain ⟨hplain, hother⟩ := plain_scratch h.plain
  have hne : q ≠ p := by
    rintro rfl
    exact place_ne h.plain hplain hother hpp hqp
  have hfolders := sameFolders_putBy hqf hpf text.toUTF8
  refine ⟨d.putBy q p text.toUTF8, run_replace hp hq hne text, hfolders, ?_, ?_, ?_⟩
  · rintro _ ⟨⟩
    refine bytes_of_file (hfolders.place hpp) ?_
    rw [at?_putBy hqf hpf, if_neg hne.symm, if_pos rfl]
  · rintro _ ⟨⟩
    refine bytes_of_none (hfolders.place hqp) ?_
    rw [at?_putBy hqf hpf, if_pos rfl]
  · intro place happart
    obtain ⟨hplace, hplace'⟩ := happart path rfl
    have hnp : p ≠ place := fun he => hplace (he ▸ hpp)
    have hnq : place ≠ q := fun he => hplace' (he ▸ hqp)
    rw [at?_putBy hqf hpf, if_neg hnq, if_neg hnp]

end Directory

end Command

end FlowText
