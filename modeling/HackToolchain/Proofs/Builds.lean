import HackToolchain.Files.Build
import HackToolchain.Proofs.Writing

/-! # What building changes on a disk

A program is read and checked before its output file is opened.  What fails until then leaves the disk as it was.  After
that the file is written as far as the code can be written, and no other file is touched; the code of a program is never
put into one of its own units unless that is asked for.
-/
namespace HackToolchain.Text

theorem toList_byteArray (bytes : ByteArray) : bytes.toList = bytes.data.toList := by
  have hloop : ∀ (i : Nat) (seen : List UInt8),
      ByteArray.toList.loop bytes i seen = seen.reverse ++ bytes.data.toList.drop i := by
    intro i seen
    fun_induction ByteArray.toList.loop bytes i seen with
    | case1 i seen hi ih =>
      have hlt : i < bytes.data.toList.length := by simpa using hi
      rw [ih, List.drop_eq_getElem_cons hlt]
      simp [ByteArray.get!, hi]
    | case2 i seen hi =>
      have hle : bytes.data.toList.length ≤ i := by simpa using hi
      rw [List.drop_eq_nil_of_le hle, List.append_nil]
  exact hloop 0 []

theorem decodeFrom_ascii {first : UInt8} (h : first < 0x80) (offset : Nat) (seen : List Char) (rest : List UInt8) :
    decodeFrom offset seen (first :: rest) = decodeFrom (offset + 1) (Char.ofNat first.toNat :: seen) rest := by
  rw [decodeFrom.eq_def]
  exact if_pos h

theorem decodeFrom_of_ascii {cs : List Char} (h : ∀ c ∈ cs, c.toNat < 0x80) (offset : Nat) (seen : List Char) :
    decodeFrom offset seen (cs.flatMap String.utf8EncodeChar) = .ok (seen.reverse ++ cs) := by
  induction cs generalizing offset seen with
  | nil => simp [decodeFrom]
  | cons c rest ih =>
    obtain ⟨hc,hrest⟩ := List.forall_mem_cons.mp h
    have hbytes : String.utf8EncodeChar c = [UInt8.ofNat c.toNat] := if_pos (Nat.le_of_lt_succ hc)
    have hbyte : (UInt8.ofNat c.toNat).toNat = c.toNat := UInt8.toNat_ofNat_of_lt' (by simp [UInt8.size]; omega)
    have hlt : UInt8.ofNat c.toNat < 0x80 := by
      rw [UInt8.lt_iff_toNat_lt, hbyte]
      exact hc
    rw [List.flatMap_cons, hbytes, List.singleton_append, decodeFrom_ascii hlt, hbyte, Char.ofNat_toNat, ih hrest]
    simp

/-- Plain text is read as it was written. -/
theorem decodeUtf8_of_ascii {cs : List Char} (h : ∀ c ∈ cs, c.toNat < 0x80) :
    decodeUtf8 (String.ofList cs).toUTF8 = .ok (String.ofList cs) := by
  rw [decodeUtf8, String.toUTF8_eq_toByteArray, String.toByteArray_ofList, toList_byteArray, List.utf8Encode,
    List.toList_data_toByteArray, decodeFrom_of_ascii h]
  rfl

theorem lineFeedsFrom_of_notMem {cs : List Char} (h : '\r' ∉ cs) (seen : List Char) :
    lineFeedsFrom seen cs = seen.reverse ++ cs := by
  fun_induction lineFeedsFrom seen cs with
  | case1 seen => simp
  | case2 seen rest ih => simp at h
  | case3 seen c rest hne ih =>
    simp only [List.mem_cons, not_or] at h
    rw [ih h.2, if_neg (Ne.symm h.1)]
    simp

end HackToolchain.Text

namespace HackToolchain.Files

open Compile (CompilationUnit Options Plan)

namespace Disk

/-- One file has been written, and all else on the disk is as it was. -/
structure Wrote (before after : Disk) (place : Location) (bytes : ByteArray) : Prop where
  file : after.file? place = some bytes
  others : ∀ other ≠ place, after.file? other = before.file? other
  directories : after.directories = before.directories
  here : after.here = before.here

theorem lookup_putFile (place other : Location) (bytes : ByteArray) (files : List (Location × ByteArray)) :
    (putFile place bytes files).lookup other = if other = place then some bytes else files.lookup other := by
  induction files with
  | nil =>
    by_cases ho : other = place
    · simp [putFile, ho]
    · simp [putFile, List.lookup_cons, ho, beq_false_of_ne ho]
  | cons entry rest ih =>
    obtain ⟨found,content⟩ := entry
    rw [putFile]
    by_cases hf : found = place
    · rw [if_pos hf, List.lookup_cons, List.lookup_cons, hf]
      by_cases ho : other = place
      · simp [ho]
      · simp [ho, beq_false_of_ne ho]
    · rw [if_neg hf, List.lookup_cons, List.lookup_cons, ih]
      by_cases ho : other = found
      · simp [ho, hf]
      · simp [beq_false_of_ne ho]

theorem put_wrote (disk : Disk) (place : Location) (bytes : ByteArray) :
    disk.Wrote (disk.put place bytes) place bytes :=
  ⟨(lookup_putFile place place bytes disk.files).trans (if_pos rfl),
    fun other ho => (lookup_putFile place other bytes disk.files).trans (if_neg ho),rfl,rfl⟩

section Walks

variable {disk before after : Disk} {place target : Location} {bytes : ByteArray}

/-- A name leads from a place to the next. -/
def Leads (disk : Disk) (location : Location) (name : String) (next : Location) : Prop :=
  disk.isDirectoryAt location = true ∧
    if name = "" ∨ name = "." then next = location
    else if name = ".." then next = location.dropLast
    else name.utf8ByteSize ≤ longestName ∧ disk.existsAt next = true ∧ next = location ++ [name]

theorem walk_cons_eq_ok {location : Location} {name : String} {rest : List String} :
    disk.walk location (name :: rest) = .ok target ↔
      ∃ next, disk.Leads location name next ∧ disk.walk next rest = .ok target := by
  have hempty : (name.isEmpty || decide (name = ".")) = true ↔ name = "" ∨ name = "." := by simp
  simp only [walk, Leads, hempty]
  cases disk.isDirectoryAt location with
  | false => simp
  | true =>
    by_cases hstay : name = "" ∨ name = "."
    · simp [hstay]
    · by_cases hup : name = ".."
      · simp [hup]
      · by_cases hlong : longestName < name.utf8ByteSize
        · simp [hstay, hup, hlong, Nat.not_le_of_lt hlong]
        · simp only [hstay, hup, hlong, Nat.le_of_not_lt hlong]
          cases he : disk.existsAt (location ++ [name]) <;> simp [he]

/-- A path leads where it has led before a file was written. -/
theorem Wrote.walk (h : Wrote before after place bytes) {names : List String} {start : Location}
    (hw : before.walk start names = .ok target) : after.walk start names = .ok target := by
  have hdirectory : ∀ location, after.isDirectoryAt location = before.isDirectoryAt location := by
    intro location
    rw [isDirectoryAt, isDirectoryAt, h.directories]
  have hexists : ∀ location, before.existsAt location = true → after.existsAt location = true := by
    intro location he
    by_cases hl : location = place
    · rw [existsAt, hl, h.file]
      simp
    · rwa [existsAt, hdirectory, h.others location hl]
  induction names generalizing start with
  | nil => exact hw
  | cons name rest ih =>
    obtain ⟨next,⟨hd,hn⟩,hw⟩ := walk_cons_eq_ok.mp hw
    refine walk_cons_eq_ok.mpr ⟨next,⟨(hdirectory start).trans hd,?_⟩,ih hw⟩
    split at hn
    next hstay => exact (if_pos hstay).mpr hn
    next hstay =>
      refine (if_neg hstay).mpr ?_
      split at hn
      next hup => exact (if_pos hup).mpr hn
      next hup => exact (if_neg hup).mpr ⟨hn.1,hexists next hn.2.1,hn.2.2⟩

theorem Wrote.locate (h : Wrote before after place bytes) {path : Path} (hl : before.locate path = .ok target) :
    after.locate path = .ok target := by
  unfold Disk.locate start at hl ⊢
  split at hl
  next => cases hl
  next =>
    rw [h.here]
    exact h.walk hl

/-- A file elsewhere is read as before. -/
theorem Wrote.readBytes (h : Wrote before after place bytes) {path : Path} {content : ByteArray}
    (hr : before.readBytes path = .ok content) (hp : before.locate path ≠ .ok place) :
    after.readBytes path = .ok content := by
  obtain ⟨target,hl,hr⟩ := Outcome.bind_eq_ok.mp hr
  have hne : target ≠ place := by
    rintro rfl
    exact hp hl
  refine Outcome.bind_eq_ok.mpr ⟨target,h.locate hl,?_⟩
  rw [h.others target hne]
  exact hr

/-- A name that stands for itself is the last of the place that it leads to. -/
theorem getLast?_of_walk {names : List String} {name : String} {start : Location}
    (hn : name ≠ "" ∧ name ≠ "." ∧ name ≠ "..") (h : disk.walk start (names ++ [name]) = .ok target) :
    target.getLast? = some name := by
  induction names generalizing start with
  | nil =>
    obtain ⟨next,⟨-,hnext⟩,h⟩ := walk_cons_eq_ok.mp h
    cases h
    rw [if_neg (not_or.mpr ⟨hn.1,hn.2.1⟩), if_neg hn.2.2] at hnext
    simp [hnext.2.2]
  | cons first rest ih =>
    obtain ⟨next,-,h⟩ := walk_cons_eq_ok.mp h
    exact ih h

theorem getLast?_of_target {path : Path} (h : disk.target path = .ok place) : place.getLast? = some path.name := by
  unfold Disk.target at h
  split at h
  next => cases h
  next => cases h
  next name _ hn =>
    obtain ⟨parent,-,h⟩ := Outcome.bind_eq_ok.mp h
    have hname : path.name = name := by rw [Path.name, hn]; rfl
    rw [hname]
    split at h
    next => cases h
    next =>
      split at h
      next => cases h
      next =>
        split at h
        next => cases h
        next =>
          split at h
          next => cases h
          next =>
            cases h
            simp

end Walks

theorem readText_of_ascii {disk : Disk} {path : Path} {cs : List Char}
    (hb : disk.readBytes path = .ok (String.ofList cs).toUTF8) (h : ∀ c ∈ cs, c.toNat < 0x80 ∧ c ≠ '\r') :
    disk.readText path = .ok (String.ofList cs) := by
  have hfeeds : Text.lineFeeds (String.ofList cs) = String.ofList cs := by
    rw [Text.lineFeeds, String.toList_ofList, Text.lineFeedsFrom_of_notMem (fun hc => (h _ hc).2 rfl) []]
    rfl
  rw [Disk.readText, hb]
  simp only [Text.decodeUtf8_of_ascii fun c hc => (h c hc).1, hfeeds]

end Disk

section Suffixes

theorem isVmFile_append_asm (stem : String) : isVmFile (stem ++ ".asm") = false := by
  have hsuffix : (divide (stem ++ ".asm")).2 = "" ∨ (divide (stem ++ ".asm")).2 = ".asm" := by
    have hchars : ((stem ++ ".asm").toList.reverse.takeWhile (· != '.')).reverse = ['a', 's', 'm'] := by
      simp [String.toList_append]
    unfold divide
    dsimp only
    rw [hchars]
    split
    next => exact .inl rfl
    next => exact .inr rfl
  unfold isVmFile
  rcases hsuffix with h | h
  all_goals
    rw [h]
    decide +kernel

theorem getLast?_of_locate {disk : Disk} {path : Path} (hv : isVmFile path.name = true) {place : Location}
    (h : disk.locate path = .ok place) : place.getLast? = some path.name := by
  have hn : path.name ≠ "" ∧ path.name ≠ "." ∧ path.name ≠ ".." := by
    refine ⟨?_,?_,?_⟩
    all_goals
      intro he
      rw [he] at hv
      revert hv
      decide +kernel
  cases hl : path.names.getLast? with
  | none =>
    rw [Path.name, hl] at hn
    exact absurd rfl hn.1
  | some name =>
    have hname : path.name = name := by rw [Path.name, hl]; rfl
    rw [hname] at hn ⊢
    unfold Disk.locate at h
    split at h
    next => cases h
    next =>
      rw [← List.dropLast_append_getLast? name hl] at h
      exact Disk.getLast?_of_walk hn h

theorem Path.name_child (path : Path) (name : String) : (path.child name).name = name := by
  simp [Path.name, Path.child]

theorem Path.name_withSuffix (path : Path) (suffix : String) :
    (path.withSuffix suffix).name = path.stem ++ suffix := by
  simp [Path.name, Path.withSuffix]

/-- The code never goes to a VM file of its own accord. -/
theorem isVmFile_codePathFor {disk : Disk} {input path : Path} (h : codePathFor disk input = .ok path) :
    isVmFile path.name = false := by
  obtain ⟨found,-,h⟩ := Outcome.bind_eq_ok.mp h
  cases found with
  | none =>
    cases h
    rw [Path.name_withSuffix]
    exact isVmFile_append_asm _
  | some location =>
    dsimp only at h
    split at h
    next =>
      cases h
      rw [Path.name_child]
      exact isVmFile_append_asm _
    next =>
      cases h
      rw [Path.name_withSuffix]
      exact isVmFile_append_asm _

end Suffixes

section Units

variable {disk : Disk} {input : Path} {units : List (Path × CompilationUnit)}

theorem path_of_unitAt {path : Path} {entry : Path × CompilationUnit} (h : unitAt disk path = .ok entry) :
    entry.1 = path ∧ ∃ bytes, disk.readBytes path = .ok bytes := by
  obtain ⟨source,hs,h⟩ := Outcome.bind_eq_ok.mp h
  cases h
  refine ⟨rfl,?_⟩
  unfold Disk.readText at hs
  split at hs
  next => cases hs
  next bytes hb => exact ⟨bytes,hb⟩

theorem isVmFile_of_vmFilesIn {directory : Path} {files : List Path} (h : vmFilesIn disk directory = .ok files) :
    ∀ path ∈ files, isVmFile path.name = true := by
  unfold vmFilesIn at h
  split at h
  next => cases h
  next found _ =>
    split at h
    next => cases h
    next =>
      cases h
      exact fun path hm => (List.mem_filter.mp hm).2

/-- The units of a program come from VM files that can be read. -/
theorem isVmFile_of_unitsAt (h : unitsAt disk input = .ok units) :
    ∀ entry ∈ units, isVmFile entry.1.name = true ∧ ∃ bytes, disk.readBytes entry.1 = .ok bytes := by
  obtain ⟨found,-,h⟩ := Outcome.bind_eq_ok.mp h
  cases found with
  | none => cases h
  | some location =>
    dsimp only at h
    split at h
    next =>
      obtain ⟨files,hf,h⟩ := Outcome.bind_eq_ok.mp h
      intro entry hm
      obtain ⟨path,hp,he⟩ := Outcome.exists_of_mem_mapM h hm
      obtain ⟨rfl,hb⟩ := path_of_unitAt he
      exact ⟨isVmFile_of_vmFilesIn hf _ hp,hb⟩
    next =>
      split at h
      next hv =>
        obtain ⟨entry,he,h⟩ := Outcome.bind_eq_ok.mp h
        cases h
        obtain ⟨hpath,hb⟩ := path_of_unitAt he
        simpa [hpath] using ⟨hv,hb⟩
      next => cases h

theorem unitsAt_of_file {path : Path} {place : Location} {source : String} (hl : disk.locate path = .ok place)
    (hd : disk.isDirectoryAt place = false) (hv : isVmFile path.name = true) (hr : disk.readText path = .ok source) :
    unitsAt disk path = .ok [(path, ⟨path.stem,source,path.name⟩)] := by
  simp only [unitsAt, Disk.probe, hl, bind, Except.bind, hd, hv, unitAt, hr, Bool.false_eq_true, ↓reduceIte]
  rfl

/-- Code that goes beside or into its input leaves the units as they were. -/
theorem Disk.Wrote.readBytes_units {after : Disk} {place : Location} {bytes : ByteArray}
    (h : disk.Wrote after place bytes) (hu : unitsAt disk input = .ok units) {path : Path}
    (hp : codePathFor disk input = .ok path) (ht : disk.target path = .ok place) :
    ∀ entry ∈ units, after.readBytes entry.1 = disk.readBytes entry.1 := by
  intro entry hm
  obtain ⟨hv,content,hc⟩ := isVmFile_of_unitsAt hu entry hm
  rw [hc]
  refine h.readBytes hc fun hl => ?_
  have hname := (getLast?_of_locate hv hl).symm.trans (Disk.getLast?_of_target ht)
  have hne := isVmFile_codePathFor hp
  rw [← Option.some.inj hname, hv] at hne
  cases hne

end Units

/-- All that stands before the writing of a program has gone well: its units are read, it is checked, and there is a
place for its code. -/
structure Ready (disk : Disk) (options : Options) (input : Path) (output : Option Path)
    (units : List (Path × CompilationUnit)) (plan : Plan) (path : Path) (place : Location) : Prop where
  read : unitsAt disk input = .ok units
  checked : Compile.prepare options (units.map (·.2)) = .ok plan
  named : output.elim (codePathFor disk input) .ok = .ok path
  placed : disk.target path = .ok place

section Attempts

variable {disk : Disk} {options : Options} {input : Path} {output : Option Path}

/-- A program that is ready is written as far as it can be. -/
theorem Ready.compilePath {units : List (Path × CompilationUnit)} {plan : Plan} {path : Path} {place : Location}
    (h : Ready disk options input output units plan path place) :
    (compilePath disk options input output).disk =
        disk.put place (plan.emit options).1.writer.text.toUTF8 ∧
      (compilePath disk options input output).outcome =
        (plan.emit options).2.map fun _ => (plan.summary (plan.emit options).1, path) := by
  simp only [Files.compilePath, h.read, h.named, bind, Except.bind, pure, Except.pure, compileInto, h.checked, h.placed]
  generalize plan.emit options = written
  obtain ⟨emission,outcome⟩ := written
  cases outcome with
  | ok done => exact ⟨rfl,rfl⟩
  | error failure => exact ⟨rfl,rfl⟩

/-- What fails before that leaves the disk as it was. -/
theorem compilePath_of_not_ready
    (h : ¬∃ units plan path place, Ready disk options input output units plan path place) :
    (compilePath disk options input output).disk = disk ∧
      ∃ failure, (compilePath disk options input output).outcome = .error failure := by
  unfold compilePath
  dsimp only
  split
  next failure _ => exact ⟨rfl,failure,rfl⟩
  next code path hs =>
    obtain ⟨units,hu,hs⟩ := Outcome.bind_eq_ok.mp hs
    obtain ⟨_,hp,hs⟩ := Outcome.bind_eq_ok.mp hs
    cases hs
    unfold compileInto
    dsimp only
    split
    next failure _ => exact ⟨rfl,failure,rfl⟩
    next plan hplan =>
      split
      next => exact ⟨rfl,_,rfl⟩
      next place hplace => exact absurd ⟨units,plan,path,place,hu,hplan,hp,hplace⟩ h

theorem writeText_eq_ok {path : Path} {text : String} {written : Disk} (h : disk.writeText path text = .ok written) :
    ∃ place, disk.target path = .ok place ∧ written = disk.put place text.toUTF8 := by
  obtain ⟨place,hp,h⟩ := Outcome.bind_eq_ok.mp h
  cases h
  cases ht : disk.target path with
  | error trouble =>
    rw [ht] at hp
    cases hp
  | ok target =>
    rw [ht] at hp
    cases hp
    exact ⟨_,rfl,rfl⟩

/-- An assembly that fails leaves the disk as it was, and another writes the text of its program. -/
theorem assemblePath_cases (disk : Disk) (input path : Path) :
    ((assemblePath disk input (some path)).disk = disk ∧
      ∃ failure, (assemblePath disk input (some path)).outcome = .error failure) ∨
    ∃ source words place, disk.readText input = .ok source ∧ Asm.assemble source input.name = .ok words ∧
      disk.target path = .ok place ∧
      (assemblePath disk input (some path)).disk = disk.put place (Asm.hackText words).toUTF8 ∧
      ∃ session, (assemblePath disk input (some path)).outcome = .ok session := by
  unfold assemblePath
  split
  next failure _ => exact .inl ⟨rfl,failure,rfl⟩
  next source hs =>
    split
    next failure _ => exact .inl ⟨rfl,failure,rfl⟩
    next session words hw =>
      cases ho : disk.writeText path (Asm.hackText words) with
      | error failure =>
        simp only [Option.mapM_some, ho]
        exact .inl ⟨rfl,failure,rfl⟩
      | ok written =>
        obtain ⟨place,hp,rfl⟩ := writeText_eq_ok ho
        simp only [Option.mapM_some, ho]
        refine .inr ⟨source,words,place,hs,?_,hp,rfl,session,rfl⟩
        rw [Asm.assemble, hw]

end Attempts

end HackToolchain.Files
