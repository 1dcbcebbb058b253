import ReactorServer.Logger.LogFiles
import ReactorServer.Logger.BoundedQueue

/-!
The file side of `logger::Logger` (`src/logger/logger.cpp`): `sync_write` and
`create_new_log_file`.

`sync_write` drops an empty record, and otherwise opens a new file when none is open, when
`max_lines_ > 0` and `line_count_` has reached it, or when the day of the year has changed
since `today_`; if that fails the record goes to standard output. It then writes the record
to the open file and counts it in `line_count_`. `create_new_log_file` closes the old file,
takes `today_` from the clock, names the new file as `LogFiles` describes, and opens it for
appending; `fopen` and `create_directories` may fail, which leaves no file open.

The world is the search directory's entries, which other processes may add to, and every
record written, with the file it went to. Over every run (`Inv`, `rotation_keeps_records`)
the records written are the non-empty records given to `sync_write`, in order, and no file
holds more than `max_lines_` of them: the file a rotation opens is new (`logName_not_mem`),
so `line_count_` counts all of its records.
-/

set_option autoImplicit false
set_option relaxedAutoImplicit false

namespace ReactorServer.Logger.Rotation

open ReactorServer.Logger.LogFiles
open ReactorServer.Logger.BoundedQueue (incr uint64Size)

/-- The clock as `create_new_log_file` reads it: `tm_yday` and the `YYYYMMDD` text of the
same moment. -/
structure Clock where
  yday : Int
  date : List Char

/-- The file members of `Logger`: `dir_name_`, `file_name_`, `max_lines_`, `line_count_`,
`today_`, and `file_`, known by the name it was opened under (`none` for `nullptr`). -/
structure Files where
  dirName : List Char
  fileName : List Char
  maxLines : Nat
  lineCount : Nat
  today : Int
  file : Option (List Char)

/-- The search directory's entries, and every record written so far, in order, with the file
it went to (`none` for standard output). -/
structure Disk where
  entries : List (List Char)
  written : List (Option (List Char) × List Char)

/-- `create_new_log_file`, with `opens` telling whether `create_directories` and `fopen`
succeed: whether a file is open after it, and the new state. `none` where `max_index + 1`
overflows. -/
def createNewLogFile (clock : Clock) (opens : Bool) (f : Files) (d : Disk) :
    Option (Bool × Files × Disk) :=
  let f := { f with file := none, today := clock.yday }
  let base := baseName f.fileName
  (newIndex (maxIndex (searchPattern base clock.date) d.entries)).map fun k =>
    let name := logName base clock.date k
    if opens then
      (true, { f with file := some name, lineCount := 0 }, { d with entries := d.entries.insert name })
    else (false, f, d)

/-- The test of `sync_write` for a new file, with `day` the day of the year it reads. -/
def needNewFile (f : Files) (day : Int) : Bool :=
  f.file.isNone || (0 < f.maxLines && f.maxLines ≤ f.lineCount) || f.today != day

def toStdout (log : List Char) (d : Disk) : Disk := { d with written := d.written ++ [(none, log)] }

/-- The write at the end of `sync_write`: to `file_` with `++line_count_`, or to standard
output when no file is open. -/
def emit (log : List Char) (f : Files) (d : Disk) : Files × Disk :=
  match f.file with
  | some name =>
    ({ f with lineCount := incr f.lineCount }, { d with written := d.written ++ [(some name, log)] })
  | none => (f, toStdout log d)

/-- `sync_write(log)`, reading the day of the year `day`, and the clock and `opens` for a
`create_new_log_file` it calls. -/
def syncWrite (log : List Char) (day : Int) (clock : Clock) (opens : Bool) (f : Files) (d : Disk) :
    Option (Files × Disk) :=
  if log = [] then some (f, d)
  else if needNewFile f day then
    (createNewLogFile clock opens f d).map fun r =>
      if r.1 then emit log r.2.1 r.2.2 else (r.2.1, toStdout log r.2.2)
  else some (emit log f d)

/-! ## What one call does -/

def recordsIn (d : Disk) (name : List Char) : Nat := d.written.countP fun w => w.1 = some name

theorem createNewLogFile_isSome (clock : Clock) (opens : Bool) (f : Files) (d : Disk) :
    (createNewLogFile clock opens f d).isSome ↔
      maxIndex (searchPattern (baseName f.fileName) clock.date) d.entries ≠ intMax := by
  simp only [createNewLogFile, Option.isSome_map', newIndex]
  split_ifs with h0 h1 <;> simp_all [intMax]

theorem createNewLogFile_cases {clock : Clock} {opens : Bool} {f f' : Files} {d d' : Disk}
    {b : Bool} (h : createNewLogFile clock opens f d = some (b, f', d')) :
    f'.maxLines = f.maxLines ∧ d'.written = d.written ∧
      ((b = true ∧ ∃ name, name ∉ d.entries ∧ f'.file = some name ∧ f'.lineCount = 0 ∧
          d'.entries = d.entries.insert name) ∨
        (b = false ∧ f'.file = none ∧ f'.lineCount = f.lineCount ∧ d' = d)) := by
  simp only [createNewLogFile, Option.map_eq_some'] at h
  obtain ⟨k, hk, hr⟩ := h
  have hfresh := logName_not_mem _ _ _ hk
  cases opens
  · simp only [if_false, Bool.false_eq_true, Prod.mk.injEq] at hr
    obtain ⟨rfl, rfl, rfl⟩ := hr
    exact ⟨rfl, rfl, .inr ⟨rfl, rfl, rfl, rfl⟩⟩
  · simp only [if_true, Prod.mk.injEq] at hr
    obtain ⟨rfl, rfl, rfl⟩ := hr
    exact ⟨rfl, rfl, .inl ⟨rfl, _, hfresh, rfl, rfl, rfl⟩⟩

theorem emit_of_file {name log : List Char} {f : Files} (hf : f.file = some name) (d : Disk) :
    emit log f d =
      ({ f with lineCount := incr f.lineCount }, { d with written := d.written ++ [(some name, log)] }) := by
  simp [emit, hf]

theorem emit_of_none {log : List Char} {f : Files} (hf : f.file = none) (d : Disk) :
    emit log f d = (f, toStdout log d) := by
  simp [emit, hf]

@[simp] theorem emit_maxLines (log : List Char) (f : Files) (d : Disk) :
    (emit log f d).1.maxLines = f.maxLines := by
  unfold emit
  split <;> rfl

@[simp] theorem emit_written (log : List Char) (f : Files) (d : Disk) :
    (emit log f d).2.written.map Prod.snd = d.written.map Prod.snd ++ [log] := by
  unfold emit
  split <;> simp [toStdout]

variable {log : List Char} {day : Int} {clock : Clock} {opens : Bool} {f f' : Files} {d d' : Disk}

theorem syncWrite_cases (h : syncWrite log day clock opens f d = some (f', d')) :
    (log = [] ∧ f' = f ∧ d' = d) ∨
      (log ≠ [] ∧ needNewFile f day = false ∧ f' = (emit log f d).1 ∧ d' = (emit log f d).2) ∨
      (log ≠ [] ∧ ∃ g e, createNewLogFile clock opens f d = some (true, g, e) ∧
        f' = (emit log g e).1 ∧ d' = (emit log g e).2) ∨
      (log ≠ [] ∧ ∃ g e, createNewLogFile clock opens f d = some (false, g, e) ∧
        f' = g ∧ d' = toStdout log e) := by
  unfold syncWrite at h
  split_ifs at h with hl hn
  · cases h
    exact .inl ⟨hl, rfl, rfl⟩
  · obtain ⟨⟨b, g, e⟩, hc, hr⟩ := Option.map_eq_some'.1 h
    cases b
    · cases hr
      exact .inr (.inr (.inr ⟨hl, g, e, hc, rfl, rfl⟩))
    · have hr : emit log g e = (f', d') := hr
      exact .inr (.inr (.inl ⟨hl, g, e, hc, (Prod.ext_iff.1 hr.symm).1, (Prod.ext_iff.1 hr.symm).2⟩))
  · have h := (Prod.ext_iff.1 (Option.some.inj h).symm)
    exact .inr (.inl ⟨hl, by simpa using hn, h.1, h.2⟩)

theorem syncWrite_written (h : syncWrite log day clock opens f d = some (f', d')) :
    d'.written.map Prod.snd = d.written.map Prod.snd ++ (if log = [] then [] else [log]) := by
  rcases syncWrite_cases h with ⟨hl, -, rfl⟩ | ⟨hl, -, -, rfl⟩ | ⟨hl, g, e, hc, -, rfl⟩ |
      ⟨hl, g, e, hc, -, rfl⟩
  · simp [hl]
  · simp [hl]
  · simp [hl, (createNewLogFile_cases hc).2.1]
  · simp [hl, toStdout, (createNewLogFile_cases hc).2.1]

theorem syncWrite_maxLines (h : syncWrite log day clock opens f d = some (f', d')) :
    f'.maxLines = f.maxLines := by
  rcases syncWrite_cases h with ⟨-, rfl, -⟩ | ⟨-, -, rfl, -⟩ | ⟨-, g, e, hc, rfl, -⟩ |
      ⟨-, g, e, hc, rfl, -⟩
  · rfl
  · simp
  · simp [(createNewLogFile_cases hc).1]
  · exact (createNewLogFile_cases hc).1

/-! ## The invariant -/

/-- Every file written to or open is in the directory; `line_count_` counts, in `uint64_t`, the
records of the open file; and with `max_lines_ > 0` neither `line_count_` nor any file's
records pass it. -/
structure Inv (f : Files) (d : Disk) : Prop where
  maxLines_lt : f.maxLines < uint64Size
  file_listed : ∀ name, f.file = some name → name ∈ d.entries
  written_listed : ∀ name log, (some name, log) ∈ d.written → name ∈ d.entries
  current : ∀ name, f.file = some name → recordsIn d name % uint64Size = f.lineCount
  bounded : 0 < f.maxLines → f.lineCount ≤ f.maxLines ∧ ∀ name, recordsIn d name ≤ f.maxLines

theorem inv_fresh (f : Files) (d : Disk) (hf : f.file = none) (hc : f.lineCount = 0)
    (hw : d.written = []) (hml : f.maxLines < uint64Size) : Inv f d :=
  ⟨hml, by simp [hf], by simp [hw], by simp [hf], fun _ => ⟨by omega, by simp [recordsIn, hw]⟩⟩

@[simp] theorem recordsIn_toStdout (log name : List Char) :
    recordsIn (toStdout log d) name = recordsIn d name := by
  simp [recordsIn, toStdout]

theorem recordsIn_append_file (log name name' : List Char) :
    recordsIn { d with written := d.written ++ [(some name', log)] } name =
      recordsIn d name + if name' = name then 1 else 0 := by
  by_cases h : name' = name <;> simp [recordsIn, h]

theorem Inv.toStdout (h : Inv f d) (log : List Char) : Inv f (Rotation.toStdout log d) :=
  ⟨h.maxLines_lt, h.file_listed, fun name l hl => h.written_listed name l (by
    simpa [Rotation.toStdout] using hl), by simpa using h.current, by simpa using h.bounded⟩

theorem Inv.insert (h : Inv f d) (name : List Char) :
    Inv f { d with entries := d.entries.insert name } :=
  ⟨h.maxLines_lt, fun n hn => List.mem_insert_of_mem (h.file_listed n hn),
    fun n l hl => List.mem_insert_of_mem (h.written_listed n l hl), h.current, h.bounded⟩

theorem Inv.createNewLogFile (h : Inv f d) {clock : Clock} {opens b : Bool} {f' : Files}
    {d' : Disk} (hc : Rotation.createNewLogFile clock opens f d = some (b, f', d')) : Inv f' d' := by
  obtain ⟨hml, hw, hcase⟩ := createNewLogFile_cases hc
  rcases hcase with ⟨-, name, hnew, hfile, hcount, hent⟩ | ⟨-, hfile, hcount, rfl⟩
  · have hzero : recordsIn d name = 0 := by
      refine List.countP_eq_zero.2 ?_
      rintro ⟨a, l⟩ hw' hs
      simp only [decide_eq_true_eq] at hs
      subst hs
      exact hnew (h.written_listed name l hw')
    refine ⟨hml ▸ h.maxLines_lt, fun n hn => ?_, fun n l hl => ?_, fun n hn => ?_, fun hpos => ?_⟩
    · rw [hfile] at hn
      cases hn
      rw [hent]
      exact List.mem_insert_self _ _
    · rw [hent]
      exact List.mem_insert_of_mem (h.written_listed n l (hw ▸ hl))
    · rw [hfile] at hn
      cases hn
      have hsame : recordsIn d' name = recordsIn d name := by simp only [recordsIn, hw]
      rw [hsame, hzero, hcount]
      rfl
    · rw [hml] at hpos
      refine ⟨by omega, fun n => ?_⟩
      simpa [recordsIn, hw, hml] using (h.bounded hpos).2 n
  · refine ⟨hml ▸ h.maxLines_lt, by simp [hfile], h.written_listed, by simp [hfile],
      fun hpos => ?_⟩
    rw [hml, hcount]
    exact h.bounded (hml ▸ hpos)

theorem Inv.emit (h : Inv f d) (log : List Char) (hroom : 0 < f.maxLines → f.lineCount < f.maxLines) :
    Inv (Rotation.emit log f d).1 (Rotation.emit log f d).2 := by
  cases hfile : f.file with
  | none =>
    rw [emit_of_none hfile]
    exact h.toStdout log
  | some name =>
    rw [emit_of_file hfile]
    have hcur := h.current name hfile
    refine ⟨h.maxLines_lt, h.file_listed, fun n l hl => ?_, fun n hn => ?_, fun hpos => ?_⟩
    · rcases List.mem_append.1 hl with hl | hl
      · exact h.written_listed n l hl
      · simp only [List.mem_singleton, Prod.mk.injEq, Option.some.injEq] at hl
        exact hl.1 ▸ h.file_listed name hfile
    · rw [hfile, Option.some.injEq] at hn
      subst hn
      rw [recordsIn_append_file, if_pos rfl, Nat.add_mod, hcur]
      simp [incr]
    · dsimp only at hpos ⊢
      obtain ⟨hc, hb⟩ := h.bounded hpos
      have hlt := hroom hpos
      have hml := h.maxLines_lt
      have heq : recordsIn d name = f.lineCount := by
        rw [← hcur, Nat.mod_eq_of_lt (by have := hb name; omega)]
      refine ⟨by simp only [incr]; rw [Nat.mod_eq_of_lt (by omega)]; omega, fun n => ?_⟩
      rw [recordsIn_append_file]
      split_ifs with hn
      · subst hn
        omega
      · simpa using hb n

theorem Inv.syncWrite (h : Inv f d) (hs : Rotation.syncWrite log day clock opens f d = some (f', d')) :
    Inv f' d' := by
  rcases syncWrite_cases hs with ⟨-, rfl, rfl⟩ | ⟨-, hn, rfl, rfl⟩ | ⟨-, g, e, hc, rfl, rfl⟩ |
      ⟨-, g, e, hc, rfl, rfl⟩
  · exact h
  · simp only [needNewFile, Bool.or_eq_false_iff, Bool.and_eq_false_iff, decide_eq_false_iff_not,
      not_le] at hn
    exact h.emit log fun hpos => by rcases hn.1.2 with hn | hn <;> omega
  · obtain ⟨hml, -, hcase⟩ := createNewLogFile_cases hc
    rcases hcase with ⟨-, -, -, -, hcount, -⟩ | ⟨hb, -⟩
    · exact (h.createNewLogFile hc).emit log fun hpos => by omega
    · cases hb
  · exact (h.createNewLogFile hc).toStdout log

/-! ## Runs -/

/-- What can happen to the file side: a `sync_write` call, or another process creating a file
in the search directory. -/
inductive Event
  | syncWrite (log : List Char) (day : Int) (clock : Clock) (opens : Bool)
  | create (name : List Char)

/-- One event; `none` where it is undefined behaviour. -/
def Event.apply : Event → Files × Disk → Option (Files × Disk)
  | .syncWrite log day clock opens, s => Rotation.syncWrite log day clock opens s.1 s.2
  | .create name, s => some (s.1, { s.2 with entries := s.2.entries.insert name })

def runEvents : List Event → Files × Disk → Option (Files × Disk)
  | [], s => some s
  | e :: es, s => (e.apply s).bind (runEvents es)

/-- The non-empty records a run gives to `sync_write`, in order. -/
def records : List Event → List (List Char)
  | [] => []
  | .syncWrite log _ _ _ :: es => (if log = [] then [] else [log]) ++ records es
  | .create _ :: es => records es

theorem Event.apply_inv {e : Event} {s s' : Files × Disk} (h : Inv s.1 s.2)
    (he : e.apply s = some s') : Inv s'.1 s'.2 ∧ s'.1.maxLines = s.1.maxLines ∧
      s'.2.written.map Prod.snd = s.2.written.map Prod.snd ++ records [e] := by
  cases e with
  | syncWrite log day clock opens =>
    exact ⟨h.syncWrite he, syncWrite_maxLines he, by simpa [records] using syncWrite_written he⟩
  | create name =>
    cases he
    exact ⟨h.insert name, rfl, by simp [records]⟩

theorem runEvents_inv (es : List Event) {s s' : Files × Disk} (h : Inv s.1 s.2)
    (hr : runEvents es s = some s') : Inv s'.1 s'.2 ∧ s'.1.maxLines = s.1.maxLines ∧
      s'.2.written.map Prod.snd = s.2.written.map Prod.snd ++ records es := by
  induction es generalizing s with
  | nil =>
    cases hr
    exact ⟨h, rfl, by simp [records]⟩
  | cons e es ih =>
    obtain ⟨t, ht, hr⟩ := Option.bind_eq_some.1 hr
    obtain ⟨hi, hm, hw⟩ := Event.apply_inv h ht
    obtain ⟨hi', hm', hw'⟩ := ih hi hr
    refine ⟨hi', hm'.trans hm, ?_⟩
    rw [hw', hw, List.append_assoc]
    congr 1
    cases e <;> simp [records]

/-- Over every run of `sync_write` calls from a logger with no file open and nothing written,
under any clock readings, `fopen` outcomes and files other processes create, that reaches no
undefined behaviour: the records written are the non-empty records given, in order, each once;
and with `max_lines_ > 0` no file holds more than `max_lines_` of them. -/
theorem rotation_keeps_records (f : Files) (d : Disk) (hf : f.file = none) (hc : f.lineCount = 0)
    (hw : d.written = []) (hml : f.maxLines < uint64Size) (es : List Event) {s' : Files × Disk}
    (hr : runEvents es (f, d) = some s') :
    s'.2.written.map Prod.snd = records es ∧
      (0 < f.maxLines → ∀ name, recordsIn s'.2 name ≤ f.maxLines) := by
  obtain ⟨hi, hkeep, hwr⟩ := runEvents_inv es (inv_fresh f d hf hc hw hml) hr
  refine ⟨by simpa [hw] using hwr, fun hpos => ?_⟩
  rw [← hkeep] at hpos ⊢
  exact (hi.bounded hpos).2

def twoPerFile : Files := ⟨[], "app.log".toList, 2, 0, 0, none⟩

def threeRecords : List Event :=
  [.syncWrite "a".toList 0 ⟨0, "20240101".toList⟩ true,
    .syncWrite "b".toList 0 ⟨0, "20240101".toList⟩ true,
    .create "app_20240101_2.log".toList,
    .syncWrite "c".toList 0 ⟨0, "20240101".toList⟩ true]

/-- The third record rotates past the file another process created, and no file gets more
than two records. -/
theorem threeRecords_two_per_file :
    ∃ s', runEvents threeRecords (twoPerFile, ⟨[], []⟩) = some s' ∧
      s'.2.written.map Prod.snd = records threeRecords ∧
      (∀ name, recordsIn s'.2 name ≤ 2) ∧
      s'.2.written.map Prod.fst =
        [some "app_20240101.log".toList, some "app_20240101.log".toList,
          some "app_20240101_3.log".toList] := by
  obtain ⟨s', hs⟩ := Option.isSome_iff_exists.1
    (show (runEvents threeRecords (twoPerFile, ⟨[], []⟩)).isSome by decide)
  have hk := rotation_keeps_records twoPerFile ⟨[], []⟩ rfl rfl rfl (by decide) _ hs
  have hdest : (runEvents threeRecords (twoPerFile, ⟨[], []⟩)).map (·.2.written.map Prod.fst) =
      some [some "app_20240101.log".toList, some "app_20240101.log".toList,
        some "app_20240101_3.log".toList] := by
    decide
  rw [hs] at hdest
  exact ⟨s', hs, hk.1, hk.2 (by decide), Option.some.inj hdest⟩

end ReactorServer.Logger.Rotation
