import Mathlib.Data.Nat.Digits

/-!
The name `Logger::create_new_log_file` gives a new log file (`src/logger/logger.cpp`).

The name is `base_date.log` for the first file of a day and `base_date_N.log` after it, where
`base` is `file_name_` without its extension and `date` the `YYYYMMDD` text of the clock.
`N` is one more than the largest index the function reads back from the search directory:
every entry that starts with `base_date` and holds `.log` gives the digits between them to
`std::stoi`, and an entry with none gives 1. Strings are lists of characters, and the
`std::string` operations the scan uses (`find`, `find_last_of`, `substr`) and `std::stoi`,
`std::to_string` are modelled on them.

The scan reads back the index of every name the function builds (`entryIndex_logName`), so
the name it picks is never one the directory already holds (`logName_not_mem`): a rotation
opens a new file and never appends to an old one. `max_index + 1` is undefined behaviour at
`INT_MAX`, which `newIndex` gives as `none`.
-/

set_option autoImplicit false
set_option relaxedAutoImplicit false

namespace ReactorServer.Logger.LogFiles

/-! ## `std::string` operations -/

/-- `s.find(p)`: the first position where `p` occurs in `s`; `none` is `npos`. -/
def find (s p : List Char) : Option Nat :=
  if p.isPrefixOf s then some 0
  else
    match s with
    | [] => none
    | _ :: t => (find t p).map (· + 1)

/-- `s.find_last_of(set)`: the last position holding a character of `set`. -/
def findLastOf : List Char → List Char → Option Nat
  | [], _ => none
  | c :: t, set =>
    match findLastOf t set with
    | some i => some (i + 1)
    | none => if c ∈ set then some 0 else none

/-- `isspace` in the C locale: the blank and `\t`, `\n`, `\v`, `\f`, `\r`. -/
def isSpace (c : Char) : Bool := c = ' ' || (9 ≤ c.toNat && c.toNat ≤ 13)

def intMin : Int := -2147483648

def intMax : Int := 2147483647

def digitStep (n : Nat) (c : Char) : Nat := 10 * n + (c.toNat - '0'.toNat)

def digitsValue (ds : List Char) : Nat := ds.foldl digitStep 0

def readSign : List Char → Bool × List Char
  | '-' :: t => (true, t)
  | '+' :: t => (false, t)
  | t => (false, t)

/-- `std::stoi(s)`: `strtol` in base 10 after leading white space and an optional sign, up to
the first character that is not a digit. `none` where it throws: `invalid_argument` when no
digit follows, `out_of_range` when the value is not an `int`. -/
def stoi (s : List Char) : Option Int :=
  let r := readSign (s.dropWhile isSpace)
  let ds := r.2.takeWhile Char.isDigit
  if ds = [] then none
  else
    let v : Int := if r.1 then -(digitsValue ds : Int) else digitsValue ds
    if v < intMin ∨ intMax < v then none else some v

def intToString (i : Int) : List Char :=
  if i < 0 then '-' :: Nat.toDigits 10 i.natAbs else Nat.toDigits 10 i.toNat

/-! ## The scan and the name -/

def logExt : List Char := ".log".toList

/-- `base_name`: `file_name_` up to its last `.`, or all of it. -/
def baseName (fileName : List Char) : List Char :=
  match findLastOf fileName ['.'] with
  | some pos => fileName.take pos
  | none => fileName

def searchPattern (baseName date : List Char) : List Char := baseName ++ '_' :: date

/-- `num_part`: the entry after the pattern, up to its first `.log`, without a leading `_`. -/
def numPart (pattern filename : List Char) : List Char :=
  let rest := filename.drop pattern.length
  let rest :=
    match find rest logExt with
    | some pos => rest.take pos
    | none => rest
  match rest with
  | '_' :: t => t
  | t => t

/-- What the directory entry `filename` does to `max_index`: `none` when the scan skips it
(not a match, or `std::stoi` throws), `some v` when `max_index` becomes at least `v`. -/
def entryIndex (pattern filename : List Char) : Option Int :=
  if find filename pattern = some 0 ∧ (find filename logExt).isSome then
    if numPart pattern filename = [] then some 1 else stoi (numPart pattern filename)
  else none

/-- One round of the loop over the search directory: `max_index` after the entry `f`. -/
def scanStep (pattern : List Char) (m : Int) (f : List Char) : Int :=
  match entryIndex pattern f with
  | some v => max m v
  | none => m

/-- `max_index` after the loop over the search directory's entries. -/
def maxIndex (pattern : List Char) (entries : List (List Char)) : Int :=
  entries.foldl (scanStep pattern) 0

/-- `new_index = (max_index == 0) ? 1 : (max_index + 1)`; `none` where the sum overflows. -/
def newIndex (maxIndex : Int) : Option Int :=
  if maxIndex = 0 then some 1
  else if maxIndex = intMax then none
  else some (maxIndex + 1)

/-- The name `create_new_log_file` opens for index `index`, before `dir_name_/`. -/
def logName (baseName date : List Char) (index : Int) : List Char :=
  if index = 1 then searchPattern baseName date ++ logExt
  else searchPattern baseName date ++ '_' :: intToString index ++ logExt


/-! ## Decimal digits -/

/-- The characters `std::to_string` writes for a digit. -/
def IsDecimal (c : Char) : Prop := ∃ d < 10, Nat.digitChar d = c

theorem digitChar_facts : ∀ d, d < 10 →
    (Nat.digitChar d).isDigit = true ∧ isSpace (Nat.digitChar d) = false ∧
      Nat.digitChar d ≠ '.' ∧ digitStep 0 (Nat.digitChar d) = d := by
  decide

theorem IsDecimal.isDigit {c : Char} (h : IsDecimal c) : c.isDigit = true := by
  obtain ⟨d, hd, rfl⟩ := h
  exact (digitChar_facts d hd).1

theorem IsDecimal.not_isSpace {c : Char} (h : IsDecimal c) : isSpace c = false := by
  obtain ⟨d, hd, rfl⟩ := h
  exact (digitChar_facts d hd).2.1

theorem IsDecimal.ne_dot {c : Char} (h : IsDecimal c) : c ≠ '.' := by
  obtain ⟨d, hd, rfl⟩ := h
  exact (digitChar_facts d hd).2.2.1

theorem toDigitsCore_spec (fuel n : Nat) (ds : List Char) (h : n < fuel) :
    (Nat.toDigitsCore 10 fuel n ds).foldl digitStep 0 = ds.foldl digitStep n ∧
      ∀ c ∈ Nat.toDigitsCore 10 fuel n ds, IsDecimal c ∨ c ∈ ds := by
  induction fuel generalizing n ds with
  | zero => omega
  | succ fuel ih =>
    have hd : IsDecimal (Nat.digitChar (n % 10)) := ⟨n % 10, Nat.mod_lt _ (by decide), rfl⟩
    have hval := (digitChar_facts (n % 10) (Nat.mod_lt _ (by decide))).2.2.2
    simp only [digitStep] at hval
    simp only [Nat.toDigitsCore]
    split
    · refine ⟨?_, fun c hc => ?_⟩
      · simp only [List.foldl_cons, digitStep, hval]
        congr 1
        omega
      · exact (List.mem_cons.1 hc).imp (by rintro rfl; exact hd) id
    · obtain ⟨ih1, ih2⟩ := ih (n / 10) (Nat.digitChar (n % 10) :: ds) (by omega)
      refine ⟨?_, fun c hc => ?_⟩
      · rw [ih1, List.foldl_cons]
        congr 1
        simp only [digitStep]
        omega
      · exact (ih2 c hc).elim .inl fun h => (List.mem_cons.1 h).imp (by rintro rfl; exact hd) id

theorem digitsValue_toDigits (n : Nat) : digitsValue (Nat.toDigits 10 n) = n :=
  (toDigitsCore_spec (n + 1) n [] (by omega)).1

theorem isDecimal_of_mem_toDigits {n : Nat} {c : Char} (h : c ∈ Nat.toDigits 10 n) :
    IsDecimal c :=
  ((toDigitsCore_spec (n + 1) n [] (by omega)).2 c h).resolve_right (List.not_mem_nil c)

theorem toDigitsCore_ne_nil (fuel n : Nat) {ds : List Char} (h : ds ≠ []) :
    Nat.toDigitsCore 10 fuel n ds ≠ [] := by
  induction fuel generalizing n ds with
  | zero => exact h
  | succ fuel ih =>
    simp only [Nat.toDigitsCore]
    split
    · simp
    · exact ih _ (by simp)

theorem toDigits_ne_nil (n : Nat) : Nat.toDigits 10 n ≠ [] := by
  simp only [Nat.toDigits, Nat.toDigitsCore]
  split
  · simp
  · exact toDigitsCore_ne_nil _ _ (by simp)

theorem stoi_toDigits {n : Nat} (hn : (n : Int) ≤ intMax) :
    stoi (Nat.toDigits 10 n) = some (n : Int) := by
  have hdec : ∀ c ∈ Nat.toDigits 10 n, IsDecimal c := fun _ => isDecimal_of_mem_toDigits
  obtain ⟨c, t, hct⟩ := List.exists_cons_of_ne_nil (toDigits_ne_nil n)
  have hc : IsDecimal c := hdec c (by simp [hct])
  have hdrop : (Nat.toDigits 10 n).dropWhile isSpace = Nat.toDigits 10 n := by
    rw [hct, List.dropWhile_cons_of_neg (by simp [hc.not_isSpace])]
  have hsign : readSign (Nat.toDigits 10 n) = (false, Nat.toDigits 10 n) := by
    rw [hct]
    have h1 : c ≠ '-' := fun e => by subst e; simpa using hc.isDigit
    have h2 : c ≠ '+' := fun e => by subst e; simpa using hc.isDigit
    unfold readSign
    split <;> simp_all
  have htake : (Nat.toDigits 10 n).takeWhile Char.isDigit = Nat.toDigits 10 n :=
    List.takeWhile_eq_self_iff.2 fun c h => (hdec c h).isDigit
  simp only [stoi, hdrop, hsign, htake, toDigits_ne_nil n, if_false, Bool.false_eq_true,
    digitsValue_toDigits]
  rw [if_neg (by simp only [intMin] at hn ⊢; omega)]

theorem stoi_le {s : List Char} {v : Int} (h : stoi s = some v) : v ≤ intMax := by
  simp only [stoi] at h
  split_ifs at h with h1 h2 h3 <;> cases h <;> omega

/-! ## `find` on the names -/

theorem find_prefix (p r : List Char) : find (p ++ r) p = some 0 := by
  unfold find
  rw [if_pos (List.isPrefixOf_iff_prefix.2 (List.prefix_append p r))]

theorem find_logExt_cons {c : Char} (hc : c ≠ '.') (t : List Char) :
    find (c :: t) logExt = (find t logExt).map (· + 1) := by
  conv_lhs => unfold find
  rw [if_neg (by simp [logExt, List.isPrefixOf, Ne.symm hc])]

theorem find_decimal_logExt {ds : List Char} (h : ∀ c ∈ ds, IsDecimal c) :
    find (ds ++ logExt) logExt = some ds.length := by
  induction ds with
  | nil => simpa using find_prefix logExt []
  | cons c ds ih =>
    rw [List.cons_append, find_logExt_cons (h c (List.mem_cons_self c ds)).ne_dot,
      ih fun x hx => h x (List.mem_cons_of_mem c hx)]
    rfl

theorem find_logExt_isSome (xs : List Char) : (find (xs ++ logExt) logExt).isSome := by
  induction xs with
  | nil =>
    have h := find_prefix logExt []
    rw [List.append_nil] at h
    simp [h]
  | cons x xs ih =>
    unfold find
    split
    · rfl
    · simpa using ih

/-! ## The scan reads back the index of every name it builds -/

theorem numPart_first (pattern : List Char) : numPart pattern (pattern ++ logExt) = [] := by
  have h := find_prefix logExt []
  rw [List.append_nil] at h
  simp [numPart, h]

theorem numPart_later (pattern : List Char) {ds : List Char} (h : ∀ c ∈ ds, IsDecimal c) :
    numPart pattern (pattern ++ '_' :: ds ++ logExt) = ds := by
  have hfind : find ('_' :: ds ++ logExt) logExt = some (ds.length + 1) := by
    rw [List.cons_append, find_logExt_cons (by decide), find_decimal_logExt h]
    rfl
  simp only [numPart, List.append_assoc, List.drop_left, ← List.cons_append, hfind]
  simp

/-- For every index an `int` can hold from 1 on, the entry `create_new_log_file` names after
it counts for exactly that index in a later scan. -/
theorem entryIndex_logName (baseName date : List Char) {k : Int} (h1 : 1 ≤ k) (hk : k ≤ intMax) :
    entryIndex (searchPattern baseName date) (logName baseName date k) = some k := by
  set p := searchPattern baseName date
  have hmatch : ∀ xs, find (p ++ xs ++ logExt) p = some 0 ∧ (find (p ++ xs ++ logExt) logExt).isSome :=
    fun xs => ⟨by simpa only [List.append_assoc] using find_prefix p (xs ++ logExt),
      find_logExt_isSome (p ++ xs)⟩
  by_cases hk1 : k = 1
  · subst hk1
    have hm := hmatch []
    simp only [List.append_nil] at hm
    simp only [entryIndex, logName, if_true, hm, and_self, numPart_first]
  · have hn : k = (k.toNat : Int) := by omega
    have hdec : ∀ c ∈ Nat.toDigits 10 k.toNat, IsDecimal c := fun _ => isDecimal_of_mem_toDigits
    have hstr : intToString k = Nat.toDigits 10 k.toNat := by
      simp only [intToString, if_neg (by omega : ¬k < 0)]
    have hm := hmatch ('_' :: Nat.toDigits 10 k.toNat)
    simp only [← List.append_assoc] at hm
    simp only [entryIndex, logName, if_neg hk1, hstr, hm, and_self, if_true, numPart_later p hdec,
      if_neg (toDigits_ne_nil k.toNat), stoi_toDigits (show (k.toNat : Int) ≤ intMax by omega),
      ← hn]

/-- The twelfth file of a day is read back as index 12. -/
theorem twelfth_name_read_back :
    (1 : Int) ≤ 12 ∧ (12 : Int) ≤ intMax ∧
      entryIndex (searchPattern "app".toList "20240101".toList)
        (logName "app".toList "20240101".toList 12) = some 12 :=
  ⟨by decide, by decide, entryIndex_logName _ _ (by decide) (by decide)⟩

/-! ## The new name is not in the directory -/

theorem entryIndex_le {pattern f : List Char} {v : Int} (h : entryIndex pattern f = some v) :
    v ≤ intMax := by
  unfold entryIndex at h
  split_ifs at h
  · cases h
    decide
  · exact stoi_le h

theorem scan_spec (pattern : List Char) (entries : List (List Char)) (m : Int) :
    m ≤ entries.foldl (scanStep pattern) m ∧
      (∀ f ∈ entries, ∀ v, entryIndex pattern f = some v → v ≤ entries.foldl (scanStep pattern) m) ∧
      (m ≤ intMax → entries.foldl (scanStep pattern) m ≤ intMax) := by
  induction entries generalizing m with
  | nil => simp
  | cons f fs ih =>
    have hstep : m ≤ scanStep pattern m f ∧ (∀ v, entryIndex pattern f = some v →
        v ≤ scanStep pattern m f) ∧ (m ≤ intMax → scanStep pattern m f ≤ intMax) := by
      unfold scanStep
      split
      · rename_i w hw
        have := entryIndex_le hw
        refine ⟨by omega, fun v hv => ?_, fun _ => by omega⟩
        cases hv.symm.trans hw
        omega
      · rename_i hw
        exact ⟨Int.le_refl m, fun v hv => absurd hv (by simp [hw]), id⟩
    obtain ⟨h1, h2, h3⟩ := ih (scanStep pattern m f)
    simp only [List.foldl_cons]
    refine ⟨Int.le_trans hstep.1 h1, fun g hg v hv => ?_, fun hm => h3 (hstep.2.2 hm)⟩
    rcases List.mem_cons.1 hg with rfl | hg
    · exact Int.le_trans (hstep.2.1 v hv) h1
    · exact h2 g hg v hv

/-- For every directory listing, base name and date, the name `create_new_log_file` picks is
not already in the directory, unless `max_index + 1` overflows. -/
theorem logName_not_mem (baseName date : List Char) (entries : List (List Char)) {k : Int}
    (hk : newIndex (maxIndex (searchPattern baseName date) entries) = some k) :
    logName baseName date k ∉ entries := by
  obtain ⟨h0, hle, hmax⟩ := scan_spec (searchPattern baseName date) entries 0
  have hmax := hmax (by decide)
  rw [← maxIndex] at h0 hle hmax
  intro hmem
  unfold newIndex at hk
  split_ifs at hk with hz hm
  · cases hk
    have := hle _ hmem 1 (entryIndex_logName baseName date (Int.le_refl 1) (by decide))
    omega
  · cases hk
    have := hle _ hmem _ (entryIndex_logName baseName date (by omega) (by omega))
    omega

def dayDir : List (List Char) :=
  ["app_20240101.log".toList, "app_20240101_7.log".toList, "app_20240101_x.log".toList,
    "app.txt".toList]

/-- The next file of that day is `app_20240101_8.log`, which is not there. -/
theorem dayDir_next_is_new :
    newIndex (maxIndex (searchPattern "app".toList "20240101".toList) dayDir) = some 8 ∧
      logName "app".toList "20240101".toList 8 ∉ dayDir :=
  ⟨by decide, logName_not_mem _ _ _ (by decide)⟩

end ReactorServer.Logger.LogFiles
