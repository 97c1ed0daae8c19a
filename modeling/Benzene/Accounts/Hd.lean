import Mathlib

/-!
# Derivation paths

`ParseDerivationPath` and `DerivationPath.String` (accounts/hd.go). A string is the list of its
characters; a byte that is no valid UTF-8 stands as U+FFFD, which like that byte is neither space
nor digit.

`parseDerivationPath_roundTrip`: what is printed is parsed back, and so is every path that was
parsed from any other text.
-/

namespace Benzene.Accounts

/-! ## Numbers -/

/-- The value of a digit in `nat.scan` of `math/big`: 63 for what is no digit at all. -/
def digitValue (ch : Char) : ℕ :=
  if '0' ≤ ch ∧ ch ≤ '9' then ch.toNat - '0'.toNat
  else if 'a' ≤ ch ∧ ch ≤ 'z' then ch.toNat - 'a'.toNat + 10
  else if 'A' ≤ ch ∧ ch ≤ 'Z' then ch.toNat - 'A'.toNat + 10
  else 63

/-- The variables of `nat.scan`; `prev` is `_`, `0` (a digit) or `.` (anything else). -/
structure Scan where
  z : ℕ
  count : ℕ
  prev : Char
  invalSep : Bool

/-- The loop of `nat.scan`, with what it leaves unread. -/
def scanLoop (b : ℕ) : List Char → Scan → Scan × List Char
  | [], s => (s, [])
  | ch :: rest, s =>
    if ch = '_' then
      scanLoop b rest { s with invalSep := s.invalSep || s.prev != '0', prev := '_' }
    else if b ≤ digitValue ch then (s, ch :: rest)
    else scanLoop b rest
      { s with z := s.z * b + digitValue ch, count := s.count + 1, prev := '0' }

/-- The base of a number, whether it is octal by a leading zero alone, and what is to be scanned
with which variables. -/
def scanBase : List Char → ℕ × Bool × List Char × Scan
  | ['0'] => (10, false, [], ⟨0, 1, '0', false⟩)
  | '0' :: ch :: rest =>
    if ch = 'b' ∨ ch = 'B' then (2, false, rest, ⟨0, 0, '0', false⟩)
    else if ch = 'o' ∨ ch = 'O' then (8, false, rest, ⟨0, 0, '0', false⟩)
    else if ch = 'x' ∨ ch = 'X' then (16, false, rest, ⟨0, 0, '0', false⟩)
    else (8, true, ch :: rest, ⟨0, 0, '0', false⟩)
  | cs => (10, false, cs, ⟨0, 0, '.', false⟩)

/-- `nat.scan` for base 0: the number and what is unread. -/
def natScan (cs : List Char) : Option (ℕ × List Char) :=
  let (b, octal, cs, s) := scanBase cs
  let (s, rest) := scanLoop b cs s
  if s.invalSep || s.prev == '_' then none
  else if s.count = 0 then if octal then some (0, rest) else none
  else some (s.z, rest)

/-- `new(big.Int).SetString(s, 0)`: all of the text is the number. -/
def setString : List Char → Option ℤ
  | [] => none
  | ch :: rest =>
    let (neg, cs) := if ch = '-' then (true, rest) else if ch = '+' then (false, rest)
      else (false, ch :: rest)
    match natScan cs with
    | some (n, []) => some (if neg then -n else n)
    | _ => none

/-! ## Paths -/

/-- `unicode.IsSpace`. -/
def isSpace (c : Char) : Bool :=
  c.toNat ∈ [0x09, 0x0a, 0x0b, 0x0c, 0x0d, 0x20, 0x85, 0xa0, 0x1680, 0x2028, 0x2029, 0x202f,
    0x205f, 0x3000] || (0x2000 ≤ c.toNat && c.toNat ≤ 0x200a)

/-- `strings.TrimSpace`. -/
def trimSpace (s : List Char) : List Char := (s.dropWhile isSpace).rdropWhile isSpace

/-- `DefaultRootDerivationPath` (accounts/hd.go:31). -/
def defaultRootDerivationPath : List UInt32 :=
  [0x80000000 + 44, 0x80000000 + 60, 0x80000000 + 0, 0]

/-- A component without its marker, added to the offset of the marker
(accounts/hd.go:103-115). -/
def parseValue (value : UInt32) (component : List Char) : Except String UInt32 :=
  match setString component with
  | none => .error s!"invalid component: {String.ofList component}"
  | some bigval =>
    let max := 0xffffffff - value
    if bigval < 0 ∨ max.toNat < bigval then
      if value = 0 then .error s!"component {bigval} out of allowed range [0, {max}]"
      else .error s!"component {bigval} out of allowed hardened range [0, {max}]"
    else .ok (value + UInt32.ofNat bigval.toNat)

/-- One round of the loop of `ParseDerivationPath` (accounts/hd.go:92-118). -/
def parseComponent (component : List Char) : Except String UInt32 :=
  let component := trimSpace component
  if component.getLast? = some '\x27' then
    parseValue 0x80000000 (trimSpace component.dropLast)
  else parseValue 0 component

/-- The components after the root, one by one (accounts/hd.go:88-120). -/
def appendComponents (result : List UInt32) (components : List (List Char)) :
    Except String (List UInt32) :=
  if components = [] then .error "empty derivation path"
  else do return result ++ (← components.mapM parseComponent)

/-- `ParseDerivationPath` (accounts/hd.go:68-120). -/
def parseDerivationPath (path : List Char) : Except String (List UInt32) :=
  match path.splitOn '/' with
  | [] => .error "empty derivation path"
  | first :: components =>
    if trimSpace first = [] then
      .error ("ambiguous path: use 'm/' prefix for absolute paths, " ++
        "or no leading '/' for relative ones")
    else if trimSpace first = ['m'] then appendComponents [] components
    else appendComponents defaultRootDerivationPath (first :: components)

/-- What `String` prints for a component. -/
def printComponent (component : UInt32) : List Char :=
  if 0x80000000 ≤ component then Nat.toDigits 10 (component - 0x80000000).toNat ++ ['\x27']
  else Nat.toDigits 10 component.toNat

/-- `DerivationPath.String` (accounts/hd.go:124-137). -/
def printPath (path : List UInt32) : List Char :=
  path.foldl (fun result component => result ++ '/' :: printComponent component) ['m']

/-! ## Printed numbers -/

variable {n : ℕ} {cs : List Char}

theorem digitValue_of_isDigit {c : Char} (h : c.isDigit) :
    digitValue c = c.toNat - '0'.toNat ∧ digitValue c < 10 := by
  have hbounds : '0' ≤ c ∧ c ≤ '9' := by simpa [Char.isDigit, Char.le_def] using h
  have hle : c.toNat ≤ 57 := UInt32.le_iff_toNat_le.1 hbounds.2
  rw [digitValue, if_pos hbounds]
  exact ⟨rfl, by simp; omega⟩

theorem scanLoop_digits (h : ∀ c ∈ cs, c.isDigit) (s : Scan) :
    scanLoop 10 cs s = (⟨Nat.ofDigitChars 10 cs s.z, s.count + cs.length,
      if cs = [] then s.prev else '0', s.invalSep⟩, []) := by
  induction cs generalizing s with
  | nil => rfl
  | cons c cs ih =>
    obtain ⟨hval, hlt⟩ := digitValue_of_isDigit (h c List.mem_cons_self)
    have hsep : c ≠ '_' := by
      rintro rfl
      exact absurd (h _ List.mem_cons_self) (by decide)
    rw [scanLoop, if_neg hsep, if_neg (by omega), ih fun d hd => h d (List.mem_cons_of_mem _ hd)]
    simp [Nat.ofDigitChars_cons, hval, Nat.mul_comm, Nat.add_assoc, Nat.add_comm 1]

theorem toDigits_head (hn : 0 < n) : ∃ c cs, Nat.toDigits 10 n = c :: cs ∧ c ≠ '0' := by
  induction n using Nat.strongRecOn with
  | ind n ih =>
    by_cases hlt : n < 10
    · refine ⟨_, _, Nat.toDigits_of_lt_base hlt, ?_⟩
      interval_cases n <;> decide
    · obtain ⟨c, cs, hdigits, hc⟩ := ih (n / 10) (by omega) (by omega)
      have happend := Nat.toDigits_append_toDigits (b := 10) (n := n / 10) (d := n % 10)
        (by norm_num) (by omega) (by omega)
      rw [Nat.div_add_mod, hdigits] at happend
      exact ⟨c, cs ++ Nat.toDigits 10 (n % 10), happend.symm, hc⟩

theorem isDigit_of_mem_toDigits {c : Char} (h : c ∈ Nat.toDigits 10 n) : c.isDigit :=
  Nat.isDigit_of_mem_toDigits (by norm_num) (by norm_num) h

theorem setString_toDigits (n : ℕ) : setString (Nat.toDigits 10 n) = some (n : ℤ) := by
  rcases Nat.eq_zero_or_pos n with rfl | hn
  · rfl
  obtain ⟨c, cs, hdigits, hc⟩ := toDigits_head hn
  have hall : ∀ d ∈ c :: cs, d.isDigit := fun d hd =>
    isDigit_of_mem_toDigits (hdigits ▸ hd)
  have hscan : natScan (c :: cs) = some (n, []) := by
    have hbase : scanBase (c :: cs) = (10, false, c :: cs, ⟨0, 0, '.', false⟩) := by
      unfold scanBase
      split <;> simp_all
    have hval := Nat.ofDigitChars_toDigits (b := 10) (n := n) (by norm_num) (by norm_num)
    rw [hdigits] at hval
    simp [natScan, hbase, scanLoop_digits hall, hval]
  have hsign : c ≠ '-' ∧ c ≠ '+' := by
    constructor <;> rintro rfl <;> exact absurd (hall _ List.mem_cons_self) (by decide)
  rw [hdigits, setString]
  simp [hsign, hscan]

/-! ## Round trip -/

theorem trimSpace_of_forall (h : ∀ c ∈ cs, isSpace c = false) : trimSpace cs = cs := by
  have hleft : cs.dropWhile isSpace = cs := by
    cases cs with
    | nil => rfl
    | cons c cs => simp [h c]
  rw [trimSpace, hleft, List.rdropWhile_eq_self_iff]
  intro hne
  simp [h _ (List.getLast_mem hne)]

theorem isSpace_of_isDigit {c : Char} (h : c.isDigit) : isSpace c = false := by
  have hbounds : 48 ≤ c.toNat ∧ c.toNat ≤ 57 := by
    simpa [Char.isDigit, UInt32.le_iff_toNat_le] using h
  simp [isSpace]
  omega

theorem mem_printComponent {component : UInt32} {c : Char} (h : c ∈ printComponent component) :
    isSpace c = false ∧ c ≠ '/' := by
  have hc : c.isDigit ∨ c = '\x27' := by
    unfold printComponent at h
    split_ifs at h
    · rw [List.mem_append, List.mem_singleton] at h
      exact h.imp_left isDigit_of_mem_toDigits
    · exact Or.inl (isDigit_of_mem_toDigits h)
  rcases hc with hc | rfl
  · refine ⟨isSpace_of_isDigit hc, ?_⟩
    rintro rfl
    cases hc
  · decide

theorem parseValue_toDigits {value component : UInt32} (hn : n ≤ (0xffffffff - value).toNat)
    (hsum : value + UInt32.ofNat n = component) :
    parseValue value (Nat.toDigits 10 n) = .ok component := by
  have hrange : ¬((n : ℤ) < 0 ∨ ((0xffffffff - value).toNat : ℤ) < n) := by omega
  simp only [parseValue, setString_toDigits, if_neg hrange, Int.toNat_natCast, hsum]

theorem trimSpace_toDigits (n : ℕ) : trimSpace (Nat.toDigits 10 n) = Nat.toDigits 10 n :=
  trimSpace_of_forall fun _ hc => isSpace_of_isDigit (isDigit_of_mem_toDigits hc)

theorem parseComponent_print (component : UInt32) :
    parseComponent (printComponent component) = .ok component := by
  have htrim : trimSpace (printComponent component) = printComponent component :=
    trimSpace_of_forall fun c hc => (mem_printComponent hc).1
  rw [parseComponent, htrim]
  by_cases hhard : 0x80000000 ≤ component
  · simp only [printComponent, if_pos hhard, List.getLast?_concat, if_true, List.dropLast_concat,
      trimSpace_toDigits]
    apply parseValue_toDigits
    · have := component.toNat_lt
      rw [UInt32.toNat_sub_of_le _ _ hhard]
      simp
      omega
    · simp
  · have hlast : (Nat.toDigits 10 component.toNat).getLast? ≠ some '\x27' := fun hlast =>
      absurd (isDigit_of_mem_toDigits (List.mem_of_getLast? hlast)) (by decide)
    simp only [printComponent, if_neg hhard, if_neg hlast]
    apply parseValue_toDigits
    · have := component.toNat_lt
      simp
      omega
    · simp

theorem printPath_eq (path : List UInt32) :
    printPath path = ['/'].intercalate (['m'] :: path.map printComponent) := by
  have hfold : ∀ front, path.foldl (fun result c => result ++ '/' :: printComponent c) front =
      ['/'].intercalate (front :: path.map printComponent) := by
    induction path with
    | nil => simp
    | cons c path ih =>
      intro front
      rw [List.foldl_cons, ih]
      cases path <;> simp [List.intercalate]
  exact hfold ['m']

theorem parseDerivationPath_print {path : List UInt32} (h : path ≠ []) :
    parseDerivationPath (printPath path) = .ok path := by
  have hsplit : (printPath path).splitOn '/' = ['m'] :: path.map printComponent := by
    rw [printPath_eq, List.splitOn_intercalate _ _ (List.cons_ne_nil _ _)]
    intro l hl
    rcases List.mem_cons.1 hl with rfl | hl
    · decide
    · obtain ⟨c, -, rfl⟩ := List.mem_map.1 hl
      exact fun hmem => (mem_printComponent hmem).2 rfl
  have hmapM : (path.map printComponent).mapM parseComponent = .ok path := by
    clear hsplit h
    induction path with
    | nil => rfl
    | cons c path ih =>
      rw [List.map_cons, List.mapM_cons, parseComponent_print, ih]
      rfl
  have hm : trimSpace ['m'] = ['m'] := by decide
  simp [parseDerivationPath, hsplit, hm, appendComponents, h, hmapM]

theorem ne_nil_of_appendComponents {result path : List UInt32} {components : List (List Char)}
    (h : appendComponents result components = .ok path) : path ≠ [] := by
  unfold appendComponents at h
  split_ifs at h with hnil
  obtain ⟨component, components, rfl⟩ := List.exists_cons_of_ne_nil hnil
  rw [List.mapM_cons] at h
  cases hc : parseComponent component with
  | error e =>
    rw [hc] at h
    cases h
  | ok value =>
    cases hcs : components.mapM parseComponent with
    | error e =>
      rw [hc, hcs] at h
      cases h
    | ok values =>
      rw [hc, hcs] at h
      cases h
      simp

theorem ne_nil_of_parse {s : List Char} {path : List UInt32}
    (h : parseDerivationPath s = .ok path) : path ≠ [] := by
  unfold parseDerivationPath at h
  split at h
  · cases h
  · split_ifs at h
    · exact ne_nil_of_appendComponents h
    · exact ne_nil_of_appendComponents h

/-- A non-empty path is parsed back from what `String` prints for it, and every path that was
parsed from any text is. -/
theorem parseDerivationPath_roundTrip :
    (∀ path : List UInt32, path ≠ [] → parseDerivationPath (printPath path) = .ok path) ∧
      ∀ (s : List Char) (path : List UInt32), parseDerivationPath s = .ok path →
        parseDerivationPath (printPath path) = .ok path :=
  ⟨fun _ h => parseDerivationPath_print h,
    fun _ _ h => parseDerivationPath_print (ne_nil_of_parse h)⟩

/-- A relative path with spaces, a hardened hexadecimal component and an underscore. -/
theorem parseDerivationPath_spaced :
    let path := defaultRootDerivationPath ++ [0x8000002c, 10]
    parseDerivationPath [' ', '0', 'x', '2', 'c', ' ', '\x27', '/', '+', '1', '_', '0', ' '] =
        .ok path ∧
      parseDerivationPath (printPath path) = .ok path ∧
      parseDerivationPath (printPath [0xffffffff, 0]) = .ok [0xffffffff, 0] :=
  ⟨rfl, parseDerivationPath_roundTrip.2 _ _ (rfl : parseDerivationPath
    [' ', '0', 'x', '2', 'c', ' ', '\x27', '/', '+', '1', '_', '0', ' '] = _),
    parseDerivationPath_roundTrip.1 _ (List.cons_ne_nil _ _)⟩

end Benzene.Accounts
