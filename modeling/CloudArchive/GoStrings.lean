import Mathlib.Data.List.Nodup
import Mathlib.Tactic.NormNum
import Mathlib.Data.Nat.Digits

/-!
# Go strings — the `strings`, `strconv` and `fmt` pieces the server uses

A Go string is modelled by the list of its runes, `List Char`. Every helper here is
structurally recursive (or a composition of core list functions that are), so that
`decide` and `rfl` can run the model on concrete names, `tags.dat` lines and shard names.

Only the behaviour the archive code relies on is modelled:

* `strings.TrimSpace`, `strings.Split` with a one-rune separator, `strings.TrimLeft` and
  `strings.Trim` with a cutset, `strings.TrimSuffix`;
* `strconv.ParseUint(s, 10, bitSize)` (digits only, no sign, no underscores in base 10);
* `fmt`'s `%d` of a non-negative integer, and `uuid.UUID.String()`.

Where Go reads a string byte by byte (`len(s)`, `s[i]`), the model reads `goBytes`, the UTF-8
encoding of the runes.
-/

namespace CloudArchive

/-- Code points of Go's `unicode.IsSpace`: the Latin-1 spaces `\t \n \v \f \r`, space,
U+0085 and U+00A0, and the rest of Unicode's `White_Space` property. -/
def spaceCodes : List Nat :=
  [0x09, 0x0A, 0x0B, 0x0C, 0x0D, 0x20, 0x85, 0xA0, 0x1680,
   0x2000, 0x2001, 0x2002, 0x2003, 0x2004, 0x2005, 0x2006, 0x2007, 0x2008, 0x2009, 0x200A,
   0x2028, 0x2029, 0x202F, 0x205F, 0x3000]

/-- Go `unicode.IsSpace`. -/
def isSpace (c : Char) : Bool := spaceCodes.contains c.toNat

/-- Go `strings.TrimSpace`: drop the leading and the trailing white space. -/
def trimSpace (s : List Char) : List Char :=
  ((s.dropWhile isSpace).reverse.dropWhile isSpace).reverse

/-- Go `strings.TrimLeft(s, cutset)`: drop every leading rune that is in `cutset`. -/
def trimLeft (s cutset : List Char) : List Char :=
  s.dropWhile (fun c => cutset.contains c)

/-- Go `strings.Trim(s, cutset)`: drop every leading and every trailing rune in `cutset`. -/
def trim (s cutset : List Char) : List Char :=
  ((trimLeft s cutset).reverse.dropWhile (fun c => cutset.contains c)).reverse

/-- Go `strings.TrimSuffix(s, suffix)`. -/
def trimSuffix (s suffix : List Char) : List Char :=
  if suffix.isSuffixOf s then s.take (s.length - suffix.length) else s

/-- Go `strings.TrimPrefix(s, pre)`. -/
def trimPrefix (s pre : List Char) : List Char :=
  if pre.isPrefixOf s then s.drop pre.length else s

/-- Go `strings.Split(s, string(sep))` for a one-rune separator: the pieces between the
occurrences of `sep`, one more piece than there are occurrences. -/
def split (s : List Char) (sep : Char) : List (List Char) := s.splitOn sep

/-- `fmt`'s `%d` of a non-negative integer: its decimal digits, without leading zeros. -/
def decimal (n : Nat) : List Char := Nat.toDigits 10 n

/-- The value of a string of decimal digits (most significant first). -/
def digitsValue (s : List Char) : Nat :=
  s.foldl (fun acc c => 10 * acc + (c.toNat - '0'.toNat)) 0

/-- Go `strconv.ParseUint(s, 10, bitSize)`: a non-empty run of ASCII digits whose value fits
in `bitSize` bits. Anything else (a sign, a space, an empty string, an overflow) is an error,
modelled as `none`. -/
def parseUint (s : List Char) (bitSize : Nat) : Option Nat :=
  if s ≠ [] ∧ s.all Char.isDigit ∧ digitsValue s < 2 ^ bitSize then some (digitsValue s)
  else none

/-- The bytes of a Go string, the UTF-8 encoding of its runes: what `len(s)` counts and `s[i]`
reads. -/
def goBytes (s : List Char) : List UInt8 := s.flatMap String.utf8EncodeChar

/-- A string of ASCII runes is one byte per rune. -/
theorem goBytes_of_ascii {s : List Char} (h : ∀ c ∈ s, c.val ≤ 0x7f) :
    goBytes s = s.map fun c => c.val.toUInt8 := by
  induction s with
  | nil => rfl
  | cons c cs ih =>
    have hc : String.utf8EncodeChar c = [c.val.toUInt8] := by
      simp [String.utf8EncodeChar, h c (.head _)]
    simp only [goBytes, List.flatMap_cons, List.map_cons] at ih ⊢
    rw [hc, ih fun d hd => h d (.tail _ hd)]
    rfl

/-- A lower-case hexadecimal digit. -/
def hexDigit (n : Nat) : Char := if n < 10 then Char.ofNat (48 + n) else Char.ofNat (87 + n)

/-- `uuid.UUID.String()`: 32 lower-case hex digits in groups of 8, 4, 4, 4 and 12. -/
def uuidString (u : BitVec 128) : List Char :=
  let d := (List.range 32).map fun k => hexDigit (u.toNat / 16 ^ (31 - k) % 16)
  d.take 8 ++ '-' :: (d.drop 8).take 4 ++ '-' :: (d.drop 12).take 4 ++ '-' ::
    (d.drop 16).take 4 ++ '-' :: d.drop 20

/-! ## `Split` -/

theorem split_append_sep (sep : Char) (a b : List Char) :
    split (a ++ sep :: b) sep = split a sep ++ split b sep := by
  induction a with
  | nil => simp [split, List.splitOn]
  | cons c a ih =>
    simp only [split, List.splitOn, List.cons_append, List.splitOnP_cons] at ih ⊢
    split_ifs
    · simp [ih]
    · rw [ih]
      obtain ⟨x, xs, hx⟩ := List.exists_cons_of_ne_nil (List.splitOnP_ne_nil (· == sep) a)
      simp [hx]

theorem split_of_not_mem {sep : Char} {n : List Char} (hn : sep ∉ n) : split n sep = [n] :=
  List.splitOnP_eq_single _ _ fun x hx hx' => hn (by rw [beq_iff_eq] at hx'; exact hx' ▸ hx)

theorem intercalate_cons_cons {sep : Char} (x y : List Char) (ys : List (List Char)) :
    [sep].intercalate (x :: y :: ys) = x ++ sep :: [sep].intercalate (y :: ys) := by
  simp [List.intercalate]

/-! ## `%d` and `ParseUint` agree -/

/-- The digit characters of `Nat.toDigits`: decimal digits, never white space or `=`. -/
theorem digitChar_of_lt : ∀ m < 10, (Nat.digitChar m).toNat - '0'.toNat = m ∧
    (Nat.digitChar m).isDigit ∧ isSpace (Nat.digitChar m) = false ∧ Nat.digitChar m ≠ '=' := by
  decide

/-- `toDigitsCore` with enough fuel puts the digits of `n` in front of `ds`. -/
theorem toDigitsCore_digits (fuel n : Nat) (ds : List Char) (h : n < fuel) :
    ∃ l, Nat.toDigitsCore 10 fuel n ds = l ++ ds ∧ l ≠ [] ∧
      (∀ c ∈ l, c.isDigit ∧ isSpace c = false ∧ c ≠ '=') ∧ digitsValue l = n := by
  induction fuel generalizing n ds with
  | zero => omega
  | succ fuel ih =>
    have hd := digitChar_of_lt (n % 10) (Nat.mod_lt _ (by decide))
    simp only [Nat.toDigitsCore]
    split
    · rename_i h0
      refine ⟨[Nat.digitChar (n % 10)], rfl, by simp, by simpa using hd.2, ?_⟩
      have := hd.1
      simp only [digitsValue, List.foldl_cons, List.foldl_nil]
      omega
    · obtain ⟨l, hl, hne, hc, hv⟩ := ih (n / 10) (Nat.digitChar (n % 10) :: ds) (by omega)
      refine ⟨l ++ [Nat.digitChar (n % 10)], by simp [hl], by simp, ?_, ?_⟩
      · intro c hc'
        rcases List.mem_append.mp hc' with hc' | hc'
        · exact hc c hc'
        · simpa [List.mem_singleton.mp hc'] using hd.2
      · simp only [digitsValue, List.foldl_append] at hv ⊢
        simp only [hv, List.foldl_cons, List.foldl_nil, hd.1]
        omega

theorem decimal_digits (n : Nat) :
    decimal n ≠ [] ∧ (∀ c ∈ decimal n, c.isDigit ∧ isSpace c = false ∧ c ≠ '=') ∧
      digitsValue (decimal n) = n := by
  obtain ⟨l, hl, h⟩ := toDigitsCore_digits (n + 1) n [] (by omega)
  rw [decimal, Nat.toDigits, hl, List.append_nil]
  exact h

/-- `strconv.ParseUint` reads back what `%d` writes. -/
theorem parseUint_decimal {n bitSize : Nat} (h : n < 2 ^ bitSize) :
    parseUint (decimal n) bitSize = some n := by
  obtain ⟨hne, hc, hv⟩ := decimal_digits n
  have hall : (decimal n).all Char.isDigit := List.all_eq_true.mpr fun c h => (hc c h).1
  simp [parseUint, hne, hall, hv, h]

theorem dropWhile_of_forall {p : Char → Bool} {l : List Char} (h : ∀ c ∈ l, p c = false) :
    l.dropWhile p = l := by
  cases l with
  | nil => rfl
  | cons c l => simp [List.dropWhile, h c (.head _)]

/-- `TrimSpace` leaves a string with no white space alone. -/
theorem trimSpace_of_forall {s : List Char} (h : ∀ c ∈ s, isSpace c = false) :
    trimSpace s = s := by
  rw [trimSpace, dropWhile_of_forall h,
    dropWhile_of_forall (by simpa using h), List.reverse_reverse]

/-- `Trim` leaves a string with no rune of the cutset alone. -/
theorem trim_of_forall {s cutset : List Char} (h : ∀ c ∈ s, cutset.contains c = false) :
    trim s cutset = s := by
  rw [trim, trimLeft, dropWhile_of_forall h, dropWhile_of_forall (by simpa using h),
    List.reverse_reverse]

/-- `TrimSpace` of a line with its one trailing white space rune. -/
theorem trimSpace_append_space {s : List Char} {c : Char} (h : ∀ x ∈ s, isSpace x = false)
    (hc : isSpace c = true) : trimSpace (s ++ [c]) = s := by
  cases s with
  | nil => simp [trimSpace, List.dropWhile, hc]
  | cons x s =>
    have hr : (s.reverse ++ [x]).dropWhile isSpace = s.reverse ++ [x] :=
      dropWhile_of_forall (by simpa [or_comm] using h)
    simp [trimSpace, List.dropWhile, h x (.head _), hc, hr]

end CloudArchive
