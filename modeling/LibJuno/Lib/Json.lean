import Mathlib.Data.List.Basic
import Mathlib.Tactic.IntervalCases

/-!
# JSON text

Values with natural numbers, their text with an indentation of two, and a reader of texts.
The reader takes any white space and any escape of a character; it refuses a number with a
sign, a fraction or an exponent and half of a surrogate pair, which no text of a value
has. `parse_stringify` is the round trip.
-/

inductive Json where
  | null
  | bool (b : Bool)
  | num (n : Nat)
  | str (s : String)
  | arr (items : List Json)
  | obj (members : List (String × Json))

namespace Json

section Print

/-- A character inside a string. -/
def escape (c : Char) : List Char :=
  if c = '"' then ['\\', '"']
  else if c = '\\' then ['\\', '\\']
  else if c = '\x08' then ['\\', 'b']
  else if c = '\x0c' then ['\\', 'f']
  else if c = '\n' then ['\\', 'n']
  else if c = '\r' then ['\\', 'r']
  else if c = '\t' then ['\\', 't']
  else if c.toNat < 0x20 then
    ['\\', 'u', '0', '0', (c.toNat / 16).digitChar, (c.toNat % 16).digitChar]
  else [c]

def quote (s : String) : List Char := '"' :: (s.toList.flatMap escape ++ ['"'])

/-- A new line with its indentation. -/
def newline (depth : Nat) : List Char := '\n' :: List.replicate (2 * depth) ' '

/-- What stands before an item: a comma unless it is the first. -/
def comma (started : Bool) : List Char := if started then [','] else []

/-- What stands before the closing bracket: a new line unless there are no items. -/
def closing (depth : Nat) (started : Bool) : List Char := if started then newline depth else []

mutual

/-- The text of a value whose lines start at the given depth. -/
def print (depth : Nat) : Json → List Char
  | .null => "null".toList
  | .bool b => (if b then "true" else "false").toList
  | .num n => Nat.toDigits 10 n
  | .str s => quote s
  | .arr items => '[' :: printItems depth false items
  | .obj members => '{' :: printMembers depth false members

def printItems (depth : Nat) (started : Bool) : List Json → List Char
  | [] => closing depth started ++ [']']
  | j :: js =>
    comma started ++ (newline (depth + 1) ++ (print (depth + 1) j ++ printItems depth true js))

def printMembers (depth : Nat) (started : Bool) : List (String × Json) → List Char
  | [] => closing depth started ++ ['}']
  | (key, j) :: ms =>
    comma started ++ (newline (depth + 1) ++ (quote key ++ (':' :: ' ' ::
      (print (depth + 1) j ++ printMembers depth true ms))))

end

def stringify (j : Json) : String := String.ofList (print 0 j)

end Print

section Read

def isBlank (c : Char) : Bool := c = ' ' || c = '\n' || c = '\r' || c = '\t'

def skip (s : List Char) : List Char := s.dropWhile isBlank

def hexDigit (c : Char) : Option Nat :=
  if c.isDigit then some (c.toNat - 48)
  else if 'a' ≤ c ∧ c ≤ 'f' then some (c.toNat - 87)
  else if 'A' ≤ c ∧ c ≤ 'F' then some (c.toNat - 55)
  else none

/-- Four hexadecimal digits. -/
def readUnit : List Char → Option (Nat × List Char)
  | a :: b :: c :: d :: rest => do
    let a ← hexDigit a
    let b ← hexDigit b
    let c ← hexDigit c
    let d ← hexDigit d
    return (a * 4096 + b * 256 + c * 16 + d, rest)
  | _ => none

/-- The second half of a surrogate pair. -/
def readLow (high : Nat) : List Char → Option (Char × List Char)
  | '\\' :: 'u' :: rest => do
    let low ← readUnit rest
    if 0xDC00 ≤ low.1 ∧ low.1 < 0xE000 then
      return (Char.ofNat (0x10000 + (high - 0xD800) * 0x400 + (low.1 - 0xDC00)), low.2)
    else none
  | _ => none

/-- The character of an escape, from after the backslash. -/
def readEscape : List Char → Option (Char × List Char)
  | 'u' :: rest => do
    let unit ← readUnit rest
    if 0xD800 ≤ unit.1 ∧ unit.1 < 0xDC00 then readLow unit.1 unit.2
    else if 0xDC00 ≤ unit.1 ∧ unit.1 < 0xE000 then none
    else return (Char.ofNat unit.1, unit.2)
  | '"' :: rest => some ('"', rest)
  | '\\' :: rest => some ('\\', rest)
  | '/' :: rest => some ('/', rest)
  | 'b' :: rest => some ('\x08', rest)
  | 'f' :: rest => some ('\x0c', rest)
  | 'n' :: rest => some ('\n', rest)
  | 'r' :: rest => some ('\r', rest)
  | 't' :: rest => some ('\t', rest)
  | _ => none

/-- A character of a string, escaped or not. -/
def readChar : List Char → Option (Char × List Char)
  | [] => none
  | c :: rest =>
    if c = '\\' then readEscape rest
    else if c.toNat < 0x20 then none
    else some (c, rest)

/-- The characters up to the closing quote. -/
def readChars : Nat → List Char → Option (List Char × List Char)
  | 0, _ => none
  | fuel + 1, s =>
    if s.head? = some '"' then some ([], s.tail)
    else
      (readChar s).bind fun x => (readChars fuel x.2).map fun y => (x.1 :: y.1, y.2)

/-- A string, from after the opening quote. -/
def readString (s : List Char) : Option (String × List Char) :=
  (readChars (s.length + 1) s).map fun x => (String.ofList x.1, x.2)

/-- A natural number without needless zeros in front. -/
def readNumber (s : List Char) : Option (Json × List Char) :=
  let digits := s.takeWhile Char.isDigit
  if 1 < digits.length ∧ digits.head? = some '0' then none
  else some (.num (Nat.ofDigitChars 10 digits 0), s.dropWhile Char.isDigit)

def readWord (s : List Char) : Option (Json × List Char) :=
  if "null".toList.isPrefixOf s then some (.null, s.drop 4)
  else if "true".toList.isPrefixOf s then some (.bool true, s.drop 4)
  else if "false".toList.isPrefixOf s then some (.bool false, s.drop 5)
  else none

/-- The comma that has to stand before an item that is not the first. -/
def readComma (started : Bool) (s : List Char) : Option (List Char) :=
  if started then (if s.head? = some ',' then some s.tail else none) else some s

/-- A key and its colon. -/
def readKey (s : List Char) : Option (String × List Char) :=
  if (skip s).head? = some '"' then
    (readString (skip s).tail).bind fun x =>
      if (skip x.2).head? = some ':' then some (x.1, (skip x.2).tail) else none
  else none

mutual

def readValue : Nat → List Char → Option (Json × List Char)
  | 0, _ => none
  | fuel + 1, s =>
    match skip s with
    | [] => none
    | c :: rest =>
      if c = '"' then (readString rest).map fun x => (.str x.1, x.2)
      else if c = '[' then (readItems fuel false rest).map fun x => (.arr x.1, x.2)
      else if c = '{' then (readMembers fuel false rest).map fun x => (.obj x.1, x.2)
      else if c.isDigit then readNumber (c :: rest)
      else readWord (c :: rest)

def readItems : Nat → Bool → List Char → Option (List Json × List Char)
  | 0, _, _ => none
  | fuel + 1, started, s =>
    if (skip s).head? = some ']' then some ([], (skip s).tail)
    else
      (readComma started (skip s)).bind fun s => (readValue fuel s).bind fun j =>
        (readItems fuel true j.2).map fun js => (j.1 :: js.1, js.2)

def readMembers : Nat → Bool → List Char → Option (List (String × Json) × List Char)
  | 0, _, _ => none
  | fuel + 1, started, s =>
    if (skip s).head? = some '}' then some ([], (skip s).tail)
    else
      (readComma started (skip s)).bind fun s => (readKey s).bind fun key =>
        (readValue fuel key.2).bind fun j =>
          (readMembers fuel true j.2).map fun ms => ((key.1, j.1) :: ms.1, ms.2)

end

/-- A text that is one value. -/
def parse (text : String) : Option Json :=
  (readValue (text.length + 1) text.toList).bind fun x => if skip x.2 = [] then some x.1 else none

end Read

section Strings

theorem hexDigit_digitChar {n : Nat} (h : n < 16) : hexDigit n.digitChar = some n := by
  interval_cases n <;> rfl

/-- A control character is four digits. -/
theorem readEscape_control {c : Char} (h : c.toNat < 0x20) (rest : List Char) :
    readEscape ('u' :: '0' :: '0' :: (c.toNat / 16).digitChar :: (c.toNat % 16).digitChar :: rest) =
      some (c, rest) := by
  have high : hexDigit (c.toNat / 16).digitChar = some (c.toNat / 16) := hexDigit_digitChar (by omega)
  have low : hexDigit (c.toNat % 16).digitChar = some (c.toNat % 16) := hexDigit_digitChar (by omega)
  have zero : hexDigit '0' = some 0 := rfl
  have sum : 0 * 4096 + 0 * 256 + c.toNat / 16 * 16 + c.toNat % 16 = c.toNat := by omega
  have unit : readUnit ('0' :: '0' :: (c.toNat / 16).digitChar :: (c.toNat % 16).digitChar :: rest) =
      some (c.toNat, rest) := by
    simp only [readUnit, zero, high, low, Option.bind_eq_bind, Option.bind_some, Option.pure_def, sum]
  rw [readEscape, unit]
  simp only [Option.bind_eq_bind, Option.bind_some, Option.pure_def, Char.ofNat_toNat]
  rw [if_neg (by omega), if_neg (by omega)]

theorem readChar_escape (c : Char) (rest : List Char) :
    readChar (escape c ++ rest) = some (c, rest) := by
  unfold escape
  split
  · next same => rw [same]; rfl
  split
  · next same => rw [same]; rfl
  split
  · next same => rw [same]; rfl
  split
  · next same => rw [same]; rfl
  split
  · next same => rw [same]; rfl
  split
  · next same => rw [same]; rfl
  split
  · next same => rw [same]; rfl
  split
  · next control => exact readEscape_control control rest
  · next plain =>
    rw [List.singleton_append, readChar, if_neg (by assumption), if_neg plain]

theorem head_escape (c : Char) (rest : List Char) : (escape c ++ rest).head? ≠ some '"' := by
  unfold escape
  repeat' split
  all_goals simp_all

theorem readChars_escape (cs rest : List Char) {fuel : Nat} (enough : cs.length < fuel) :
    readChars fuel (cs.flatMap escape ++ '"' :: rest) = some (cs, rest) := by
  induction cs generalizing fuel with
  | nil =>
    cases fuel with
    | zero => omega
    | succ fuel => rfl
  | cons c cs ih =>
    cases fuel with
    | zero => omega
    | succ fuel =>
      rw [List.length_cons] at enough
      rw [List.flatMap_cons, List.append_assoc, readChars, if_neg (head_escape c _), readChar_escape,
        Option.bind_some, ih (by omega)]
      rfl

theorem length_le_escape (cs : List Char) : cs.length ≤ (cs.flatMap escape).length := by
  induction cs with
  | nil => rfl
  | cons c cs ih =>
    have one : 1 ≤ (escape c).length := by
      unfold escape
      repeat' split
      all_goals simp
    rw [List.flatMap_cons, List.length_append, List.length_cons]
    omega

/-- A quoted string is read back. -/
theorem readString_quote (s : String) (rest : List Char) :
    readString (quote s ++ rest).tail = some (s, rest) := by
  have shape : (quote s ++ rest).tail = s.toList.flatMap escape ++ '"' :: rest := by
    rw [quote, List.cons_append, List.tail_cons, List.append_assoc, List.singleton_append]
  have enough := length_le_escape s.toList
  rw [shape, readString, readChars_escape, Option.map_some, String.ofList_toList]
  rw [List.length_append, List.length_cons]
  omega

end Strings

section Numbers

/-- A number is not written with zeros in front. -/
theorem toDigits_head {n : Nat} (h : 1 < (Nat.toDigits 10 n).length) :
    (Nat.toDigits 10 n).head? ≠ some '0' := by
  induction n using Nat.strong_induction_on with
  | _ n ih =>
    by_cases small : n < 10
    · rw [Nat.toDigits_of_lt_base small] at h
      simp at h
    · rw [Nat.toDigits_of_base_le (by omega) (by omega)]
      have nonempty : Nat.toDigits 10 (n / 10) ≠ [] := Nat.toDigits_ne_nil
      rw [List.head?_append_of_ne_nil _ nonempty]
      by_cases last : n / 10 < 10
      · have positive : 0 < n / 10 := by omega
        rw [Nat.toDigits_of_lt_base last]
        generalize n / 10 = d at *
        interval_cases d <;> decide
      · refine ih (n / 10) (by omega) ?_
        rw [Nat.toDigits_of_base_le (by omega) (by omega), List.length_append]
        have more : 0 < (Nat.toDigits 10 (n / 10 / 10)).length := Nat.length_toDigits_pos
        simpa using more

theorem takeWhile_digits {ds rest : List Char} (digits : ∀ c ∈ ds, c.isDigit = true)
    (stop : ∀ c ∈ rest.head?, c.isDigit = false) :
    (ds ++ rest).takeWhile Char.isDigit = ds ∧ (ds ++ rest).dropWhile Char.isDigit = rest := by
  induction ds with
  | nil =>
    cases rest with
    | nil => exact ⟨rfl, rfl⟩
    | cons c cs =>
      have other : c.isDigit = false := stop c rfl
      exact ⟨List.takeWhile_cons_of_neg (by simp [other]), List.dropWhile_cons_of_neg (by simp [other])⟩
  | cons d ds ih =>
    have digit : d.isDigit = true := digits d List.mem_cons_self
    obtain ⟨taken, dropped⟩ := ih fun c member => digits c (List.mem_cons_of_mem _ member)
    rw [List.cons_append, List.takeWhile_cons_of_pos digit, List.dropWhile_cons_of_pos digit, taken]
    exact ⟨rfl, dropped⟩

theorem readNumber_toDigits (n : Nat) {rest : List Char} (stop : ∀ c ∈ rest.head?, c.isDigit = false) :
    readNumber (Nat.toDigits 10 n ++ rest) = some (.num n, rest) := by
  have digits : ∀ c ∈ Nat.toDigits 10 n, c.isDigit = true :=
    fun c member => Nat.isDigit_of_mem_toDigits (by omega) (by omega) member
  obtain ⟨taken, dropped⟩ := takeWhile_digits digits stop
  have plain : ¬ (1 < (Nat.toDigits 10 n).length ∧ (Nat.toDigits 10 n).head? = some '0') :=
    fun h => toDigits_head h.1 h.2
  rw [readNumber, taken, dropped, if_neg plain, Nat.ofDigitChars_ten_toDigits]

end Numbers

section Values

/-- The text of a value starts with something other than white space and closing marks. -/
theorem print_head (depth : Nat) (j : Json) :
    ∃ c rest, print depth j = c :: rest ∧ isBlank c = false ∧ c ≠ ']' := by
  cases j with
  | null => exact ⟨'n', _, rfl, rfl, by decide⟩
  | bool b => cases b <;> exact ⟨_, _, rfl, rfl, by decide⟩
  | num n =>
    cases digits : Nat.toDigits 10 n with
    | nil => exact absurd digits Nat.toDigits_ne_nil
    | cons d ds =>
      have digit : d.isDigit = true :=
        Nat.isDigit_of_mem_toDigits (by omega) (by omega) (digits ▸ List.mem_cons_self)
      refine ⟨d, ds, by rw [print, digits], ?_, ?_⟩
      · by_contra blank
        simp only [isBlank, Bool.not_eq_false, Bool.or_eq_true, decide_eq_true_eq] at blank
        rcases blank with ((rfl | rfl) | rfl) | rfl <;> cases digit
      · rintro rfl
        cases digit
  | str s => exact ⟨'"', _, rfl, rfl, by decide⟩
  | arr items => exact ⟨'[', _, by rw [print], rfl, by decide⟩
  | obj members => exact ⟨'{', _, by rw [print], rfl, by decide⟩

theorem skip_of_head {c : Char} {rest : List Char} (h : isBlank c = false) :
    skip (c :: rest) = c :: rest :=
  List.dropWhile_cons_of_neg (by simp [h])

theorem skip_newline (depth : Nat) (s : List Char) : skip (newline depth ++ s) = skip s := by
  have blanks : ∀ n, skip (List.replicate n ' ' ++ s) = skip s := by
    intro n
    induction n with
    | zero => rfl
    | succ n ih =>
      rw [List.replicate_succ, List.cons_append]
      exact (List.dropWhile_cons_of_pos (by decide)).trans ih
  rw [newline, List.cons_append]
  exact (List.dropWhile_cons_of_pos (by decide)).trans (blanks _)

theorem skip_print (depth : Nat) (j : Json) (s : List Char) :
    skip (print depth j ++ s) = print depth j ++ s := by
  obtain ⟨c, rest, shape, visible, -⟩ := print_head depth j
  rw [shape, List.cons_append]
  exact skip_of_head visible

/-- What follows an item does not continue a number. -/
theorem rest_head {opened : List Char} (h : ∃ c rest, opened = c :: rest ∧ c.isDigit = false)
    (s : List Char) : ∀ c ∈ (opened ++ s).head?, c.isDigit = false := by
  obtain ⟨c, rest, rfl, other⟩ := h
  intro d first
  have same : c = d := by simpa using first
  rw [← same, other]

theorem printItems_head (depth : Nat) (items : List Json) :
    ∃ c rest, printItems depth true items = c :: rest ∧ c.isDigit = false := by
  cases items with
  | nil => exact ⟨'\n', _, by rw [printItems]; rfl, by decide⟩
  | cons j js => exact ⟨',', _, by rw [printItems]; rfl, by decide⟩

theorem printMembers_head (depth : Nat) (members : List (String × Json)) :
    ∃ c rest, printMembers depth true members = c :: rest ∧ c.isDigit = false := by
  cases members with
  | nil => exact ⟨'\n', _, by rw [printMembers]; rfl, by decide⟩
  | cons m ms => exact ⟨',', _, by rw [printMembers]; rfl, by decide⟩

/-- The closing bracket is found behind the last line. -/
theorem skip_closing (depth : Nat) (started : Bool) {c : Char} (h : isBlank c = false)
    (s : List Char) : skip (closing depth started ++ [c] ++ s) = c :: s := by
  rw [List.append_assoc, List.singleton_append]
  cases started with
  | false => exact skip_of_head h
  | true => exact (skip_newline depth _).trans (skip_of_head h)

/-- The comma is taken where there is one. -/
theorem readComma_comma (depth : Nat) (started : Bool) {c : Char} {s : List Char}
    (h : isBlank c = false) (first : s.head? = some c) :
    ∃ s', readComma started (skip (comma started ++ (newline depth ++ s))) = some s' ∧ skip s' = s := by
  have visible : skip s = s := by
    cases s with
    | nil => rfl
    | cons d rest =>
      have same : d = c := by simpa using first
      exact skip_of_head (same ▸ h)
  cases started with
  | false => exact ⟨s, by rw [comma, if_neg (by decide), List.nil_append, skip_newline, visible]; rfl, visible⟩
  | true => exact ⟨newline depth ++ s, rfl, (skip_newline depth s).trans visible⟩

theorem skip_item_head (depth : Nat) (started : Bool) {c : Char} {s : List Char} (h : isBlank c = false)
    (first : s.head? = some c) {closer : Char} (other : c ≠ closer) (comma_other : ',' ≠ closer) :
    (skip (comma started ++ (newline depth ++ s))).head? ≠ some closer := by
  cases s with
  | nil => cases first
  | cons d rest =>
    have same : d = c := by simpa using first
    cases started with
    | false =>
      rw [comma, if_neg (by decide), List.nil_append, skip_newline, skip_of_head (same ▸ h)]
      simpa [same] using other
    | true =>
      show some ',' ≠ some closer
      simpa using comma_other

theorem readKey_quote {s : List Char} {key : String} {rest : List Char}
    (h : skip s = quote key ++ ':' :: rest) : readKey s = some (key, rest) := by
  have colon : skip (':' :: rest) = ':' :: rest := skip_of_head (by decide)
  unfold readKey
  rw [h, if_pos (by rfl), readString_quote, Option.bind_some]
  dsimp only
  rw [colon]
  rfl

mutual

/-- A value is read back from its text, whatever follows it. -/
theorem readValue_print (depth : Nat) (j : Json) {fuel : Nat} {s rest : List Char}
    (enough : (print depth j).length ≤ fuel) (stop : ∀ c ∈ rest.head?, c.isDigit = false)
    (at_value : skip s = print depth j ++ rest) : readValue fuel s = some (j, rest) := by
  obtain ⟨first, others, shape, -, -⟩ := print_head depth j
  cases fuel with
  | zero => rw [shape] at enough; cases enough
  | succ fuel =>
    rw [readValue, at_value]
    match j with
    | .null => rw [print]; rfl
    | .bool true => rw [print]; rfl
    | .bool false => rw [print]; rfl
    | .num n =>
      rw [print] at shape ⊢
      have digit : first.isDigit = true :=
        Nat.isDigit_of_mem_toDigits (by omega) (by omega) (shape ▸ List.mem_cons_self)
      rw [shape, List.cons_append]
      dsimp only
      rw [if_neg (by rintro rfl; cases digit), if_neg (by rintro rfl; cases digit),
        if_neg (by rintro rfl; cases digit), if_pos digit, ← List.cons_append, ← shape]
      exact readNumber_toDigits n stop
    | .str s =>
      rw [print]
      have back := readString_quote s rest
      rw [quote, List.cons_append, List.tail_cons] at back
      rw [quote, List.cons_append]
      dsimp only
      rw [if_pos rfl, back]
      rfl
    | .arr items =>
      rw [print, List.length_cons] at enough
      rw [print, List.cons_append]
      dsimp only
      rw [if_neg (by decide), if_pos rfl, readItems_print depth false items (by omega)]
      rfl
    | .obj members =>
      rw [print, List.length_cons] at enough
      rw [print, List.cons_append]
      dsimp only
      rw [if_neg (by decide), if_neg (by decide), if_pos rfl,
        readMembers_print depth false members (by omega)]
      rfl

theorem readItems_print (depth : Nat) (started : Bool) (items : List Json) {fuel : Nat}
    {rest : List Char} (enough : (printItems depth started items).length ≤ fuel) :
    readItems fuel started (printItems depth started items ++ rest) = some (items, rest) := by
  cases fuel with
  | zero => cases items <;> simp [printItems, newline] at enough
  | succ fuel =>
    match items with
    | [] =>
      rw [printItems, readItems, skip_closing depth started (by decide), if_pos (by rfl)]
      rfl
    | j :: js =>
      obtain ⟨c, others, shape, visible, open_⟩ := print_head (depth + 1) j
      rw [printItems] at enough ⊢
      simp only [List.length_append, newline, List.length_cons] at enough
      have first : (print (depth + 1) j ++ (printItems depth true js ++ rest)).head? = some c := by
        rw [shape]; rfl
      simp only [List.append_assoc]
      rw [readItems, if_neg (skip_item_head (depth + 1) started visible first open_ (by decide))]
      obtain ⟨s', comma, value⟩ := readComma_comma (depth + 1) started visible first
      rw [comma, Option.bind_some,
        readValue_print (depth + 1) j (by omega) (rest_head (printItems_head depth js) rest) value,
        Option.bind_some, readItems_print depth true js (by omega)]
      rfl

theorem readMembers_print (depth : Nat) (started : Bool) (members : List (String × Json)) {fuel : Nat}
    {rest : List Char} (enough : (printMembers depth started members).length ≤ fuel) :
    readMembers fuel started (printMembers depth started members ++ rest) = some (members, rest) := by
  cases fuel with
  | zero =>
    cases members with
    | nil => simp [printMembers] at enough
    | cons m ms => obtain ⟨key, j⟩ := m; simp [printMembers, newline] at enough
  | succ fuel =>
    match members with
    | [] =>
      rw [printMembers, readMembers, skip_closing depth started (by decide), if_pos (by rfl)]
      rfl
    | (key, j) :: ms =>
      rw [printMembers] at enough ⊢
      simp only [List.length_append, newline, List.length_cons] at enough
      simp only [List.append_assoc, List.cons_append]
      have first : (quote key ++ (':' :: ' ' :: (print (depth + 1) j ++
          (printMembers depth true ms ++ rest)))).head? = some '"' := rfl
      rw [readMembers, if_neg (skip_item_head (depth + 1) started (by decide) first (by decide) (by decide))]
      obtain ⟨s', comma, opened⟩ := readComma_comma (depth + 1) started (by decide) first
      rw [comma, Option.bind_some, readKey_quote opened, Option.bind_some]
      dsimp only
      have value : skip (' ' :: (print (depth + 1) j ++ (printMembers depth true ms ++ rest))) =
          print (depth + 1) j ++ (printMembers depth true ms ++ rest) :=
        (List.dropWhile_cons_of_pos (by decide)).trans (skip_print (depth + 1) j _)
      rw [readValue_print (depth + 1) j (by omega) (rest_head (printMembers_head depth ms) rest) value,
        Option.bind_some, readMembers_print depth true ms (by omega)]
      rfl

end

/-- Reading the text of a value gives the value. -/
theorem parse_stringify (j : Json) : parse (stringify j) = some j := by
  have read : readValue ((stringify j).length + 1) (stringify j).toList = some (j, []) := by
    refine readValue_print 0 j ?_ (fun c first => by cases first) ?_
    · rw [stringify, String.length_ofList]
      omega
    · have start := skip_print 0 j []
      rw [List.append_nil] at start
      rw [stringify, String.toList_ofList, start, List.append_nil]
  rw [parse, read]
  rfl

end Values

end Json
