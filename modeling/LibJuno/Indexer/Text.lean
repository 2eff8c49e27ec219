import LibJuno.Lib.Regex

/-!
# Source text as the extension scans it

Strings of the scripting language are sequences of 16-bit code units; the columns and the
regular expressions of the extension count and match these. The character classes are
those of the language's regular expressions.
-/

namespace LibJuno.Indexer

abbrev CodeUnits := List UInt16

/-- The code units of a character: two for one outside the basic plane. -/
def utf16Char (c : Char) : CodeUnits :=
  if c.toNat < 0x10000 then [c.toNat.toUInt16]
  else [(0xD800 + (c.toNat - 0x10000) / 0x400).toUInt16, (0xDC00 + (c.toNat - 0x10000) % 0x400).toUInt16]

def utf16 (s : String) : CodeUnits := s.toList.flatMap utf16Char

/-- A string of code units that are characters by themselves, such as those of an identifier. -/
def ofUnits (us : CodeUnits) : String := String.ofList (us.map fun u => Char.ofNat u.toNat)

/-- `text.split('\n')`. -/
def splitLines (text : CodeUnits) : List CodeUnits := text.splitOn 10

/-- `\w`. -/
def isWord (u : UInt16) : Bool :=
  (48 ≤ u && u ≤ 57) || (65 ≤ u && u ≤ 90) || u == 95 || (97 ≤ u && u ≤ 122)

/-- `\s`. -/
def isSpace (u : UInt16) : Bool :=
  (9 ≤ u && u ≤ 13) || u == 32 || u == 160 || u == 0x1680 || (0x2000 ≤ u && u ≤ 0x200A) ||
    u == 0x2028 || u == 0x2029 || u == 0x202F || u == 0x205F || u == 0x3000 || u == 0xFEFF

theorem not_word_of_space {u : UInt16} (blank : isSpace u = true) : isWord u = false := by
  rw [Bool.eq_false_iff]
  intro word
  simp only [isSpace, isWord, Bool.or_eq_true, Bool.and_eq_true, decide_eq_true_eq, beq_iff_eq,
    UInt16.le_iff_toNat_le, ← UInt16.toNat_inj, UInt16.reduceToNat] at blank word
  omega

/-- `.`: anything but a line terminator. -/
def isNotNewline (u : UInt16) : Bool := !(u == 10 || u == 13 || u == 0x2028 || u == 0x2029)

namespace Pattern

/-- The text itself, as an escaped pattern. -/
def text (s : String) : Regex UInt16 := Regex.lit (utf16 s)

/-- `\w+`. -/
def word : Regex UInt16 := Regex.plus true (.sym isWord)

/-- `\s*`. -/
def spaces : Regex UInt16 := .star true (.sym isSpace)

/-- `\b`. -/
def boundary : Regex UInt16 :=
  .around fun before after => (before.map isWord).getD false != (after.map isWord).getD false

end Pattern

/-- `path.extname(relPath).toLowerCase()`: from the last dot of the last component on, when
it is not that component's first character. Components are separated by `/`. -/
def lowerExtension (path : String) : String :=
  let base := path.toList.reverse.takeWhile (· ≠ '/')
  let extension := base.takeWhile (· ≠ '.')
  if extension.length + 1 < base.length then
    String.ofList ('.' :: extension.reverse.map Char.toLower)
  else ""

end LibJuno.Indexer
