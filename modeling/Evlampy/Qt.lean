/-
Evlampy/Qt.lean

Qt's strings.  A `QString` is a sequence of UTF-16 code units.  The conversions
from and to `std::string`, the white space of `QChar::isSpace`, the time of day of
a `QDateTime` and the clock are parameters; `Qt.Documented` says of them what the
window relies on.
-/
import Evlampy.Cxx
import Evlampy.Parts

/-- `QString`. -/
abbrev QString := List UInt16

namespace Evlampy

/-- The text `s` stands for if its bytes are ASCII. -/
def ascii (s : Str) : QString := s.map UInt8.toUInt16

/-- A string literal. -/
def qstr (s : String) : QString := ascii (str s)

/-- What the window uses of Qt. -/
structure Qt where
  /-- `QChar::isSpace`. -/
  isSpace : UInt16 → Bool
  /-- `QString::fromStdString`. -/
  fromStdString : Str → QString
  /-- `QString::toStdString`. -/
  toStdString : QString → Str
  /-- `QDateTime::fromMSecsSinceEpoch(ms).toString("hh:mm:ss")`. -/
  timeText : Int64 → QString
  /-- `QDateTime::currentMSecsSinceEpoch()` at its `n`-th reading. -/
  currentMSecsSinceEpoch : Nat → Int64

namespace Qt

/-- UTF-8 and UTF-16 agree on ASCII, a code unit takes at most three bytes, and the ASCII
white space is that of `std::isspace`. -/
structure Documented (qt : Qt) : Prop where
  isSpace : ∀ c : UInt8, c < 128 → qt.isSpace c.toUInt16 = Digits.isSpace c
  fromStdString : ∀ s : Str, (∀ c ∈ s, c < 128) → qt.fromStdString s = ascii s
  toStdString : ∀ s : Str, (∀ c ∈ s, c < 128) → qt.toStdString (ascii s) = s
  length_toStdString : ∀ q, (qt.toStdString q).length ≤ 3 * q.length

variable (qt : Qt)

/-- `QString::trimmed`. -/
def trimmed (q : QString) : QString := Parts.trim qt.isSpace q

/-- `QString::split` with `Qt::SkipEmptyParts`. -/
def split (q : QString) (sep : UInt16) : List QString := (q.splitOn sep).filter (· ≠ [])

/-- A Qt for ASCII texts: bytes and code units are the same, and time stands still. -/
def reference : Qt where
  isSpace u := Digits.isSpace u.toUInt8
  fromStdString := ascii
  toStdString q := q.map UInt16.toUInt8
  timeText _ := qstr "00:00:00"
  currentMSecsSinceEpoch _ := 0

theorem reference_documented : reference.Documented where
  isSpace c _ := congrArg Digits.isSpace (UInt8.toUInt8_toUInt16 c)
  fromStdString _ _ := rfl
  toStdString s _ := by simp [reference, ascii, Function.comp_def]
  length_toStdString q := by
    simp only [reference, List.length_map]
    omega

end Qt

end Evlampy
