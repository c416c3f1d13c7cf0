import Pfs3.Model.Ondisk

/-!
# Dates and protection bits

What `util.rs` makes of them to show them, and what it reads back.
-/

namespace Pfs3

namespace Util

/-! ## Dates -/

/-- The seconds from 1970-01-01 to the Amiga epoch, 1978-01-01. -/
def AMIGA_EPOCH_OFFSET : ℕ := 2922 * 86400

/-- The time of a datestamp, as seconds and nanoseconds since 1970-01-01. -/
def amigaToSystime (days minutes ticks : ℕ) : ℕ × ℕ :=
  (AMIGA_EPOCH_OFFSET + days * 86400 + minutes * 60 + ticks / 50, ticks % 50 * 20000000)

/-- Year, month and day of a number of days since 1970-01-01, through years that start in March. -/
def daysToYmd (days : ℕ) : ℕ × ℕ × ℕ :=
  let z := days + 719468
  let era := z / 146097
  let doe := z - era * 146097
  let yoe := (doe - doe / 1460 + doe / 36524 - doe / 146096) / 365
  let y := yoe + era * 400
  let doy := doe - (365 * yoe + yoe / 4 - yoe / 100)
  let mp := (5 * doy + 2) / 153
  let d := doy - (153 * mp + 2) / 5 + 1
  let m := if mp < 10 then mp + 3 else mp - 9
  let y := if m ≤ 2 then y + 1 else y
  (y, m, d)

/-- A number in decimal, with zeros in front up to `width` characters. -/
def padded (width n : ℕ) : Name :=
  List.replicate (width - (Nat.toDigits 10 n).length) '0' ++ Nat.toDigits 10 n

/-- The text `{y:04}-{m:02}-{d:02} {hours:02}:{mins:02}:{s:02}`. -/
def dateText (y m d hours mins s : ℕ) : Name :=
  padded 4 y ++ '-' :: padded 2 m ++ '-' :: padded 2 d ++
    ' ' :: padded 2 hours ++ ':' :: padded 2 mins ++ ':' :: padded 2 s

def amigaDateString (days minutes ticks : ℕ) : Name :=
  let secs := (amigaToSystime days minutes ticks).1
  let timeOfDay := secs % 86400
  let hours := timeOfDay / 3600
  let mins := timeOfDay % 3600 / 60
  let s := timeOfDay % 60
  let (y, m, d) := daysToYmd (secs / 86400)
  dateText y m d hours mins s

/-- The datestamp taken `secs` seconds after 1970-01-01. -/
def currentAmigaDatestamp (secs : ℕ) : Datestamp :=
  let amigaSecs := secs - AMIGA_EPOCH_OFFSET
  { day := amigaSecs / 86400 % 65536
    minute := amigaSecs % 86400 / 60 % 65536
    tick := amigaSecs % 60 * 50 % 65536 }

/-! ## Protection bits -/

/-- The Unix mode of a protection byte. Of the lower four bits a set one denies. -/
def amigaProtectionToMode (prot : UInt8) (isDir : Bool) : BitVec 32 :=
  let mode : BitVec 32 := if isDir then 0o40000 else 0o100000
  let mode := if prot &&& 0x08 = 0 then mode ||| 0o444 else mode
  let mode := if prot &&& 0x04 = 0 then mode ||| 0o222 else mode
  if prot &&& 0x02 = 0 then mode ||| 0o111 else mode

/-- The protection byte of the owner's permissions; who may write may delete. -/
def unixModeToAmigaProtection (mode : BitVec 32) : UInt8 :=
  let prot : UInt8 := 0x0F
  let prot := if mode &&& 0o400 ≠ 0 then prot &&& ~~~0x08 else prot
  let prot := if mode &&& 0o200 ≠ 0 then prot &&& ~~~0x04 &&& ~~~0x01 else prot
  if mode &&& 0o100 ≠ 0 then prot &&& ~~~0x02 else prot

def amigaProtectionString (prot : UInt8) : Name :=
  [if prot &&& 0x80 ≠ 0 then 'h' else '-', if prot &&& 0x40 ≠ 0 then 's' else '-',
    if prot &&& 0x20 ≠ 0 then 'p' else '-', if prot &&& 0x10 ≠ 0 then 'a' else '-',
    if prot &&& 0x08 = 0 then 'r' else '-', if prot &&& 0x04 = 0 then 'w' else '-',
    if prot &&& 0x02 = 0 then 'e' else '-', if prot &&& 0x01 = 0 then 'd' else '-']

/-- What one letter of a specification does to the byte; `less` stands for the mode `-`. -/
def applyLetter (less : Bool) (prot : UInt8) (ch : Char) : Option UInt8 :=
  match ch, less with
  | 'h', true => some (prot &&& ~~~0x80)
  | 'h', false => some (prot ||| 0x80)
  | 's', true => some (prot &&& ~~~0x40)
  | 's', false => some (prot ||| 0x40)
  | 'p', true => some (prot &&& ~~~0x20)
  | 'p', false => some (prot ||| 0x20)
  | 'a', true => some (prot &&& ~~~0x10)
  | 'a', false => some (prot ||| 0x10)
  | 'r', true => some (prot ||| 0x08)
  | 'r', false => some (prot &&& ~~~0x08)
  | 'w', true => some (prot ||| 0x04)
  | 'w', false => some (prot &&& ~~~0x04)
  | 'e', true => some (prot ||| 0x02)
  | 'e', false => some (prot &&& ~~~0x02)
  | 'd', true => some (prot ||| 0x01)
  | 'd', false => some (prot &&& ~~~0x01)
  | _, _ => none

/-- A specification is absolute, additive (`+p`) or subtractive (`-wd`). -/
def parseAmigaProtection (current : UInt8) : (spec : Name) → Option UInt8
  | [] => none
  | '+' :: chars => chars.foldlM (applyLetter false) current
  | '-' :: chars => chars.foldlM (applyLetter true) current
  | spec => spec.foldlM (applyLetter false) 0x0F

end Util

end Pfs3
