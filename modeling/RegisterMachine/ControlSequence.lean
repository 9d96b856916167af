/-!
# Control sequences

Text may hold characters that steer a terminal instead of being shown: single control characters,
and *control sequences*, which an escape character begins.  Where there is no terminal they are left
out.  A blank control character is shown all the same, also in the middle of an escape or a control
sequence, and so is the text after it, until the next character that is not shown takes the sequence
up again.

## Main definitions

* `ControlSequence` and `ControlSequence.next?`: the part of a sequence that the next character
  belongs to;
* `Display`: whether characters are shown or belong to a sequence;
* `ControlSequence.strip`: the characters of a text that are shown.
-/

namespace RegisterMachine

/-- The part of a control sequence that the next character belongs to. -/
inductive ControlSequence where
  /-- What follows the escape character. -/
  | escape
  /-- The rest of an escape sequence with intermediate characters. -/
  | intermediate
  /-- The parameters and the final character of a control sequence proper. -/
  | parameters
  /-- The beginning of a device control string. -/
  | deviceControl
  /-- The parameters of a device control string. -/
  | deviceParameters
  /-- The intermediate characters of a device control string. -/
  | deviceIntermediate
  /-- The content of a device control string, of a start of string, of a privacy message, or of an
  application program command. -/
  | controlString
  /-- An operating system command. -/
  | systemCommand
  deriving DecidableEq, Repr

namespace ControlSequence

/-- The character that begins a sequence. -/
def escapeChar : Char := '\x1b'

/-- A character that breaks off a sequence: cancel or substitute. -/
def isCancel (c : Char) : Bool :=
  c == '\x18' || c == '\x1a'

/-- A control character that is shown as blank space. -/
def isBlankControl (c : Char) : Bool :=
  c == '\t' || c == '\n' || c == '\x0c' || c == '\r'

/-- A character that is shown where no sequence is under way: all but the delete character and the
control characters below the space that are not blank. -/
def isShown (c : Char) : Bool :=
  isBlankControl c || (' ' ≤ c && c != '\x7f')

/-- The character is in a range. -/
def within (low high c : Char) : Bool :=
  low ≤ c && c ≤ high

/-- The byte `0x9C` ends a control string, also as a part of the encoding of a longer character. -/
def endsString (c : Char) : Bool :=
  (String.utf8EncodeChar c).contains 0x9C

/-- The part of a sequence after one more character that neither begins nor breaks off a sequence;
none if that was the last character.  Characters that have no place in a part are passed over. -/
def next? (s : ControlSequence) (c : Char) : Option ControlSequence :=
  match s with
  | escape =>
    if within ' ' '/' c then some intermediate
    else if c == '[' then some parameters
    else if c == ']' then some systemCommand
    else if c == 'P' then some deviceControl
    else if c == 'X' || c == '^' || c == '_' then some controlString
    else if within '0' '~' c then none
    else some escape
  | intermediate => if within '0' '~' c then none else some intermediate
  | parameters => if within '@' '~' c then none else some parameters
  | deviceControl =>
    if within ' ' '/' c then some deviceIntermediate
    else if within '0' '?' c then some deviceParameters
    else if within '@' '~' c then some controlString
    else some deviceControl
  | deviceParameters =>
    if within ' ' '/' c then some deviceIntermediate
    else if within '<' '~' c then some controlString
    else some deviceParameters
  | deviceIntermediate =>
    if within '0' '~' c then some controlString else some deviceIntermediate
  | controlString => if endsString c then none else some controlString
  | systemCommand => if c == '\x07' then none else some systemCommand

/-- A blank control character is shown in the middle of this part. -/
def showsBlanks : ControlSequence → Bool
  | escape | intermediate | parameters => true
  | _ => false

end ControlSequence

/-- Whether the next character is shown. -/
inductive Display where
  /-- It is, unless it is a control character; a sequence that is still under way goes on after
  that. -/
  | text (suspended : Option ControlSequence)
  /-- It belongs to a sequence. -/
  | sequence (part : ControlSequence)
  deriving DecidableEq, Repr

namespace Display

/-- The display after what ends a sequence, or within one that goes on. -/
def ofPart : Option ControlSequence → Display
  | some part => .sequence part
  | none => .text none

/-- The display after one more character. -/
def next (d : Display) (c : Char) : Display :=
  if c == ControlSequence.escapeChar then .sequence .escape
  else if ControlSequence.isCancel c then .text none
  else
    match d with
    | .text suspended =>
      if ControlSequence.isShown c then
        .text (if c ≤ '\x7f' then suspended else none)
      else
        ofPart suspended
    | .sequence part =>
      if part.showsBlanks && ControlSequence.isBlankControl c then .text (some part)
      else ofPart (part.next? c)

/-- The character is shown. -/
def shows (d : Display) (c : Char) : Bool :=
  match d with
  | .text _ => ControlSequence.isShown c
  | .sequence part => part.showsBlanks && ControlSequence.isBlankControl c

/-- The characters of a text that are shown. -/
def strip (d : Display) : List Char → List Char
  | [] => []
  | c :: cs => if d.shows c then c :: (d.next c).strip cs else (d.next c).strip cs

end Display

namespace ControlSequence

/-- The characters of a text that are shown where there is no terminal. -/
def strip (text : String) : String :=
  String.ofList (Display.strip (.text none) text.toList)

end ControlSequence

end RegisterMachine
