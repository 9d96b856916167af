import Mathlib.Algebra.Group.Nat.Defs
import Mathlib.Data.List.Nodup
import Mathlib.Tactic.Common
import RegisterMachine.CommandLine.Session
import RegisterMachine.Proofs.Settings

/-!
# Spellings of a command line

A command line for a run makes some choices: the path of the image, up to four sizes, the strict
policy, and whether the banner is left out.  It makes them in any order, and there are several ways
to spell most of them: a size follows its option or is joined to it by an equals sign, may have a
plus sign and zeros in front, and an option may have a short form.  None of this matters: the
request is the one for the choices.

## Main definitions

* `SizeText` : a size and the way it is written;
* `Choices` and `Choices.config` : what a command line can choose for a run, and the configuration
  that this gives;
* `Spelling` : one choice and the arguments that it is spelled by;
* `Choices.SpelledBy` : a command line that makes just these choices.

## Main statements

* `SizeText.parseSize_text` : a size is read back however it is written;
* `tokenize_flatMap_arguments` : the tokens of a command line are those of its spellings;
* `Draft.read_flatMap_tokens` : reading them enters one choice after the other;
* `choices_spelled` : so the order and the spelling of choices do not matter.
-/

namespace RegisterMachine

namespace CommandLine

/-! ### Sizes -/

/-- A size of at most 64 bits, as it is written on a command line. -/
structure SizeText where
  /-- A plus sign stands in front. -/
  plus : Bool
  /-- So many zeros stand in front of the numeral. -/
  zeros : Nat
  /-- The size. -/
  value : Nat
  /-- It takes no more than 64 bits. -/
  value_lt : value < 2 ^ 64

/-- The text of a size. -/
def SizeText.text (s : SizeText) : String :=
  (if s.plus then "+" else "") ++ String.ofList (List.replicate s.zeros '0') ++ toString s.value

theorem digitChar_isDigit {d : Nat} (hd : d < 10) :
    d.digitChar.isDigit = true ∧ d.digitChar.toNat - '0'.toNat = d := by
  revert d
  decide

theorem readDigits_digitChar {value d : Nat} (hd : d < 10) (h : 10 * value + d < sizeBound)
    (digits : List Char) :
    readDigits value (d.digitChar :: digits) = readDigits (10 * value + d) digits := by
  obtain ⟨hdigit, hvalue⟩ := digitChar_isDigit hd
  rw [readDigits, if_pos hdigit, hvalue, if_pos h]

/-- Zeros in front do not count. -/
theorem readDigits_replicate_append (k : Nat) (digits : List Char) :
    readDigits 0 (List.replicate k '0' ++ digits) = readDigits 0 digits := by
  induction k with
  | zero => rfl
  | succ k ih => exact ih

theorem readDigits_toDigits {n : Nat} (hn : n < sizeBound) :
    readDigits 0 (Nat.toDigits 10 n) = .ok n := by
  induction n using Nat.strongRecOn with
  | ind n ih =>
    rcases Nat.lt_or_ge n 10 with hlt | hge
    · rw [Nat.toDigits_of_lt_base hlt, readDigits_digitChar hlt (by omega)]
      simp [readDigits]
    · -- the digits but the last stand for the tenth
      have htenth : 10 * (n / 10) + n % 10 = n := Nat.div_add_mod n 10
      rw [Nat.toDigits_of_base_le (by decide) hge, readDigits_append,
        ih (n / 10) (by omega) (by omega)]
      change readDigits (n / 10) [(n % 10).digitChar] = _
      rw [readDigits_digitChar (Nat.mod_lt n (by decide)) (by omega), htenth]
      rfl

namespace SizeText

variable (s : SizeText)

/-- The digits of a size, zeros in front included. -/
def digits : List Char :=
  List.replicate s.zeros '0' ++ Nat.toDigits 10 s.value

theorem toList_text : s.text.toList = if s.plus then '+' :: s.digits else s.digits := by
  rw [text, Nat.toString_eq_repr, Nat.repr_eq_ofList_toDigits]
  cases s.plus <;> simp [digits]

theorem isDigit_of_mem_digits {c : Char} (hc : c ∈ s.digits) : c.isDigit = true := by
  rcases List.mem_append.1 hc with hc | hc
  · rw [List.eq_of_mem_replicate hc]
    rfl
  · exact Nat.isDigit_of_mem_toDigits (by decide) (by decide) hc

theorem exists_digits_eq_cons : ∃ c digits, s.digits = c :: digits ∧ c.isDigit = true := by
  cases hdigits : s.digits with
  | nil => simp [digits] at hdigits
  | cons c digits =>
    exact ⟨c, digits, rfl, s.isDigit_of_mem_digits (hdigits ▸ List.mem_cons_self)⟩

/-- **A size is read back however it is written.** -/
theorem parseSize_text : parseSize s.text = .ok s.value := by
  have hread : readDigits 0 s.digits = .ok s.value := by
    rw [digits, readDigits_replicate_append, readDigits_toDigits s.value_lt]
  obtain ⟨c, digits, hdigits, hc⟩ := s.exists_digits_eq_cons
  rw [hdigits] at hread
  unfold parseSize
  rw [toList_text, hdigits]
  cases s.plus with
  | true => exact hread
  | false =>
    -- the first character is a digit, and no sign
    split
    · rename_i heq
      cases heq
    · rename_i heq
      cases heq
      cases hc
    · rename_i heq
      cases heq
      cases hc
    · exact hread

theorem head?_text_ne : s.text.toList.head? ≠ some '-' := by
  obtain ⟨c, digits, hdigits, hc⟩ := s.exists_digits_eq_cons
  rw [toList_text]
  cases s.plus with
  | true => simp
  | false =>
    rintro hdash
    rw [if_neg (by decide), hdigits, List.head?_cons, Option.some.injEq] at hdash
    rw [hdash] at hc
    cases hc

end SizeText

/-! ### Choices and spellings -/

/-- What a command line can choose for a run. -/
inductive Choice where
  /-- The path of the image. -/
  | path (text : String)
  /-- The size of a resource. -/
  | size (resource : Resource) (value : Nat)
  /-- Unknown opcodes are faults. -/
  | strict
  /-- The banner is left out. -/
  | quiet
  deriving DecidableEq

/-- The option that makes a choice; there is none for the path. -/
def Choice.switch? : Choice → Option Switch
  | path _ => none
  | size r _ => some (.size r)
  | strict => some .strict
  | quiet => some .quiet

/-- The choices of a command line: a path, a size for some resources, and two that can be made or
not. -/
structure Choices where
  /-- The path of the image. -/
  path : String
  /-- It is a path. -/
  path_ne : path ≠ ""
  /-- It is no option. -/
  head?_path_ne : path.toList.head? ≠ some '-'
  /-- The sizes that are chosen. -/
  size? : Resource → Option Nat
  /-- Unknown opcodes are faults. -/
  strict : Bool
  /-- The banner is left out. -/
  quiet : Bool

namespace Choices

/-- The choice that an option makes, if it is made. -/
def ofSwitch? (c : Choices) : Switch → Option Choice
  | .size r => (c.size? r).map (.size r)
  | .strict => if c.strict then some .strict else none
  | .quiet => if c.quiet then some .quiet else none
  | .help | .version => none

/-- The choices one by one. -/
def toList (c : Choices) : List Choice :=
  .path c.path :: Switch.all.filterMap c.ofSwitch?

/-- The configuration that was chosen: each size is the one for its resource, or the usual one. -/
def config (c : Choices) : Config where
  registers := (c.size? .registers).getD 4
  memory := (c.size? .memory).getD 2048
  stack := (c.size? .stack).getD 512
  rom := (c.size? .rom).getD 2048
  policy := if c.strict then .strict else .lenient

end Choices

/-- A choice as it is spelled on a command line. -/
inductive Spelling where
  /-- The path. -/
  | path (text : String)
  /-- An option, and its value as an argument of its own. -/
  | separate (resource : Resource) (size : SizeText)
  /-- An option with its value behind an equals sign. -/
  | joined (resource : Resource) (size : SizeText)
  /-- The option for the strict policy. -/
  | strict
  /-- The option that leaves out the banner, in its short form or in its long one. -/
  | quiet (short : Bool)

namespace Spelling

/-- The arguments that spell a choice. -/
def arguments : Spelling → List String
  | path text => [text]
  | separate r s => ["--" ++ (Switch.size r).name, s.text]
  | joined r s => ["--" ++ (Switch.size r).name ++ "=" ++ s.text]
  | strict => ["--strict"]
  | quiet short => [if short then "-q" else "--quiet"]

/-- The choice that is spelled. -/
def choice : Spelling → Choice
  | path text => .path text
  | separate r s => .size r s.value
  | joined r s => .size r s.value
  | strict => .strict
  | quiet _ => .quiet

/-- The tokens of the arguments. -/
def tokens : Spelling → List Token
  | path text => [.plain text]
  | separate r s => [.option (.size r), .plain s.text]
  | joined r s => [.sized r s.text]
  | strict => [.option .strict]
  | quiet _ => [.option .quiet]

/-- What the tokens set. -/
def setting : Spelling → Setting
  | path text => .path text
  | separate r s => .size r s.text
  | joined r s => .size r s.text
  | strict => .switch .strict
  | quiet _ => .switch .quiet

variable {s : Spelling} {r : Resource} {n : Nat} {value text : String}

theorem setting_eq_path_iff : s.setting = .path text ↔ s.choice = .path text := by
  cases s <;> simp [setting, choice]

theorem setting_eq_strict_iff : s.setting = .switch .strict ↔ s.choice = .strict := by
  cases s <;> simp [setting, choice]

theorem setting_eq_quiet_iff : s.setting = .switch .quiet ↔ s.choice = .quiet := by
  cases s <;> simp [setting, choice]

theorem exists_choice_eq_size (h : s.setting = .size r value) : ∃ n, s.choice = .size r n := by
  cases s with
  | separate r' size | joined r' size =>
    cases h
    exact ⟨size.value, rfl⟩
  | path | strict | quiet => cases h

theorem exists_setting_eq_size (h : s.choice = .size r n) :
    ∃ value, s.setting = .size r value ∧ parseSize value = .ok n := by
  cases s with
  | separate r' size | joined r' size =>
    cases h
    exact ⟨size.text, rfl, size.parseSize_text⟩
  | path | strict | quiet => cases h

end Spelling

/-- The command line makes these choices, each once, in some order and with some spelling. -/
def Choices.SpelledBy (c : Choices) (line : List Spelling) : Prop :=
  (line.map Spelling.choice).Perm c.toList

/-! ### Tokens -/

theorem tokenize_long {argument : String} {letter : Char} {letters : List Char}
    (h : argument.toList = '-' :: '-' :: letter :: letters) (rest : List String) :
    tokenize (argument :: rest) = Token.ofLong (letter :: letters) :: tokenize rest := by
  have hne : argument ≠ "--" := by
    rintro rfl
    cases h
  have hlong : Token.ofArgument argument = [Token.ofLong (letter :: letters)] := by
    simp only [Token.ofArgument, h]
  rw [tokenize, if_neg hne, hlong]
  rfl

theorem tokenize_plain {text : String} (htext : text.toList.head? ≠ some '-')
    (rest : List String) : tokenize (text :: rest) = .plain text :: tokenize rest := by
  have hne : text ≠ "--" := by
    rintro rfl
    exact htext rfl
  have hplain : Token.ofArgument text = [.plain text] := by
    unfold Token.ofArgument
    split
    · rename_i heq
      exact absurd (by rw [heq]; rfl) htext
    · rename_i heq
      exact absurd (by rw [heq]; rfl) htext
    · rfl
  rw [tokenize, if_neg hne, hplain]
  rfl

theorem tokenize_size (r : Resource) (rest : List String) :
    tokenize (("--" ++ (Switch.size r).name) :: rest) = .option (.size r) :: tokenize rest := by
  cases r <;> rfl

theorem tokenize_sized (r : Resource) (text : String) (rest : List String) :
    tokenize (("--" ++ (Switch.size r).name ++ "=" ++ text) :: rest) =
      .sized r text :: tokenize rest := by
  have hlist : ("--" ++ (Switch.size r).name ++ "=" ++ text).toList =
      '-' :: '-' :: ((Switch.size r).name.toList ++ '=' :: text.toList) := by
    simp
  have hlong : Token.ofLong ((Switch.size r).name.toList ++ '=' :: text.toList) =
      .sized r (String.ofList text.toList) := by
    cases r <;> rfl
  cases hname : (Switch.size r).name.toList ++ '=' :: text.toList with
  | nil => simp at hname
  | cons letter letters => rw [tokenize_long (hname ▸ hlist), ← hname, hlong, String.ofList_toList]

/-- The arguments of a spelling, unless it is one of a path that looks like an option, give its
tokens. -/
theorem tokenize_arguments_append {s : Spelling}
    (hs : ∀ text, s = .path text → text.toList.head? ≠ some '-') (rest : List String) :
    tokenize (s.arguments ++ rest) = s.tokens ++ tokenize rest := by
  cases s with
  | path text => exact tokenize_plain (hs text rfl) rest
  | separate r size =>
    calc tokenize (("--" ++ (Switch.size r).name) :: size.text :: rest)
        = .option (.size r) :: tokenize (size.text :: rest) := tokenize_size r _
      _ = .option (.size r) :: .plain size.text :: tokenize rest := by
        rw [tokenize_plain size.head?_text_ne]
  | joined r size => exact tokenize_sized r size.text rest
  | strict => rfl
  | quiet short => cases short <;> rfl

theorem tokenize_flatMap_arguments {line : List Spelling}
    (hline : ∀ text, .path text ∈ line → text.toList.head? ≠ some '-') :
    tokenize (line.flatMap Spelling.arguments) = line.flatMap Spelling.tokens := by
  induction line with
  | nil => rfl
  | cons s line ih =>
    have hs : ∀ text, s = .path text → text.toList.head? ≠ some '-' := by
      rintro text rfl
      exact hline text List.mem_cons_self
    rw [List.flatMap_cons, List.flatMap_cons, tokenize_arguments_append hs,
      ih fun text htext => hline text (List.mem_cons_of_mem _ htext)]

/-- The tokens of a command line set what its spellings set. -/
theorem settings_flatMap_tokens (line : List Spelling) :
    settings (line.flatMap Spelling.tokens) = line.map Spelling.setting := by
  induction line with
  | nil => rfl
  | cons s line ih =>
    have hs (tokens : List Token) :
        settings (s.tokens ++ tokens) = s.setting :: settings tokens := by
      cases s <;> rfl
    rw [List.flatMap_cons, hs, ih, List.map_cons]

/-! ### Reading -/

namespace Draft

variable {d d₁ : Draft}

/-- The draft with one more choice entered. -/
def enter (d : Draft) : Choice → Draft
  | .path text => { d with path? := some text }
  | .size r n => { d with given := .size r :: d.given, config := d.config.setSize r n }
  | .strict => { d with given := .strict :: d.given }
  | .quiet => { d with given := .quiet :: d.given }

/-- The draft has an option, or the path, which is no option. -/
def Has (d : Draft) : Option Switch → Prop
  | none => d.path?.isSome
  | some s => s ∈ d.given

theorem not_has_empty (k : Option Switch) : ¬ ({} : Draft).Has k := by
  cases k <;> simp [Has]

theorem has_enter (d : Draft) (choice : Choice) (k : Option Switch) :
    (d.enter choice).Has k ↔ k = choice.switch? ∨ d.Has k := by
  cases choice <;> cases k <;> simp [enter, Has, Choice.switch?]

theorem settle_of_pending_eq (h : d.pending = .nothing) : d.settle = .ok d := by
  rw [settle, h]

theorem hasPath_eq_false_of_settle (h : d.settle = .ok d₁) (hpath : ¬ d₁.Has none) :
    d.hasPath = false := by
  rcases settle_eq_ok_iff.1 h with
    ⟨hpending, rfl⟩ | ⟨r, value, hpending, hgive⟩ | ⟨text, -, -, rfl⟩
  · simpa [hasPath, hpending, Has] using hpath
  · obtain ⟨n, -, -, rfl⟩ := giveSize_eq_ok_iff.1 hgive
    simpa [hasPath, hpending, Has] using hpath
  · simp [Has] at hpath

theorem read_plain (h : d.settle = .ok d₁) (hpath : ¬ d₁.Has none) (text : String)
    (tokens : List Token) :
    d.read (.plain text :: tokens) = { d₁ with pending := .path text }.read tokens := by
  have hread : d.readPath text = .ok { d₁ with pending := .path text } := by
    rw [readPath, if_neg (by simp [hasPath_eq_false_of_settle h hpath]), h]
    rfl
  rw [read]
  split
  · rename_i r hpending
    simp [settle, hpending] at h
  · rw [hread]
    rfl

theorem read_option {d' : Draft} {s : Switch} (hread : d.readSwitch s = .ok d')
    (hhelp : s ≠ .help) (hversion : s ≠ .version) (tokens : List Token) :
    d.read (.option s :: tokens) = d'.read tokens := by
  rw [read]
  · rw [hread]
    rfl
  · exact hhelp
  · exact hversion

theorem giveSize_text {r : Resource} (hnew : .size r ∉ d.given) (size : SizeText) :
    d.giveSize r size.text = .ok (d.enter (.size r size.value)) :=
  giveSize_eq_ok_iff.2 ⟨size.value, hnew, size.parseSize_text, rfl⟩

theorem read_sized {r : Resource} (h : d.settle = .ok d₁) (hnew : .size r ∉ d₁.given)
    (size : SizeText) (tokens : List Token) :
    d.read (.sized r size.text :: tokens) = (d₁.enter (.size r size.value)).read tokens := by
  rw [read, h]
  change d₁.giveSize r size.text >>= (fun d => d.read tokens) = _
  rw [giveSize_text hnew]
  rfl

/-- A choice that is new is entered when what is before it was settled. -/
theorem exists_settle_enter {s : Spelling} (h : d.settle = .ok d₁)
    (hnew : ¬ d₁.Has s.choice.switch?) (hs : s ≠ .path "") (tokens : List Token) :
    ∃ d' : Draft, d.read (s.tokens ++ tokens) = d'.read tokens ∧
      d'.settle = .ok (d₁.enter s.choice) := by
  have hpending := pending_eq_of_settle h
  have hkeep : { d₁ with pending := .nothing } = d₁ := by
    rw [← hpending]
  cases s with
  | path text =>
    have htext : text ≠ "" := fun heq => hs (by rw [heq])
    refine ⟨{ d₁ with pending := .path text }, read_plain h hnew text tokens, ?_⟩
    calc { d₁ with pending := .path text }.settle
        = .ok { { d₁ with pending := .nothing } with path? := some text } := if_neg htext
      _ = .ok (d₁.enter (.path text)) := by rw [hkeep, enter]
  | separate r size =>
    -- the value is held back until it is known that it is complete
    have hread : d.readSwitch (.size r) = .ok { d₁ with pending := .option r } := by
      rw [readSwitch, h]
      rfl
    refine ⟨{ d₁ with pending := .size r size.text }, ?_, ?_⟩
    · exact read_option hread (by simp) (by simp) _
    · calc { d₁ with pending := .size r size.text }.settle
          = { d₁ with pending := .nothing }.giveSize r size.text := rfl
        _ = .ok (d₁.enter (.size r size.value)) := by rw [hkeep, giveSize_text hnew]
  | joined r size =>
    exact ⟨d₁.enter (.size r size.value), read_sized h hnew size tokens,
      settle_of_pending_eq hpending⟩
  | strict | quiet =>
    refine ⟨_, read_option ?_ (by simp) (by simp) tokens, settle_of_pending_eq hpending⟩
    rw [readSwitch, h]
    exact give_eq_ok_iff.2 ⟨hnew, rfl⟩

theorem finish_eq_of_settle (h : d.settle = .ok d₁) : d.finish = d₁.finish := by
  rw [finish, finish, h, settle_of_pending_eq (pending_eq_of_settle h)]

/-- Choices that are all new are entered one after the other. -/
theorem read_flatMap_tokens {line : List Spelling} (h : d.settle = .ok d₁)
    (hnew : ∀ s ∈ line, ¬ d₁.Has s.choice.switch?)
    (honce : (line.map fun s => s.choice.switch?).Nodup) (hline : .path "" ∉ line) :
    d.read (line.flatMap Spelling.tokens) =
      ((line.map Spelling.choice).foldl enter d₁).finish := by
  induction line generalizing d d₁ with
  | nil => exact finish_eq_of_settle h
  | cons s line ih =>
    obtain ⟨hs, honce⟩ := List.nodup_cons.1 honce
    obtain ⟨d', hread, hsettle⟩ := exists_settle_enter h (hnew s List.mem_cons_self)
      (fun heq => hline (heq ▸ List.mem_cons_self)) (line.flatMap Spelling.tokens)
    rw [List.flatMap_cons, hread, List.map_cons, List.foldl_cons]
    -- the choices that are left are still new, since none of them is this one
    refine ih hsettle ?_ honce fun hmem => hline (List.mem_cons_of_mem _ hmem)
    intro t ht
    rw [has_enter]
    rintro (heq | hhas)
    · exact hs (List.mem_map.2 ⟨t, ht, heq⟩)
    · exact hnew t (List.mem_cons_of_mem _ ht) hhas

theorem pending_enter (d : Draft) (choice : Choice) : (d.enter choice).pending = d.pending := by
  cases choice <;> rfl

theorem pending_foldl_enter (d : Draft) (choices : List Choice) :
    (choices.foldl enter d).pending = d.pending := by
  induction choices generalizing d with
  | nil => rfl
  | cons choice choices ih => rw [List.foldl_cons, ih, pending_enter]

theorem has_foldl_enter (d : Draft) (choices : List Choice) (k : Option Switch) :
    (choices.foldl enter d).Has k ↔ d.Has k ∨ k ∈ choices.map Choice.switch? := by
  induction choices generalizing d with
  | nil => simp
  | cons choice choices ih =>
    rw [List.foldl_cons, ih, has_enter, List.map_cons, List.mem_cons]
    tauto

end Draft

/-! ### What was chosen -/

namespace Choices

variable {c : Choices} {line : List Spelling}

theorem switch?_of_ofSwitch?_eq {s : Switch} {choice : Choice}
    (h : c.ofSwitch? s = some choice) : choice.switch? = some s := by
  cases s with
  | size r =>
    obtain ⟨n, -, rfl⟩ := Option.map_eq_some_iff.1 h
    rfl
  | strict | quiet =>
    obtain ⟨-, heq⟩ := Option.ite_none_right_eq_some.1 h
    cases heq
    rfl
  | help | version => cases h

theorem mem_toList_iff {s : Switch} {choice : Choice} (h : choice.switch? = some s) :
    choice ∈ c.toList ↔ c.ofSwitch? s = some choice := by
  have hpath : choice ≠ .path c.path := by
    rintro rfl
    cases h
  simp only [toList, List.mem_cons, hpath, false_or, List.mem_filterMap, Switch.mem_all, true_and]
  constructor
  · rintro ⟨s', hs'⟩
    obtain rfl : s' = s := Option.some.inj ((switch?_of_ofSwitch?_eq hs').symm.trans h)
    exact hs'
  · intro hs
    exact ⟨s, hs⟩

theorem size_mem_toList {r : Resource} {n : Nat} : .size r n ∈ c.toList ↔ c.size? r = some n := by
  rw [mem_toList_iff rfl]
  simp [ofSwitch?]

theorem strict_mem_toList : .strict ∈ c.toList ↔ c.strict = true := by
  rw [mem_toList_iff rfl]
  simp [ofSwitch?]

theorem quiet_mem_toList : .quiet ∈ c.toList ↔ c.quiet = true := by
  rw [mem_toList_iff rfl]
  simp [ofSwitch?]

theorem path_mem_toList {text : String} : .path text ∈ c.toList ↔ text = c.path := by
  rw [toList, List.mem_cons, Choice.path.injEq, or_iff_left]
  intro hmem
  obtain ⟨s, -, hs⟩ := List.mem_filterMap.1 hmem
  cases switch?_of_ofSwitch?_eq hs

/-- Every option is chosen at most once, and so is the path. -/
theorem nodup_switch?_toList (c : Choices) : (c.toList.map Choice.switch?).Nodup := by
  have honly : ∀ s k, k ∈ (c.ofSwitch? s).map Choice.switch? → k = some s := by
    intro s k hk
    obtain ⟨choice, hchoice, rfl⟩ := Option.map_eq_some_iff.1 hk
    exact switch?_of_ofSwitch?_eq hchoice
  rw [toList, List.map_cons, List.map_filterMap, List.nodup_cons]
  constructor
  · intro hnone
    obtain ⟨s, -, hs⟩ := List.mem_filterMap.1 hnone
    cases honly s none hs
  · refine List.Nodup.filterMap ?_ (by decide)
    intro s s' k hs hs'
    exact Option.some.inj ((honly s k hs).symm.trans (honly s' k hs'))

theorem size_config (c : Choices) (r : Resource) :
    c.config.size r = (c.size? r).getD r.standardSize := by
  cases r <;> rfl

namespace SpelledBy

theorem mem_iff (h : c.SpelledBy line) {choice : Choice} :
    choice ∈ c.toList ↔ ∃ s ∈ line, s.choice = choice := by
  rw [← List.Perm.mem_iff h, List.mem_map]

theorem eq_path_of_mem (h : c.SpelledBy line) {text : String} (hmem : .path text ∈ line) :
    text = c.path :=
  path_mem_toList.1 (h.mem_iff.2 ⟨_, hmem, rfl⟩)

/-- A choice that is read off one setting is made if that is set. -/
theorem mem_settings_iff (h : c.SpelledBy line) {setting : Setting} {choice : Choice}
    (hiff : ∀ s : Spelling, s.setting = setting ↔ s.choice = choice) :
    setting ∈ line.map Spelling.setting ↔ choice ∈ c.toList := by
  simp only [h.mem_iff, List.mem_map, hiff]

/-- The run that is set is the one that was chosen. -/
theorem eq_of_setBy (h : c.SpelledBy line) {inv : Invocation}
    (hset : inv.SetBy (line.map Spelling.setting)) : inv = ⟨c.path, c.config, c.quiet⟩ := by
  have hpath : inv.path = c.path := by
    have hmem := (hset.path inv.path).2 rfl
    rwa [h.mem_settings_iff fun _ => Spelling.setting_eq_path_iff, path_mem_toList] at hmem
  have hsize (r : Resource) : inv.config.size r = c.config.size r := by
    rw [size_config]
    cases hr : c.size? r with
    | some n =>
      obtain ⟨s, hs, hchoice⟩ := h.mem_iff.1 (size_mem_toList.2 hr)
      obtain ⟨value, hvalue, hparse⟩ := Spelling.exists_setting_eq_size hchoice
      have hgiven := hset.size r value (List.mem_map.2 ⟨s, hs, hvalue⟩)
      exact Except.ok.inj (hgiven.symm.trans hparse)
    | none =>
      refine hset.standard r fun value hmem => ?_
      obtain ⟨s, hs, hvalue⟩ := List.mem_map.1 hmem
      obtain ⟨n, hchoice⟩ := Spelling.exists_choice_eq_size hvalue
      cases hr.symm.trans (size_mem_toList.1 (h.mem_iff.2 ⟨s, hs, hchoice⟩))
  have hpolicy : inv.config.policy = c.config.policy := by
    simp only [hset.policy, config, h.mem_settings_iff fun _ => Spelling.setting_eq_strict_iff,
      strict_mem_toList]
  have hquiet : inv.quiet = c.quiet := by
    rw [Bool.eq_iff_iff, hset.quiet, h.mem_settings_iff fun _ => Spelling.setting_eq_quiet_iff,
      quiet_mem_toList]
  calc inv = ⟨inv.path, inv.config, inv.quiet⟩ := rfl
    _ = ⟨c.path, c.config, c.quiet⟩ := by
      rw [hpath, Config.eq_of_size_eq hsize hpolicy, hquiet]

theorem tokenize_eq (h : c.SpelledBy line) :
    tokenize (line.flatMap Spelling.arguments) = line.flatMap Spelling.tokens := by
  refine tokenize_flatMap_arguments ?_
  intro text hmem
  rw [h.eq_path_of_mem hmem]
  exact c.head?_path_ne

/-- A command line that makes some choices is one for a run. -/
theorem exists_parse_eq (h : c.SpelledBy line) :
    ∃ inv, Request.parse (line.flatMap Spelling.arguments) = .ok (.run inv) := by
  have honce : (line.map fun s => s.choice.switch?).Nodup := by
    have hperm := List.Perm.map Choice.switch? h
    rw [List.map_map] at hperm
    exact hperm.nodup_iff.2 c.nodup_switch?_toList
  have hempty : .path "" ∉ line := fun hmem => c.path_ne (h.eq_path_of_mem hmem).symm
  let d := (line.map Spelling.choice).foldl Draft.enter {}
  have hread : ({} : Draft).read (line.flatMap Spelling.tokens) = d.finish :=
    Draft.read_flatMap_tokens rfl (fun _ _ => Draft.not_has_empty _) honce hempty
  have hsettle : d.settle = .ok d :=
    Draft.settle_of_pending_eq (Draft.pending_foldl_enter {} _)
  -- the path is among the choices
  have hpath : d.Has none := by
    have hmem := (List.Perm.mem_iff h).2 (path_mem_toList.2 rfl)
    exact (Draft.has_foldl_enter {} _ none).2 (.inr (List.mem_map.2 ⟨_, hmem, rfl⟩))
  obtain ⟨path, hpath⟩ := Option.isSome_iff_exists.1 hpath
  refine ⟨⟨path, d.finalConfig, .quiet ∈ d.given⟩, ?_⟩
  calc Request.parse (line.flatMap Spelling.arguments)
      = ({} : Draft).read (tokenize (line.flatMap Spelling.arguments)) := rfl
    _ = d.finish := by rw [h.tokenize_eq, hread]
    _ = .ok (.run ⟨path, d.finalConfig, .quiet ∈ d.given⟩) := by
      simp only [Draft.finish, Machine.bind_eq_ok_iff]
      exact ⟨d, hsettle, by rw [hpath]⟩

/-- **A command line that makes some choices asks for the run that was chosen.** -/
theorem parse_eq (h : c.SpelledBy line) :
    Request.parse (line.flatMap Spelling.arguments) =
      .ok (.run ⟨c.path, c.config, c.quiet⟩) := by
  obtain ⟨inv, hinv⟩ := h.exists_parse_eq
  have hset := Invocation.setBy_settings hinv
  rw [h.tokenize_eq, settings_flatMap_tokens] at hset
  rw [hinv, h.eq_of_setBy hset]

end SpelledBy

end Choices

/-- **The order of the choices and their spellings do not matter**: the run that is asked for is the
one that was chosen, and everything that is seen of the session is the same. -/
theorem choices_spelled {c : Choices} {line : List Spelling} (h : c.SpelledBy line) :
    Request.parse (line.flatMap Spelling.arguments) = .ok (.run ⟨c.path, c.config, c.quiet⟩) ∧
    ∀ line', c.SpelledBy line' → ∀ read interrupt,
      respond (line'.flatMap Spelling.arguments) read interrupt =
        respond (line.flatMap Spelling.arguments) read interrupt := by
  refine ⟨h.parse_eq, ?_⟩
  intro line' h' read interrupt
  rw [respond, respond, h.parse_eq, h'.parse_eq]

/-- Two command lines for the same run, in other orders and with other spellings. -/
theorem choices_spelled_two_orders :
    Request.parse ["-q", "nop.rom", "--stack", "+05", "--strict", "--memory=64"] =
      .ok (.run ⟨"nop.rom", { memory := 64, stack := 5, policy := .strict }, true⟩) ∧
    ∀ read interrupt,
      respond ["--memory", "064", "--strict", "--stack=5", "nop.rom", "--quiet"] read interrupt =
        respond ["-q", "nop.rom", "--stack", "+05", "--strict", "--memory=64"] read interrupt := by
  let c : Choices :=
    { path := "nop.rom", path_ne := by decide, head?_path_ne := by decide
      size? := fun r => if r = .memory then some 64 else if r = .stack then some 5 else none
      strict := true, quiet := true }
  let line : List Spelling :=
    [.quiet true, .path "nop.rom", .separate .stack ⟨true, 1, 5, by decide⟩, .strict,
      .joined .memory ⟨false, 0, 64, by decide⟩]
  let line' : List Spelling :=
    [.separate .memory ⟨false, 1, 64, by decide⟩, .strict,
      .joined .stack ⟨false, 0, 5, by decide⟩, .path "nop.rom", .quiet false]
  have h : c.SpelledBy line := by
    unfold Choices.SpelledBy
    decide
  have h' : c.SpelledBy line' := by
    unfold Choices.SpelledBy
    decide
  obtain ⟨hparse, hsame⟩ := choices_spelled h
  exact ⟨hparse, hsame line' h'⟩

end CommandLine

end RegisterMachine
