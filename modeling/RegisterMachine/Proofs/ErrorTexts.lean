import RegisterMachine.Proofs.Numerals
import RegisterMachine.Proofs.Stages

/-!
# Errors and their texts

No two errors have the same text.  The first letters of a text tell the kind of the error, apart
from the three kinds of errors on images, whose texts begin alike and part behind the first number.
From then on the fixed pieces of the text are known, and every number in it ends where the next of
them begins.

What is printed when the run of an image fails has the text of the error in its last line, and the
text is the whole of that line, or all of it that comes behind a fixed beginning.  So the error is
found again there as well, whatever stands in the path of the image.

## Main definitions

* `Error.initials` : the letters that the text of an error begins with;
* `Error.configMessage` : the text of a configuration error that says anything at all;
* `CommandLine.Failure.error?` and `CommandLine.Invocation.FailsBy` : the error that made a run
  fail.

## Main statements

* `Error.message_inj` : errors with the same text are the same;
* `CommandLine.Failure.error?_eq_of_message_eq` : so are errors that make runs fail with the same
  output;
* `CommandLine.message_identifies_error` : both, for texts and for sessions.
-/

namespace RegisterMachine

/-! ### Beginnings of texts -/

/-- A text has one beginning of each length. -/
theorem eq_of_isPrefix_toList {s : String} {l l' : List Char} (h : l <+: s.toList)
    (h' : l' <+: s.toList) (hlength : l.length = l'.length) : l = l' :=
  (List.prefix_of_prefix_length_le h h' hlength.le).eq_of_length hlength

theorem isPrefix_toList_append {s : String} {l : List Char} (h : l <+: s.toList) (t : String) :
    l <+: (s ++ t).toList := by
  rw [String.toList_append]
  exact h.trans (List.prefix_append _ _)

theorem Resource.requirement_injective : Function.Injective Resource.requirement := by
  intro r r' h
  have hletters := congrArg (fun text : String => text.toList.take 2) h
  cases r <;> cases r' <;> first | rfl | exact absurd hletters (by decide)

namespace Error

variable {e e' : Error}

/-- The first three letters of the text of an error. -/
def initials : Error → List Char
  | endOfProgram .. => ['d', 'i', 'd']
  | truncatedImage .. | misalignedImage .. | imageTooLarge .. => ['i', 'm', 'a']
  | invalidRegister .. => ['r', 'e', 'g']
  | memoryOutOfBounds .. => ['m', 'e', 'm']
  | stackOverflow .. => ['s', 't', 'a']
  | stackUnderflow => ['p', 'o', 'p']
  | divisionByZero .. => ['d', 'i', 'v']
  | unknownOpcode .. => ['u', 'n', 'k']
  | invalidConfig .. => ['i', 'n', 'v']

theorem initials_isPrefix (e : Error) : e.initials <+: e.message.toList := by
  unfold message initials
  cases e with
  | stackUnderflow => decide
  | endOfProgram | truncatedImage | misalignedImage | imageTooLarge | invalidRegister
  | memoryOutOfBounds | stackOverflow | divisionByZero | unknownOpcode | invalidConfig =>
    simp only [String.append_assoc]
    exact isPrefix_toList_append (by decide) _

theorem initials_eq_of_message_eq (h : e.message = e'.message) : e.initials = e'.initials := by
  have hlength (e : Error) : e.initials.length = 3 := by cases e <;> rfl
  refine eq_of_isPrefix_toList e.initials_isPrefix ?_ (by rw [hlength, hlength])
  rw [h]
  exact e'.initials_isPrefix

/-! ### Errors on images -/

/-- The letters behind the first number in the text of an error on an image. -/
def imageLetters : Error → List Char
  | truncatedImage _ => [' ', 'w', 'o', 'r', 'd', 's', ' ', 'i']
  | misalignedImage _ => [' ', 'b', 'y', 't', 'e', 's', ' ', 'i']
  | imageTooLarge .. => [' ', 'w', 'o', 'r', 'd', 's', ' ', 'd']
  | _ => []

theorem exists_imageLetters_isPrefix (h : e.initials = ['i', 'm', 'a']) :
    ∃ (n : Nat) (s : String), e.message = "image of " ++ (toString n ++ s) ∧
      e.imageLetters <+: s.toList ∧ e.imageLetters.length = 8 := by
  unfold message imageLetters
  cases e with
  | truncatedImage n | misalignedImage n =>
    simp only [String.append_assoc]
    exact ⟨n, _, rfl, by decide, rfl⟩
  | imageTooLarge n capacity =>
    simp only [String.append_assoc]
    exact ⟨n, _, rfl, isPrefix_toList_append (by decide) _, rfl⟩
  | _ => cases h

theorem head?_of_imageLetters_isPrefix {s : String} (h : e.initials = ['i', 'm', 'a'])
    (hs : e.imageLetters <+: s.toList) : s.toList.head? = some ' ' := by
  obtain ⟨rest, hrest⟩ := hs
  rw [← hrest]
  cases e with
  | truncatedImage | misalignedImage | imageTooLarge => rfl
  | _ => cases h

/-- **Texts on images part behind their first number.** -/
theorem imageLetters_eq_of_message_eq (h : e.message = e'.message) :
    e.imageLetters = e'.imageLetters := by
  have hinitials := initials_eq_of_message_eq h
  by_cases himage : e.initials = ['i', 'm', 'a']
  · have himage' : e'.initials = ['i', 'm', 'a'] := hinitials ▸ himage
    obtain ⟨n, s, htext, hs, hlength⟩ := exists_imageLetters_isPrefix himage
    obtain ⟨n', s', htext', hs', hlength'⟩ := exists_imageLetters_isPrefix himage'
    rw [htext, htext', String.append_right_inj] at h
    have hblank := head?_of_imageLetters_isPrefix himage hs
    have hblank' := head?_of_imageLetters_isPrefix himage' hs'
    obtain ⟨-, rfl⟩ := toString_nat_append_inj (by decide) hblank hblank' h
    exact eq_of_isPrefix_toList hs hs' (hlength.trans hlength'.symm)
  · have hnone : ∀ e : Error, e.initials ≠ ['i', 'm', 'a'] → e.imageLetters = [] := by
      intro e he
      cases e <;> first | rfl | exact absurd rfl he
    rw [hnone e himage, hnone e' (hinitials ▸ himage)]

/-! ### All errors -/

/-- **Errors with the same text are the same.** -/
theorem message_inj : e.message = e'.message ↔ e = e' := by
  refine ⟨fun h => ?_, fun h => congrArg message h⟩
  -- the kind is told by letters, and the numbers of each kind stand in front of fixed characters
  have hkind : e.initials ++ e.imageLetters = e'.initials ++ e'.imageLetters := by
    rw [initials_eq_of_message_eq h, imageLetters_eq_of_message_eq h]
  unfold message at h
  cases e with
  | endOfProgram pc remaining =>
    cases e' with
    | endOfProgram pc' remaining' =>
      simp only [String.append_assoc, String.append_right_inj] at h
      obtain ⟨rfl, h⟩ := toString_nat_append_inj (c := ',') (by decide) (by simp) (by simp) h
      simp only [String.append_right_inj, String.append_left_inj] at h
      rw [toString_nat_inj.1 h]
    | _ => cases hkind
  | truncatedImage words =>
    cases e' with
    | truncatedImage words' => rw [between_toString_nat_inj.1 h]
    | _ => cases hkind
  | misalignedImage bytes =>
    cases e' with
    | misalignedImage bytes' => rw [between_toString_nat_inj.1 h]
    | _ => cases hkind
  | imageTooLarge words capacity =>
    cases e' with
    | imageTooLarge words' capacity' =>
      simp only [String.append_assoc, String.append_right_inj] at h
      obtain ⟨rfl, h⟩ := toString_nat_append_inj (c := ' ') (by decide) (by simp) (by simp) h
      simp only [String.append_right_inj, String.append_left_inj] at h
      rw [toString_nat_inj.1 h]
    | _ => cases hkind
  | invalidRegister id =>
    cases e' with
    | invalidRegister id' =>
      simp only [String.append_right_inj, String.append_left_inj] at h
      rw [Int32.toInt_inj.1 (toString_int_inj.1 h)]
    | _ => cases hkind
  | memoryOutOfBounds address capacity =>
    cases e' with
    | memoryOutOfBounds address' capacity' =>
      simp only [String.append_assoc, String.append_right_inj] at h
      obtain ⟨haddress, h⟩ := toString_int_append_inj (c := ' ') (by decide) (by decide) (by simp)
        (by simp) h
      simp only [String.append_right_inj] at h
      rw [Int32.toInt_inj.1 haddress, toString_nat_inj.1 h]
    | _ => cases hkind
  | stackOverflow capacity =>
    cases e' with
    | stackOverflow capacity' => rw [between_toString_nat_inj.1 h]
    | _ => cases hkind
  | stackUnderflow =>
    cases e' with
    | stackUnderflow => rfl
    | _ => cases hkind
  | divisionByZero pc =>
    cases e' with
    | divisionByZero pc' =>
      simp only [String.append_right_inj] at h
      rw [toString_nat_inj.1 h]
    | _ => cases hkind
  | unknownOpcode opcode pc =>
    cases e' with
    | unknownOpcode opcode' pc' =>
      simp only [String.append_assoc, String.append_right_inj] at h
      obtain ⟨hopcode, h⟩ := Hexadecimal.padded_append_inj (c := ' ') (by decide) (by simp)
        (by simp) h
      have hword : opcode = opcode' := by
        simpa using congrArg UInt32.toInt32 (UInt32.toNat_inj.1 hopcode)
      simp only [String.append_right_inj] at h
      rw [hword, toString_nat_inj.1 h]
    | _ => cases hkind
  | invalidConfig resource =>
    cases e' with
    | invalidConfig resource' =>
      simp only [String.append_right_inj] at h
      rw [Resource.requirement_injective h]
    | _ => cases hkind

/-- The text of a configuration error that says anything at all.  The errors that there are say a
requirement. -/
def configMessage (text : String) : String :=
  "invalid configuration: " ++ text

theorem configMessage_inj {text text' : String} :
    configMessage text = configMessage text' ↔ text = text' :=
  String.append_right_inj _

/-- Only a configuration error has the text of one, and it says the requirement that was missed. -/
theorem message_eq_configMessage_iff {text : String} :
    e.message = configMessage text ↔
      ∃ resource, e = invalidConfig resource ∧ text = resource.requirement := by
  constructor
  · intro h
    have hinitials : e.initials = ['i', 'n', 'v'] := by
      refine eq_of_isPrefix_toList e.initials_isPrefix ?_ (by cases e <;> rfl)
      rw [h]
      exact isPrefix_toList_append (by decide) text
    unfold message at h
    cases e with
    | invalidConfig resource => exact ⟨resource, rfl, (configMessage_inj.1 h).symm⟩
    | _ => cases hinitials
  · rintro ⟨resource, rfl, rfl⟩
    rfl

theorem not_mem_message (e : Error) : '\n' ∉ e.message.toList := by
  have hnat (n : Nat) := not_mem_toString_nat (c := '\n') (by decide) n
  have hint (i : Int) := not_mem_toString_int (c := '\n') (by decide) (by decide) i
  have hpadded (n : Nat) : '\n' ∉ (Hexadecimal.padded 2 n).toList := fun hmem =>
    absurd (Hexadecimal.mem_alphabet_of_mem_padded hmem) (by decide)
  have hrequirement (r : Resource) : '\n' ∉ r.requirement.toList := by cases r <;> decide
  unfold message
  cases e with
  | stackUnderflow => decide
  | _ =>
    simp only [String.toList_append, List.mem_append, not_or, hnat, hint, hpadded, hrequirement]
    decide

end Error

namespace CommandLine

variable {e : Error} {failure failure' : Failure} {message message' cause cause' text : String}

/-- The error that a failure comes from; a file that cannot be read is none of the machine. -/
def Failure.error? : Failure → Option Error
  | unreadable .. => none
  | unloadable _ cause | misconfigured cause | faulted _ cause => some cause

/-- The run of an image, with this content of its file and with this interrupt, fails like this. -/
inductive Invocation.FailsBy (inv : Invocation) (content : Except ReadError ByteArray)
    (interrupt : Cancellation) : Failure → Prop
  /-- It is not begun. -/
  | load {failure : Failure} : inv.load content = .error failure →
      FailsBy inv content interrupt failure
  /-- It ends with a fault. -/
  | run {m m' : Machine} {rom : Rom} {cause : Error} : inv.load content = .ok (m, rom) →
      m.run rom.words interrupt = (.faulted cause, m') →
      FailsBy inv content interrupt (.faulted m'.pc cause)

/-! ### Messages with causes -/

/-- **A cause of one line is found again**, since it is the last line. -/
theorem withCause_inj (hcause : '\n' ∉ cause.toList) (hcause' : '\n' ∉ cause'.toList)
    (h : withCause message cause = withCause message' cause') :
    message = message' ∧ cause = cause' := by
  have hlines (message cause : String) :
      ("Error: " ++ message ++ "\n\nCaused by:\n    " ++ cause).toList =
        ("Error: " ++ message ++ "\n\nCaused by:").toList ++ '\n' :: ("    " ++ cause).toList := by
    have hbreak : "\n\nCaused by:\n    " = "\n\nCaused by:" ++ "\n" ++ "    " := by decide
    simp [hbreak]
  have hindent (cause : String) (hcause : '\n' ∉ cause.toList) :
      '\n' ∉ ("    " ++ cause).toList := by
    simpa using hcause
  have hlist := congrArg String.toList ((String.append_left_inj _).1 h)
  rw [hlines, hlines] at hlist
  obtain ⟨hfront, hback⟩ := append_cons_inj_of_not_mem_right (hindent cause hcause)
    (hindent cause' hcause') hlist
  rw [String.toList_inj] at hfront hback
  exact ⟨(String.append_right_inj _).1 ((String.append_left_inj _).1 hfront),
    (String.append_right_inj _).1 hback⟩

/-- A single line is no message with a cause. -/
theorem withCause_ne (htext : '\n' ∉ text.toList) :
    withCause message cause ≠ "Error: " ++ text ++ "\n" := by
  intro h
  have hinner := (String.append_left_inj _).1 h
  simp only [String.append_assoc, String.append_right_inj] at hinner
  apply htext
  rw [← hinner]
  simp

namespace Failure

/-- The output of a failure with an error is one line with its text, or ends with it as the cause of
something else than a file that cannot be read. -/
theorem message_of_error? (h : failure.error? = some e) :
    failure.message = "Error: " ++ e.message ++ "\n" ∨
      ∃ headline, failure.message = withCause headline e.message ∧
        ∀ text, ¬ "could not read".toList <+: (headline ++ text).toList := by
  cases failure with
  | unreadable => cases h
  | unloadable path cause =>
    obtain rfl := Option.some.inj h
    refine .inr ⟨_, rfl, fun text hread => ?_⟩
    rw [String.append_assoc] at hread
    have hload : "could not load".toList <+: ("could not load " ++ (path ++ text)).toList :=
      isPrefix_toList_append (by decide) _
    exact absurd (eq_of_isPrefix_toList hread hload (by decide)) (by decide)
  | misconfigured cause =>
    obtain rfl := Option.some.inj h
    exact .inl rfl
  | faulted pc cause =>
    obtain rfl := Option.some.inj h
    refine .inr ⟨_, rfl, fun text hread => ?_⟩
    rw [String.append_assoc] at hread
    have hfaulted : "machine faulte".toList <+:
        ("machine faulted at pc " ++ (toString pc ++ text)).toList :=
      isPrefix_toList_append (by decide) _
    exact absurd (eq_of_isPrefix_toList hread hfaulted (by decide)) (by decide)

theorem message_ne_of_error? (h : failure.error? = none) (h' : failure'.error? = some e) :
    failure.message ≠ failure'.message := by
  intro hsame
  cases failure with
  | unreadable path cause =>
    rw [message] at hsame
    rcases message_of_error? h' with hline | ⟨headline, hlast, hnot⟩
    · exact withCause_ne e.not_mem_message (hsame.trans hline)
    · rw [hlast] at hsame
      unfold withCause at hsame
      simp only [String.append_assoc, String.append_right_inj] at hsame
      apply hnot
      rw [← hsame]
      exact isPrefix_toList_append (by decide) _
  | unloadable | misconfigured | faulted => cases h

/-- **Failures with the same output come from the same error**, or both from none. -/
theorem error?_eq_of_message_eq (h : failure.message = failure'.message) :
    failure.error? = failure'.error? := by
  cases he : failure.error? with
  | none =>
    cases he' : failure'.error? with
    | none => rfl
    | some e' => exact absurd h (message_ne_of_error? he he')
  | some e =>
    cases he' : failure'.error? with
    | none => exact absurd h.symm (message_ne_of_error? he' he)
    | some e' =>
      rcases message_of_error? he with hline | ⟨headline, hlast, -⟩
      · rcases message_of_error? he' with hline' | ⟨headline', hlast', -⟩
        · rw [hline, hline', String.append_left_inj, String.append_right_inj] at h
          rw [Error.message_inj.1 h]
        · rw [hline, hlast'] at h
          exact absurd h.symm (withCause_ne e.not_mem_message)
      · rcases message_of_error? he' with hline' | ⟨headline', hlast', -⟩
        · rw [hlast, hline'] at h
          exact absurd h (withCause_ne e'.not_mem_message)
        · rw [hlast, hlast'] at h
          obtain ⟨-, htexts⟩ := withCause_inj e.not_mem_message e'.not_mem_message h
          rw [Error.message_inj.1 htexts]

end Failure

/-! ### Sessions -/

theorem Invocation.FailsBy.execute_eq {inv : Invocation} {content : Except ReadError ByteArray}
    {interrupt : Cancellation} (h : inv.FailsBy content interrupt failure) :
    inv.execute content interrupt = inv.fail failure := by
  cases h with
  | load hload => exact execute_of_load_eq_error hload
  | run hload hrun =>
    unfold execute
    rw [hload]
    simp only [hrun]

theorem Invocation.exists_failsBy_of_code? {inv : Invocation}
    {content : Except ReadError ByteArray} {interrupt : Cancellation}
    (h : (inv.execute content interrupt).code? = some 1) :
    ∃ failure, inv.FailsBy content interrupt failure := by
  unfold execute at h
  split at h
  · rename_i failure hload
    exact ⟨failure, .load hload⟩
  · rename_i m rom hload
    split at h
    · cases h
    · rename_i cause m' hrun
      exact ⟨_, .run hload hrun⟩
    · cases h

/-- **The text of an error identifies it.**  Errors of different kinds have different texts, and so
have errors of one kind with different data.  This would be so whatever configuration errors said:
no other error has such a text, and it shows what is said.  And what a session prints when it fails
tells the error that it comes from, or that its file could not be read: no other session, whatever
its command line, its files and its interrupt, fails by another error and prints the same. -/
theorem message_identifies_error :
    (∀ e e' : Error, e.message = e'.message ↔ e = e') ∧
    (∀ (e : Error) (text : String), e.message = Error.configMessage text ↔
      ∃ resource, e = .invalidConfig resource ∧ text = resource.requirement) ∧
    (∀ text text', Error.configMessage text = Error.configMessage text' ↔ text = text') ∧
    ∀ arguments inv read interrupt, Request.parse arguments = .ok (.run inv) →
      (respond arguments read interrupt).code? = some 1 →
      ∃ failure, inv.FailsBy (read inv.path) interrupt failure ∧
        ∀ arguments' inv' read' interrupt' failure', Request.parse arguments' = .ok (.run inv') →
          inv'.FailsBy (read' inv'.path) interrupt' failure' →
          (respond arguments' read' interrupt').stderr =
            (respond arguments read interrupt).stderr →
          failure'.error? = failure.error? := by
  refine ⟨fun _ _ => Error.message_inj, fun _ _ => Error.message_eq_configMessage_iff,
    fun _ _ => Error.configMessage_inj, ?_⟩
  intro arguments inv read interrupt hparse hcode
  rw [respond_eq_execute hparse] at hcode ⊢
  obtain ⟨failure, hfails⟩ := Invocation.exists_failsBy_of_code? hcode
  refine ⟨failure, hfails, ?_⟩
  intro arguments' inv' read' interrupt' failure' hparse' hfails' hstderr
  rw [respond_eq_execute hparse', hfails.execute_eq, hfails'.execute_eq] at hstderr
  exact Failure.error?_eq_of_message_eq hstderr

/-- An opcode with all bits set is not taken for `0xFF`, and the output for a file of three bytes
comes from no other error. -/
theorem message_identifies_error_misaligned :
    (Error.unknownOpcode (-1) 0).message ≠ (Error.unknownOpcode 0xFF 0).message ∧
    ∀ arguments inv read interrupt failure, Request.parse arguments = .ok (.run inv) →
      inv.FailsBy (read inv.path) interrupt failure →
      (respond arguments read interrupt).stderr = "Error: could not load three.rom\n\n" ++
        "Caused by:\n    image of 3 bytes is not a whole number of words\n" →
      failure.error? = some (.misalignedImage 3) := by
  obtain ⟨hinj, -, -, hsession⟩ := message_identifies_error
  refine ⟨fun h => absurd ((hinj _ _).1 h) (by decide), ?_⟩
  have hparse : Request.parse ["three.rom"] = .ok (.run ⟨"three.rom", {}, false⟩) := rfl
  have hload : (⟨"three.rom", {}, false⟩ : Invocation).load (.ok ⟨#[0, 0, 0]⟩) =
      .error (.unloadable "three.rom" (.misalignedImage 3)) := rfl
  have hrespond : respond ["three.rom"] (fun _ => .ok ⟨#[0, 0, 0]⟩) .never =
      (⟨"three.rom", {}, false⟩ : Invocation).fail
        (.unloadable "three.rom" (.misalignedImage 3)) := by
    rw [respond_eq_execute hparse]
    exact (Invocation.FailsBy.load hload).execute_eq
  obtain ⟨failure, hfails, hsame⟩ := hsession ["three.rom"] _ (fun _ => .ok ⟨#[0, 0, 0]⟩) .never
    hparse (congrArg Outcome.code? hrespond)
  obtain rfl : failure = .unloadable "three.rom" (.misalignedImage 3) := by
    cases hfails with
    | load h => exact Except.error.inj (h.symm.trans hload)
    | run h => cases h.symm.trans hload
  intro arguments inv read interrupt failure hparse' hfails' hstderr
  refine hsame _ _ _ _ _ hparse' hfails' (hstderr.trans ?_)
  rw [hrespond]
  rfl

end CommandLine

end RegisterMachine
