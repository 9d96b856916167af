import Mathlib
import RegisterMachine.Proofs.Image
import RegisterMachine.Proofs.Numerals
import RegisterMachine.Proofs.Stages

/-!
# Reports as data

A report is read back from its text.  The text falls apart into its lines, because no line has a
line feed in it; the first letter of a line tells what it is about; and a line tells its numbers,
because each of them ends where the first character stands that is no digit.  So runs with the same
report ended in the same way, with the same counts and with the same registers, and there is one
line for each register, which shows its word in two ways.

That `String.toInt?` reads decimal numerals back is a lemma that no part of Mathlib brings along, so
here all of it is imported.

## Main definitions

* `textLines` : the lines of a text;
* `isSkippedLine` and `isRegisterLine` : lines by their first letter;
* `Word.ShownAs` : a decimal numeral and a hexadecimal one that both stand for a word;
* `Invocation.Exits` : a run of an image that ends without a fault.

## Main statements

* `textLines_report` : the lines of a report;
* `registerLine_shows` : the line of a register shows its word;
* `report_eq_iff` : what is known from the text of a report;
* `respond_report_lossless` : so it is with what a session prints behind the banner.
-/

namespace RegisterMachine

/-- Both numerals stand for the word: the decimal one for its signed value, and the hexadecimal one,
of eight digits, for the unsigned value that is the same modulo `2 ^ 32`. -/
structure Word.ShownAs (w : Word) (decimal hexadecimal : String) : Prop where
  /-- The signed value. -/
  decimal_eq : decimal.toInt? = some w.toInt
  /-- Eight digits. -/
  length_eq : hexadecimal.toList.length = 8
  /-- The digits are decimal ones and upper-case letters. -/
  mem_alphabet : ∀ c ∈ hexadecimal.toList, c ∈ Hexadecimal.alphabet
  /-- The unsigned value. -/
  value_eq : (Hexadecimal.value hexadecimal.toList : Int) = w.toInt % 2 ^ 32

theorem Status.name_injective : Function.Injective Status.name := by
  intro status status' h
  cases status <;> cases status' <;> first | rfl | exact absurd h (by decide)

namespace CommandLine

variable {exit exit' : Exit} {status status' : Status} {value value' : Word} {id : Nat}
  {lines : List String}

/-- The lines of a text that ends with a line feed. -/
def textLines (text : String) : List String :=
  ((text.toList.splitOn '\n').dropLast).map String.ofList

/-- The line tells how many unknown opcodes were passed over. -/
def isSkippedLine (line : String) : Bool :=
  line.toList.head? == some 's'

/-- The line is that of a register. -/
def isRegisterLine (line : String) : Bool :=
  line.toList.head? == some 'r'

/-! ### Lines of texts -/

/-- **Lines that have no line feed in them are found again in the text.** -/
theorem textLines_join (h : ∀ line ∈ lines, '\n' ∉ line.toList) :
    textLines (String.join (lines.map (· ++ "\n"))) = lines := by
  induction lines with
  | nil => rfl
  | cons line lines ih =>
    obtain ⟨hline, hlines⟩ := List.forall_mem_cons.1 h
    have htext : (String.join ((line :: lines).map (· ++ "\n"))).toList =
        line.toList ++ '\n' :: (String.join (lines.map (· ++ "\n"))).toList := by
      simp [String.join_cons]
    rw [textLines, htext, List.splitOn_append_cons_self_of_not_mem hline,
      List.dropLast_cons_of_ne_nil (List.splitOn_ne_nil _ _), List.map_cons, String.ofList_toList]
    exact congrArg (line :: ·) (ih hlines)

theorem not_mem_endingLine (exit : Exit) (status : Status) :
    '\n' ∉ (endingLine exit status).toList := by
  have hsteps := not_mem_toString_nat (c := '\n') (by decide) exit.steps
  have hname : '\n' ∉ status.name.toList := by cases status <;> decide
  unfold endingLine
  cases exit.reason with
  | terminated =>
    simp only [String.toList_append, List.mem_append, not_or]
    exact ⟨⟨by decide, hsteps⟩, by decide⟩
  | cancelled =>
    simp only [String.toList_append, List.mem_append, not_or]
    exact ⟨⟨⟨⟨by decide, hsteps⟩, by decide⟩, hname⟩, by decide⟩

theorem not_mem_skippedLine (skipped : Nat) : '\n' ∉ (skippedLine skipped).toList := by
  have hskipped := not_mem_toString_nat (c := '\n') (by decide) skipped
  simp only [skippedLine, String.toList_append, List.mem_append, not_or]
  exact ⟨⟨by decide, hskipped⟩, by decide⟩

theorem not_mem_registerLine (value : Word) (id : Nat) : '\n' ∉ (registerLine value id).toList := by
  have hid := not_mem_toString_nat (c := '\n') (by decide) id
  have hvalue := not_mem_toString_int (c := '\n') (by decide) (by decide) value.toInt
  have hpadded : '\n' ∉ (Hexadecimal.padded 8 value.toUInt32.toNat).toList := fun hmem =>
    absurd (Hexadecimal.mem_alphabet_of_mem_padded hmem) (by decide)
  simp only [registerLine, String.toList_append, List.mem_append, not_or]
  exact ⟨⟨⟨⟨⟨⟨by decide, hid⟩, by decide⟩, hvalue⟩, by decide⟩, hpadded⟩, by decide⟩

/-- **The lines of a report.** -/
theorem textLines_report (exit : Exit) (status : Status) :
    textLines (report exit status) = reportLines exit status := by
  refine textLines_join fun line hline => ?_
  rw [reportLines, List.cons_append, List.mem_cons, List.mem_append] at hline
  rcases hline with rfl | hline | hline
  · exact not_mem_endingLine exit status
  · split at hline
    · cases hline
    · rw [List.mem_singleton.1 hline]
      exact not_mem_skippedLine exit.skipped
  · obtain ⟨id, hid, rfl⟩ := List.mem_mapIdx.1 hline
    exact not_mem_registerLine _ id

/-! ### Lines by their first letter -/

theorem head?_endingLine (exit : Exit) (status : Status) :
    (endingLine exit status).toList.head? =
      some (match exit.reason with | .terminated => 't' | .cancelled => 'c') := by
  unfold endingLine
  cases exit.reason <;> simp only [String.toList_append] <;> rfl

theorem head?_skippedLine (skipped : Nat) : (skippedLine skipped).toList.head? = some 's' := by
  simp only [skippedLine, String.toList_append]
  rfl

theorem head?_registerLine (value : Word) (id : Nat) :
    (registerLine value id).toList.head? = some 'r' := by
  simp only [registerLine, String.toList_append]
  rfl

theorem isSkippedLine_endingLine (exit : Exit) (status : Status) :
    isSkippedLine (endingLine exit status) = false := by
  rw [isSkippedLine, head?_endingLine]
  cases exit.reason <;> rfl

theorem isRegisterLine_endingLine (exit : Exit) (status : Status) :
    isRegisterLine (endingLine exit status) = false := by
  rw [isRegisterLine, head?_endingLine]
  cases exit.reason <;> rfl

theorem filter_isSkippedLine_reportLines (exit : Exit) (status : Status) :
    (reportLines exit status).filter isSkippedLine =
      if exit.skipped = 0 then [] else [skippedLine exit.skipped] := by
  have hregisters : (exit.registers.cells.toList.mapIdx fun id value =>
      registerLine value id).filter isSkippedLine = [] := by
    refine List.filter_eq_nil_iff.2 fun line hline => ?_
    obtain ⟨id, hid, rfl⟩ := List.mem_mapIdx.1 hline
    rw [isSkippedLine, head?_registerLine]
    decide
  rw [reportLines, List.cons_append,
    List.filter_cons_of_neg (ne_true_of_eq_false (isSkippedLine_endingLine exit status)),
    List.filter_append, hregisters, List.append_nil]
  split
  · rfl
  · rw [List.filter_cons_of_pos, List.filter_nil]
    rw [isSkippedLine, head?_skippedLine]
    rfl

/-- Unknown opcodes are told of if there were any. -/
theorem exists_isSkippedLine_iff :
    (∃ line ∈ reportLines exit status, isSkippedLine line = true) ↔ 0 < exit.skipped := by
  have hlines := filter_isSkippedLine_reportLines exit status
  constructor
  · rintro ⟨line, hline, hskipped⟩
    have hmem := List.mem_filter.2 ⟨hline, hskipped⟩
    rw [hlines] at hmem
    split at hmem
    · cases hmem
    · omega
  · intro hpos
    have hmem : skippedLine exit.skipped ∈ (reportLines exit status).filter isSkippedLine := by
      rw [hlines, if_neg (Nat.ne_of_gt hpos)]
      exact List.mem_singleton_self _
    exact ⟨_, List.mem_filter.1 hmem⟩

theorem filter_isRegisterLine_reportLines (exit : Exit) (status : Status) :
    (reportLines exit status).filter isRegisterLine =
      exit.registers.cells.toList.mapIdx fun id value => registerLine value id := by
  have hskipped : (if exit.skipped = 0 then [] else [skippedLine exit.skipped]).filter
      isRegisterLine = [] := by
    split
    · rfl
    · rw [List.filter_cons_of_neg, List.filter_nil]
      rw [isRegisterLine, head?_skippedLine]
      decide
  rw [reportLines, List.cons_append,
    List.filter_cons_of_neg (ne_true_of_eq_false (isRegisterLine_endingLine exit status)),
    List.filter_append, hskipped, List.nil_append]
  refine List.filter_eq_self.2 fun line hline => ?_
  obtain ⟨id, hid, rfl⟩ := List.mem_mapIdx.1 hline
  rw [isRegisterLine, head?_registerLine]
  rfl

/-! ### Lines tell their numbers -/

theorem endingLine_inj (h : endingLine exit status = endingLine exit' status') :
    exit.reason = exit'.reason ∧ exit.steps = exit'.steps ∧
      (exit.reason = .cancelled → status = status') := by
  have hletter := congrArg (fun line : String => line.toList.head?) h
  simp only [head?_endingLine] at hletter
  unfold endingLine at h
  cases hreason : exit.reason with
  | terminated =>
    cases hreason' : exit'.reason with
    | cancelled => simp [hreason, hreason'] at hletter
    | terminated =>
      simp only [hreason, hreason', String.append_left_inj, String.append_right_inj,
        toString_nat_inj] at h
      exact ⟨rfl, h, fun hcancelled => by cases hcancelled⟩
  | cancelled =>
    cases hreason' : exit'.reason with
    | terminated => simp [hreason, hreason'] at hletter
    | cancelled =>
      simp only [hreason, hreason', String.append_assoc, String.append_right_inj] at h
      obtain ⟨hsteps, h⟩ :=
        toString_nat_append_inj (c := ' ') (by decide) (by simp) (by simp) h
      rw [String.append_right_inj, String.append_left_inj] at h
      exact ⟨rfl, hsteps, fun _ => Status.name_injective h⟩

theorem skippedLine_inj {skipped skipped' : Nat} (h : skippedLine skipped = skippedLine skipped') :
    skipped = skipped' := by
  rw [skippedLine, skippedLine] at h
  exact between_toString_nat_inj.1 h

theorem registerLine_inj (h : registerLine value id = registerLine value' id) : value = value' := by
  simp only [registerLine, String.append_assoc, String.append_right_inj] at h
  obtain ⟨hvalue, -⟩ :=
    toString_int_append_inj (c := ' ') (by decide) (by decide) (by simp) (by simp) h
  exact Int32.toInt_inj.1 hvalue

/-- **The line of a register shows its word** in both numerals. -/
theorem registerLine_shows (value : Word) (id : Nat) :
    ∃ decimal hexadecimal, registerLine value id =
        "r" ++ toString id ++ " = " ++ decimal ++ " (0x" ++ hexadecimal ++ ")" ∧
      value.ShownAs decimal hexadecimal := by
  have hlt : value.toUInt32.toNat < 16 ^ 8 := value.toUInt32.toNat_lt
  refine ⟨toString value.toInt, Hexadecimal.padded 8 value.toUInt32.toNat, rfl, ?_⟩
  constructor
  case decimal_eq => exact Int.toInt?_repr value.toInt
  case length_eq => exact Hexadecimal.length_padded (by decide) hlt
  case mem_alphabet => exact fun c hc => Hexadecimal.mem_alphabet_of_mem_padded hc
  case value_eq =>
    rw [Hexadecimal.value_padded]
    exact Word.natCast_toNat_toUInt32 value

/-! ### Reports tell their runs -/

theorem skipped_eq_of_reportLines_eq (h : reportLines exit status = reportLines exit' status') :
    exit.skipped = exit'.skipped := by
  have hlines := congrArg (List.filter isSkippedLine) h
  rw [filter_isSkippedLine_reportLines, filter_isSkippedLine_reportLines] at hlines
  split at hlines <;> split at hlines
  · omega
  · cases hlines
  · cases hlines
  · exact skippedLine_inj (List.cons.inj hlines).1

theorem registers_eq_of_reportLines_eq (h : reportLines exit status = reportLines exit' status') :
    exit.registers = exit'.registers := by
  have hlines := congrArg (List.filter isRegisterLine) h
  rw [filter_isRegisterLine_reportLines, filter_isRegisterLine_reportLines] at hlines
  have hcells : exit.registers.cells.toList = exit'.registers.cells.toList := by
    refine List.ext_getElem? fun id => ?_
    have hline := congrArg (fun lines : List String => lines[id]?) hlines
    simp only [List.getElem?_mapIdx] at hline
    exact Option.map_injective (fun _ _ => registerLine_inj) hline
  exact congrArg Bank.mk (Array.toList_inj.1 hcells)

/-- **A report tells everything about the run**, but the status of a machine that has terminated,
which is known. -/
theorem report_eq_iff :
    report exit status = report exit' status' ↔
      exit = exit' ∧ (exit.reason = .cancelled → status = status') := by
  constructor
  · intro h
    have hlines : reportLines exit status = reportLines exit' status' := by
      rw [← textLines_report, h, textLines_report]
    obtain ⟨hreason, hsteps, hstatus⟩ := endingLine_inj (List.cons.inj hlines).1
    have hskipped := skipped_eq_of_reportLines_eq hlines
    have hregisters := registers_eq_of_reportLines_eq hlines
    refine ⟨?_, hstatus⟩
    cases exit
    cases exit'
    subst hreason hsteps hskipped hregisters
    rfl
  · rintro ⟨rfl, hstatus⟩
    have hending : endingLine exit status = endingLine exit status' := by
      unfold endingLine
      cases hreason : exit.reason with
      | terminated => rfl
      | cancelled => rw [hstatus hreason]
    unfold report reportLines
    rw [hending]

/-! ### Sessions -/

namespace Invocation

variable {inv : Invocation} {content : Except ReadError ByteArray} {interrupt : Cancellation}

/-- The run of an image, with this content of its file and with this interrupt, ends without a
fault.  This is what it leaves behind, with the machine in this status. -/
def Exits (inv : Invocation) (content : Except ReadError ByteArray) (interrupt : Cancellation)
    (exit : Exit) (status : Status) : Prop :=
  ∃ rom m m', inv.Prepares content rom m ∧ m.run rom.words interrupt = (.exited exit, m') ∧
    m'.status = status

theorem Exits.execute_eq (h : inv.Exits content interrupt exit status) :
    inv.execute content interrupt =
      { code? := some 0, stdout := inv.banner ++ report exit status } := by
  obtain ⟨rom, m, m', hprepares, hrun, rfl⟩ := h
  rw [hprepares.execute_eq, hrun]

theorem exists_exits_of_code? (h : (inv.execute content interrupt).code? = some 0) :
    ∃ exit status, inv.Exits content interrupt exit status := by
  have hends := inv.ends_execute content interrupt
  generalize inv.execute content interrupt = outcome at h hends
  cases hends with
  | exited hprepares hrun => exact ⟨_, _, _, _, _, hprepares, hrun, rfl⟩
  | unreadable | unloadable | misconfigured | faulted | waiting => cases h

/-- A run leaves the registers of its machine behind, which are as many as were configured. -/
theorem Exits.size_registers (h : inv.Exits content interrupt exit status) :
    exit.registers.size = inv.config.registers := by
  obtain ⟨rom, m, m', hprepares, hrun, -⟩ := h
  obtain rfl := (Machine.Built.ofConfig hprepares.builds).eq_powerOn
  have hm' := (Machine.Invariant.powerOn inv.config).call (.run rom.words interrupt)
  obtain ⟨k, m'', -, hends⟩ := Machine.exists_run_ends (.powerOn inv.config) rom.words interrupt
  rw [Machine.call, hrun] at hm'
  rw [hrun] at hends
  change m''.Ends rom.words (interrupt.after k) (.exited exit) m' at hends
  cases hends with
  | cancelled | terminated | halted => exact hm'.registers_size

end Invocation

/-- **The report loses nothing.**  What a session that runs an image prints behind the banner, when
it succeeds, has one line for each configured register, in their order.  That line shows the word
in the register by a decimal numeral and by a hexadecimal one.  There is a line about unknown
opcodes if any were passed over, and only then.  And no other run, whatever its configuration, its
program and its interrupt, prints the same and has another reason for its end, other counts or other
registers, or, when it was cancelled, another status. -/
theorem respond_report_lossless {arguments : List String} {inv : Invocation}
    (hparse : Request.parse arguments = .ok (.run inv))
    (read : String → Except ReadError ByteArray) (interrupt : Cancellation)
    (hcode : (respond arguments read interrupt).code? = some 0) :
    ∃ exit status text,
      inv.Exits (read inv.path) interrupt exit status ∧
      (respond arguments read interrupt).stdout = inv.banner ++ text ∧
      ((textLines text).filter isRegisterLine).length = inv.config.registers ∧
      (∀ id < inv.config.registers, ∃ value decimal hexadecimal,
        exit.registers.cells[id]? = some value ∧
        ((textLines text).filter isRegisterLine)[id]? =
          some ("r" ++ toString id ++ " = " ++ decimal ++ " (0x" ++ hexadecimal ++ ")") ∧
        value.ShownAs decimal hexadecimal) ∧
      ((∃ line ∈ textLines text, isSkippedLine line = true) ↔ 0 < exit.skipped) ∧
      ∀ arguments' inv' read' interrupt' exit' status',
        Request.parse arguments' = .ok (.run inv') →
        inv'.Exits (read' inv'.path) interrupt' exit' status' →
        (respond arguments' read' interrupt').stdout = inv'.banner ++ text →
          exit' = exit ∧ (exit.reason = .cancelled → status' = status) := by
  rw [respond_eq_execute hparse] at hcode ⊢
  obtain ⟨exit, status, hexits⟩ := Invocation.exists_exits_of_code? hcode
  refine ⟨exit, status, report exit status, hexits, ?_⟩
  rw [hexits.execute_eq, textLines_report, filter_isRegisterLine_reportLines, List.length_mapIdx]
  refine ⟨rfl, hexits.size_registers, ?_, ?_, ?_⟩
  · intro id hid
    rw [← hexits.size_registers] at hid
    obtain ⟨decimal, hexadecimal, hline, hshown⟩ := registerLine_shows exit.registers.cells[id] id
    refine ⟨_, decimal, hexadecimal, Array.getElem?_eq_getElem hid, ?_, hshown⟩
    rw [List.getElem?_mapIdx, Array.getElem?_toList, Array.getElem?_eq_getElem hid, Option.map_some,
      hline]
  · exact exists_isSkippedLine_iff
  · intro arguments' inv' read' interrupt' exit' status' hparse' hexits' hstdout
    rw [respond_eq_execute hparse', hexits'.execute_eq] at hstdout
    have hreports := (String.append_right_inj inv'.banner).1 hstdout
    obtain ⟨rfl, hstatus⟩ := report_eq_iff.1 hreports
    exact ⟨rfl, hstatus⟩

/-- The second of two registers gets the largest unsigned word, and an unknown opcode is passed over
before the program ends. -/
theorem respond_report_lossless_minus_one :
    ∃ text, text = "terminated after 3 instructions\nskipped 1 unknown opcodes\n" ++
        "r0 = 0 (0x00000000)\nr1 = -1 (0xFFFFFFFF)\n" ∧
      respond ["--registers", "2", "minus_one.rom"]
          (fun _ => .ok (Program.toBytes #[0x01, 1, -1, 0, 0x42, 0, 0, 0, 0xFF, 0, 0, 0])) .never =
        { code? := some 0, stdout := "rgcpu 0.1.0\n" ++ text } ∧
      ((textLines text).filter isRegisterLine).length = 2 ∧
      ∃ line ∈ textLines text, isSkippedLine line = true := by
  have hparse : Request.parse ["--registers", "2", "minus_one.rom"] =
    .ok (.run ⟨"minus_one.rom", { registers := 2 }, false⟩) := rfl
  have hrun : (Machine.powerOn { registers := 2 }).run
      #[0x01, 1, -1, 0, 0x42, 0, 0, 0, 0xFF, 0, 0, 0] .never =
      (.exited ⟨.terminated, ⟨#[0, -1]⟩, 3, 1⟩,
        (((Machine.powerOn { registers := 2 }).commit (.write 1 (-1))).commit .skip).commit
          (.stop .terminated)) := by
    rw [Machine.run_eq]
    change Machine.run ((Machine.powerOn { registers := 2 }).commit (.write 1 (-1))) _ .never = _
    rw [Machine.run_eq]
    change Machine.run
      (((Machine.powerOn { registers := 2 }).commit (.write 1 (-1))).commit .skip) _ .never = _
    rw [Machine.run_eq]
    rfl
  have hexits : (⟨"minus_one.rom", { registers := 2 }, false⟩ : Invocation).Exits
      (.ok (Program.toBytes #[0x01, 1, -1, 0, 0x42, 0, 0, 0, 0xFF, 0, 0, 0])) .never
      ⟨.terminated, ⟨#[0, -1]⟩, 3, 1⟩ .terminated :=
    ⟨⟨#[0x01, 1, -1, 0, 0x42, 0, 0, 0, 0xFF, 0, 0, 0], rfl⟩, _, _,
      ⟨⟨_, rfl, Rom.ofBytes_toBytes _ _⟩, rfl⟩, hrun, rfl⟩
  have hrespond : respond ["--registers", "2", "minus_one.rom"]
      (fun _ => .ok (Program.toBytes #[0x01, 1, -1, 0, 0x42, 0, 0, 0, 0xFF, 0, 0, 0])) .never =
      { code? := some 0,
        stdout := "rgcpu 0.1.0\n" ++ report ⟨.terminated, ⟨#[0, -1]⟩, 3, 1⟩ .terminated } := by
    rw [respond, hparse]
    exact hexits.execute_eq
  obtain ⟨exit, status, text, -, htext, hcount, -, hskipped, hsame⟩ :=
    respond_report_lossless hparse _ .never (congrArg Outcome.code? hrespond)
  obtain ⟨rfl, -⟩ := hsame _ _ _ _ _ _ hparse hexits htext
  rw [hrespond] at htext
  rw [← (String.append_right_inj "rgcpu 0.1.0\n").1 htext] at hcount hskipped
  exact ⟨_, by decide, hrespond, hcount, hskipped.2 (by decide)⟩

end CommandLine

end RegisterMachine
