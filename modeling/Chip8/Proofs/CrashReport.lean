/-
Chip8.Proofs.CrashReport — a crash report shows every register.

The report of a crash is the error and three lines, with the counters and
the two halves of the register file. Taken together the three lines are 21
columns (`reportColumns`): the break between two lines, with what stands at
the front of the next one, belongs to the label of its first register. By
Chip8.Proofs.Columns the numbers are read back whatever their widths, so
four hexadecimal digits of the program counter do no harm where three are
usual, and a report gives back the values it was made of
(`Logger.readCrash?_crashText`).

Without time stamps all lines have one front, which depends on the logger
alone and not on the time (`Logger.line_eq_front`).
-/
import Chip8.Log.Checked
import Chip8.Proofs.Columns

namespace Chip8

open Text (Column Breaks)

/-! ## The columns of a report -/

/-- A number in hexadecimal behind a label. -/
def hexColumn (label : String) (h : Breaks label.toList) (width : Nat) (value : State → Nat) :
    Column State where
  label := label
  base := 16
  value := value
  numeral s := Text.hex width (value s)
  base_bounds := by decide
  numeral_shows s := Text.shows_hex width (value s)
  label_breaks := h

/-- A number in base ten behind a label. -/
def decimalColumn (label : String) (h : Breaks label.toList) (value : State → Nat) :
    Column State where
  label := label
  base := 10
  value := value
  numeral s := Text.decimal (value s)
  base_bounds := by decide
  numeral_shows s := Text.shows_decimal (value s)
  label_breaks := h

/-- The columns of program counter, address register, stack pointer and timers. -/
def counterColumns : List (Column State) :=
  [hexColumn "PC: 0x" ⟨'P', _, rfl, by decide⟩ 3 fun s => s.pc.toNat,
    hexColumn "  I: 0x" ⟨' ', _, rfl, by decide⟩ 3 fun s => s.index.toNat,
    decimalColumn "  SP: " ⟨' ', _, rfl, by decide⟩ fun s => s.stack.pointer.val,
    decimalColumn "  DT: " ⟨' ', _, rfl, by decide⟩ fun s => s.delayTimer.toNat,
    decimalColumn "  ST: " ⟨' ', _, rfl, by decide⟩ fun s => s.soundTimer.toNat]

/-- What stands before a register: the first one of a half begins a line. -/
def registerLead (front : String) (k : Fin 16) : String :=
  if k.val % 8 = 0 then "\n" ++ front else "  "

theorem breaks_registerLead (front : String) (k : Fin 16) :
    Breaks (registerLead front k).toList := by
  unfold registerLead
  split
  · exact ⟨'\n', front.toList, String.toList_append, by decide⟩
  · exact ⟨' ', _, rfl, by decide⟩

/-- The text of a register in its line. -/
def registerLabel (k : Fin 16) : String := "V" ++ Text.hex 1 k.val ++ ":"

/-- The column of a register. -/
def registerColumn (front : String) (k : Fin 16) : Column State :=
  hexColumn (registerLead front k ++ registerLabel k)
    (String.toList_append ▸ (breaks_registerLead front k).append _) 2 fun s => (s.register k).toNat

/-- The columns of a report whose lines have a front: the counters, then the registers. -/
def reportColumns (front : String) : List (Column State) :=
  counterColumns ++ (List.finRange 16).map (registerColumn front)

/-! ## The text of the columns -/

theorem write_counterColumns (s : State) :
    Column.write counterColumns s = s.counterLine.toList := by
  -- The line is unfolded as it stands; its equation takes long to be made.
  delta State.counterLine
  simp [Column.write, counterColumns, hexColumn, decimalColumn]

/-- The separator of texts stands before each but the first. -/
theorem intercalate_cons {α : Type} (separator first : List α) (others : List (List α)) :
    separator.intercalate (first :: others) = first ++ others.flatMap (separator ++ ·) := by
  induction others generalizing first with
  | nil => simp
  | cons next others ih =>
    rw [List.intercalate_cons_cons, ih, List.flatMap_cons, List.append_assoc, List.append_assoc]

/-- The text of a register column. -/
def registerText (s : State) (k : Fin 16) : String :=
  registerLabel k ++ Text.hex 2 (s.register k).toNat

theorem registerColumn_text (front : String) (s : State) (k : Fin 16) :
    (registerColumn front k).label.toList ++ ((registerColumn front k).numeral s).toList =
      (registerLead front k).toList ++ (registerText s k).toList := by
  simp only [registerColumn, hexColumn, registerText, String.toList_append, List.append_assoc]

/-- The columns of a half of the registers are a line break, the front and the line of this half. -/
theorem write_registerColumns (front : String) (s : State) {half : Nat} {first : Fin 16}
    {others : List (Fin 16)}
    (hkeys : ((List.finRange 16).filter fun k => k.val / 8 = half) = first :: others)
    (hfirst : first.val % 8 = 0) (hothers : ∀ k ∈ others, ¬ k.val % 8 = 0) :
    Column.write ((first :: others).map (registerColumn front)) s =
      "\n".toList ++ front.toList ++ (s.registerLine half).toList := by
  have hline : (s.registerLine half).toList = (registerText s first).toList ++
      others.flatMap fun k => "  ".toList ++ (registerText s k).toList := by
    rw [State.registerLine, hkeys, List.map_cons, String.toList_intercalate, List.map_cons,
      intercalate_cons, List.map_map, List.flatMap_map]
    simp only [registerText, registerLabel, Function.comp_apply, String.append_assoc]
  have hrest : Column.write (others.map (registerColumn front)) s =
      others.flatMap fun k => "  ".toList ++ (registerText s k).toList := by
    rw [Column.write, List.flatMap_map]
    refine List.flatMap_congr fun k hk => ?_
    rw [registerColumn_text, registerLead, if_neg (hothers k hk)]
  rw [List.map_cons, Column.write_cons, hrest, hline, registerColumn_text, registerLead,
    if_pos hfirst, String.toList_append]
  simp only [List.append_assoc]

/-- The columns of a report are its three lines behind the error. -/
theorem write_reportColumns (front : String) (s : State) :
    Column.write (reportColumns front) s = (s.counterLine ++ "\n" ++ front ++ s.registerLine 0 ++
      "\n" ++ front ++ s.registerLine 1).toList := by
  have hlow : ((List.finRange 16).filter fun k => k.val / 8 = 0) = 0 :: [1, 2, 3, 4, 5, 6, 7] := by
    decide
  have hhigh : ((List.finRange 16).filter fun k => k.val / 8 = 1) =
      8 :: [9, 10, 11, 12, 13, 14, 15] := by
    decide
  have hall : List.finRange 16 =
      (0 :: [1, 2, 3, 4, 5, 6, 7]) ++ (8 :: [9, 10, 11, 12, 13, 14, 15]) := by
    decide
  have hzero := write_registerColumns front s hlow (by decide) (by decide)
  have hone := write_registerColumns front s hhigh (by decide) (by decide)
  rw [reportColumns, hall, List.map_append, Column.write_append, Column.write_append,
    write_counterColumns, hzero, hone]
  simp only [String.toList_append, List.append_assoc]

/-! ## Dumps -/

/-- What a crash report shows of a state. -/
structure Dump where
  pc : Nat
  index : Nat
  stackPointer : Nat
  delayTimer : Nat
  soundTimer : Nat
  registers : List Nat
deriving DecidableEq, Repr

/-- The dump whose numbers are listed, the registers last. -/
def Dump.ofNumbers? : List Nat → Option Dump
  | pc :: index :: stackPointer :: delayTimer :: soundTimer :: registers =>
    some ⟨pc, index, stackPointer, delayTimer, soundTimer, registers⟩
  | _ => none

/-- The dump of a state. -/
def State.dump (s : State) : Dump where
  pc := s.pc.toNat
  index := s.index.toNat
  stackPointer := s.stack.pointer.val
  delayTimer := s.delayTimer.toNat
  soundTimer := s.soundTimer.toNat
  registers := (List.finRange 16).map fun k => (s.register k).toNat

/-- The numbers in the columns of a report are those of the dump. -/
theorem ofNumbers?_reportColumns (front : String) (s : State) :
    Dump.ofNumbers? ((reportColumns front).map fun c => c.value s) = some s.dump := by
  rw [reportColumns, List.map_append, List.map_map]
  rfl

/-- States with one dump agree in all that a dump shows. -/
theorem State.eq_of_dump {s t : State} (h : s.dump = t.dump) :
    s.pc = t.pc ∧ s.index = t.index ∧ s.stack.pointer = t.stack.pointer ∧
      s.delayTimer = t.delayTimer ∧ s.soundTimer = t.soundTimer ∧
      ∀ k, s.register k = t.register k := by
  simp only [State.dump, Dump.mk.injEq] at h
  obtain ⟨hpc, hindex, hpointer, hdelay, hsound, hregisters⟩ := h
  refine ⟨UInt16.toNat_inj.mp hpc, UInt16.toNat_inj.mp hindex, Fin.ext hpointer,
    UInt8.toNat_inj.mp hdelay, UInt8.toNat_inj.mp hsound, fun k => ?_⟩
  exact UInt8.toNat_inj.mp (List.map_inj_left.mp hregisters k (List.mem_finRange k))

/-! ## The lines of a report -/

namespace Logger

variable (l : Logger)

/-- What stands at the front of the lines of errors. -/
def front : String := l.line 0 .error ""

/-- Without a time stamp a line is its front and its message, at any time. -/
theorem line_eq_front (hstamps : l.timestamps = false) (now : Number) (message : String) :
    l.line now .error message = l.front ++ message := by
  have hstamp : ∀ time, l.stamp time = "" := fun time => by rw [stamp, hstamps]; rfl
  simp only [front, line, body, hstamp, String.append_assoc, String.append_empty]

/-- The text of lines on a console. -/
def printed (lines : List String) : String := String.join (lines.map (· ++ "\n"))

/-- The text that is written when an error with a name and a message ends a machine in a state. -/
def crashText (now : Number) (kind message : String) (s : State) : Except LineError String :=
  (l.reportChecked now (.crashed kind message (some s))).map printed

/-- The first line of a report and the front of the second. -/
def crashHeader (kind message : String) : String :=
  l.front ++ kind ++ ": " ++ message ++ "\n" ++ l.front

/-- The dump in the text of a crash with a given error. -/
def readCrash? (kind message text : String) : Option Dump :=
  ((l.crashHeader kind message).toList.isPrefixOf? text.toList).bind fun body =>
    (Column.read? (reportColumns l.front) body).bind fun found =>
      if found.2 = ['\n'] then Dump.ofNumbers? found.1 else none

section

variable {l} (hwrites : l.writes .error = true) (hstamps : l.timestamps = false)

include hwrites hstamps

/-- A crash is reported in four lines. -/
theorem reportChecked_crashed (now : Number) (kind message : String) (s : State) :
    l.reportChecked now (.crashed kind message (some s)) =
      .ok [l.front ++ (kind ++ ": " ++ message), l.front ++ s.counterLine,
        l.front ++ s.registerLine 0, l.front ++ s.registerLine 1] := by
  have hstamp : l.checkStamp now = .ok () := by
    rw [checkStamp, hstamps]
    rfl
  have hlog : ∀ text, l.log now .error text = [l.front ++ text] := fun text => by
    rw [log, if_pos hwrites, line_eq_front l hstamps]
  have hreport : l.report now (.crashed kind message (some s)) =
      [l.front ++ (kind ++ ": " ++ message), l.front ++ s.counterLine,
        l.front ++ s.registerLine 0, l.front ++ s.registerLine 1] := by
    simp only [report, Report.lines, Report.level, List.flatMap_cons, List.flatMap_nil, hlog,
      List.singleton_append]
  simp only [reportChecked, Report.check, Report.level, hwrites, hstamp, hreport]
  rfl

/-- The text of a crash is the error, the columns of the dump and a line break. -/
theorem crashText_eq (now : Number) (kind message : String) (s : State) :
    ∃ text, l.crashText now kind message s = .ok text ∧
      text.toList = (l.crashHeader kind message).toList ++
        (Column.write (reportColumns l.front) s ++ ['\n']) := by
  rw [crashText, reportChecked_crashed hwrites hstamps]
  refine ⟨_, rfl, ?_⟩
  rw [write_reportColumns]
  simp only [printed, crashHeader, String.toList_join, List.map_cons, List.map_nil,
    List.flatMap_cons, List.flatMap_nil, String.toList_append, List.append_assoc, List.append_nil]
  rfl

/-- **A dump is read back** from the text of a crash. -/
theorem readCrash?_crashText (now : Number) (kind message : String) (s : State) :
    ∃ text, l.crashText now kind message s = .ok text ∧
      l.readCrash? kind message text = some s.dump := by
  obtain ⟨text, hcrash, htext⟩ := crashText_eq hwrites hstamps now kind message s
  have hbreak : Breaks ['\n'] := ⟨'\n', [], rfl, by decide⟩
  refine ⟨text, hcrash, ?_⟩
  rw [readCrash?, htext, Column.isPrefixOf?_append, Option.bind_some,
    Column.read?_write _ s hbreak, Option.bind_some, if_pos rfl, ofNumbers?_reportColumns]

/-- **A crash report loses no register.** Wherever errors are written, and without time stamps, the
text of a crash gives back the values of the state, whatever their widths. So states with the same
text, for one error, agree in the program counter, I, the stack pointer, both timers and all
registers. -/
theorem crash_report_lossless (kind message : String) :
    (∀ now s, ∃ text, l.crashText now kind message s = .ok text ∧
      l.readCrash? kind message text = some s.dump) ∧
    ∀ now now' (s t : State), l.crashText now kind message s = l.crashText now' kind message t →
      s.pc = t.pc ∧ s.index = t.index ∧ s.stack.pointer = t.stack.pointer ∧
        s.delayTimer = t.delayTimer ∧ s.soundTimer = t.soundTimer ∧
        ∀ k, s.register k = t.register k := by
  refine ⟨fun now s => readCrash?_crashText hwrites hstamps now kind message s,
    fun now now' s t h => State.eq_of_dump ?_⟩
  obtain ⟨text, hs, hread⟩ := readCrash?_crashText hwrites hstamps now kind message s
  obtain ⟨text', ht, hread'⟩ := readCrash?_crashText hwrites hstamps now' kind message t
  have htext : text = text' := Except.ok.inj (hs.symm.trans (h.trans ht))
  rw [htext, hread'] at hread
  exact (Option.some.inj hread).symm

end

/-- A logger that writes errors and what is graver, in colour. -/
def errorsOnly : Logger :=
  { name := "Machine", level := .error, colors := true, timestamps := false, created := 0 }

/-- A program counter of four digits is read back, and its text is not that of the counter with the
last three of them. -/
theorem crash_report_of_four_digits :
    let s := { State.initial ⟨0, 0⟩ with pc := 0x1002 }
    let t := { State.initial ⟨0, 0⟩ with pc := 0x0002 }
    errorsOnly.writes .error = true ∧ errorsOnly.timestamps = false ∧
      ∃ text, errorsOnly.crashText 0 "MemoryAccessError" "Memory" s = .ok text ∧
        (errorsOnly.readCrash? "MemoryAccessError" "Memory" text).map Dump.pc = some 0x1002 ∧
        errorsOnly.crashText 0 "MemoryAccessError" "Memory" t ≠ .ok text := by
  intro s t
  have hwrites : errorsOnly.writes .error = true := by decide
  obtain ⟨hread, hsame⟩ :=
    crash_report_lossless (l := errorsOnly) hwrites rfl "MemoryAccessError" "Memory"
  obtain ⟨text, htext, hdump⟩ := hread 0 s
  refine ⟨hwrites, rfl, text, htext, by rw [hdump]; rfl, fun h => ?_⟩
  exact absurd (hsame 0 0 s t (htext.trans h.symm)).1 (by decide)

end Logger

end Chip8
