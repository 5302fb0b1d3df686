/-!
# Signals

A signal has a number and a name, and most of them end the process that they come to.
-/

namespace Briefing.Shell.Signal

/-- Signals by their numbers: the name, and what is said about a process that one ended. -/
def table : List (Nat × String × String) :=
  [(1, "HUP", "Hangup"), (2, "INT", ""), (3, "QUIT", "Quit"), (4, "ILL", "Illegal instruction"),
    (5, "TRAP", "Trace/breakpoint trap"), (6, "ABRT", "Aborted"), (7, "BUS", "Bus error"),
    (8, "FPE", "Floating point exception"), (9, "KILL", "Killed"),
    (10, "USR1", "User defined signal 1"), (11, "SEGV", "Segmentation fault"),
    (12, "USR2", "User defined signal 2"), (13, "PIPE", ""), (14, "ALRM", "Alarm clock"),
    (15, "TERM", "Terminated"), (16, "STKFLT", "Stack fault"), (17, "CHLD", ""),
    (18, "CONT", ""), (19, "STOP", ""), (20, "TSTP", ""), (21, "TTIN", ""), (22, "TTOU", ""),
    (23, "URG", ""), (24, "XCPU", "CPU time limit exceeded"),
    (25, "XFSZ", "File size limit exceeded"), (26, "VTALRM", "Virtual timer expired"),
    (27, "PROF", "Profiling timer expired"), (28, "WINCH", ""), (29, "IO", "I/O possible"),
    (30, "PWR", "Power failure"), (31, "SYS", "Bad system call")]

/-- The name of a signal. -/
def name? (signal : Nat) : Option String := (table.lookup signal).map (·.1)

/-- The line that is written about a process that a signal ended, or nothing. -/
def notice (signal : Nat) : String :=
  match table.lookup signal with
  | some (_, words) => if words.isEmpty then "" else words ++ "\n"
  | none => ""

/-- The signals that end no process that does not expect them. -/
def harmless : List Nat := [0, 17, 18, 19, 20, 21, 22, 23, 28]

/-- The signal of a name. -/
def ofName? (name : String) : Option Nat :=
  (table.find? fun (_, other, _) => other = name).map (·.1)

end Briefing.Shell.Signal
