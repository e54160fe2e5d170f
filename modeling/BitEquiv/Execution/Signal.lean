import BitEquiv.Text.Numeral

/-!
# Signals

The signals by which programs are ended, with their numbers, their names and the texts
that shells show for them.
-/

namespace BitEquiv
namespace Execution

structure Signal where
  number : Nat
  name : String
  text : String

namespace Signal

def all : List Signal := [
  ⟨1, "HUP", "Hangup"⟩,
  ⟨2, "INT", "Interrupt"⟩,
  ⟨3, "QUIT", "Quit"⟩,
  ⟨4, "ILL", "Illegal instruction"⟩,
  ⟨5, "TRAP", "Trace/breakpoint trap"⟩,
  ⟨6, "ABRT", "Aborted"⟩,
  ⟨7, "BUS", "Bus error"⟩,
  ⟨8, "FPE", "Floating point exception"⟩,
  ⟨9, "KILL", "Killed"⟩,
  ⟨10, "USR1", "User defined signal 1"⟩,
  ⟨11, "SEGV", "Segmentation fault"⟩,
  ⟨12, "USR2", "User defined signal 2"⟩,
  ⟨13, "PIPE", "Broken pipe"⟩,
  ⟨14, "ALRM", "Alarm clock"⟩,
  ⟨15, "TERM", "Terminated"⟩,
  ⟨16, "STKFLT", "Stack fault"⟩,
  ⟨17, "CHLD", "Child exited"⟩,
  ⟨18, "CONT", "Continued"⟩,
  ⟨19, "STOP", "Stopped (signal)"⟩,
  ⟨20, "TSTP", "Stopped"⟩,
  ⟨21, "TTIN", "Stopped (tty input)"⟩,
  ⟨22, "TTOU", "Stopped (tty output)"⟩,
  ⟨23, "URG", "Urgent I/O condition"⟩,
  ⟨24, "XCPU", "CPU time limit exceeded"⟩,
  ⟨25, "XFSZ", "File size limit exceeded"⟩,
  ⟨26, "VTALRM", "Virtual timer expired"⟩,
  ⟨27, "PROF", "Profiling timer expired"⟩,
  ⟨28, "WINCH", "Window changed"⟩,
  ⟨29, "IO", "I/O possible"⟩,
  ⟨30, "PWR", "Power failure"⟩,
  ⟨31, "SYS", "Bad system call"⟩]

def find? (number : Nat) : Option Signal := all.find? (·.number = number)

def describe (number : Nat) : String :=
  match find? number with
  | some s => s.text
  | none => "Signal " ++ Text.decimal number

/-- The number of a signal that is given by its name or its number; zero asks only
whether there is a program. -/
def number? (word : String) : Option Nat :=
  match Text.natural? word.toList with
  | some n => if n < 65 then some n else none
  | none =>
      let name := String.ofList (word.toList.map Char.toUpper)
      if name = "EXIT" then some 0 else (all.find? (·.name = name)).map (·.number)

def isFatal (number : Nat) : Bool :=
  !([0, 17, 18, 19, 20, 21, 22, 23, 28].contains number)

end Signal
end Execution
end BitEquiv
