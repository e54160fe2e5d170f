import BitEquiv.Bench.Subject
import BitEquiv.Execution.Tool
import BitEquiv.Proofs.Execution.Files
import BitEquiv.Proofs.Text.Blank

/-!
# What the stages report

A stage starts its tool on a tree without the file that the tool is to make. So a file that is
found there afterwards was made in this run, and the stage reports how the run ended and what it
left, for every host. A program under test that prints nothing may still leave a representation
that it was not told to write; the stage takes it.
-/

namespace BitEquiv
namespace Bench

open Execution (FileFault Files Outcome StartError Termination)

variable {output : String} {left files' : Files}

/-!
## The build stage
-/

/-- Why a tool that ran gave no binary. -/
def BuildFailure.ofRun : Except StartError Outcome → BuildFailure
  | .error _ => .spawn
  | .ok o =>
      if o.termination.wasKilled then .timeout
      else
        match o.termination.exitCode with
        | none => .signal
        | some code => if code = 0 then .missingOutput else .exitCode

/-- The result of a build accounts for the run of the compiler: how it ended, and the tree that it
left. -/
structure BuildArtifact.Reports (a : BuildArtifact) (output : String)
    (ran : Except StartError Outcome) (left : Files) : Prop where
  binary : a.binary = output
  success_iff : a.status = .success ↔
    (∃ o, ran = .ok o ∧ o.termination = .exited 0) ∧ left.isFile output = true
  failure : a.failure = if a.status = .success then none else some (.ofRun ran)
  exitCode_iff : ∀ code, a.exitCode = some code ↔
    ∃ o, ran = .ok o ∧ o.termination = .exited code ∧ (code = 0 → left.isFile output = true)
  hash : a.binaryHash = if a.status = .success then (left.read? output).map Text.sha256 else none

namespace Compiler

def started (k : Compiler) (c : Case) (workDir : String) (files : Files) :
    Except StartError Outcome × Files :=
  k.host.run (k.command c (binaryPath c workDir)) (k.limits c)
    (files.removeFile (binaryPath c workDir))

theorem notStarted_reports (c : Case) (output : String) (e : StartError) (left : Files) :
    (BuildArtifact.failed c.id output .spawn e.message 0).Reports output (.error e) left := by
  constructor <;> simp [BuildArtifact.failed, BuildFailure.ofRun]

theorem artifact_reports (c : Case) (output : String) (o : Outcome) (left : Files) :
    (artifact c output o left).Reports output (.ok o) left := by
  unfold artifact
  cases hended : o.termination with
  | exited code =>
      by_cases hcode : code = 0
      · subst hcode
        by_cases hfile : left.isFile output = true
        · constructor <;> simp [BuildArtifact.succeeded, hended, hfile]
        · constructor <;>
            simp [BuildArtifact.failed, BuildFailure.ofRun, Termination.wasKilled,
              Termination.exitCode, hended, hfile]
      · constructor <;>
          simp [BuildArtifact.failed, BuildFailure.ofRun, Termination.wasKilled,
            Termination.exitCode, hended, hcode]
  | signaled | timedOut | cpuExceeded | memoryExceeded =>
      constructor <;>
        simp [BuildArtifact.failed, BuildFailure.ofRun, Termination.wasKilled,
          Termination.exitCode, hended]

end Compiler

/-!
## The run stage
-/

def HoldsText (files : Files) (path : String) : Prop :=
  ∃ bytes text, files.read? path = some bytes ∧ Text.decode? bytes = some text ∧
    ∃ ch ∈ text, Text.isBlank ch = false

/-- A file that holds text can be written, so where nothing could be stored there is none. -/
theorem HoldsText.write?_ne_none {files : Files} {path : String} (h : HoldsText files path)
    (bytes : Text.Bytes) : files.write? path bytes ≠ none := by
  obtain ⟨old, text, hread, -⟩ := h
  obtain ⟨after, hafter⟩ := Files.exists_write? hread bytes
  rw [hafter]
  exact Option.some_ne_none after

/-- Why a command that ended well gives no representation, with the text that says so. A fault
of the files has the wording of the host. -/
inductive Lost (wording : FileFault → String) (toStdout : Bool) (output : String) (o : Outcome)
    (left files' : Files) : String → Prop where
  | unstored {fault : FileFault} (hmode : toStdout = true) (hout : o.stdout.bytes ≠ [])
      (hwrite : left.write output o.stdout.bytes = .error fault) :
      Lost wording toStdout output o left files' ("cannot store representation: " ++ wording fault)
  | cut (hmode : toStdout = true) (htruncated : o.stdout.truncated = true) :
      Lost wording toStdout output o left files' "representation exceeds the output limit"
  | blank (htext : ¬HoldsText files' output) :
      Lost wording toStdout output o left files' "no representation produced"

/-- The tree after a command that ended well: what it printed is stored where the representation
is read from its standard output. -/
inductive Stores (toStdout : Bool) (output : String) (o : Outcome) (left : Files) :
    Files → Prop where
  | printed {files' : Files} (hmode : toStdout = true) (hout : o.stdout.bytes ≠ [])
      (hwrite : left.write? output o.stdout.bytes = some files') :
      Stores toStdout output o left files'
  | kept (h : toStdout = true → o.stdout.bytes = [] ∨ left.write? output o.stdout.bytes = none) :
      Stores toStdout output o left left

/-- What was printed is what is read, where the tree holds a text at all. -/
theorem Stores.read? {toStdout : Bool} {o : Outcome}
    (h : Stores toStdout output o left files') (hmode : toStdout = true)
    (hout : o.stdout.bytes ≠ []) (htext : HoldsText files' output) :
    files'.read? output = some o.stdout.bytes := by
  cases h with
  | printed _ _ hwrite => exact Files.read?_of_write? hwrite
  | kept hkept =>
      rcases hkept hmode with hnone | hnone
      · exact absurd hnone hout
      · exact absurd hnone (htext.write?_ne_none _)

/-- The result of a run accounts for the run of the command: how it ended, the tree `left` that it
left, and the tree after what it printed was stored. -/
structure Emission.Reports (t : Emission) (wording : FileFault → String) (toStdout : Bool)
    (output : String) (ran : Except StartError Outcome) (left files' : Files) : Prop where
  completed_iff : t.status = .completed ↔
    ∃ o, ran = .ok o ∧ o.termination = .exited 0 ∧ HoldsText files' output ∧
      (toStdout = true → o.stdout.truncated = false ∧
        (o.stdout.bytes ≠ [] → files'.read? output = some o.stdout.bytes))
  timeout_iff : t.status = .timeout ↔
    ∃ o, ran = .ok o ∧ (o.termination = .timedOut ∨ ∃ s, o.termination = .cpuExceeded s)
  crashReason : t.status = .crashed → ∃ reason, t.crashReason = some reason ∧
    ((∃ e, ran = .error e ∧ reason = e.message) ∨
      ∃ o, ran = .ok o ∧ ((o.termination ≠ .exited 0 ∧ reason = o.termination.text) ∨
        (o.termination = .exited 0 ∧ Lost wording toStdout output o left files' reason)))
  exitCode_iff : ∀ code, code ≠ 0 →
    (t.exitCode = some code ↔ ∃ o, ran = .ok o ∧ o.termination = .exited code)
  signal_iff : ∀ signal,
    t.signal = some signal ↔ ∃ o, ran = .ok o ∧ o.termination = .signaled signal
  representation : t.representation = if t.status = .completed then some output else none
  stored : ∀ o, ran = .ok o → o.termination = .exited 0 → Stores toStdout output o left files'
  kept : (∀ o, ran = .ok o → o.termination ≠ .exited 0) → files' = left

namespace SubjectCommand

def started (t : SubjectCommand) (c : Case) (binary workDir : String) (files : Files) :
    Except StartError Outcome × Files :=
  t.host.run (t.command c binary (representationPath workDir)) (t.limits c)
    (files.removeFile (representationPath workDir))

theorem hasContent_iff {files : Files} {path : String} :
    hasContent files path = true ↔ HoldsText files path := by
  unfold hasContent HoldsText
  cases hread : files.read? path with
  | none => simp
  | some bytes =>
      cases hdecode : Text.decode? bytes with
      | none => simp [hdecode]
      | some text =>
          have htrim : (Text.trim text).isEmpty = false ↔ ∃ ch ∈ text, Text.isBlank ch = false := by
            rw [← Bool.not_eq_true, List.isEmpty_iff, Text.trim, Text.trimBy_eq_nil_iff]
            simp
          simpa [hdecode] using htrim

section Collect

variable {wording : FileFault → String} {toStdout : Bool} {o : Outcome}

theorem printed_iff : (toStdout && !o.stdout.bytes.isEmpty) = true ↔
    toStdout = true ∧ o.stdout.bytes ≠ [] := by
  simp

theorem stores_of_eq_ok
    (h : (if toStdout && !o.stdout.bytes.isEmpty then left.write output o.stdout.bytes
      else .ok left) = .ok files') : Stores toStdout output o left files' := by
  split at h
  · rename_i hprinted
    exact .printed (printed_iff.mp hprinted).1 (printed_iff.mp hprinted).2 (Files.write?_eq_some h)
  · rename_i hprinted
    cases h
    refine .kept fun hmode => .inl (not_not.mp fun hout => ?_)
    exact hprinted (printed_iff.mpr ⟨hmode, hout⟩)

theorem unstored_of_eq_error {fault : FileFault}
    (h : (if toStdout && !o.stdout.bytes.isEmpty then left.write output o.stdout.bytes
      else .ok left) = .error fault) :
    toStdout = true ∧ o.stdout.bytes ≠ [] ∧ left.write output o.stdout.bytes = .error fault := by
  split at h
  · rename_i hprinted
    exact ⟨(printed_iff.mp hprinted).1, (printed_iff.mp hprinted).2, h⟩
  · cases h

theorem completed_reports (c : Case) (log : String) (hended : o.termination = .exited 0)
    (hstores : Stores toStdout output o left files') (htext : HoldsText files' output)
    (hwhole : toStdout = true → o.stdout.truncated = false) :
    (Emission.completed c.id output log o.elapsedMs).Reports wording toStdout output (.ok o)
      left files' where
  completed_iff := by
    refine ⟨fun _ => ⟨o, rfl, hended, htext, fun hmode => ⟨hwhole hmode, fun hout => ?_⟩⟩,
      fun _ => rfl⟩
    exact hstores.read? hmode hout htext
  timeout_iff := by simp [Emission.completed, hended]
  crashReason := by simp [Emission.completed]
  exitCode_iff := by simp [Emission.completed, hended, eq_comm]
  signal_iff := by simp [Emission.completed, hended]
  representation := by simp [Emission.completed]
  stored := by simpa [hended] using hstores
  kept := by simp [hended]

theorem lost_reports (c : Case) (log : String) {reason : String} {code : Option Int}
    (hended : o.termination = .exited 0) (hcode : ∀ n, n ≠ 0 → code ≠ some n)
    (hstores : Stores toStdout output o left files')
    (hlost : Lost wording toStdout output o left files' reason)
    (htext : HoldsText files' output → toStdout = true ∧ o.stdout.truncated = true) :
    ({ Emission.crashed c.id reason log o.elapsedMs with exitCode := code } : Emission).Reports
      wording toStdout output (.ok o) left files' where
  completed_iff := by
    refine ⟨fun h => ?_, fun h => ?_⟩
    · cases h
    · obtain ⟨o', ho, -, hholds, hmode⟩ := h
      cases ho
      obtain ⟨hstdout, htruncated⟩ := htext hholds
      simp [(hmode hstdout).1] at htruncated
  timeout_iff := by simp [Emission.crashed, hended]
  crashReason := fun _ => ⟨reason, rfl, .inr ⟨o, rfl, .inr ⟨hended, hlost⟩⟩⟩
  exitCode_iff := by
    intro n hn
    simp [hended, hcode n hn, hn.symm]
  signal_iff := by simp [Emission.crashed, hended]
  representation := by simp [Emission.crashed]
  stored := by simpa [hended] using hstores
  kept := by simp [hended]

theorem collect_reports (c : Case) (log : String) (hended : o.termination = .exited 0)
    (left : Files) :
    (collect wording toStdout c output log o left).1.Reports wording toStdout output (.ok o) left
      (collect wording toStdout c output log o left).2 := by
  unfold collect
  dsimp only
  -- First what becomes of the printed text, then what the file at the path says.
  split
  · rename_i fault hstored
    obtain ⟨hmode, hout, hwrite⟩ := unstored_of_eq_error hstored
    have hnone := Files.write?_eq_none hwrite
    exact lost_reports c log hended (by simp) (.kept fun _ => .inr hnone)
      (.unstored hmode hout hwrite) fun htext => absurd hnone (htext.write?_ne_none _)
  · rename_i after hstored
    have hstores := stores_of_eq_ok hstored
    split
    · rename_i hcut
      rw [Bool.and_eq_true] at hcut
      exact lost_reports c log hended (by simp) hstores (.cut hcut.2 hcut.1) fun _ => hcut.symm
    · rename_i hwhole
      split
      · rename_i htext
        exact completed_reports c log hended hstores (hasContent_iff.mp htext) fun hmode => by
          simpa [hmode] using hwhole
      · rename_i htext
        rw [hasContent_iff] at htext
        exact lost_reports c log hended (by simp [eq_comm]) hstores (.blank htext) fun h =>
          absurd h htext

theorem emission_reports (c : Case) (o : Outcome) (left : Files) :
    (emission wording toStdout c output o left).1.Reports wording toStdout output (.ok o) left
      (emission wording toStdout c output o left).2 := by
  unfold emission
  cases hended : o.termination with
  | exited code =>
      -- Only a run that ended with code zero is looked at further.
      by_cases hcode : code = 0
      · subst hcode
        exact collect_reports c _ hended left
      · constructor <;> simp [Emission.crashed, hended, hcode]
  | timedOut | cpuExceeded => constructor <;> simp [Emission.timedOut, hended]
  | memoryExceeded => constructor <;> simp [Emission.crashed, hended]
  | signaled signal => constructor <;> simp [Emission.crashed, hended]

theorem notStarted_reports (c : Case) (e : StartError) (left : Files) :
    (Emission.crashed c.id e.message "" 0).Reports wording toStdout output (.error e) left
      left := by
  constructor <;> simp [Emission.crashed]

end Collect

end SubjectCommand

/-!
## Both stages
-/

/-- The tools start on a tree without the file that they are to make, and what the stages answer
accounts for how the tools ended and for what they left. -/
theorem stages_report (k : Compiler) (t : SubjectCommand) (c : Case) (workDir : String)
    (files : Files) :
    ((files.removeFile (binaryPath c workDir)).isFile (binaryPath c workDir) = false ∧
      ∃ a, k.build c workDir files = (some a, (k.started c workDir files).2) ∧
        a.Reports (binaryPath c workDir) (k.started c workDir files).1
          (k.started c workDir files).2) ∧
    ((files.removeFile (representationPath workDir)).isFile (representationPath workDir) = false ∧
      ∀ built : BuildArtifact, ∃ e files', t.run c built workDir files = (some e, files') ∧
        e.Reports t.host.wording (!t.writesOutput) (representationPath workDir)
          (t.started c built.binary workDir files).1 (t.started c built.binary workDir files).2
          files') := by
  refine ⟨⟨Files.isFile_removeFile _ _, ?_⟩, Files.isFile_removeFile _ _, fun built => ?_⟩
  · unfold Compiler.build Compiler.started
    dsimp only
    split
    · rename_i e left hrun
      rw [hrun]
      exact ⟨_, rfl, Compiler.notStarted_reports c _ e left⟩
    · rename_i o left hrun
      rw [hrun]
      exact ⟨_, rfl, Compiler.artifact_reports c _ o left⟩
  · unfold SubjectCommand.run SubjectCommand.started
    dsimp only
    split
    · rename_i e left hrun
      rw [hrun]
      exact ⟨_, _, rfl, SubjectCommand.notStarted_reports c e left⟩
    · rename_i o left hrun
      rw [hrun]
      exact ⟨_, _, rfl, SubjectCommand.emission_reports c o left⟩

/-- A translation of its own, that a program may leave without printing it. -/
def unprinted : String := "program inc\ninput x : bv8\noutput r : bv8 = x\n"

/-- A subject that is not told of a file, prints nothing, and leaves a translation. -/
def silentSubject : SubjectCommand where
  host := (Execution.Tool.mk [] [] (some (Text.encode unprinted.toList)) (.exited 0)).host
    "translate" 0 (representationPath "/work")
  settings := ⟨"translate", [binaryMark], 60, 0, 0, false⟩

def silentCase : Case :=
  ⟨"alu/inc", "/corpus/alu/inc", "main.c", ⟨"inc", [], []⟩, [], [], none, .none, ""⟩

def silentFiles : Files := ⟨[(["work"], .directory)], [], []⟩

/-- A run is completed although nothing was printed and the representation is read from the
standard output: the text is what the subject left itself. -/
theorem run_completes_unprinted :
    silentSubject.writesOutput = false ∧
      (silentSubject.started silentCase "/work/main.elf" "/work" silentFiles).1.toOption.map
          (fun o => (o.termination, o.stdout)) = some (.exited 0, .empty) ∧
      let built := BuildArtifact.succeeded silentFiles "alu/inc" "/work/main.elf" "" 0
      let ran := silentSubject.run silentCase built "/work" silentFiles
      ran.1.map (·.status) = some .completed ∧
        ran.2.read? (representationPath "/work") = some (Text.encode unprinted.toList) := by
  refine ⟨?_, ?_, ?_, ?_⟩ <;> decide +kernel

end Bench
end BitEquiv
