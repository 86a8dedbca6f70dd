import ObjectLang.CommandLine

/-!
# Exit codes

The exit code of the command tells how it has ended, and the error output is empty unless there is
an error to report. Nothing is run of a file that cannot be read.
-/

namespace ObjectLang.CommandLine

/-- The text of the program that the options stand for. -/
def Options.source? (o : Options) (files : Table String) : Option String :=
  o.contents.bind fun contents => if o.file then files.get? contents else some contents

theorem failure_report_ne_empty (e : Failure) : e.report ≠ "" := by
  intro empty
  have size := congrArg String.utf8ByteSize empty
  cases e <;> simp [Failure.report, String.utf8ByteSize_append] at size

/-- A path that leads to no file is refused for one of three reasons. -/
theorem missingFile_code (path : String) : (missingFile path).code ∈ [2, 21, 36] := by
  unfold missingFile
  repeat' split
  all_goals decide

/-- What a report says of the run of a program. -/
structure Tells (host : Runtime) (source : String) (r : Report) : Prop where
  value : r.code = 0 ↔ ∃ v m, (Machine.initialIn host).execute source = .value v m
  failure : r.code = 1 ↔ ∃ e m, (Machine.initialIn host).execute source = .failure e m
  crash : r.code = 101 ↔ ∃ s, (Machine.initialIn host).execute source = .crash s
  err : r.reply.err = "" ↔ r.code ≠ 1

variable {host : Runtime}

theorem tells_of_runProgram {printResult : Bool} {source : String} {r : Report}
    (h : runProgram host printResult source = some r) : Tells host source r := by
  unfold runProgram at h
  split at h
  · next v m run => cases h; constructor <;> simp [run]
  · next e m run => cases h; constructor <;> simp [run, failure_report_ne_empty]
  · next s run => cases h; constructor <;> simp [run, crashReport]
  · cases h

theorem code_of_runSession {input : String} {r : Report} (h : runSession host input = some r) :
    r.code = 0 ∨ r.code = 101 := by
  obtain ⟨⟨reply, final⟩, _, report⟩ := Option.bind_eq_some_iff.mp h
  cases report
  cases final
  · exact .inr rfl
  · exact .inl rfl

/-- Whatever the arguments are: the code is 2 if they are invalid, and 0 for a session unless it
crashes. For a program it is 0, 1 or 101 as its run ends with a value, an error or a crash, and only
an error is reported. A file that is not there is reported with the reason, and nothing is run. -/
theorem exit_codes {files : Table String} {args : List String} {input : String} {r : Report}
    (h : runIn host files args input = some r) :
    (parse args = none → r.code = 2) ∧
    ∀ o, parse args = some o →
      (o.contents = none → r.code = 0 ∨ r.code = 101) ∧
      (∀ source, o.source? files = some source → Tells host source r) ∧
      ∀ path, o.contents = some path → o.source? files = none →
        r.code = 1 ∧ r.reply.out = "" ∧ ∃ why : Refusal, why.code ∈ [2, 21, 36] ∧
          r.reply.err = "Failed to read the input file '" ++ path ++ "': " ++
            (ReadFault.refused why).message ++ "\n" := by
  unfold runIn answer at h
  refine ⟨fun invalid => ?_, fun o valid => ?_⟩
  · rw [invalid] at h
    cases h
    rfl
  · rw [valid] at h
    unfold Options.source?
    cases contents : o.contents with
    | none =>
      simp only [contents] at h
      exact ⟨fun _ => code_of_runSession h, nofun, nofun⟩
    | some text =>
      simp only [contents] at h
      cases file : o.file with
      | false =>
        rw [file] at h
        refine ⟨nofun, ?_, nofun⟩
        rintro _ ⟨⟩
        exact tells_of_runProgram h
      | true =>
        simp only [file, if_true, readFrom] at h
        refine ⟨nofun, fun source found => ?_, ?_⟩
        · change files.get? text = some source at found
          rw [found] at h
          exact tells_of_runProgram h
        · rintro _ ⟨⟩ (missing : files.get? text = none)
          rw [missing] at h
          cases h
          exact ⟨rfl, rfl, missingFile text, missingFile_code text, rfl⟩

end ObjectLang.CommandLine
