import SwiftDialect.Command
import SwiftDialect.Proofs.Agreement
import SwiftDialect.Proofs.Safety

/-!
# Exit status

A command fails exactly if an error is among the diagnostics that it prints. What the commands print
comes from the same unit, and a unit that is no program always has an error. So the commands agree with
one another, and with the result of the unit, on whether anything is wrong with a file.

Main statement: the exit status of the commands on a readable file (`exit_status_agrees`).
-/

namespace SwiftDialect

/-! ### Errors in a text -/

theorem Diagnostic.hasErrors_eq_false_iff {ds : List Diagnostic} :
    hasErrors ds = false ↔ ∀ d ∈ ds, d.isError = false := by
  simp [hasErrors]

/-- Whatever is reported about a text is registered. -/
theorem registered_parseText (name text : String) (tabWidth : Nat) :
    ∀ d ∈ (parseText name text tabWidth).diagnostics, d.Registered := by
  intro d hd
  rcases (Analysis.safe name text.toList tabWidth _).registered d (List.mem_append_left _ hd) with
    hnone | hregistered
  · cases hnone
  · exact hregistered

/-- To declare a name again is no error. -/
theorem Diagnostic.Registered.isError_of_redeclared {d : Diagnostic} (h : d.Registered)
    (hcode : d.code = "W0021") : d.isError = false := by
  obtain ⟨pr, -, -, hfind, hseverity, -⟩ := h
  have hall : ∀ e, Entry.find? "W0021" = some e → e.severity.isError = false := by decide
  rw [hcode] at hfind
  rw [isError, hseverity]
  exact hall pr.entry hfind

/-- The errors in a program are lexical ones. -/
theorem code_of_error_in_program {name text : String} {tabWidth : Nat} {program : Program}
    (h : (parseText name text tabWidth).program = some program) :
    ∀ d ∈ (parseText name text tabWidth).diagnostics, d.isError = true → d.code ∈ lexicalCodes := by
  intro d hd herror
  obtain ⟨segments, hseg⟩ := exists_segmentation text.toList
  have hpulled : ∀ p ∈ pulls tabWidth [] segments, d ∈ p.reports → d.code ∈ lexicalCodes := by
    intro p hp hdp
    rcases code_of_mem_pulls hp hdp with hcode | hcode <;> rw [hcode] <;> decide
  rcases parseText_heard name tabWidth hseg with
    ⟨ss, last, p, hpulls, hlast, -, -, hdiagnostics⟩ |
    ⟨ss, last, final, rest, used, bad, pr, moves, -, -, -, -, hnone, -⟩
  · rw [hpulls] at hpulled
    have hheard := hd
    rw [hdiagnostics, List.mem_append] at hheard
    rcases hheard with hheard | hheard
    · -- of the statements only redeclarations are heard, and they are warned of
      obtain ⟨q, hq, hdq | ⟨-, rfl⟩⟩ := Sentence.mem_heard ss hlast hheard
      · exact hpulled q (List.mem_append_left _ hq) hdq
      · have hwarning := (registered_parseText name text tabWidth _ hd).isError_of_redeclared rfl
        rw [hwarning] at herror
        cases herror
    · exact hpulled p (List.mem_append_right _ List.mem_cons_self) hheard
  · rw [hnone] at h
    cases h

/-- A text that is no program has an error. -/
theorem hasErrors_of_no_program {name text : String} {tabWidth : Nat}
    (h : (parseText name text tabWidth).program = none) :
    Diagnostic.hasErrors (parseText name text tabWidth).diagnostics = true := by
  obtain ⟨before, -, ⟨program, hsome, -⟩ | ⟨-, pr, place, hcode, hdiagnostics⟩⟩ :=
    parseText_explained name text tabWidth
  · rw [hsome] at h
    cases h
  · have herror : (pr.diagnose place).isError = true := by
      change pr.entry.severity.isError = true
      rw [pr.severity_of_rejection hcode]
      rfl
    rw [hdiagnostics, Diagnostic.hasErrors, List.any_append, List.any_cons, herror]
    simp

/-- An error in a program is one that tokenizing reports as well. -/
theorem error_in_program_mem_tokenizeText {name text : String} {tabWidth : Nat} {program : Program}
    (h : (parseText name text tabWidth).program = some program) {d : Diagnostic}
    (hd : d ∈ (parseText name text tabWidth).diagnostics) (herror : d.isError = true) :
    d ∈ (tokenizeText name text tabWidth).diagnostics := by
  rw [← (lexical_parseText name text tabWidth).2 program h]
  exact List.mem_filter.2 ⟨hd, decide_eq_true (code_of_error_in_program h d hd herror)⟩

/-- If parsing reports no error, then tokenizing reports none. -/
theorem hasErrors_tokenizeText {name text : String} {tabWidth : Nat}
    (h : Diagnostic.hasErrors (parseText name text tabWidth).diagnostics = false) :
    Diagnostic.hasErrors (tokenizeText name text tabWidth).diagnostics = false := by
  cases hprogram : (parseText name text tabWidth).program with
  | none =>
    rw [hasErrors_of_no_program hprogram] at h
    cases h
  | some program =>
    rw [Diagnostic.hasErrors_eq_false_iff] at h ⊢
    rw [← (lexical_parseText name text tabWidth).2 program hprogram]
    exact fun d hd => h d (List.mem_filter.1 hd).1

/-- A unit that has an error whenever it is no program has a result exactly if it has no error. -/
theorem Parsed.exists_result_iff {p : Parsed}
    (h : p.program = none → Diagnostic.hasErrors p.diagnostics = true) :
    (∃ program, p.result = .ok program) ↔ Diagnostic.hasErrors p.diagnostics = false := by
  rw [← hasErrors_eq_false_iff, hasErrors, Bool.or_eq_false_iff, and_iff_right_iff_imp]
  intro hnone
  cases hprogram : p.program with
  | none =>
    rw [h hprogram] at hnone
    cases hnone
  | some program => rfl

/-! ### Readable files -/

section Readable

variable {reads : List Read} {bytes : List UInt8} (h : Delivers reads bytes none) (name : String)
  (tabWidth : Nat)

include h

/-- A file that can be read is tokenized like the text that it holds. -/
theorem tokenizeFile_of_delivers : tokenizeFile name (.opened { reads }) tabWidth =
    .ok (tokenizeText name (String.ofList (Utf8.decodeLossy bytes)) tabWidth) := by
  have hholds := Reader.holds_start h
  change Except.ok (tokenizeReader name { reads } tabWidth) = _
  rw [tokenizeReader, tokenizeText, String.toList_ofList]
  exact congrArg Except.ok (Analysis.tokenize_congr hholds.spells (Lookahead.spells_text _)
    hholds.quiet (quiet_text _) name tabWidth)

/-- A file that can be read is parsed like the text that it holds. -/
theorem parseFile_of_delivers : ∃ p, parseFile name (.opened { reads }) tabWidth = .ok p ∧
    p.program = (parseText name (String.ofList (Utf8.decodeLossy bytes)) tabWidth).program ∧
    p.diagnostics =
      (parseText name (String.ofList (Utf8.decodeLossy bytes)) tabWidth).diagnostics := by
  have hholds := Reader.holds_start h
  refine ⟨parseReader name { reads } tabWidth, rfl, ?_⟩
  rw [parseReader, parseText, parseTextAfter, String.toList_ofList]
  have hstart : (Journal.empty.record (.parsingReader name)).diagnostics =
      (Journal.empty.record (.parsingText name
        (String.ofList (Utf8.decodeLossy bytes)).utf8ByteSize)).diagnostics := rfl
  obtain ⟨hprogram, hdiagnostics, -⟩ := Analysis.parse_congr hholds.spells (Lookahead.spells_text _)
    hholds.quiet (quiet_text _) hstart name tabWidth
  exact ⟨hprogram, hdiagnostics⟩

end Readable

/-! ### Commands -/

namespace Command

variable {s : Settings} {threshold : Level} {file : String} {opening : Opening}

/-- To print diagnostics keeps the exit status, unless there is an error. -/
theorem code_finish (lines : LineTable) (ds : List Diagnostic) (o : Outcome) :
    (finish s file opening lines ds o).code = if Diagnostic.hasErrors ds then 1 else o.code := by
  unfold finish
  split <;> rfl

theorem code_finish_eq_zero_iff (lines : LineTable) (ds : List Diagnostic) {o : Outcome}
    (ho : o.code = 0) :
    (finish s file opening lines ds o).code = 0 ↔ Diagnostic.hasErrors ds = false := by
  rw [code_finish, ho]
  cases Diagnostic.hasErrors ds <;> simp

/-- Diagnostics do not go to the output channel. -/
theorem stdout_finish (lines : LineTable) (ds : List Diagnostic) (o : Outcome) :
    (finish s file opening lines ds o).stdout = o.stdout := by
  unfold finish
  split <;> rfl

theorem code_tokens {t : Tokenized} (ht : tokenizeFile file opening s.tabWidth = .ok t) :
    (tokens s threshold file opening).code = 0 ↔ Diagnostic.hasErrors t.diagnostics = false := by
  rw [tokens, ht]
  exact code_finish_eq_zero_iff _ _ rfl

section Parsed

variable {p : Parsed} (hp : parseFile file opening s.tabWidth = .ok p)

include hp

theorem code_parse (json : Bool) :
    (parse s threshold file json opening).code = 0 ↔ Diagnostic.hasErrors p.diagnostics = false := by
  rw [parse, hp]
  exact code_finish_eq_zero_iff _ _ rfl

/-- The program is printed if there is one. -/
theorem stdout_parse (json : Bool) :
    (parse s threshold file json opening).stdout =
      p.program.elim "" fun program => showProgram json program ++ "\n" := by
  rw [parse, hp]
  refine (stdout_finish _ _ _).trans ?_
  cases p.program <;> exact String.empty_append

end Parsed

/-- What `check` does, with something else done where it says that parsing failed. -/
def checkOr (bail : Outcome → Outcome) (settings : Settings) (threshold : Level) (file : String)
    (opening : Opening) : Outcome :=
  match parseFile file opening settings.tabWidth with
  | .error e => refuse settings file e
  | .ok p =>
    let o := finish settings file opening p.lines p.diagnostics
      (({} : Outcome).warn (p.journal.log threshold))
    if o.code ≠ 0 then o
    else if p.program.isNone then bail o
    else o.warn (file ++ ": ok\n")

theorem check_eq_checkOr : check s threshold file opening =
    checkOr (·.fail (file ++ ": parse failed") []) s threshold file opening :=
  rfl

section Explained

variable {p : Parsed} (hp : parseFile file opening s.tabWidth = .ok p)
  (hexplained : p.program = none → Diagnostic.hasErrors p.diagnostics = true)

include hp hexplained

/-- If a unit that is no program has an error, then it does not matter what is done at the end about a
missing program: either the diagnostics have failed the run, or all is well. -/
theorem checkOr_eq (bail : Outcome → Outcome) : checkOr bail s threshold file opening =
    let o := finish s file opening p.lines p.diagnostics
      (({} : Outcome).warn (p.journal.log threshold))
    if Diagnostic.hasErrors p.diagnostics then o else o.warn (file ++ ": ok\n") := by
  simp only [checkOr, hp, code_finish]
  cases herrors : Diagnostic.hasErrors p.diagnostics with
  | true => rfl
  | false =>
    cases hprogram : p.program with
    | none =>
      rw [hexplained hprogram] at herrors
      cases herrors
    | some program => rfl

theorem code_check : (check s threshold file opening).code = 0 ↔
    Diagnostic.hasErrors p.diagnostics = false := by
  rw [check_eq_checkOr, checkOr_eq hp hexplained]
  cases herrors : Diagnostic.hasErrors p.diagnostics with
  | true => simp [code_finish, herrors]
  | false => simp [code_finish, herrors, Outcome.warn]

end Explained

/-- On a file that can be opened and read, with settings that can be loaded, `check` and `parse` succeed
exactly if the unit has a result, which is exactly if none of its diagnostics is an error; and then `tokens`
succeeds. In `check` a missing program is never met after the diagnostics. The output of `parse` is the
program if there is one, and nothing otherwise. If it fails in spite of a program, then all errors are
lexical ones, and tokenizing reports them as well. -/
theorem exit_status_agrees {files : String → Opening} {options : Options} {s : Settings}
    {file : String} {reads : List Read} {bytes : List UInt8}
    (hsettings : settings options files = .ok s) (hopen : files file = .opened { reads })
    (hread : Delivers reads bytes none) :
    ∃ p t, parseFile file (files file) s.tabWidth = .ok p ∧
      tokenizeFile file (files file) s.tabWidth = .ok t ∧
      ((∃ program, p.result = .ok program) ↔ ∀ d ∈ p.diagnostics, d.isError = false) ∧
      ((execute files (.run options (.check file))).code = 0 ↔ ∃ program, p.result = .ok program) ∧
      (∀ json, (execute files (.run options (.parse file json))).code = 0 ↔
        ∃ program, p.result = .ok program) ∧
      ((∃ program, p.result = .ok program) → (execute files (.run options (.tokens file))).code = 0) ∧
      (∀ bail, execute files (.run options (.check file)) =
        checkOr bail s (if options.verbose then .debug else s.logLevel) file (files file)) ∧
      (∀ json, (execute files (.run options (.parse file json))).stdout =
        p.program.elim "" fun program => showProgram json program ++ "\n") ∧
      ∀ json program, p.program = some program →
        (execute files (.run options (.parse file json))).code ≠ 0 →
        (∃ d ∈ p.diagnostics, d.isError = true) ∧
        ∀ d ∈ p.diagnostics, d.isError = true → d.code ∈ lexicalCodes ∧ d ∈ t.diagnostics := by
  simp only [execute, hsettings, perform, hopen]
  have ht := tokenizeFile_of_delivers hread file s.tabWidth
  obtain ⟨p, hp, hprogram, hdiagnostics⟩ := parseFile_of_delivers hread file s.tabWidth
  -- a missing program has an error among its diagnostics; all the exits follow from this
  have hexplained : p.program = none → Diagnostic.hasErrors p.diagnostics = true := by
    rw [hprogram, hdiagnostics]
    exact hasErrors_of_no_program
  have hresult := Parsed.exists_result_iff hexplained
  refine ⟨p, _, hp, ht, hresult.trans Diagnostic.hasErrors_eq_false_iff, ?_, ?_, ?_, ?_, ?_, ?_⟩
  · exact (code_check hp hexplained).trans hresult.symm
  · exact fun json => (code_parse hp json).trans hresult.symm
  · intro hok
    refine (code_tokens ht).2 (hasErrors_tokenizeText ?_)
    rw [← hdiagnostics]
    exact hresult.1 hok
  · intro bail
    rw [check_eq_checkOr, checkOr_eq hp hexplained, checkOr_eq hp hexplained]
  · exact fun json => stdout_parse hp json
  · intro json program hsome hcode
    -- with a program at hand, only an error makes the run fail
    have herrors : Diagnostic.hasErrors p.diagnostics = true :=
      Bool.not_eq_false _ ▸ fun hnone => hcode ((code_parse hp json).2 hnone)
    refine ⟨List.any_eq_true.1 herrors, ?_⟩
    rw [hprogram] at hsome
    rw [hdiagnostics]
    exact fun d hd herror =>
      ⟨code_of_error_in_program hsome d hd herror, error_in_program_mem_tokenizeText hsome hd herror⟩

/-- The only file is called `stray`, and it holds `1@;`. -/
def strayFiles (path : String) : Opening :=
  if path = "stray" then .opened { reads := [.bytes [0x31, 0x40, 0x3B]] } else .missing "no such file"

/-- The number in the file is printed, although the run fails because of the character behind it. -/
theorem exit_status_of_stray_character :
    settings {} strayFiles = .ok {} ∧
      Delivers [.bytes [0x31, 0x40, 0x3B]] [0x31, 0x40, 0x3B] none ∧
      (execute strayFiles (.run {} (.parse "stray" true))).stdout ≠ "" ∧
      (execute strayFiles (.run {} (.check "stray"))).code = 1 ∧
      ∃ p, parseFile "stray" (strayFiles "stray") defaultTabWidth = .ok p ∧
        (¬ ∃ program, p.result = .ok program) ∧
        ∀ d ∈ p.diagnostics, d.isError = true → d.code ∈ lexicalCodes := by
  have hsettings : settings {} strayFiles = .ok {} := by decide +kernel
  have hopen : strayFiles "stray" = .opened { reads := [.bytes [0x31, 0x40, 0x3B]] } := rfl
  have hread : Delivers [.bytes [0x31, 0x40, 0x3B]] [0x31, 0x40, 0x3B] none :=
    .piece (List.cons_ne_nil _ _) .nil
  have hstdout : (execute strayFiles (.run {} (.parse "stray" true))).stdout ≠ "" := by decide +kernel
  have hparse : (execute strayFiles (.run {} (.parse "stray" true))).code = 1 := by decide +kernel
  have hcheck : (execute strayFiles (.run {} (.check "stray"))).code = 1 := by decide +kernel
  obtain ⟨p, t, hp, -, -, hcode, -, -, -, hprinted, hlexical⟩ :=
    exit_status_agrees hsettings hopen hread
  refine ⟨hsettings, hread, hstdout, hcheck, p, hp, fun hok => ?_, ?_⟩
  · rw [hcode.2 hok] at hcheck
    cases hcheck
  · rw [hprinted true] at hstdout
    cases hprogram : p.program with
    | none =>
      rw [hprogram] at hstdout
      exact absurd rfl hstdout
    | some program =>
      have hfails := hlexical true program hprogram (hparse.trans_ne Nat.one_ne_zero)
      exact fun d hd herror => (hfails.2 d hd herror).1

end Command

end SwiftDialect
